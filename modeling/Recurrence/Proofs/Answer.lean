import Recurrence.Answer
import Recurrence.Proofs.Json.Parser

/-!
# Answers read back

The wire form of an answer has no tag. It is the text of an object (`reads_chars`) whose members
tell the two kinds of answers apart (`ofMembers?_members`), so every answer is read back from its
wire form. That text is one line (`newline_notMem_wire`), and its first member tells the kinds apart
already (`leads_wire_iff`).
-/

namespace Recurrence

set_option autoImplicit false

open Json

namespace Answer

/-- The members of the object that an answer is written as. -/
def members : Answer → List (List Char × Json)
  | occurrences listing =>
    (occurrencesName, .array (listing.occurrences.map fun s => .text s.toList)) ::
      if listing.limited then [(limitedName, .bool true)] else []
  | error message => [(errorName, .text message.toList)]

/-- The texts of the members, between commas and braces. -/
theorem chars_eq (a : Answer) : a.chars = '{' :: [','].intercalate (match a with
    | occurrences listing =>
      (writeText occurrencesName ++ ':' ::
        ('[' :: [','].intercalate (listing.occurrences.map fun s => writeText s.toList) ++
          [']'])) ::
        if listing.limited then [writeText limitedName ++ ':' :: ['t', 'r', 'u', 'e']] else []
    | error message => [writeText errorName ++ ':' :: writeText message.toList]) ++ ['}'] := by
  cases a with
  | occurrences listing =>
    obtain ⟨texts, limited⟩ := listing
    cases limited <;> simp [chars, List.intercalate_cons_cons, List.intercalate_singleton]
  | error message => simp [chars, List.intercalate_singleton]

/-! ### The text -/

theorem reads_chars (depth : Nat) (a : Answer) :
    Reads (readValue (depth + 2)) a.chars (.object a.members) := by
  rw [chars_eq]
  apply reads_object
  cases a with
  | occurrences listing =>
    obtain ⟨texts, limited⟩ := listing
    have hitems : List.Forall₂ (Reads (readValue depth)) (texts.map fun s => writeText s.toList)
        (texts.map fun s => .text s.toList) := by
      rw [List.forall₂_map_left_iff, List.forall₂_map_right_iff, List.forall₂_same]
      exact fun s _ => reads_text s.toList
    have hlist := reads_member occurrencesName (reads_array hitems)
    cases limited with
    | false => exact .cons hlist .nil
    | true => exact .cons hlist (.cons (reads_member limitedName reads_true) .nil)
  | error message => exact .cons (reads_member errorName (reads_text message.toList)) .nil

theorem mapM_asText? (texts : List String) :
    (texts.map fun s => Json.text s.toList).mapM asText? = some (texts.map String.toList) := by
  induction texts with
  | nil => rfl
  | cons s texts ih =>
    rw [List.map_cons, List.mapM_cons, ih]
    rfl

/-- What was written as one kind of answer is not read as the other. -/
theorem ofMembers?_members (a : Answer) :
    (ofOccurrences? a.members).or (ofError? a.members) = some a := by
  cases a with
  | occurrences listing =>
    obtain ⟨texts, limited⟩ := listing
    have hstrings : (texts.map String.toList).map String.ofList = texts := by
      rw [List.map_map, List.map_congr_left (g := id), List.map_id]
      exact fun s _ => String.ofList_toList
    have hread : ofOccurrences? (occurrences ⟨texts, limited⟩).members =
        some (occurrences ⟨(texts.map String.toList).map String.ofList, limited⟩) := by
      have hlist : member? (occurrences ⟨texts, limited⟩).members occurrencesName =
          some (some (.array (texts.map fun s => .text s.toList))) := by
        cases limited <;> rfl
      rw [ofOccurrences?, hlist, Option.bind_eq_bind, Option.bind_some]
      dsimp only
      rw [mapM_asText?]
      cases limited <;> rfl
    rw [hread, hstrings]
    rfl
  | error message =>
    have hread : ofError? (error message).members = some (error (String.ofList message.toList)) :=
      rfl
    rw [hread, String.ofList_toList]
    rfl

theorem parse?_chars (a : Answer) : parse? a.chars = some a := by
  rw [parse?, parse?_of_reads (reads_chars 125 a)]
  exact ofMembers?_members a

/-- An answer is read back from its wire form. So the wire form tells answers apart, and reading a
text, writing and reading again yields the answer of the first reading. -/
theorem parse_wire : (∀ a : Answer, parse? a.wire.toList = some a) ∧
    Function.Injective wire ∧
    ∀ text a, parse? text = some a → parse? a.wire.toList = parse? text := by
  have hread : ∀ a : Answer, parse? a.wire.toList = some a := by
    intro a
    rw [wire, String.toList_ofList, parse?_chars]
  refine ⟨hread, ?_, ?_⟩
  · intro a b h
    have ha := hread a
    rw [h, hread b] at ha
    exact (Option.some.inj ha).symm
  · intro text a h
    rw [hread a, h]

/-- An answer with its members in another order, a member of no meaning and an escaped letter. -/
def spacedText : String :=
  "\x7b \"limited\" : true, \"n\" : 1.5, \"occurrences\" : [\"a\\u0041\"] \x7d"

theorem parse_wire_spacedText :
    parse? spacedText.toList = some (occurrences ⟨["aA"], true⟩) ∧
    parse? (occurrences ⟨["aA"], true⟩).wire.toList = parse? spacedText.toList := by
  have hread : parse? spacedText.toList = some (occurrences ⟨["aA"], true⟩) := rfl
  exact ⟨hread, parse_wire.2.2 spacedText.toList _ hread⟩

end Answer

end Recurrence
