import Mathlib.Data.List.Forall2
import Recurrence.Json.Parser
import Recurrence.Proofs.Json.Text

/-!
# Values of JSON read back

`Reads` says that a text is read as a value whatever follows it. Texts, lists and objects that are
written without spaces are read so, and a text that is read so is a document (`parse?_of_reads`).
-/

namespace Recurrence.Json

set_option autoImplicit false

/-- Whether a value or a member may begin with the character. -/
def isOpening (c : Char) : Bool := !isSpace c && c ≠ ']' && c ≠ '}'

/-- The text is read as `a`, whatever follows it. -/
structure Reads {α : Type} (read : List Char → Option (α × List Char)) (text : List Char) (a : α) :
    Prop where
  read_append : ∀ rest, read (text ++ rest) = some (a, rest)
  head : ∃ c cs, text = c :: cs ∧ isOpening c = true

theorem skipSpace_of_isOpening {c : Char} (h : isOpening c = true) (cs : List Char) :
    skipSpace (c :: cs) = c :: cs := by
  simp only [isOpening, Bool.and_eq_true, Bool.not_eq_true'] at h
  rw [skipSpace, List.dropWhile_cons_of_neg (by rw [h.1.1]; exact Bool.false_ne_true)]

theorem length_le_intercalate (sep : Char) (texts : List (List Char)) :
    texts.length ≤ ([sep].intercalate texts).length + 1 := by
  induction texts with
  | nil => exact Nat.zero_le 1
  | cons text texts ih =>
    cases texts with
    | nil => exact Nat.succ_le_succ (Nat.zero_le _)
    | cons next texts =>
      rw [List.intercalate_cons_cons, List.length_append, List.length_append, List.length_cons,
        List.length_singleton]
      omega

section List

variable {α : Type} {item : List Char → Option (α × List Char)} {text : List Char} {a : α}
variable {texts : List (List Char)} {items : List α} {close : Char}

theorem Reads.skipSpace_append (h : Reads item text a) (rest : List Char) :
    skipSpace (text ++ rest) = text ++ rest := by
  obtain ⟨c, cs, rfl, hc⟩ := h.head
  exact skipSpace_of_isOpening hc _

variable (hspace : isSpace close = false)
include hspace

theorem skipSpace_close (rest : List Char) : skipSpace (close :: rest) = close :: rest :=
  List.dropWhile_cons_of_neg (by rw [hspace]; exact Bool.false_ne_true)

theorem readItems_intercalate (hcomma : close ≠ ',') (h : List.Forall₂ (Reads item) texts items)
    (hne : texts ≠ []) {fuel : Nat} (hfuel : texts.length ≤ fuel) (rest : List Char) :
    readItems item close fuel ([','].intercalate texts ++ close :: rest) = some (items, rest) := by
  induction h generalizing fuel with
  | nil => exact absurd rfl hne
  | @cons text a texts items ha h ih =>
    obtain ⟨fuel, rfl⟩ := Nat.exists_eq_add_one.mpr (Nat.zero_lt_of_lt hfuel)
    cases h with
    | nil =>
      rw [List.intercalate_singleton, readItems, ha.skipSpace_append, ha.read_append,
        Option.bind_eq_bind, Option.bind_some]
      dsimp only
      rw [skipSpace_close hspace]
      exact if_pos rfl
    | @cons next b texts items hb h =>
      have ih := ih (List.cons_ne_nil next texts) (Nat.le_of_succ_le_succ hfuel)
      have hskip : ∀ cs, skipSpace (',' :: cs) = ',' :: cs := fun _ => rfl
      rw [List.intercalate_cons_cons, List.append_assoc, List.append_assoc, List.singleton_append,
        readItems, ha.skipSpace_append, ha.read_append, Option.bind_eq_bind, Option.bind_some]
      dsimp only
      rw [hskip]
      dsimp only
      rw [if_neg hcomma.symm, if_neg (not_not_intro rfl), ih]
      rfl

theorem readList_intercalate (hcomma : close ≠ ',') (hclose : isOpening close = false)
    (h : List.Forall₂ (Reads item) texts items) (rest : List Char) :
    readList item close ([','].intercalate texts ++ close :: rest) = some (items, rest) := by
  cases h with
  | nil =>
    rw [List.intercalate_nil, List.nil_append, readList, skipSpace_close hspace]
    exact if_pos rfl
  | @cons text a texts items ha h =>
    have hfuel : (text :: texts).length ≤
        ([','].intercalate (text :: texts) ++ close :: rest).length := by
      have hlength := length_le_intercalate ',' (text :: texts)
      rw [List.length_append, List.length_cons (a := close)]
      omega
    have hread := readItems_intercalate hspace hcomma (.cons ha h) (List.cons_ne_nil text texts)
      hfuel rest
    obtain ⟨c, cs, rfl, hc⟩ := ha.head
    have hhead : ∃ cs', [','].intercalate ((c :: cs) :: texts) ++ close :: rest = c :: cs' := by
      cases texts <;> exact ⟨_, rfl⟩
    obtain ⟨cs', hcs⟩ := hhead
    have hne : c ≠ close := by
      rintro rfl
      rw [hclose] at hc
      cases hc
    rw [hcs] at hread ⊢
    rw [readList, skipSpace_of_isOpening hc]
    dsimp only
    rw [if_neg hne, hread]

end List

section Value

variable {depth : Nat} {text : List Char} {v : Json}

theorem reads_text (cs : List Char) : Reads (readValue depth) (writeText cs) (.text cs) := by
  refine ⟨fun rest => ?_, '"', _, rfl, by decide⟩
  have hread := readText_writeText cs rest
  have hscalar : readValue depth (writeText cs ++ rest) = readScalar (writeText cs ++ rest) := by
    cases depth <;> rfl
  rw [hscalar]
  change (readText (writeText cs ++ rest)).map _ = _
  rw [hread]
  rfl

theorem reads_true : Reads (readValue depth) ['t', 'r', 'u', 'e'] (.bool true) := by
  refine ⟨fun rest => ?_, 't', _, rfl, by decide⟩
  cases depth <;> rfl

theorem reads_array {texts : List (List Char)} {items : List Json}
    (h : List.Forall₂ (Reads (readValue depth)) texts items) :
    Reads (readValue (depth + 1)) ('[' :: [','].intercalate texts ++ [']']) (.array items) := by
  refine ⟨fun rest => ?_, '[', _, rfl, by decide⟩
  have hspace : isSpace ']' = false := by decide
  have hread := readList_intercalate hspace (by decide) (by decide) h rest
  rw [List.cons_append, List.cons_append, List.append_assoc, List.singleton_append, readValue,
    hread]
  rfl

theorem reads_member (name : List Char) (h : Reads (readValue depth) text v) :
    Reads (readMember (readValue depth)) (writeText name ++ ':' :: text) (name, v) := by
  refine ⟨fun rest => ?_, '"', _, rfl, by decide⟩
  have hskip : ∀ cs, skipSpace (':' :: cs) = ':' :: cs := fun _ => rfl
  rw [List.append_assoc, List.cons_append, readMember, readText_writeText, Option.bind_eq_bind,
    Option.bind_some]
  dsimp only
  rw [hskip]
  change (readValue depth (skipSpace (text ++ rest))).bind _ = _
  rw [h.skipSpace_append, h.read_append]
  rfl

theorem reads_object {texts : List (List Char)} {members : List (List Char × Json)}
    (h : List.Forall₂ (Reads (readMember (readValue depth))) texts members) :
    Reads (readValue (depth + 1)) ('{' :: [','].intercalate texts ++ ['}']) (.object members) := by
  refine ⟨fun rest => ?_, '{', _, rfl, by decide⟩
  have hspace : isSpace '}' = false := by decide
  have hread := readList_intercalate hspace (by decide) (by decide) h rest
  rw [List.cons_append, List.cons_append, List.append_assoc, List.singleton_append, readValue,
    hread]
  rfl

theorem parse?_of_reads (h : Reads (readValue maxDepth) text v) : parse? text = some v := by
  have hskip := h.skipSpace_append []
  have hread := h.read_append []
  rw [List.append_nil] at hskip hread
  rw [parse?, hskip, hread]
  rfl

end Value

end Recurrence.Json
