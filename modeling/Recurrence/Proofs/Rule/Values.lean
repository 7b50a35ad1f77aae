import Recurrence.Proofs.Calendar.Form
import Recurrence.Rule.Parser
import Recurrence.Rule.Printer

/-!
# Values that are written and read

A value of a part is written as a word or as a list of words. Neither separators nor white space can
cut a word, so each value is read back as it was written.
-/

namespace Recurrence

set_option autoImplicit false

open Calendar Text

/-- A printable character that separates neither the parts of a rule nor the values of a part. -/
def isWordChar (c : Char) : Bool := 0x20 < c.toNat && c.toNat < 0x7f && c ≠ ';' && c ≠ ','

structure IsWord (cs : List Char) : Prop where
  ne_nil : cs ≠ []
  forall_mem : ∀ c ∈ cs, isWordChar c

/-- A word or a list of words. -/
structure IsValue (cs : List Char) : Prop where
  ne_nil : cs ≠ []
  forall_mem : ∀ c ∈ cs, isWordChar c ∨ c = ','

section Words

variable {c : Char} {cs ds : List Char} {words : List (List Char)}

theorem isWordChar_iff : isWordChar c ↔ 0x20 < c.toNat ∧ c.toNat < 0x7f ∧ c ≠ ';' ∧ c ≠ ',' := by
  simp [isWordChar, and_assoc]

theorem isBlank_of_isWordChar (h : isWordChar c) : isBlank c = false := by
  have h := isWordChar_iff.mp h
  simp only [isBlank, Bool.or_eq_false_iff, Bool.and_eq_false_iff, decide_eq_false_iff_not]
  omega

theorem isWordChar_of_isDigit (h : c.isDigit) : isWordChar c := by
  have hn := toNat_of_isDigit h
  refine isWordChar_iff.mpr ⟨by omega, by omega, ?_, ?_⟩
  · rintro rfl
    cases h
  · rintro rfl
    cases h

theorem IsWord.isValue (h : IsWord cs) : IsValue cs :=
  ⟨h.ne_nil, fun c hc => Or.inl (h.forall_mem c hc)⟩

theorem IsValue.trim (h : IsValue cs) : trim cs = cs := by
  apply trim_of_forall
  intro c hc
  rcases h.forall_mem c hc with h | rfl
  · exact isBlank_of_isWordChar h
  · rfl

theorem IsValue.not_mem (h : IsValue cs) : ';' ∉ cs := by
  intro hc
  rcases h.forall_mem _ hc with h | h <;> cases h

theorem IsWord.not_mem (h : IsWord cs) : ',' ∉ cs := by
  intro hc
  cases h.forall_mem _ hc

theorem isWord_of_all (hne : cs.isEmpty = false) (h : cs.all isWordChar) : IsWord cs :=
  ⟨List.isEmpty_eq_false_iff.mp hne, List.all_eq_true.mp h⟩

theorem isWord_append (h : IsWord cs) (h' : IsWord ds) : IsWord (cs ++ ds) := by
  refine ⟨List.append_ne_nil_of_left_ne_nil h.ne_nil ds, ?_⟩
  intro c hc
  rcases List.mem_append.mp hc with hc | hc
  · exact h.forall_mem c hc
  · exact h'.forall_mem c hc

theorem isValue_list (hw : ∀ w ∈ words, IsWord w) (hne : words ≠ []) :
    IsValue ([','].intercalate words) := by
  constructor
  · intro h
    obtain ⟨w, rest, rfl⟩ := List.exists_cons_of_ne_nil hne
    have hn := (hw w List.mem_cons_self).ne_nil
    cases rest with
    | nil => exact hn (List.intercalate_singleton.symm.trans h)
    | cons _ _ => simp [List.intercalate_cons_cons] at h
  · intro c hc
    rcases mem_intercalate hc with h | ⟨w, hm, hc⟩
    · exact Or.inr h
    · exact Or.inl ((hw w hm).forall_mem c hc)

theorem pieces_intercalate {sep : Char} (hv : ∀ w ∈ words, IsValue w) (hs : ∀ w ∈ words, sep ∉ w)
    (hne : words ≠ []) : pieces sep ([sep].intercalate words) = words := by
  rw [pieces, splitOn_intercalate hs hne]
  exact (List.map_congr_left fun w hm => (hv w hm).trim).trans words.map_id

theorem isWord_digits (n : Nat) : IsWord (digits n) :=
  ⟨digits_ne_nil n, fun _ h => isWordChar_of_isDigit (isDigit_of_mem_digits h)⟩

theorem isWord_integer (z : Int) : IsWord (integer z) := by
  unfold integer
  split
  · have hminus : IsWord ['-'] := isWord_of_all rfl rfl
    exact isWord_append hminus (isWord_digits _)
  · exact isWord_digits _

theorem isWord_keyword (f : Frequency) : IsWord f.keyword := by
  cases f <;> exact isWord_of_all rfl rfl

theorem isWord_code (day : Weekday) : IsWord day.code := by
  cases day <;> exact isWord_of_all rfl rfl

theorem isWord_nthWeekday (day : NthWeekday) : IsWord day.chars := by
  unfold NthWeekday.chars
  split
  · exact isWord_code _
  · exact isWord_append (isWord_integer _) (isWord_code _)

theorem isWord_timestamp (t : Timestamp) : IsWord t.chars := by
  refine ⟨t.chars_ne_nil, ?_⟩
  intro c hc
  rcases Timestamp.mem_format hc with h | h
  · exact isWordChar_of_isDigit h
  · simp only [List.mem_cons, List.not_mem_nil, or_false] at h
    rcases h with rfl | rfl | rfl | rfl <;> rfl

end Words

namespace Rule

section Readers

variable {cs : List Char} {n max : Nat} {z low high : Int} {weekday : Weekday} {day : NthWeekday}

theorem readPositive_eq_ok_iff : readPositive cs = .ok n ↔ unsigned? 4294967295 cs = some n := by
  unfold readPositive
  split <;> simp_all

theorem readUnsigned_eq_ok_iff :
    readUnsigned max cs = .ok n ↔ unsigned? max cs = some n := by
  unfold readUnsigned
  split <;> simp_all

theorem readSigned_eq_ok_iff :
    readSigned low high cs = .ok z ↔ signed? low high cs = some z := by
  unfold readSigned
  split <;> simp_all

theorem readWeekday_eq_ok_iff :
    readWeekday cs = .ok weekday ↔ Weekday.ofCode? cs = some weekday := by
  unfold readWeekday
  split <;> simp_all

theorem readNthWeekday_eq_ok_iff : readNthWeekday cs = .ok day ↔
    (cs.length < 2 || cs.any fun c => 0x7f < c.toNat) = false ∧
      ∃ weekday, Weekday.ofCode? (cs.drop (cs.length - 2)) = some weekday ∧
        if cs.take (cs.length - 2) = [] then NthWeekday.every weekday = day
        else ∃ n, signed? (-128) 127 (cs.take (cs.length - 2)) = some n ∧
          NthWeekday.nth? n weekday = some day := by
  unfold readNthWeekday
  split
  · next h =>
    constructor
    · intro hr
      cases hr
    · rintro ⟨hn, -⟩
      rw [h] at hn
      cases hn
  · next h =>
    rw [Bool.not_eq_true] at h
    simp only [h, true_and, bind_eq_ok_iff, readWeekday_eq_ok_iff]
    apply exists_congr
    intro weekday
    apply and_congr_right
    intro _
    split
    · simp [pure, Except.pure]
    · cases signed? (-128) 127 (cs.take (cs.length - 2)) with
      | none => simp [throw, throwThe, MonadExceptOf.throw]
      | some n =>
        simp only [Option.some.injEq, exists_eq_left']
        cases NthWeekday.nth? n weekday with
        | none => simp [throw, throwThe, MonadExceptOf.throw]
        | some d => simp [pure, Except.pure]

end Readers

section Written

variable {n max : Nat} {z low high : Int} {day : NthWeekday} {t : Timestamp}

theorem readPositive_digits (h : n ≤ 4294967295) : readPositive (digits n) = .ok n :=
  readPositive_eq_ok_iff.mpr (unsigned?_of_natural? (natural?_digits n) h)

theorem readTimestamp_chars (h : t.Plain) : readTimestamp t.chars = .ok t := by
  rw [readTimestamp, Timestamp.parse_chars h]
  rfl

theorem readWeekday_code (day : Weekday) : readWeekday day.code = .ok day :=
  readWeekday_eq_ok_iff.mpr (Weekday.ofCode?_code day)

theorem readUnsigned_digits (h : n ≤ max) : readUnsigned max (digits n) = .ok n :=
  readUnsigned_eq_ok_iff.mpr (unsigned?_of_natural? (natural?_digits n) h)

theorem readSigned_integer (hlow : low ≤ z) (hhigh : z ≤ high) :
    readSigned low high (integer z) = .ok z :=
  readSigned_eq_ok_iff.mpr (signed?_integer hlow hhigh)

theorem length_code (day : Weekday) : day.code.length = 2 := by cases day <;> rfl

theorem isAscii_of_isWord {cs : List Char} (h : IsWord cs) :
    cs.any (fun c => 0x7f < c.toNat) = false := by
  rw [List.any_eq_false]
  intro c hc
  have := isWordChar_iff.mp (h.forall_mem c hc)
  simp only [decide_eq_true_eq]
  omega

theorem readNthWeekday_chars
    (h : ∀ n ∈ day.ordinal, n ≠ 0 ∧ -53 ≤ n ∧ n ≤ 53) :
    readNthWeekday day.chars = .ok day := by
  obtain ⟨ordinal | n, weekday⟩ := day
  · cases weekday <;> rfl
  · have hn := h n rfl
    have hw : IsWord (integer n ++ weekday.code) :=
      isWord_append (isWord_integer n) (isWord_code weekday)
    have hl : (integer n ++ weekday.code).length = (integer n).length + 2 := by
      rw [List.length_append, length_code]
    have hs : signed? (-128) 127 (integer n) = some n := signed?_integer (by omega) (by omega)
    have hd : NthWeekday.nth? n weekday = some ⟨some n, weekday⟩ := if_pos hn
    change readNthWeekday (integer n ++ weekday.code) = _
    rw [readNthWeekday_eq_ok_iff, isAscii_of_isWord hw, hl, Nat.add_sub_cancel, List.drop_left,
      List.take_left]
    refine ⟨rfl, weekday, Weekday.ofCode?_code weekday, ?_⟩
    rw [if_neg (isWord_integer n).ne_nil]
    exact ⟨n, hs, hd⟩

end Written

section Read

variable {cs : List Char} {n : Nat} {day : NthWeekday} {t : Timestamp}

theorem le_of_readPositive (h : readPositive cs = .ok n) : n ≤ 4294967295 :=
  le_of_unsigned? (readPositive_eq_ok_iff.mp h)

theorem plain_of_readTimestamp (h : readTimestamp cs = .ok t) : t.Plain :=
  Timestamp.plain_of_parse (mapError_eq_ok_iff.mp h)

theorem ordinal_of_nth? {z : Int} {weekday : Weekday} (h : NthWeekday.nth? z weekday = some day) :
    ∀ n ∈ day.ordinal, n ≠ 0 ∧ -53 ≤ n ∧ n ≤ 53 := by
  unfold NthWeekday.nth? at h
  split at h
  · next hz =>
    cases h
    rintro n ⟨⟩
    exact hz
  · cases h

theorem ordinal_of_readNthWeekday (h : readNthWeekday cs = .ok day) :
    ∀ n ∈ day.ordinal, n ≠ 0 ∧ -53 ≤ n ∧ n ≤ 53 := by
  obtain ⟨-, weekday, -, h⟩ := readNthWeekday_eq_ok_iff.mp h
  split at h
  · subst h
    rintro n ⟨⟩
  · obtain ⟨n, -, h⟩ := h
    exact ordinal_of_nth? h

end Read

section Sets

variable {α : Type} [LT α] [DecidableLT α]
  [Trans (LT.lt (α := α)) (LT.lt (α := α)) (LT.lt (α := α))]
  {read : List Char → Except Fault α} {write : α → List Char} {values : OrderedSet α}

theorem readSet_list (hw : ∀ a, IsWord (write a)) (hne : values.toList ≠ [])
    (hr : ∀ a ∈ values.toList, read (write a) = .ok a) :
    readSet read ([','].intercalate (values.toList.map write)) = .ok values := by
  have hwords : ∀ w ∈ values.toList.map write, IsWord w := by
    intro w h
    obtain ⟨a, -, rfl⟩ := List.mem_map.mp h
    exact hw a
  rw [readSet, pieces_intercalate (fun w h => (hwords w h).isValue)
    (fun w h => (hwords w h).not_mem) (by simpa using hne), mapM_map_of_forall hr]
  exact congrArg Except.ok values.ofList_toList

variable [Std.Trichotomous (α := α) (· < ·)] {P : α → Prop} {cs : List Char}

theorem forall_of_readSet (hr : ∀ cs a, read cs = .ok a → P a) (h : readSet read cs = .ok values) :
    ∀ a ∈ values.toList, P a := by
  obtain ⟨l, hl, he⟩ := bind_eq_ok_iff.mp h
  cases he
  intro a ha
  obtain ⟨piece, -, hp⟩ := (mem_of_mapM hl).mp (OrderedSet.mem_ofList.mp ha)
  exact hr piece a hp

end Sets

end Rule

end Recurrence
