import Mathlib.Data.List.Basic
import Recurrence.Proofs.Text.Numeral

/-!
# Texts in dictionary order

Texts are compared from the front. Numerals of one length compare like their numbers
(`padded_append_lt_iff`), and ASCII texts compare byte by byte as they do character by character
(`bytes_lt_bytes_iff`).
-/

namespace Recurrence.Text

set_option autoImplicit false

/-- What comes after two parts of one length decides only if these are equal. -/
theorem append_lt_append_iff {α : Type} [LT α] {a b x y : List α} (h : a.length = b.length) :
    a ++ x < b ++ y ↔ a < b ∨ a = b ∧ x < y := by
  induction a generalizing b with
  | nil =>
    obtain rfl := List.eq_nil_of_length_eq_zero h.symm
    simp
  | cons c a ih =>
    cases b with
    | nil => cases h
    | cons d b =>
      simp only [List.cons_append, List.cons_lt_cons_iff, ih (Nat.succ.inj h), List.cons.injEq,
        and_or_left, and_assoc, or_assoc]

section Numerals

variable {cs ds x y : List Char} {width m n : Nat}

theorem digit_lt_iff {c d : Char} (hc : c.isDigit) (hd : d.isDigit) :
    c.toNat - '0'.toNat < d.toNat - '0'.toNat ↔ c < d := by
  have := toNat_of_isDigit hc
  have := toNat_of_isDigit hd
  change c.toNat - 48 < d.toNat - 48 ↔ c.toNat < d.toNat
  omega

/-- Place values: a remainder counts only where the quotients are equal. -/
theorem mul_add_lt_mul_add_iff {b p q v w : Nat} (hv : v < b) (hw : w < b) :
    b * p + v < b * q + w ↔ p < q ∨ p = q ∧ v < w := by
  rcases Nat.lt_trichotomy p q with h | rfl | h
  · have hle := Nat.mul_le_mul_left b (Nat.succ_le_of_lt h)
    rw [Nat.mul_succ] at hle
    omega
  · omega
  · have hle := Nat.mul_le_mul_left b (Nat.succ_le_of_lt h)
    rw [Nat.mul_succ] at hle
    omega

theorem ofDigitChars_lt_iff (hc : cs.all Char.isDigit) (hd : ds.all Char.isDigit)
    (hl : cs.length = ds.length) :
    Nat.ofDigitChars 10 cs 0 < Nat.ofDigitChars 10 ds 0 ↔ cs < ds := by
  induction cs generalizing ds with
  | nil =>
    obtain rfl := List.eq_nil_of_length_eq_zero hl.symm
    simp
  | cons c cs ih =>
    cases ds with
    | nil => cases hl
    | cons d ds =>
      rw [List.all_cons, Bool.and_eq_true] at hc hd
      have hl : cs.length = ds.length := Nat.succ.inj hl
      have heq : c.toNat - '0'.toNat = d.toNat - '0'.toNat ↔ c = d :=
        ⟨digit_inj hc.1 hd.1, fun h => h ▸ rfl⟩
      rw [ofDigitChars_cons_zero, ofDigitChars_cons_zero, ← hl,
        mul_add_lt_mul_add_iff (ofDigitChars_lt hc.2) (hl ▸ ofDigitChars_lt hd.2),
        digit_lt_iff hc.1 hd.1, heq, ih hc.2 hd.2 hl, List.cons_lt_cons_iff]

theorem padded_lt_padded_iff (hw : 0 < width) (hm : m < 10 ^ width) (hn : n < 10 ^ width) :
    padded width m < padded width n ↔ m < n := by
  obtain ⟨-, hdm, hvm⟩ := natural?_eq_some_iff.mp (natural?_padded width m)
  obtain ⟨-, hdn, hvn⟩ := natural?_eq_some_iff.mp (natural?_padded width n)
  have hl : (padded width m).length = (padded width n).length := by
    rw [length_padded hw hm, length_padded hw hn]
  rw [← ofDigitChars_lt_iff hdm hdn hl, hvm, hvn]

theorem padded_inj : padded width m = padded width n ↔ m = n := by
  constructor
  · intro h
    have hm := natural?_padded width m
    rw [h, natural?_padded] at hm
    exact (Option.some.inj hm).symm
  · rintro rfl
    rfl

/-- Texts that begin with numerals of one length compare by their numbers first. -/
theorem padded_append_lt_iff (hw : 0 < width) (hm : m < 10 ^ width) (hn : n < 10 ^ width) :
    padded width m ++ x < padded width n ++ y ↔ m < n ∨ m = n ∧ x < y := by
  have hl : (padded width m).length = (padded width n).length := by
    rw [length_padded hw hm, length_padded hw hn]
  rw [append_lt_append_iff hl, padded_lt_padded_iff hw hm hn, padded_inj]

end Numerals

/-- The bytes of a text in UTF-8. -/
def bytes (s : String) : List UInt8 := s.toUTF8.data.toList

/-- In an ASCII text each character is a byte. -/
theorem bytes_ofList {cs : List Char} (h : ∀ c ∈ cs, ¬ 0x7f < c.toNat) :
    bytes (String.ofList cs) = cs.map fun c => UInt8.ofNat c.toNat := by
  rw [bytes, String.toUTF8, String.toByteArray_ofList, List.utf8Encode, List.data_toByteArray,
    List.map_eq_flatMap]
  apply List.flatMap_congr
  intro c hc
  have hle : c.val.toNat ≤ 127 := Nat.not_lt.mp (h c hc)
  rw [String.utf8EncodeChar, if_pos hle]
  rfl

theorem toNat_ofNat_of_isAscii {n : Nat} (h : ¬ 0x7f < n) : (UInt8.ofNat n).toNat = n :=
  UInt8.toNat_ofNat_of_lt' (show n < 256 by omega)

theorem bytes_lt_bytes_iff {cs ds : List Char} (hc : ∀ c ∈ cs, ¬ 0x7f < c.toNat)
    (hd : ∀ d ∈ ds, ¬ 0x7f < d.toNat) :
    bytes (String.ofList cs) < bytes (String.ofList ds) ↔ cs < ds := by
  rw [bytes_ofList hc, bytes_ofList hd]
  induction cs generalizing ds with
  | nil => cases ds <;> simp
  | cons c cs ih =>
    cases ds with
    | nil => simp
    | cons d ds =>
      rw [List.forall_mem_cons] at hc hd
      rw [List.map_cons, List.map_cons, List.cons_lt_cons_iff, List.cons_lt_cons_iff,
        ih hc.2 hd.2, UInt8.lt_iff_toNat_lt, ← UInt8.toNat_inj, toNat_ofNat_of_isAscii hc.1,
        toNat_ofNat_of_isAscii hd.1, Char.toNat_inj]
      rfl

end Recurrence.Text
