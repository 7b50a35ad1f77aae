import Mathlib.Algebra.Group.Nat.Defs
import Recurrence.Text.Numeral

/-!
# Numerals that are written and read

A number has just one numeral of each length (`eq_padded_of_natural?`), and the numeral that is
written is read back: `natural?_padded`, `unsigned?_of_natural?`, `signed?_integer`.
-/

namespace Recurrence.Text

set_option autoImplicit false

theorem isDigit_of_mem_padded {width n : Nat} {c : Char} (h : c ∈ padded width n) : c.isDigit := by
  rw [padded, List.leftpad, List.mem_append] at h
  rcases h with h | h
  · obtain rfl := List.eq_of_mem_replicate h
    rfl
  · exact isDigit_of_mem_digits h

theorem padded_ne_nil (width n : Nat) : padded width n ≠ [] := by
  rw [padded, List.leftpad]
  exact List.append_ne_nil_of_right_ne_nil _ (digits_ne_nil n)

theorem natural?_padded (width n : Nat) : natural? (padded width n) = some n := by
  have hd : ∀ c ∈ padded width n, c.isDigit := fun _ hc => isDigit_of_mem_padded hc
  have hv : Nat.ofDigitChars 10 (padded width n) 0 = n := by
    rw [padded, List.leftpad, Nat.ofDigitChars_append, Nat.ofDigitChars_replicate_zero,
      Nat.mul_zero, digits, Nat.ofDigitChars_ten_toDigits]
  rw [natural?, if_pos ⟨padded_ne_nil width n, List.all_eq_true.mpr hd⟩, hv]

theorem length_padded {width n : Nat} (hw : 0 < width) (h : n < 10 ^ width) :
    (padded width n).length = width := by
  have hd : (digits n).length ≤ width := (Nat.length_toDigits_le_iff (by decide) hw).mpr h
  rw [padded, List.length_leftpad, Nat.max_eq_left hd]

theorem natural?_eq_some_iff {cs : List Char} {n : Nat} : natural? cs = some n ↔
    cs ≠ [] ∧ cs.all Char.isDigit ∧ Nat.ofDigitChars 10 cs 0 = n := by
  simp only [natural?, Option.ite_none_right_eq_some, Option.some.injEq, and_assoc]

theorem toNat_of_isDigit {c : Char} (h : c.isDigit) : 48 ≤ c.toNat ∧ c.toNat ≤ 57 := by
  simp only [Char.isDigit, Bool.and_eq_true, decide_eq_true_eq, UInt32.le_iff_toNat_le] at h
  exact h

theorem digit_le_nine {c : Char} (h : c.isDigit) : c.toNat - '0'.toNat ≤ 9 := by
  have := toNat_of_isDigit h
  change c.toNat - 48 ≤ 9
  omega

theorem digit_inj {c d : Char} (hc : c.isDigit) (hd : d.isDigit)
    (h : c.toNat - '0'.toNat = d.toNat - '0'.toNat) : c = d := by
  have := toNat_of_isDigit hc
  have := toNat_of_isDigit hd
  change c.toNat - 48 = d.toNat - 48 at h
  exact Char.toNat_inj.mp (by omega)

theorem ofDigitChars_cons_zero (c : Char) (cs : List Char) : Nat.ofDigitChars 10 (c :: cs) 0 =
    10 ^ cs.length * (c.toNat - '0'.toNat) + Nat.ofDigitChars 10 cs 0 := by
  rw [Nat.ofDigitChars_cons, Nat.ofDigitChars_eq_ofDigitChars_zero, Nat.mul_zero, Nat.zero_add]

theorem ofDigitChars_lt {cs : List Char} (h : cs.all Char.isDigit) :
    Nat.ofDigitChars 10 cs 0 < 10 ^ cs.length := by
  induction cs with
  | nil => decide
  | cons c cs ih =>
    rw [List.all_cons, Bool.and_eq_true] at h
    have hc := Nat.mul_le_mul_left (10 ^ cs.length) (digit_le_nine h.1)
    have := ih h.2
    rw [ofDigitChars_cons_zero, List.length_cons, Nat.pow_succ]
    omega

/-- The value of a run of digits fixes its first digit and the value of the rest. -/
theorem ofDigitChars_inj {cs ds : List Char} (hc : cs.all Char.isDigit) (hd : ds.all Char.isDigit)
    (hl : cs.length = ds.length) (h : Nat.ofDigitChars 10 cs 0 = Nat.ofDigitChars 10 ds 0) :
    cs = ds := by
  induction cs generalizing ds with
  | nil => exact (List.eq_nil_of_length_eq_zero hl.symm).symm
  | cons c cs ih =>
    cases ds with
    | nil => cases hl
    | cons d ds =>
      rw [List.all_cons, Bool.and_eq_true] at hc hd
      have hl : cs.length = ds.length := Nat.succ.inj hl
      have hlt := ofDigitChars_lt hc.2
      have hlt' := ofDigitChars_lt hd.2
      rw [ofDigitChars_cons_zero, ofDigitChars_cons_zero, ← hl] at h
      rw [← hl] at hlt'
      have hq := congrArg (· / 10 ^ cs.length) h
      simp only [Nat.mul_add_div (Nat.pow_pos (by decide : 0 < 10)), Nat.div_eq_of_lt hlt,
        Nat.div_eq_of_lt hlt', Nat.add_zero] at hq
      rw [digit_inj hc.1 hd.1 hq, ih hc.2 hd.2 hl (by rw [hq] at h; omega)]

theorem lt_of_natural? {cs : List Char} {n : Nat} (h : natural? cs = some n) :
    n < 10 ^ cs.length := by
  obtain ⟨-, hc, rfl⟩ := natural?_eq_some_iff.mp h
  exact ofDigitChars_lt hc

/-- A number has just one numeral of each length. -/
theorem eq_padded_of_natural? {cs : List Char} {n : Nat} (h : natural? cs = some n) :
    cs = padded cs.length n := by
  obtain ⟨hne, hc, hn⟩ := natural?_eq_some_iff.mp h
  obtain ⟨-, hp, hpn⟩ := natural?_eq_some_iff.mp (natural?_padded cs.length n)
  refine ofDigitChars_inj hc hp ?_ ?_
  · rw [length_padded (List.length_pos_iff.mpr hne) (lt_of_natural? h)]
  · rw [hn, hpn]

theorem unsigned?_of_natural? {max n : Nat} {cs : List Char} (h : natural? cs = some n)
    (hn : n ≤ max) : unsigned? max cs = some n := by
  unfold unsigned?
  split
  · cases h
  · simp only [h, Option.filter_some, hn, decide_true, if_true]

theorem le_of_unsigned? {max n : Nat} {cs : List Char} (h : unsigned? max cs = some n) :
    n ≤ max := by
  simp only [unsigned?, Option.filter_eq_some_iff, decide_eq_true_eq] at h
  exact h.2

theorem signed?_of_natural? {lo hi : Int} {n : Nat} {cs : List Char} (h : natural? cs = some n)
    (hlo : lo ≤ n) (hhi : n ≤ hi) : signed? lo hi cs = some (n : Int) := by
  unfold signed?
  split
  · cases h
  · cases h
  · simp [h, hlo, hhi]

theorem signed?_minus {lo hi : Int} {n : Nat} {cs : List Char} (h : natural? cs = some n)
    (hlo : lo ≤ -n) (hhi : -n ≤ hi) : signed? lo hi ('-' :: cs) = some (-n : Int) := by
  simp [signed?, h, hlo, hhi]

theorem signed?_integer {lo hi z : Int} (hlo : lo ≤ z) (hhi : z ≤ hi) :
    signed? lo hi (integer z) = some z := by
  unfold integer
  split
  · next h =>
    have he : -(z.natAbs : Int) = z := by omega
    have hm := signed?_minus (natural?_digits z.natAbs) (he.symm ▸ hlo) (he.symm ▸ hhi)
    rwa [he] at hm
  · next h =>
    have he : (z.natAbs : Int) = z := by omega
    have hd := signed?_of_natural? (natural?_digits z.natAbs) (he.symm ▸ hlo) (he.symm ▸ hhi)
    rwa [he] at hd

end Recurrence.Text
