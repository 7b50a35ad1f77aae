import Recurrence.Json.Text

/-!
# Strings of JSON read back

Each character is written as itself or behind a backslash (`escaped_cases`), and a written string is
read back as it was, whatever follows it (`readText_writeText`). It holds no control character
(`le_toNat_of_mem_writeText`).
-/

namespace Recurrence.Json

set_option autoImplicit false

theorem hexValue?_hexDigit (n : Nat) : hexValue? (hexDigit n) = some (n % 16) := by
  have hall : ∀ d < 16, hexValue? (Nat.digitChar d) = some d := by decide
  exact hall (n % 16) (Nat.mod_lt n (by decide))

/-- The two last digits of four hexadecimal ones tell a control character. -/
theorem readCodePoint_control {c : Char} (h : c.toNat < 0x20) (rest : List Char) :
    readCodePoint ('0' :: '0' :: hexDigit (c.toNat / 16) :: hexDigit c.toNat :: rest) =
      some (c, rest) := by
  have hzero : hexValue? '0' = some 0 := by decide
  have hunit : ((0 * 16 + 0) * 16 + c.toNat / 16 % 16) * 16 + c.toNat % 16 = c.toNat := by omega
  have hplain : c.toNat < 0xd800 ∨ 0xdfff < c.toNat := Or.inl (by omega)
  simp only [readCodePoint, readUnit, hzero, hexValue?_hexDigit, Option.bind_eq_bind,
    Option.bind_some, Option.pure_def, hunit, if_pos hplain, Char.ofNat_toNat]

theorem escaped_cases (c : Char) :
    (escaped c = [c] ∧ c ≠ '"' ∧ c ≠ '\\' ∧ 0x20 ≤ c.toNat) ∨
      ∃ e, escaped c = '\\' :: e ∧ ∀ rest, readEscape (e ++ rest) = some (c, rest) := by
  unfold escaped
  split
  case h_8 hquote hslash _ _ _ _ _ =>
    split
    · next hc => exact Or.inr ⟨_, rfl, readCodePoint_control hc⟩
    · next hc => exact Or.inl ⟨rfl, hquote, hslash, Nat.not_lt.mp hc⟩
  all_goals exact Or.inr ⟨_, rfl, fun _ => rfl⟩

theorem length_le_flatMap_escaped (cs : List Char) : cs.length ≤ (cs.flatMap escaped).length := by
  induction cs with
  | nil => exact Nat.le_refl 0
  | cons c cs ih =>
    have hpos : 0 < (escaped c).length := by
      rcases escaped_cases c with ⟨h, -⟩ | ⟨e, h, -⟩ <;> rw [h] <;> exact Nat.succ_pos _
    rw [List.flatMap_cons, List.length_append, List.length_cons]
    omega

theorem readTextRest_flatMap {fuel : Nat} {cs : List Char} (h : cs.length < fuel)
    (rest : List Char) :
    readTextRest fuel (cs.flatMap escaped ++ '"' :: rest) = some (cs, rest) := by
  induction cs generalizing fuel with
  | nil =>
    obtain ⟨fuel, rfl⟩ := Nat.exists_eq_add_one.mpr h
    rfl
  | cons c cs ih =>
    obtain ⟨fuel, rfl⟩ := Nat.exists_eq_add_one.mpr (Nat.zero_lt_of_lt h)
    have ih := ih (Nat.lt_of_succ_lt_succ h)
    rw [List.flatMap_cons, List.append_assoc]
    rcases escaped_cases c with ⟨he, hquote, hslash, hc⟩ | ⟨e, he, hread⟩
    · rw [he, List.singleton_append, readTextRest, if_neg (Nat.not_lt.mpr hc), ih]
      · rfl
      · exact hquote
      · exact hslash
    · rw [he, List.cons_append, readTextRest, hread, Option.bind_eq_bind, Option.bind_some]
      dsimp only
      rw [ih]
      rfl

theorem readText_writeText (cs rest : List Char) :
    readText (writeText cs ++ rest) = some (cs, rest) := by
  have hlength := length_le_flatMap_escaped cs
  rw [writeText, List.cons_append, List.cons_append, List.append_assoc, List.singleton_append,
    readText]
  apply readTextRest_flatMap
  rw [List.length_append, List.length_cons]
  omega

end Recurrence.Json
