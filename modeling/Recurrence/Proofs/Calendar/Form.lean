import Recurrence.Calendar.Form
import Recurrence.Calendar.Parser
import Recurrence.Proofs.Calendar.Months
import Recurrence.Proofs.Except
import Recurrence.Proofs.Text.Numeral

/-!
# Timestamps that are written and read

A timestamp can be read from a text if it is `Plain`: a whole second in a year of four digits. It is
read from its two forms and from no other text (`Timestamp.parse_eq_ok_iff`).
-/

namespace Recurrence.Calendar

set_option autoImplicit false

open Text

section Dates

variable {cs ys ms ds : List Char} {y m k : Nat} {d : Date}

theorem yearText_of_mem {year : Int} (h : 0 ≤ year ∧ year ≤ 9999) :
    yearText year = padded 4 year.natAbs := by
  rw [yearText, if_neg (by omega), if_pos h.2]

theorem dateText_eq (d : Date) :
    dateText d = yearText d.year ++ '-' :: padded 2 d.month ++ '-' :: padded 2 d.day := rfl

theorem parseDate_numerals (hy : natural? ys = some y ∧ ys.length = 4)
    (hm : natural? ms = some m ∧ ms.length = 2) (hk : natural? ds = some k ∧ ds.length = 2)
    (hd : Date.ofCivil? y m k = some d) : parseDate (ys ++ '-' :: ms ++ '-' :: ds) = .ok d := by
  match ys, ms, ds, hy, hm, hk with
  | [_, _, _, _], [_, _], [_, _], ⟨hy, _⟩, ⟨hm, _⟩, ⟨hk, _⟩ =>
    simp only [parseDate, List.cons_append, List.nil_append, hy, hm, hk, hd]

theorem parseDate_eq_ok_iff :
    parseDate cs = .ok d ↔ (0 ≤ d.year ∧ d.year ≤ 9999) ∧ cs = dateText d := by
  constructor
  · intro h
    unfold parseDate at h
    split at h
    · next y₁ y₂ y₃ y₄ m₁ m₂ d₁ d₂ =>
      split at h
      · next year month day hy hm hk =>
        split at h
        · next hd =>
          cases h
          obtain ⟨hyear, rfl, rfl⟩ := Date.civil_of_ofCivil? hd
          have hlt : year < 10000 := by simpa using lt_of_natural? hy
          have hy : [y₁, y₂, y₃, y₄] = padded 4 year := eq_padded_of_natural? hy
          have hm : [m₁, m₂] = padded 2 d.month := eq_padded_of_natural? hm
          have hk : [d₁, d₂] = padded 2 d.day := eq_padded_of_natural? hk
          have hmem : 0 ≤ d.year ∧ d.year ≤ 9999 := by omega
          refine ⟨hmem, ?_⟩
          rw [dateText_eq, yearText_of_mem hmem, hyear, Int.natAbs_natCast, ← hy, ← hm, ← hk]
          rfl
        · cases h
      · cases h
    · cases h
  · intro h
    obtain ⟨hmem, rfl⟩ := h
    have hmonth := d.month_mem
    have hday : d.day ≤ 31 := d.civil_bounds.2.1.trans (monthLength_le _ _)
    rw [dateText_eq, yearText_of_mem hmem]
    refine parseDate_numerals ⟨natural?_padded _ _, length_padded (by decide) (by omega)⟩
      ⟨natural?_padded _ _, length_padded (by decide) (by omega)⟩
      ⟨natural?_padded _ _, length_padded (by decide) (by omega)⟩ ?_
    rw [Int.natAbs_of_nonneg hmem.1]
    exact d.ofCivil?_civil

end Dates

section Clocks

variable {cs hs ms ss : List Char} {h m s : Nat} {time : TimeOfDay} {t : Timestamp}

theorem clock_of_ofClock? (ht : TimeOfDay.ofClock? h m s = some time) :
    time.hour = h ∧ time.minute = m ∧ time.second = s := by
  unfold TimeOfDay.ofClock? at ht
  split at ht
  · cases ht
    simp only [TimeOfDay.hour, TimeOfDay.minute, TimeOfDay.second]
    omega
  · cases ht

theorem timeText_of_nano (h : t.nano = 0) : timeText t =
    padded 2 t.time.hour ++ ':' :: padded 2 t.time.minute ++ ':' :: padded 2 t.time.second := by
  rw [timeText, if_neg (by omega)]

theorem parseTime_numerals (hh : natural? hs = some h ∧ hs.length = 2)
    (hm : natural? ms = some m ∧ ms.length = 2) (hsec : natural? ss = some s ∧ ss.length = 2)
    (ht : TimeOfDay.ofClock? h m s = some time) :
    parseTime (hs ++ ':' :: ms ++ ':' :: ss) = .ok time := by
  match hs, ms, ss, hh, hm, hsec with
  | [_, _], [_, _], [_, _], ⟨hh, _⟩, ⟨hm, _⟩, ⟨hsec, _⟩ =>
    simp only [parseTime, List.cons_append, List.nil_append, hh, hm, hsec, ht]

theorem parseTime_eq_ok_iff (hn : t.nano = 0) :
    parseTime cs = .ok t.time ↔ cs = timeText t := by
  constructor
  · intro h
    unfold parseTime at h
    split at h
    · next h₁ h₂ m₁ m₂ s₁ s₂ =>
      split at h
      · next hour minute second hh hm hs =>
        split at h
        · next ht =>
          cases h
          obtain ⟨rfl, rfl, rfl⟩ := clock_of_ofClock? ht
          have hh : [h₁, h₂] = padded 2 t.time.hour := eq_padded_of_natural? hh
          have hm : [m₁, m₂] = padded 2 t.time.minute := eq_padded_of_natural? hm
          have hs : [s₁, s₂] = padded 2 t.time.second := eq_padded_of_natural? hs
          rw [timeText_of_nano hn, ← hh, ← hm, ← hs]
          rfl
        · cases h
      · cases h
    · cases h
  · rintro rfl
    have hc := t.time.clock_lt
    rw [timeText_of_nano hn]
    exact parseTime_numerals ⟨natural?_padded _ _, length_padded (by decide) (by omega)⟩
      ⟨natural?_padded _ _, length_padded (by decide) (by omega)⟩
      ⟨natural?_padded _ _, length_padded (by decide) (by omega)⟩ t.time.ofClock?_clock

end Clocks

namespace Timestamp

variable {cs : List Char} {t : Timestamp} {c : Char}

/-- Whether a text can tell the timestamp. -/
structure Plain (t : Timestamp) : Prop where
  nano_eq : t.nano = 0
  year_nonneg : 0 ≤ t.date.year
  year_le : t.date.year ≤ 9999

instance (t : Timestamp) : Decidable t.Plain :=
  decidable_of_iff (t.nano = 0 ∧ 0 ≤ t.date.year ∧ t.date.year ≤ 9999)
    ⟨fun ⟨hn, h, h'⟩ => ⟨hn, h, h'⟩, fun h => ⟨h.nano_eq, h.year_nonneg, h.year_le⟩⟩

theorem mem_yearText {year : Int} (h : c ∈ yearText year) : c.isDigit ∨ c = '-' ∨ c = '+' := by
  unfold yearText at h
  split at h
  · rcases List.mem_cons.mp h with rfl | h
    · exact Or.inr (Or.inl rfl)
    · exact Or.inl (isDigit_of_mem_padded h)
  · split at h
    · exact Or.inl (isDigit_of_mem_padded h)
    · rcases List.mem_cons.mp h with rfl | h
      · exact Or.inr (Or.inr rfl)
      · exact Or.inl (isDigit_of_mem_padded h)

theorem mem_dateText {d : Date} (h : c ∈ dateText d) : c.isDigit ∨ c = '-' ∨ c = '+' := by
  simp only [dateText_eq, List.mem_append, List.mem_cons] at h
  rcases h with (h | rfl | h) | rfl | h
  · exact mem_yearText h
  · exact Or.inr (Or.inl rfl)
  · exact Or.inl (isDigit_of_mem_padded h)
  · exact Or.inr (Or.inl rfl)
  · exact Or.inl (isDigit_of_mem_padded h)

theorem mem_timeText (h : c ∈ timeText t) : c.isDigit ∨ c = ':' := by
  simp only [timeText, List.mem_append, List.mem_cons] at h
  rcases h with (h | rfl | h) | rfl | h
  · exact Or.inl (isDigit_of_mem_padded h)
  · exact Or.inr rfl
  · exact Or.inl (isDigit_of_mem_padded h)
  · exact Or.inr rfl
  · exact Or.inl (isDigit_of_mem_padded h)

theorem mem_format {form : Form} (h : c ∈ t.format form) :
    c.isDigit ∨ c ∈ ['-', '+', ':', 'T'] := by
  have hd : c ∈ dateText t.date → c.isDigit ∨ c ∈ ['-', '+', ':', 'T'] := by
    intro h
    rcases mem_dateText h with h | rfl | rfl <;> simp [*]
  unfold format at h
  split at h
  · exact hd h
  · rcases List.mem_append.mp h with h | h
    · exact hd h
    · rcases List.mem_cons.mp h with rfl | h
      · simp
      · rcases mem_timeText h with h | rfl <;> simp [*]

theorem isAscii_of_mem_format {form : Form} (h : c ∈ t.format form) : ¬ 0x7f < c.toNat := by
  rcases mem_format h with h | h
  · have := toNat_of_isDigit h
    omega
  · simp only [List.mem_cons, List.not_mem_nil, or_false] at h
    rcases h with rfl | rfl | rfl | rfl <;> decide

theorem noT_dateText (d : Date) : 'T' ∉ dateText d := by
  intro h
  rcases mem_dateText h with h | h | h <;> cases h

theorem eq_startOfDay (hn : t.nano = 0) (h : t.isMidnight) : t = startOfDay t.date := by
  simp only [isMidnight, Bool.and_eq_true, decide_eq_true_eq] at h
  have ht : t.time = .midnight := TimeOfDay.ext h.1
  cases t
  cases hn
  cases ht
  rfl

theorem eq_of (hn : t.nano = 0) : t = of t.date t.time := by
  cases t
  cases hn
  rfl

theorem format_dateTime (t : Timestamp) :
    t.format .dateTime = dateText t.date ++ 'T' :: timeText t := rfl

theorem format_date (h : t.isMidnight) : t.format .date = dateText t.date := by
  unfold format
  rw [h]

theorem chars_ne_nil (t : Timestamp) : t.chars ≠ [] := by
  unfold chars format
  split <;> simp [dateText_eq]

theorem isAscii_format (form : Form) (t : Timestamp) :
    ¬ (t.format form).any (fun c => 0x7f < c.toNat) := by
  simp only [List.any_eq_true, decide_eq_true_eq, not_exists, not_and]
  exact fun _ h => isAscii_of_mem_format h

theorem parse_dateTime (h : t.Plain) : parse (t.format .dateTime) = .ok t := by
  have hd : parseDate (dateText t.date) = .ok t.date :=
    parseDate_eq_ok_iff.mpr ⟨⟨h.year_nonneg, h.year_le⟩, rfl⟩
  have ht : parseTime (timeText t) = .ok t.time := (parseTime_eq_ok_iff h.nano_eq).mpr rfl
  rw [parse, if_neg (isAscii_format _ t), format_dateTime,
    cut?_append_cons (noT_dateText t.date)]
  dsimp only
  rw [hd, ht]
  exact congrArg Except.ok (eq_of h.nano_eq).symm

theorem parse_date (h : t.Plain) (hm : t.isMidnight) : parse (t.format .date) = .ok t := by
  have hd : parseDate (dateText t.date) = .ok t.date :=
    parseDate_eq_ok_iff.mpr ⟨⟨h.year_nonneg, h.year_le⟩, rfl⟩
  rw [parse, if_neg (isAscii_format _ t), format_date hm,
    cut?_eq_none_iff.mpr (noT_dateText t.date)]
  dsimp only
  rw [hd]
  exact congrArg Except.ok (eq_startOfDay h.nano_eq hm).symm

/-- The long form tells every plain timestamp, the short form a midnight; nothing else is read. -/
theorem parse_eq_ok_iff : parse cs = .ok t ↔
    t.Plain ∧ (cs = t.format .dateTime ∨ t.isMidnight ∧ cs = t.format .date) := by
  constructor
  · intro h
    unfold parse at h
    split at h
    · cases h
    · split at h
      · obtain ⟨d, hd, he⟩ := bind_eq_ok_iff.mp h
        cases he
        obtain ⟨hy, rfl⟩ := parseDate_eq_ok_iff.mp hd
        exact ⟨⟨rfl, hy.1, hy.2⟩, Or.inr ⟨rfl, rfl⟩⟩
      · next hcut =>
        obtain ⟨-, rfl⟩ := eq_append_of_cut? hcut
        obtain ⟨d, hd, h⟩ := bind_eq_ok_iff.mp h
        obtain ⟨time, ht, he⟩ := bind_eq_ok_iff.mp h
        cases he
        obtain ⟨hy, rfl⟩ := parseDate_eq_ok_iff.mp hd
        obtain rfl := (parseTime_eq_ok_iff (t := of d time) rfl).mp ht
        exact ⟨⟨rfl, hy.1, hy.2⟩, Or.inl rfl⟩
  · intro h
    obtain ⟨hp, rfl | ⟨hm, rfl⟩⟩ := h
    · exact parse_dateTime hp
    · exact parse_date hp hm

theorem parse_chars (h : t.Plain) : parse t.chars = .ok t := by
  unfold chars form
  split
  · next hm => exact parse_date h hm
  · exact parse_dateTime h

theorem plain_of_parse (h : parse cs = .ok t) : t.Plain := (parse_eq_ok_iff.mp h).1

end Timestamp

end Recurrence.Calendar
