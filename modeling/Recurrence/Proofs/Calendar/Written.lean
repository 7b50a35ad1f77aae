import Recurrence.Proofs.Calendar.Form

/-!
# The texts of timestamps

What is read as a timestamp, said of the characters alone (`TimestampText`), and said of the forms
in which timestamps are written (`Timestamp.parse_iff_format`).
-/

namespace Recurrence.Calendar

set_option autoImplicit false

open Text

/-- A text of just `width` decimal digits, without a sign, and the number that it writes. -/
structure Numeral (width : Nat) (cs : List Char) (n : Nat) : Prop where
  length_eq : cs.length = width
  isDigit : ∀ c ∈ cs, c.isDigit
  value_eq : Nat.ofDigitChars 10 cs 0 = n

/-- The texts of dates. -/
inductive DateText : List Char → Date → Prop
  | intro {ys ms ks : List Char} {y m k : Nat} {date : Date} : Numeral 4 ys y →
      Numeral 2 ms m → Numeral 2 ks k → Date.ofCivil? y m k = some date →
      DateText (ys ++ '-' :: ms ++ '-' :: ks) date

/-- The texts of times of day. -/
inductive ClockText : List Char → TimeOfDay → Prop
  | intro {hs ms ss : List Char} {h m s : Nat} {time : TimeOfDay} : Numeral 2 hs h →
      Numeral 2 ms m → Numeral 2 ss s → h < 24 → m < 60 → s < 60 →
      time.seconds = h * 3600 + m * 60 + s → ClockText (hs ++ ':' :: ms ++ ':' :: ss) time

/-- The texts of timestamps: a date, or a date and a time of day around a `T`. -/
inductive TimestampText : List Char → Timestamp → Prop
  | date {day : List Char} {date : Date} : DateText day date →
      TimestampText day (.startOfDay date)
  | dateTime {day clock : List Char} {date : Date} {time : TimeOfDay} : DateText day date →
      ClockText clock time → TimestampText (day ++ 'T' :: clock) (.of date time)

section Parts

variable {cs : List Char} {width n : Nat} {date : Date} {time : TimeOfDay}

theorem numeral_of_natural? (h : natural? cs = some n) : Numeral cs.length cs n := by
  obtain ⟨-, hd, hn⟩ := natural?_eq_some_iff.mp h
  exact ⟨rfl, List.all_eq_true.mp hd, hn⟩

theorem Numeral.natural? (hw : 0 < width) (h : Numeral width cs n) :
    Text.natural? cs = some n ∧ cs.length = width := by
  have hne : cs ≠ [] := List.ne_nil_of_length_pos (h.length_eq ▸ hw)
  exact ⟨natural?_eq_some_iff.mpr ⟨hne, List.all_eq_true.mpr h.isDigit, h.value_eq⟩, h.length_eq⟩

theorem parseDate_iff_dateText : parseDate cs = .ok date ↔ DateText cs date := by
  constructor
  · intro h
    unfold parseDate at h
    split at h
    · split at h
      · next hy hm hk =>
        split at h
        · next hd =>
          cases h
          exact .intro (numeral_of_natural? hy) (numeral_of_natural? hm) (numeral_of_natural? hk) hd
        · cases h
      · cases h
    · cases h
  · intro h
    obtain ⟨hy, hm, hk, hd⟩ := h
    exact parseDate_numerals (hy.natural? (Nat.succ_pos 3)) (hm.natural? Nat.two_pos)
      (hk.natural? Nat.two_pos) hd

theorem parseTime_iff_clockText : parseTime cs = .ok time ↔ ClockText cs time := by
  constructor
  · intro h
    unfold parseTime at h
    split at h
    · split at h
      · next hh hm hs =>
        split at h
        · next ht =>
          cases h
          unfold TimeOfDay.ofClock? at ht
          split at ht
          · next hlt =>
            cases ht
            exact .intro (numeral_of_natural? hh) (numeral_of_natural? hm)
              (numeral_of_natural? hs) hlt.1 hlt.2.1 hlt.2.2 rfl
          · cases ht
        · cases h
      · cases h
    · cases h
  · intro h
    obtain ⟨hh, hm, hs, hhour, hminute, hsecond, heq⟩ := h
    have ht : TimeOfDay.ofClock? _ _ _ = some time :=
      (dif_pos ⟨hhour, hminute, hsecond⟩).trans (congrArg some (TimeOfDay.ext heq.symm))
    exact parseTime_numerals (hh.natural? Nat.two_pos) (hm.natural? Nat.two_pos)
      (hs.natural? Nat.two_pos) ht

end Parts

namespace Timestamp

variable {cs : List Char} {t : Timestamp}

theorem parse_iff_timestampText : parse cs = .ok t ↔ TimestampText cs t := by
  constructor
  · intro h
    obtain ⟨hp, hcs⟩ := parse_eq_ok_iff.mp h
    have hd : DateText (dateText t.date) t.date := parseDate_iff_dateText.mp
      (parseDate_eq_ok_iff.mpr ⟨⟨hp.year_nonneg, hp.year_le⟩, rfl⟩)
    rcases hcs with rfl | ⟨hm, rfl⟩
    · have ht := parseTime_iff_clockText.mp ((parseTime_eq_ok_iff hp.nano_eq).mpr rfl)
      have h := TimestampText.dateTime hd ht
      rwa [← eq_of hp.nano_eq] at h
    · have h := TimestampText.date hd
      rwa [← eq_startOfDay hp.nano_eq hm, ← format_date hm] at h
  · intro h
    cases h with
    | date hd =>
      obtain ⟨hy, rfl⟩ := parseDate_eq_ok_iff.mp (parseDate_iff_dateText.mpr hd)
      exact parse_eq_ok_iff.mpr ⟨⟨rfl, hy.1, hy.2⟩, Or.inr ⟨rfl, rfl⟩⟩
    | @dateTime day clock date time hd ht =>
      obtain ⟨hy, rfl⟩ := parseDate_eq_ok_iff.mp (parseDate_iff_dateText.mpr hd)
      obtain rfl := (parseTime_eq_ok_iff (t := of date time) rfl).mp
        (parseTime_iff_clockText.mpr ht)
      exact parse_eq_ok_iff.mpr ⟨⟨rfl, hy.1, hy.2⟩, Or.inl rfl⟩

/-- A text that is read is the one that is written, or the long form of a midnight. -/
theorem eq_chars_or_of_parse (h : parse cs = .ok t) :
    cs = t.chars ∨ t.isMidnight ∧ cs = t.format .dateTime := by
  unfold chars form
  obtain ⟨-, rfl | ⟨hm, rfl⟩⟩ := parse_eq_ok_iff.mp h
  · split
    · next hm => exact Or.inr ⟨hm, rfl⟩
    · exact Or.inl rfl
  · rw [if_pos hm]
    exact Or.inl rfl

/-- Timestamps are read from their written forms and from nothing else: for whole seconds of the
years 0..9999 from the long form, and for midnights from the short one. -/
theorem parse_iff_format (s : String) (t : Timestamp) :
    (parse s.toList = .ok t ↔
      (t.nano = 0 ∧ 0 ≤ t.date.year ∧ t.date.year ≤ 9999) ∧
      (s.toList = t.format .dateTime ∨ t.isMidnight ∧ s.toList = t.format .date)) ∧
    (t.nano = 0 ∧ 0 ≤ t.date.year ∧ t.date.year ≤ 9999 → parse t.text.toList = .ok t) ∧
    (parse s.toList = .ok t → s = t.text ∨ t.isMidnight ∧ s.toList = t.format .dateTime) ∧
    (parse s.toList = .ok t ↔ TimestampText s.toList t) := by
  have hplain : t.Plain ↔ t.nano = 0 ∧ 0 ≤ t.date.year ∧ t.date.year ≤ 9999 :=
    ⟨fun h => ⟨h.nano_eq, h.year_nonneg, h.year_le⟩, fun h => ⟨h.1, h.2.1, h.2.2⟩⟩
  rw [← hplain, text, String.toList_ofList]
  refine ⟨parse_eq_ok_iff, parse_chars, ?_, parse_iff_timestampText⟩
  intro h
  rw [← String.toList_inj, String.toList_ofList]
  exact eq_chars_or_of_parse h

/-- The start of the last day of February 2024. -/
def leapDay : Timestamp := startOfDay ⟨yearStart 2024 + 59, by decide, by decide⟩

theorem parse_leapDay : parse "2024-02-29T00:00:00".toList = .ok leapDay ∧
    parse leapDay.text.toList = .ok leapDay ∧
    (leapDay.isMidnight ∧ "2024-02-29T00:00:00".toList = leapDay.format .dateTime) ∧
    TimestampText "2024-02-29T00:00:00".toList leapDay := by
  have h : parse "2024-02-29T00:00:00".toList = .ok leapDay := rfl
  obtain ⟨-, hshort, hlong, htext⟩ := parse_iff_format "2024-02-29T00:00:00" leapDay
  have hne : "2024-02-29T00:00:00" ≠ leapDay.text := by
    rw [← String.toList_inj.ne]
    decide
  exact ⟨h, hshort (by decide), (hlong h).resolve_left hne, htext.mp h⟩

end Timestamp

end Recurrence.Calendar
