import Recurrence.Proofs.Calendar.Clock
import Recurrence.Proofs.Calendar.Seconds
import Recurrence.Proofs.Calendar.Written
import Recurrence.Proofs.Text.Order

/-!
# The order of written timestamps

Years, months and days of four and two digits stand in the order of their weight, and so do hours,
minutes and seconds, so plain timestamps come in the order of their texts
(`Timestamp.text_lt_text_iff`). The short form of a midnight is the beginning of every other text of
its day.
-/

namespace Recurrence.Calendar

set_option autoImplicit false

open Text

namespace Date

variable {d e : Date}

theorem number_lt_iff : d.number < e.number ↔ d.year < e.year ∨ d.year = e.year ∧
    (d.month < e.month ∨ d.month = e.month ∧ d.day < e.day) := by
  have hd := d.month_mem
  have he := e.month_mem
  have hdday := d.civil_bounds.1
  have heday := e.civil_bounds.1
  have hdi : d.monthIndex = d.year * 12 + (d.month - 1 : Nat) := rfl
  have hei : e.monthIndex = e.year * 12 + (e.month - 1 : Nat) := rfl
  have hdn := d.number_eq_monthStart
  have hen := e.number_eq_monthStart
  rcases Int.lt_trichotomy d.monthIndex e.monthIndex with h | h | h
  · have hle := monthStart_le_iff (d := d) (m := e.monthIndex)
    omega
  · rw [h] at hdn
    omega
  · have hle := monthStart_le_iff (d := e) (m := d.monthIndex)
    omega

theorem number_eq_iff : d.number = e.number ↔
    d.year = e.year ∧ d.month = e.month ∧ d.day = e.day := by
  constructor
  · intro h
    obtain rfl := ext h
    exact ⟨rfl, rfl, rfl⟩
  · intro h
    obtain ⟨hy, hm, hd⟩ := h
    rw [d.number_eq, e.number_eq, hy, hm, hd]

theorem dateText_append (hd : 0 ≤ d.year ∧ d.year ≤ 9999) (x : List Char) : dateText d ++ x =
    padded 4 d.year.natAbs ++ '-' :: (padded 2 d.month ++ '-' :: (padded 2 d.day ++ x)) := by
  rw [dateText_eq, yearText_of_mem hd]
  simp only [List.append_assoc, List.cons_append]

theorem dateText_append_lt_iff {x y : List Char} (hd : 0 ≤ d.year ∧ d.year ≤ 9999)
    (he : 0 ≤ e.year ∧ e.year ≤ 9999) :
    dateText d ++ x < dateText e ++ y ↔ d.number < e.number ∨ d.number = e.number ∧ x < y := by
  have hdm := d.month_mem
  have hem := e.month_mem
  have hdd : d.day ≤ 31 := d.civil_bounds.2.1.trans (monthLength_le _ _)
  have hed : e.day ≤ 31 := e.civil_bounds.2.1.trans (monthLength_le _ _)
  have hlt : d.year.natAbs < e.year.natAbs ↔ d.year < e.year := by omega
  have heq : d.year.natAbs = e.year.natAbs ↔ d.year = e.year := by omega
  rw [dateText_append hd, dateText_append he,
    padded_append_lt_iff (by decide) (by omega) (by omega), List.cons_lt_cons_self,
    padded_append_lt_iff (by decide) (by omega) (by omega), List.cons_lt_cons_self,
    padded_append_lt_iff (by decide) (by omega) (by omega), hlt, heq, number_lt_iff, number_eq_iff]
  simp only [and_or_left, and_assoc, or_assoc]

end Date

theorem timeText_lt_timeText_iff {t u : Timestamp} (ht : t.nano = 0) (hu : u.nano = 0) :
    timeText t < timeText u ↔ t.time.seconds < u.time.seconds := by
  have htc := t.time.clock_lt
  have huc := u.time.clock_lt
  have hts := t.time.seconds_eq_clock
  have hus := u.time.seconds_eq_clock
  rw [timeText_of_nano ht, timeText_of_nano hu]
  simp only [List.append_assoc, List.cons_append]
  rw [padded_append_lt_iff (by decide) (by omega) (by omega), List.cons_lt_cons_self,
    padded_append_lt_iff (by decide) (by omega) (by omega), List.cons_lt_cons_self,
    padded_lt_padded_iff (by decide) (by omega) (by omega)]
  omega

namespace Timestamp

variable {t u : Timestamp}

/-- What follows the date in the shortest form. -/
def clockText (t : Timestamp) : List Char := if t.isMidnight then [] else 'T' :: timeText t

theorem chars_eq_append (t : Timestamp) : t.chars = dateText t.date ++ t.clockText := by
  unfold chars form clockText
  split
  · next h => rw [format_date h, List.append_nil]
  · rfl

theorem clockText_of_nano (ht : t.nano = 0) :
    t.clockText = if t.time.seconds = 0 then [] else 'T' :: timeText t := by
  simp [clockText, isMidnight, ht]

theorem clockText_lt_clockText_iff (ht : t.nano = 0) (hu : u.nano = 0) :
    t.clockText < u.clockText ↔ t.time.seconds < u.time.seconds := by
  rw [clockText_of_nano ht, clockText_of_nano hu]
  split <;> split
  · simp only [List.not_lt_nil, false_iff]
    omega
  · simp only [List.nil_lt_cons, true_iff]
    omega
  · simp only [List.not_lt_nil, false_iff]
    omega
  · rw [List.cons_lt_cons_self, timeText_lt_timeText_iff ht hu]

theorem chars_lt_chars_iff (ht : t.Plain) (hu : u.Plain) : t.chars < u.chars ↔ t < u := by
  rw [chars_eq_append, chars_eq_append,
    Date.dateText_append_lt_iff ⟨ht.year_nonneg, ht.year_le⟩ ⟨hu.year_nonneg, hu.year_le⟩,
    clockText_lt_clockText_iff ht.nano_eq hu.nano_eq, lt_iff, ht.nano_eq, hu.nano_eq]
  omega

theorem bytes_text_lt_iff (ht : t.Plain) (hu : u.Plain) :
    bytes t.text < bytes u.text ↔ t < u := by
  have hascii (v : Timestamp) (c : Char) (h : c ∈ v.chars) : ¬ 0x7f < c.toNat :=
    isAscii_of_mem_format h
  rw [text, text, bytes_lt_bytes_iff (hascii t) (hascii u), chars_lt_chars_iff ht hu]

/-- Plain timestamps come in the order of their texts, compared by bytes or by characters, whichever
forms these have. So the texts of an ascending list ascend, and no two of them are equal. -/
theorem text_lt_text_iff (t u : Timestamp) (ht : t.Plain) (hu : u.Plain) :
    (t < u ↔ bytes t.text < bytes u.text) ∧ (t < u ↔ t.text < u.text) ∧
    ∀ l : List Timestamp, (∀ v ∈ l, v.Plain) → l.Pairwise (· < ·) →
      (l.map text).Pairwise (fun a b => bytes a < bytes b) ∧ (l.map text).Nodup := by
  refine ⟨(bytes_text_lt_iff ht hu).symm, ?_, ?_⟩
  · rw [String.lt_iff, text, text, String.toList_ofList, String.toList_ofList,
      chars_lt_chars_iff ht hu]
  · intro l hl hasc
    have hbytes : (l.map text).Pairwise (fun a b => bytes a < bytes b) := by
      rw [List.pairwise_map]
      apply hasc.imp_of_mem
      intro a b ha hb hab
      exact (bytes_text_lt_iff (hl a ha) (hl b hb)).mpr hab
    refine ⟨hbytes, hbytes.imp ?_⟩
    rintro a b hab rfl
    exact List.lt_irrefl _ hab

/-- The first second of the last day of February 2024. -/
def leapDaySecond : Timestamp := of leapDay.date ⟨1, by decide⟩

theorem text_lt_text_leapDay : leapDay.Plain ∧ leapDaySecond.Plain ∧ leapDay < leapDaySecond ∧
    bytes leapDay.text < bytes leapDaySecond.text ∧ leapDay.text < leapDaySecond.text ∧
    ([leapDay, leapDaySecond].map text).Nodup := by
  have hday : leapDay.Plain := by decide
  have hsecond : leapDaySecond.Plain := by decide
  have hlt : leapDay < leapDaySecond := by decide
  obtain ⟨hbytes, htext, hlist⟩ := text_lt_text_iff leapDay leapDaySecond hday hsecond
  refine ⟨hday, hsecond, hlt, hbytes.mp hlt, htext.mp hlt, (hlist _ ?_ ?_).2⟩
  · exact List.forall_mem_cons.mpr ⟨hday, List.forall_mem_singleton.mpr hsecond⟩
  · exact List.pairwise_pair.mpr hlt

end Timestamp

end Recurrence.Calendar
