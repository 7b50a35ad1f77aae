import Recurrence.Proofs.Expansion.Admission

/-!
# Plans of valid rules

`Plan.Lawful` says what a walk over the periods relies on. `candidatesFrom` lists the candidates of
all periods one after another; it is ascending, and the periods that a walk leaps over add nothing.
-/

namespace Recurrence

set_option autoImplicit false

open Calendar

/-- The number of seconds that the calendar has; a rule has no more periods. -/
def calendarSeconds : Nat := (yearStart (lastYear + 1) - yearStart firstYear).toNat * 86400

theorem Calendar.Timestamp.lt_calendarSeconds (t : Timestamp) : t.seconds < calendarSeconds := by
  have hcast := t.seconds_cast
  have hday := t.time.lt_day
  have hlast := t.date.lt_end
  unfold calendarSeconds
  omega

namespace Plan

variable {p : Plan} {s s' t : Timestamp} {o : Option Timestamp} {i j : Nat}

theorem ofSkip_inj {o o' : Option Timestamp} (h : Candidates.ofSkip o = .ofSkip o') : o = o' := by
  cases o <;> cases o' <;> cases h <;> rfl

theorem candidates_eq_ofSkip {n : Nat} (hsub : p.rule.frequency.isSubDaily = true)
    (hb : p.blockEnd? s = some n) : p.candidates s = .ofSkip (Timestamp.ofSeconds? n) := by
  rw [candidates, if_pos hsub, subDaily_eq hsub, hb]

/-- Only blocked periods are leapt over. -/
theorem exists_block (h : p.candidates s = .ofSkip o) : p.rule.frequency.isSubDaily = true ∧
    ∃ n, p.blockEnd? s = some n ∧ Timestamp.ofSeconds? n = o := by
  have hne : ∀ times, Candidates.instants times ≠ .ofSkip o := by
    intro times
    cases o <;> exact nofun
  have hne' : ∀ dates, Candidates.days dates ≠ .ofSkip o := by
    intro dates
    cases o <;> exact nofun
  unfold candidates at h
  split at h
  · next hsub =>
    refine ⟨hsub, ?_⟩
    rw [subDaily_eq hsub] at h
    split at h
    · next n hb => exact ⟨n, hb, ofSkip_inj h⟩
    · exact absurd h (hne _)
  · dsimp only at h
    split at h
    · exact absurd h (hne' _)
    · exact absurd h (hne _)

theorem nano_of_skipTo (h : p.candidates s = .skipTo t) : t.nano = 0 := by
  obtain ⟨-, n, -, hn⟩ := exists_block (o := some t) h
  exact (Timestamp.ofSeconds?_eq_some_iff.mp hn).1

/-- What a walk relies on. -/
structure Lawful (p : Plan) : Prop where
  step_pos : 0 < p.cadence.step
  second_nonneg : 0 ≤ p.cadence.second 0
  length_times : p.times.length = p.timesPerDay
  timesPerDay_pos : 0 < p.timesPerDay
  ascending : ∀ s, (p.flatten (p.candidates s)).Pairwise (· < ·)
  within : ∀ {i s t}, p.cadence.start? i = some s → t ∈ p.flatten (p.candidates s) →
    t.nano = 0 ∧ s ≤ t ∧ (t.seconds : Int) < p.cadence.second (i + 1)

theorem lawful_of_valid {rule : Rule} {anchor : Timestamp} (hv : rule.Valid)
    (h : of? rule anchor = some p) : p.Lawful := by
  obtain ⟨c, hc, rfl⟩ := of?_eq_some_iff.mp h
  exact {
    step_pos := Plan.step_pos hc hv.interval_pos
    second_nonneg := second_zero_nonneg hc
    length_times := Plan.length_times hv
    timesPerDay_pos := Plan.timesPerDay_pos
    ascending := flatten_ascending hv
    within := by
      intro i s t hs ht
      obtain ⟨hn, hcov⟩ := covers_of_mem hv (aligned_start hc hs) ht
      exact ⟨hn, hcov.1, lt_second_succ hc hv.interval_pos hs hcov⟩ }

theorem period_of_start (hs : p.cadence.start? i = some s) :
    p.period i = p.flatten (p.candidates s) := by
  rw [period, hs]

theorem period_of_none (hs : p.cadence.start? i = none) : p.period i = [] := by
  rw [period, hs]

/-- The candidates of all periods from a number on, one period after another. -/
def candidatesFrom (p : Plan) (i : Nat) : List Timestamp :=
  (List.range' i (calendarSeconds - i)).flatMap p.period

namespace Lawful

variable (h : p.Lawful)
include h

theorem start_le (hs : p.cadence.start? i = some s) (hs' : p.cadence.start? j = some s')
    (hij : i ≤ j) : s ≤ s' :=
  Cadence.start_le h.step_pos hs hs' hij

theorem start_none (hs : p.cadence.start? i = none) (hij : i ≤ j) : p.cadence.start? j = none :=
  Cadence.start?_eq_none_of_le h.step_pos h.second_nonneg hs hij

/-- A leap is the same from every period on the way. -/
theorem leap (hs : p.cadence.start? i = some s) (hk : p.candidates s = .ofSkip o)
    (hs' : p.cadence.start? j = some s') (hij : i ≤ j) (hu : ∀ u, o = some u → s' < u) :
    p.candidates s' = .ofSkip o := by
  obtain ⟨hsub, n, hb, rfl⟩ := exists_block hk
  apply candidates_eq_ofSkip hsub
  have hle := Timestamp.seconds_le_of_le (h.start_le hs hs' hij)
  apply blockEnd?_stable hb hle
  rcases Nat.lt_or_ge s'.seconds n with hlt | hge
  · exact hlt
  · obtain ⟨u, hn⟩ := Cadence.exists_seconds hge
    have hlt := hu u hn
    have hsec := Timestamp.ofSeconds?_eq_some_iff.mp hn
    rw [Timestamp.lt_iff_seconds (Cadence.nano_start hs') hsec.1] at hlt
    omega

theorem mem_period (ht : t ∈ p.period i) : t.nano = 0 ∧ p.cadence.second i ≤ t.seconds ∧
    (t.seconds : Int) < p.cadence.second (i + 1) := by
  unfold period at ht
  split at ht
  · next s hs =>
    obtain ⟨hn, hle, hlt⟩ := h.within hs ht
    exact ⟨hn, (Cadence.start_le_iff hs).mp hle, hlt⟩
  · cases ht

theorem period_ascending (i : Nat) : (p.period i).Pairwise (· < ·) := by
  unfold period
  split
  · exact h.ascending _
  · exact List.Pairwise.nil

theorem lt_of_mem_period {t' : Timestamp} (ht : t ∈ p.period i) (ht' : t' ∈ p.period j)
    (hij : i < j) : t < t' := by
  obtain ⟨hn, -, hlt⟩ := h.mem_period ht
  obtain ⟨hn', hle, -⟩ := h.mem_period ht'
  have hmono := (Cadence.second_strictMono h.step_pos).monotone (show i + 1 ≤ j from hij)
  rw [Timestamp.lt_iff_seconds hn hn']
  omega

theorem start_le_of_mem (hs : p.cadence.start? i = some s) (ht : t ∈ p.period j) (hij : i ≤ j) :
    s ≤ t := by
  obtain ⟨-, hle, -⟩ := h.mem_period ht
  rw [Cadence.start_le_iff hs]
  exact ((Cadence.second_strictMono h.step_pos).monotone hij).trans hle

theorem lt_start_of_mem (hs : p.cadence.start? j = some s) (ht : t ∈ p.period i) (hij : i < j) :
    t < s := by
  obtain ⟨-, -, hlt⟩ := h.mem_period ht
  have hmono := (Cadence.second_strictMono h.step_pos).monotone (show i + 1 ≤ j from hij)
  rw [Cadence.lt_start_iff hs]
  exact hlt.trans_le hmono

theorem le_second (i : Nat) : (i : Int) ≤ p.cadence.second i := by
  induction i with
  | zero => exact h.second_nonneg
  | succ i ih =>
    have := Cadence.second_strictMono h.step_pos (Nat.lt_add_one i)
    push_cast
    omega

theorem start?_eq_none (hi : calendarSeconds ≤ i) : p.cadence.start? i = none := by
  cases hs : p.cadence.start? i with
  | none => rfl
  | some s =>
    have hle := h.le_second i
    rw [Cadence.second_start hs] at hle
    have := s.lt_calendarSeconds
    omega

theorem mem_candidatesFrom : t ∈ p.candidatesFrom i ↔ ∃ j, i ≤ j ∧ t ∈ p.period j := by
  unfold candidatesFrom
  rw [List.mem_flatMap]
  constructor
  · intro h
    obtain ⟨j, hj, ht⟩ := h
    rw [List.mem_range'_1] at hj
    exact ⟨j, hj.1, ht⟩
  · intro h
    obtain ⟨j, hij, ht⟩ := h
    refine ⟨j, ?_, ht⟩
    rw [List.mem_range'_1]
    rcases Nat.lt_or_ge j calendarSeconds with hlt | hge
    · omega
    · rw [period_of_none (h.start?_eq_none hge)] at ht
      cases ht

theorem candidatesFrom_ascending (i : Nat) : (p.candidatesFrom i).Pairwise (· < ·) := by
  apply List.pairwise_flatMap.mpr
  refine ⟨fun j _ => h.period_ascending j, ?_⟩
  apply (List.pairwise_lt_range' 1).imp
  intro j j' hlt t ht t' ht'
  exact h.lt_of_mem_period ht ht' hlt

theorem candidatesFrom_succ (i : Nat) :
    p.candidatesFrom i = p.period i ++ p.candidatesFrom (i + 1) := by
  unfold candidatesFrom
  rcases Nat.lt_or_ge i calendarSeconds with hlt | hge
  · rw [show calendarSeconds - i = calendarSeconds - (i + 1) + 1 by omega, List.range'_succ,
      List.flatMap_cons]
  · rw [period_of_none (h.start?_eq_none hge), Nat.sub_eq_zero_of_le hge,
      Nat.sub_eq_zero_of_le (Nat.le_succ_of_le hge)]
    rfl

theorem candidatesFrom_append (hij : i ≤ j) : p.candidatesFrom i =
    (List.range' i (j - i)).flatMap p.period ++ p.candidatesFrom j := by
  induction j, hij using Nat.le_induction with
  | base => rw [Nat.sub_self, List.range'_zero, List.flatMap_nil, List.nil_append]
  | succ j hij ih =>
    rw [ih, h.candidatesFrom_succ j, Nat.succ_sub hij, List.range'_1_concat, List.flatMap_append,
      List.flatMap_singleton, List.append_assoc, Nat.add_sub_cancel' hij]

end Lawful

/-- The number of the period to look at after the one with a number and a start. -/
def nextIndex (p : Plan) (i : Nat) (s : Timestamp) : Nat :=
  match p.candidates s with
  | .skipTo time => max (p.cadence.firstFrom time) (i + 1)
  | .instants _ | .days _ | .exhausted => i + 1

theorem lt_nextIndex (p : Plan) (i : Nat) (s : Timestamp) : i < p.nextIndex i s := by
  unfold nextIndex
  split <;> omega

namespace Lawful

variable (h : p.Lawful)
include h

/-- A leap ends at the first period that starts late enough, whichever period it is made from. -/
theorem nextIndex_of_leap (hs : p.cadence.start? i = some s) (hij : i < j)
    (hj : j < p.nextIndex i s) (hs' : p.cadence.start? j = some s') :
    p.period i = [] ∧ p.period j = [] ∧ p.nextIndex j s' = p.nextIndex i s := by
  unfold nextIndex at hj ⊢
  split at hj
  · next u hu =>
    have hlt : j < p.cadence.firstFrom u := by omega
    have hnano : u.nano = 0 := nano_of_skipTo hu
    have hsu : s' < u := by
      rw [← Timestamp.not_le, ← Cadence.firstFrom_le_iff h.step_pos hnano hs']
      omega
    have hu' := h.leap (o := some u) hs hu hs' (Nat.le_of_lt hij) (by rintro _ ⟨⟩; exact hsu)
    rw [period_of_start hs, period_of_start hs', hu, hu', flatten_ofSkip]
    refine ⟨rfl, rfl, ?_⟩
    simp only [Candidates.ofSkip]
    omega
  all_goals omega

theorem period_of_leap (hs : p.cadence.start? i = some s) (hij : i < j)
    (hj : j < p.nextIndex i s) : p.period j = [] := by
  cases hs' : p.cadence.start? j with
  | none => exact period_of_none hs'
  | some s' => exact (h.nextIndex_of_leap hs hij hj hs').2.1

theorem candidatesFrom_nextIndex (hs : p.cadence.start? i = some s) :
    p.candidatesFrom i = p.period i ++ p.candidatesFrom (p.nextIndex i s) := by
  have hempty : (List.range' (i + 1) (p.nextIndex i s - (i + 1))).flatMap p.period = [] := by
    rw [List.flatMap_eq_nil_iff]
    intro k hk
    rw [List.mem_range'_1] at hk
    exact h.period_of_leap hs (by omega) (by omega)
  rw [h.candidatesFrom_succ i, h.candidatesFrom_append (p.lt_nextIndex i s), hempty,
    List.nil_append]

theorem exhausted_of_le (hs : p.cadence.start? i = some s)
    (hk : p.candidates s = .exhausted) (hij : i ≤ j) (hs' : p.cadence.start? j = some s') :
    p.candidates s' = .exhausted :=
  h.leap (o := none) hs hk hs' hij fun _ hu => nomatch hu

end Lawful

end Plan

end Recurrence
