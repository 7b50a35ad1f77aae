import Recurrence.Proofs.Except
import Recurrence.Proofs.Expansion.Sequence

/-!
# The counter of positions

The counter of a walk stays at its largest value; `Rule.expandExact` counts without one. As long as
the count of the rule is below that value, both find the same (`Rule.expand_exact`). A rule with the
largest value for its count goes on after it (`Rule.expand_everySecond`).
-/

namespace Recurrence

set_option autoImplicit false

open Calendar

namespace Progress

/-- Moves on by `n` positions, which may go beyond every bound. -/
def advanceExact (p : Progress) (n : Nat) : Progress :=
  { p with position := p.position.map fun k => k + n }

end Progress

namespace Rule

/-- The expansion of a rule whose counter has no largest value. -/
def expandExact : Rule → Window → Nat → Option Nat → Except ExpansionError (List Occurrence) :=
  expandBy Progress.advanceExact

end Rule

/-! ### What the counter shows -/

/-- The occurrence with its position as far as the counter shows it. -/
def Occurrence.saturated (o : Occurrence) : Occurrence :=
  { o with position := o.position.map (min · counterMax) }

def Progress.saturated (p : Progress) : Progress :=
  ⟨p.position.map (min · counterMax), p.found.map Occurrence.saturated⟩

def Flow.saturated : Flow → Flow
  | stop p => .stop p.saturated
  | more p seen => .more p.saturated seen

def Walk.saturated (w : Walk) : Walk := { w with progress := w.progress.saturated }

def Step.saturated : Step → Step
  | halt result => .halt (result.map (Array.map Occurrence.saturated))
  | next w => .next w.saturated

theorem Progress.advance_saturated (p : Progress) (n : Nat) :
    p.saturated.advance n = (p.advanceExact n).saturated := by
  obtain ⟨position, found⟩ := p
  cases position with
  | none => rfl
  | some k =>
    simp only [saturated, advance, advanceExact, Option.map_some, mk.injEq, Option.some.injEq,
      and_true]
    omega

theorem Progress.add_saturated (p : Progress) (t : Timestamp) :
    p.saturated.add t = (p.add t).saturated := by
  simp only [saturated, add, Array.map_push, Occurrence.saturated]

theorem visitEach_saturated {α : Type} {visit visit' : Progress → α → Flow}
    (h : ∀ p a, visit' p.saturated a = (visit p a).saturated) (l : List α) (seen : Bool)
    (p : Progress) :
    visitEach visit' l seen p.saturated = (visitEach visit l seen p).saturated := by
  induction l generalizing seen p with
  | nil => rfl
  | cons a l ih =>
    rw [visitEach_cons, visitEach_cons, h]
    cases visit p a with
    | stop p => rfl
    | more p new => exact ih (seen || new) p

namespace Request

variable {q : Request}

theorem isFull_saturated (p : Progress) : q.isFull p.saturated = q.isFull p := by
  rw [isFull, isFull, Progress.saturated, Array.size_map]

theorem skip_saturated (emptyRun : Nat) (p : Progress) (i : Nat) :
    q.skip emptyRun p.saturated i = (q.skip emptyRun p i).saturated := by
  unfold skip
  by_cases h : q.maxEmptyPeriods < min (emptyRun + 1) counterMax
  · simp only [if_pos h]
    rfl
  · simp only [if_neg h]
    rfl

theorem finish_saturated (i emptyRun : Nat) (f : Flow) :
    q.finish i emptyRun f.saturated = (q.finish i emptyRun f).saturated := by
  cases f with
  | stop p => rfl
  | more p seen =>
    cases seen with
    | true => rfl
    | false => exact skip_saturated emptyRun p (i + 1)

section Below

variable (hc : ∀ n, q.rule.count = some n → n < counterMax)
include hc

/-- A count below the largest value is exceeded on the counter as soon as it is exceeded. -/
theorem countExceeded_saturated (p : Progress) :
    q.countExceeded p.saturated = q.countExceeded p := by
  obtain ⟨position, found⟩ := p
  cases hn : q.rule.count with
  | none => simp only [countExceeded, hn]
  | some n =>
    cases position with
    | none => simp only [countExceeded, hn, Progress.saturated, Option.map_none]
    | some k =>
      have := hc n hn
      simp only [countExceeded, hn, Progress.saturated, Option.map_some, decide_eq_decide]
      omega

theorem visit_saturated (p : Progress) (t : Timestamp) :
    q.visitBy Progress.advance p.saturated t =
      (q.visitBy Progress.advanceExact p t).saturated := by
  rw [visitBy, visitBy]
  dsimp only
  rw [Progress.advance_saturated, Progress.add_saturated, isFull_saturated,
    countExceeded_saturated hc]
  split_ifs <;> rfl

theorem visitDay_saturated (p : Progress) (d : Date) :
    q.visitDayBy Progress.advance p.saturated d =
      (q.visitDayBy Progress.advanceExact p d).saturated := by
  rw [visitDayBy, visitDayBy]
  dsimp only
  rw [Progress.advance_saturated, countExceeded_saturated hc,
    visitEach_saturated fun p u => visit_saturated hc p (.of d u)]
  split_ifs <;> rfl

theorem step_saturated (w : Walk) :
    q.stepBy Progress.advance w.saturated = (q.stepBy Progress.advanceExact w).saturated := by
  obtain ⟨i, emptyRun, p⟩ := w
  rw [Walk.saturated, stepBy, stepBy]
  dsimp only
  cases q.plan.cadence.start? i with
  | none => rfl
  | some s =>
    dsimp only
    split_ifs
    · rfl
    · cases q.plan.candidates s with
      | instants times =>
        dsimp only
        rw [visitEach_saturated (visit_saturated hc), finish_saturated]
      | days dates =>
        dsimp only
        rw [visitEach_saturated (visitDay_saturated hc), finish_saturated]
      | skipTo u => exact skip_saturated emptyRun p _
      | exhausted => rfl

theorem run_saturated (fuel : Nat) (w : Walk) : q.runBy Progress.advance fuel w.saturated =
    (q.runBy Progress.advanceExact fuel w).map (Array.map Occurrence.saturated) := by
  induction fuel generalizing w with
  | zero => rfl
  | succ fuel ih =>
    rw [runBy, runBy, step_saturated hc]
    cases q.stepBy Progress.advanceExact w with
    | halt result => rfl
    | next w => exact ih w

end Below

theorem initial_saturated : q.initial.saturated = q.initial := by
  rw [initial, Walk.saturated, Progress.saturated, Array.map_empty]
  split_ifs <;> rfl

end Request

namespace Rule

variable {rule : Rule} {window : Window} {maxEmptyPeriods : Nat} {max : Option Nat}

/-- With a count below the largest value of the counter, an expansion does as if the counter had no
largest value; only the positions that it tells do not pass that value. -/
theorem expand_eq_saturated (hc : ∀ n, rule.count = some n → n < counterMax) :
    rule.expand window maxEmptyPeriods max =
      (rule.expandExact window maxEmptyPeriods max).map (List.map Occurrence.saturated) := by
  rw [expandExact, expand, expandBy, expandBy]
  cases hp : Plan.of? rule (rule.anchor.getD window.after) with
  | none => rfl
  | some p =>
    generalize hq : Request.mk p (rule.anchor.getD window.after) window maxEmptyPeriods max = q
    have hcount : ∀ n, q.rule.count = some n → n < counterMax := by
      rw [← hq]
      change ∀ n, p.rule.count = some n → n < counterMax
      rwa [rule_of_plan hp]
    have hrun := Request.run_saturated hcount q.budget q.initial
    rw [Request.initial_saturated] at hrun
    simp only [hq]
    rw [hrun]
    cases q.runBy Progress.advanceExact q.budget q.initial with
    | error e => rfl
    | ok found => exact congrArg Except.ok Array.toList_map

/-- An expansion finds the times that it would find with a counter without a largest value, if the
count of the rule is below the largest value of the counter. -/
theorem expand_exact (rule : Rule) (window : Window) (maxEmptyPeriods : Nat) (max : Option Nat)
    (found : List Occurrence) (hc : ∀ n, rule.count = some n → n < counterMax)
    (h : rule.expand window maxEmptyPeriods max = .ok found) :
    ∃ exact, rule.expandExact window maxEmptyPeriods max = .ok exact ∧
      found.map Occurrence.time = exact.map Occurrence.time := by
  rw [expand_eq_saturated hc] at h
  obtain ⟨exact, he, rfl⟩ := map_eq_ok_iff.mp h
  exact ⟨exact, he, List.map_map.trans rfl⟩

/-- The first one of the last Fridays. -/
def oneFriday : Rule := { lastFriday with count := some 1 }

theorem expand_exact_oneFriday :
    (∀ n, oneFriday.count = some n → n < counterMax) ∧
    ∃ found, oneFriday.expand earlyDays 10 none = .ok found ∧ found.length = 1 ∧
    ∃ exact, oneFriday.expandExact earlyDays 10 none = .ok exact ∧
      found.map Occurrence.time = exact.map Occurrence.time := by
  have hc : ∀ n, oneFriday.count = some n → n < counterMax := by
    rintro n ⟨⟩
    decide
  exact ⟨hc, _, rfl, rfl, expand_exact oneFriday earlyDays 10 none _ hc rfl⟩

end Rule

/-! ### The largest count -/

/-- Steps that follow one another are the beginning of a run. -/
theorem Request.runBy_add (q : Request) (advance : Progress → Nat → Progress) (walk : Nat → Walk)
    {m : Nat} (h : ∀ i < m, q.stepBy advance (walk i) = .next (walk (i + 1))) (n : Nat) :
    q.runBy advance (m + n) (walk 0) = q.runBy advance n (walk m) := by
  induction m generalizing n with
  | zero => rw [Nat.zero_add]
  | succ m ih =>
    have hm := ih (fun i hi => h i (Nat.lt_succ_of_lt hi)) (n + 1)
    rw [Nat.add_assoc, Nat.add_comm 1, hm, runBy, h m (Nat.lt_succ_self m)]

/-- The first second of 1800. -/
def earlyStart : Timestamp := .startOfDay ⟨yearStart 1800, by decide, by decide⟩

theorem one_lt_day : 1 < 86400 := by decide

namespace Rule

/-- Every second from 1800 on, as often as a count can tell. -/
def everySecond : Rule where
  frequency := .secondly
  count := some counterMax
  anchor := some earlyStart

/-- The first second of 2024. -/
def firstSecond : Window := ⟨newYear, .of newYear.date ⟨1, one_lt_day⟩, by decide⟩

end Rule

namespace EverySecond

/-- The number of seconds from 1800 to 2024. -/
def gap : Nat := newYear.seconds - earlyStart.seconds

def plan : Plan := .filled Rule.everySecond earlyStart (.seconds earlyStart.seconds 1)

def request : Request := Rule.everySecond.request plan Rule.firstSecond 10

/-- The walk that has come to a second, ahead of the window. -/
def walk (position : Nat → Nat) (i : Nat) : Walk := ⟨i, 0, ⟨some (position i), #[]⟩⟩

variable {advance : Progress → Nat → Progress} {position : Nat → Nat} {s : Timestamp} {i k : Nat}
variable {p : Progress}

theorem seconds_newYear : newYear.seconds = earlyStart.seconds + gap := by decide

theorem exists_start (h : i < gap) : ∃ s, plan.cadence.start? i = some s ∧ s < newYear := by
  have hi : plan.cadence.second i = (earlyStart.seconds : Int) + i * 1 := rfl
  have hnew := seconds_newYear
  obtain ⟨s, hs⟩ := Cadence.exists_start (c := plan.cadence) (i := i) (t := newYear) (by decide)
    (by decide) (by omega)
  refine ⟨s, hs, ?_⟩
  have hsec := Cadence.second_start hs
  rw [Timestamp.lt_iff_seconds (Cadence.nano_start hs) rfl]
  omega

theorem step_eq (hs : plan.cadence.start? i = some s) (hb : s < Rule.firstSecond.before) :
    request.stepBy advance ⟨i, 0, p⟩ = request.finish i 0 (request.visitBy advance p s) := by
  have hstart : request.plan.cadence.start? i = some s := hs
  have hcand : request.plan.candidates s = .instants [s] := rfl
  have hend : request.endsBefore s = false := rfl
  have hbefore : ¬ request.window.before ≤ s := Timestamp.not_le.mpr hb
  rw [Request.stepBy, hstart]
  dsimp only
  rw [hend, decide_eq_false hbefore, Bool.or_self, if_neg Bool.false_ne_true, hcand]
  dsimp only
  rw [visitEach_cons]
  cases request.visitBy advance p s with
  | stop p => rfl
  | more p seen => cases seen <;> rfl

theorem visit_eq (hs : plan.cadence.start? i = some s) (hb : s < Rule.firstSecond.before)
    (ha : advance p 1 = ⟨some k, #[]⟩) : request.visitBy advance p s =
      if counterMax < k then .stop ⟨some k, #[]⟩
      else if s < newYear then .more ⟨some k, #[]⟩ true
      else .more ⟨some k, #[⟨s, some k⟩]⟩ true := by
  have hanchor : ¬ s < request.anchor := by
    have hsec := Cadence.second_start hs
    have hi : plan.cadence.second i = (earlyStart.seconds : Int) + i * 1 := rfl
    rw [Timestamp.not_lt, Timestamp.le_iff_seconds rfl (Cadence.nano_start hs)]
    change earlyStart.seconds ≤ _
    omega
  have hend : request.endsBefore s = false := rfl
  have hbefore : ¬ request.window.before ≤ s := Timestamp.not_le.mpr hb
  have hcount : request.countExceeded ⟨some k, #[]⟩ = decide (counterMax < k) := rfl
  rw [Request.visitBy, if_neg hanchor, if_neg (Bool.eq_false_iff.mp hend), ha]
  dsimp only
  rw [hcount, decide_eq_false hbefore, Bool.or_false]
  simp only [decide_eq_true_eq]
  rfl

theorem step_ahead (hi : i < gap)
    (ha : advance ⟨some (position i), #[]⟩ 1 = ⟨some (position (i + 1)), #[]⟩)
    (hc : position (i + 1) ≤ counterMax) :
    request.stepBy advance (walk position i) = .next (walk position (i + 1)) := by
  obtain ⟨s, hs, hafter⟩ := exists_start hi
  have hb := Timestamp.lt_trans hafter Rule.firstSecond.after_lt_before
  rw [walk, step_eq hs hb, visit_eq hs hb ha, if_neg (Nat.not_lt.mpr hc), if_pos hafter]
  rfl

theorem expandBy_eq : Rule.everySecond.expandBy advance Rule.firstSecond 10 none =
    (request.runBy advance (gap + 1) request.initial).map Array.toList := by
  have hbudget : request.budget = gap + 1 := by decide
  rw [← hbudget]
  rfl

theorem expand_eq : Rule.everySecond.expand Rule.firstSecond 10 none =
    .ok [⟨newYear, some counterMax⟩] := by
  have hadvance : ∀ i, (⟨Request.mark true i, #[]⟩ : Progress).advance 1 =
      ⟨Request.mark true (i + 1), #[]⟩ := fun _ => Request.advance_mark
  have hstep : ∀ i < gap, request.stepBy Progress.advance (walk (min · counterMax) i) =
      .next (walk (min · counterMax) (i + 1)) :=
    fun i hi => step_ahead hi (hadvance i) (Nat.min_le_right _ _)
  have hlast : plan.cadence.start? gap = some newYear := by decide
  have hb := Rule.firstSecond.after_lt_before
  have hgap : min (min gap counterMax + 1) counterMax = counterMax := by decide
  have ha : (⟨some (min gap counterMax), #[]⟩ : Progress).advance 1 = ⟨some counterMax, #[]⟩ :=
    congrArg (fun k => (⟨some k, #[]⟩ : Progress)) hgap
  rw [Rule.expand, expandBy_eq]
  change (request.runBy _ _ (walk (min · counterMax) 0)).map _ = _
  rw [Request.runBy_add _ _ _ hstep, walk, Request.runBy, step_eq hlast hb, visit_eq hlast hb ha,
    if_neg (Nat.lt_irrefl counterMax), if_neg (Timestamp.lt_irrefl newYear)]
  rfl

theorem expandExact_eq : Rule.everySecond.expandExact Rule.firstSecond 10 none = .ok [] := by
  have hlt : counterMax < gap := by decide
  obtain ⟨n, hn⟩ := Nat.exists_eq_add_of_lt hlt
  have hstep : ∀ i < counterMax, request.stepBy Progress.advanceExact (walk id i) =
      .next (walk id (i + 1)) := fun i hi => step_ahead (hi.trans hlt) rfl hi
  obtain ⟨s, hs, hafter⟩ := exists_start hlt
  have hb := Timestamp.lt_trans hafter Rule.firstSecond.after_lt_before
  have ha : (⟨some (id counterMax), #[]⟩ : Progress).advanceExact 1 =
    ⟨some (counterMax + 1), #[]⟩ := rfl
  rw [Rule.expandExact, expandBy_eq, hn]
  change (request.runBy _ (counterMax + (n + 1 + 1)) (walk id 0)).map _ = _
  rw [Request.runBy_add _ _ _ hstep, walk, Request.runBy, step_eq hs hb, visit_eq hs hb ha,
    if_pos (Nat.lt_succ_self counterMax)]
  rfl

end EverySecond

/-- With the largest count, the counter never passes the count, and the rule goes on. -/
theorem Rule.expand_everySecond : everySecond.Valid ∧
    everySecond.expand firstSecond 10 none = .ok [⟨newYear, some counterMax⟩] ∧
    everySecond.expandExact firstSecond 10 none = .ok [] :=
  ⟨by decide, EverySecond.expand_eq, EverySecond.expandExact_eq⟩

end Recurrence
