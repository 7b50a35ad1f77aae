import Mathlib.Data.Set.Card
import Mathlib.Order.Interval.Finset.Nat
import Recurrence.Proofs.Expansion.RuleSet

/-!
# Walks that give up

A walk counts the steps that saw no occurrence, and one step may leap over many periods. It gives up
only after more consecutive periods without a candidate than it tolerates, each of which starts
inside the window and before the end of the rule (`exists_run_of_error`).

The number of occurrences is compared with the count of the rule when another candidate is visited,
not between periods. So a rule that has reached its count may still give up in the gap that follows,
as `newYearOnce` does, but not after it has exceeded its count (`Request.Counted`).
-/

namespace Recurrence

set_option autoImplicit false

open Calendar

namespace Plan

variable {p : Plan} {anchor s : Timestamp} {w : Window} {i j : Nat}

/-- The period starts before the end of the window and not after the end of the rule. -/
def InReach (p : Plan) (w : Window) (i : Nat) : Prop :=
  ∃ s, p.cadence.start? i = some s ∧ s < w.before ∧ ∀ last, p.rule.last = some last → s ≤ last

/-- The period has no candidate from the anchor on. -/
def Vacant (p : Plan) (anchor : Timestamp) (i : Nat) : Prop := ∀ t ∈ p.period i, t < anchor

/-- The number of candidates from the anchor on in the periods before the `i`-th. -/
def produced (p : Plan) (anchor : Timestamp) (i : Nat) : Nat :=
  ((List.range i).flatMap p.period).countP (anchor ≤ ·)

theorem produced_succ (p : Plan) (anchor : Timestamp) (i : Nat) :
    p.produced anchor (i + 1) = p.produced anchor i + (p.period i).countP (anchor ≤ ·) := by
  rw [produced, List.range_succ, List.flatMap_append, List.countP_append, List.flatMap_singleton]
  rfl

theorem produced_of_vacant (hij : i ≤ j) (h : ∀ k, i ≤ k → k < j → p.Vacant anchor k) :
    p.produced anchor j = p.produced anchor i := by
  induction j, hij using Nat.le_induction with
  | base => rfl
  | succ j hij ih =>
    have hzero : (p.period j).countP (anchor ≤ ·) = 0 := by
      rw [List.countP_eq_zero]
      intro t ht hle
      exact Timestamp.not_lt.mpr (of_decide_eq_true hle) (h j hij (Nat.lt_succ_self j) t ht)
    rw [produced_succ, hzero, Nat.add_zero]
    exact ih fun k hk hkj => h k hk (Nat.lt_succ_of_lt hkj)

theorem produced_mono (p : Plan) (anchor : Timestamp) (hij : i ≤ j) :
    p.produced anchor i ≤ p.produced anchor j := by
  induction j, hij using Nat.le_induction with
  | base => exact Nat.le_refl _
  | succ j _ ih =>
    rw [produced_succ]
    exact Nat.le_add_right_of_le ih

theorem vacant_of_eq_nil (h : p.period i = []) : p.Vacant anchor i := by
  intro t ht
  rw [h] at ht
  cases ht

theorem Lawful.produced_nextIndex (h : p.Lawful) (hs : p.cadence.start? i = some s) :
    p.produced anchor (p.nextIndex i s) =
      p.produced anchor i + (p.period i).countP (anchor ≤ ·) := by
  rw [produced_of_vacant (i := i + 1) (p.lt_nextIndex i s), produced_succ]
  intro k hk hlt
  exact vacant_of_eq_nil (h.period_of_leap hs hk hlt)

end Plan

namespace Request

variable {q : Request} {w w' : Walk} {p r : Progress} {s t : Timestamp} {l : List Timestamp}
variable {seen new known : Bool} {k : Nat} {e : ExpansionError}

theorem inReach_of_open {i : Nat} (ho : q.Open i s) : q.plan.InReach q.window i := by
  refine ⟨s, ho.start, ho.lt_before, ?_⟩
  intro last hlast
  have he := ho.not_ended
  rw [endsBefore_eq, rule, hlast] at he
  simpa using he

theorem visit_eq_more (hp : p.position = mark known k) (h : q.visit p t = .more r new) :
    t < q.anchor ∧ new = false ∧ r = p ∨
      q.anchor ≤ t ∧ new = true ∧ r.position = mark known (k + 1) ∧ q.countExceeded r = false := by
  have hadv : (p.advance 1).position = mark known (k + 1) := by
    obtain ⟨position, found⟩ := p
    subst hp
    rw [advance_mark]
  by_cases ha : t < q.anchor
  · rw [visit_of_lt_anchor ha] at h
    cases h
    exact Or.inl ⟨ha, rfl, rfl⟩
  rw [Timestamp.not_lt] at ha
  right
  by_cases he : q.endsBefore t = true
  · rw [visit_of_ended ha he] at h
    cases h
  rw [Bool.not_eq_true] at he
  by_cases hc : q.countExceeded (p.advance 1) = true ∨ q.window.before ≤ t
  · rw [visit_of_over ha he hc] at h
    cases h
  rw [not_or, Bool.not_eq_true, Timestamp.not_le] at hc
  obtain ⟨hc, hb⟩ := hc
  by_cases hw : t < q.window.after
  · rw [visit_of_lt_after ha he hc hw] at h
    cases h
    exact ⟨ha, rfl, hadv, hc⟩
  · rw [visit_of_contains ha he hc ⟨Timestamp.not_lt.mp hw, hb⟩] at h
    split at h
    · cases h
    · cases h
      exact ⟨ha, rfl, hadv, hc⟩

/-- A walk that goes on has counted all candidates from the anchor on. -/
theorem visitEach_eq_more (hp : p.position = mark known k) (hc : q.countExceeded p = false)
    (h : visitEach q.visit l seen p = .more r new) :
    r.position = mark known (k + l.countP (q.anchor ≤ ·)) ∧ q.countExceeded r = false ∧
      (new = false → seen = false ∧ ∀ t ∈ l, t < q.anchor) := by
  induction l generalizing k seen p with
  | nil =>
    cases h
    exact ⟨hp, hc, fun hn => ⟨hn, fun _ ht => nomatch ht⟩⟩
  | cons t l ih =>
    rw [visitEach_cons] at h
    cases hv : q.visit p t with
    | stop p' =>
      rw [hv] at h
      cases h
    | more p' b =>
      rw [hv, Flow.bind_more] at h
      rcases visit_eq_more hp hv with ⟨ha, rfl, rfl⟩ | ⟨ha, rfl, hp', hc'⟩
      · obtain ⟨hpos, hcount, hnew⟩ := ih hp hc h
        rw [List.countP_cons_of_neg (by simpa [Timestamp.not_le] using ha)]
        refine ⟨hpos, hcount, ?_⟩
        intro hn
        obtain ⟨hseen, hl⟩ := hnew hn
        rw [Bool.or_false] at hseen
        exact ⟨hseen, List.forall_mem_cons.mpr ⟨ha, hl⟩⟩
      · obtain ⟨hpos, hcount, hnew⟩ := ih hp' hc' h
        rw [List.countP_cons_of_pos (by simpa using ha), Nat.add_comm _ 1, ← Nat.add_assoc]
        refine ⟨hpos, hcount, ?_⟩
        intro hn
        obtain ⟨hseen, -⟩ := hnew hn
        rw [Bool.or_true] at hseen
        cases hseen

/-- What a walk knows between two periods. -/
structure Counted (q : Request) (w : Walk) : Prop where
  /-- The latest periods were vacant, at least as many as were counted. -/
  run : ∃ i, q.firstIndex ≤ i ∧ i + w.emptyRun ≤ w.index ∧
    ∀ j, i ≤ j → j < w.index → q.plan.Vacant q.anchor j
  position : w.progress.position = mark (q.firstIndex = 0) (q.plan.produced q.anchor w.index)
  not_exceeded : q.countExceeded w.progress = false

theorem counted_initial (q : Request) : q.Counted q.initial where
  run := ⟨q.firstIndex, Nat.le_refl _, Nat.le_refl _, fun j hij hj => by
    dsimp only [initial] at hj
    omega⟩
  position := by
    rw [initial]
    by_cases h0 : q.firstIndex = 0
    · rw [h0]
      rfl
    · simp only [h0, decide_false, mark, Bool.false_eq_true, if_false]
  not_exceeded := by
    unfold countExceeded initial
    split
    · next hc hp =>
      dsimp only at hp
      split at hp
      · cases hp
        exact decide_eq_false (Nat.not_lt_zero _)
      · cases hp
    · rfl

/-- A step counts what it has seen; a leap passes vacant periods only. -/
theorem counted_next (hp : q.plan.Lawful) (hw : q.Counted w) (h : q.step w = .next w') :
    q.Counted w' := by
  obtain ⟨s, ho⟩ := exists_open_of_next h
  rw [step_of_open hp ho, resume_eq_next_iff] at h
  obtain ⟨p, seen, hv, -, rfl⟩ := h
  obtain ⟨hpos, hcount, hvacant⟩ := visitEach_eq_more hw.position hw.not_exceeded hv
  refine ⟨?_, ?_, hcount⟩
  · have hlt := q.plan.lt_nextIndex w.index s
    cases seen with
    | true =>
      obtain ⟨i, hi, hle, -⟩ := hw.run
      refine ⟨q.plan.nextIndex w.index s, by omega, Nat.le_refl _, ?_⟩
      intro j hij hj
      exact absurd hij (Nat.not_le.mpr hj)
    | false =>
      obtain ⟨i, hi, hle, hrun⟩ := hw.run
      refine ⟨i, hi, ?_, ?_⟩
      · have : emptyRunAfter w.emptyRun false ≤ w.emptyRun + 1 := Nat.min_le_left _ _
        dsimp only
        omega
      · intro j hij hj
        rcases Nat.lt_trichotomy j w.index with hlt | rfl | hgt
        · exact hrun j hij hlt
        · exact (hvacant rfl).2
        · exact Plan.vacant_of_eq_nil (hp.period_of_leap ho.start hgt hj)
  · rw [hpos, hp.produced_nextIndex ho.start]

theorem resume_eq_error_iff {f : Flow} {next n : Nat} : q.resume next n f = .halt (.error e) ↔
    ∃ p, f = .more p false ∧ q.maxEmptyPeriods < min (n + 1) counterMax ∧
      e = .tooManyEmptyPeriods q.maxEmptyPeriods := by
  constructor
  · intro h
    cases f with
    | stop p => cases h
    | more p seen =>
      cases seen with
      | true => cases h
      | false =>
        dsimp only [resume, skip] at h
        split at h
        · next hlt =>
          cases h
          exact ⟨p, rfl, hlt, rfl⟩
        · cases h
  · intro h
    obtain ⟨p, rfl, hlt, rfl⟩ := h
    exact if_pos hlt

/-- Before a walk gives up, it has counted as many empty steps as it may, and it sees one more. -/
theorem exists_counted_of_error (hp : q.plan.Lawful) (hw : q.Counted w)
    (h : q.Returns w (.error e)) : e = .tooManyEmptyPeriods q.maxEmptyPeriods ∧
      ∃ w', q.Counted w' ∧ (∃ s, q.Open w'.index s) ∧ q.plan.Vacant q.anchor w'.index ∧
        q.maxEmptyPeriods ≤ w'.emptyRun := by
  generalize hr : Except.error e = r at h
  induction h with
  | @halt w r h =>
    subst hr
    by_cases ho : ∃ s, q.Open w.index s
    · obtain ⟨s, ho⟩ := ho
      rw [step_of_open hp ho, resume_eq_error_iff] at h
      obtain ⟨p, hv, hlt, rfl⟩ := h
      obtain ⟨-, -, hvacant⟩ := visitEach_eq_more hw.position hw.not_exceeded hv
      exact ⟨rfl, w, hw, ⟨s, ho⟩, (hvacant rfl).2, by omega⟩
    · rw [step_of_closed (not_exists.mp ho)] at h
      cases h
  | next h _ ih => exact ih (counted_next hp hw h) hr

/-- A walk gives up in a run of vacant periods, before the count of the rule is exceeded. -/
theorem exists_run_of_error (hp : q.plan.Lawful) (h : q.Returns q.initial (.error e)) :
    e = .tooManyEmptyPeriods q.maxEmptyPeriods ∧ ∃ i, q.firstIndex ≤ i ∧
      (∀ k ≤ q.maxEmptyPeriods, q.plan.InReach q.window (i + k) ∧
        q.plan.Vacant q.anchor (i + k)) ∧
      ∀ n, q.rule.limit? = some n → q.plan.produced q.anchor (i + q.maxEmptyPeriods + 1) ≤ n := by
  obtain ⟨he, w, hw, ⟨s, ho⟩, hvacant, hle⟩ := exists_counted_of_error hp q.counted_initial h
  obtain ⟨i, hi, hrun, hall⟩ := hw.run
  have hall' : ∀ j, i ≤ j → j < w.index + 1 → q.plan.Vacant q.anchor j := by
    intro j hij hj
    rcases Nat.lt_succ_iff_lt_or_eq.mp hj with hlt | rfl
    · exact hall j hij hlt
    · exact hvacant
  refine ⟨he, i, hi, ?_, ?_⟩
  · intro k hk
    obtain ⟨s', ho'⟩ := open_of_le hp ho (show i + k ≤ w.index by omega)
    exact ⟨inReach_of_open ho', hall' _ (by omega) (by omega)⟩
  · intro n hn
    have hknown : decide (q.firstIndex = 0) = false → q.rule.count = none := by
      intro h0
      exact (Classical.not_not.mp (mt firstIndex_eq_zero_iff.mpr (of_decide_eq_false h0))).1
    have hle : q.plan.produced q.anchor w.index ≤ n := by
      rw [← Nat.not_lt]
      intro hlt
      have hx : q.countExceeded ⟨mark (q.firstIndex = 0) (q.plan.produced q.anchor w.index),
          w.progress.found⟩ = true := (countExceeded_mark hknown).mpr ⟨n, hn, hlt⟩
      rw [← hw.position, hw.not_exceeded] at hx
      cases hx
    rw [Plan.produced_of_vacant (i := i) (by omega) fun k hk hlt => hall' k hk (by omega)]
    rwa [Plan.produced_of_vacant (i := i) (by omega) hall] at hle

end Request

namespace Rule

variable {r : Rule} {w : Window} {maxEmptyPeriods : Nat} {max : Option Nat} {e : ExpansionError}

/-- More consecutive periods than tolerated, from the `i`-th on, are in reach and vacant. -/
structure VacantRun (r : Rule) (w : Window) (maxEmptyPeriods : Nat) (p : Plan) (i : Nat) :
    Prop where
  plan : Plan.of? r (r.anchor.getD w.after) = some p
  first_le : (r.request p w maxEmptyPeriods).firstIndex ≤ i
  in_reach : ∀ k ≤ maxEmptyPeriods, p.InReach w (i + k)
  vacant : ∀ k ≤ maxEmptyPeriods, p.Vacant (r.anchor.getD w.after) (i + k)

theorem vacantRun_of_error (hv : r.Valid) (h : r.expand w maxEmptyPeriods max = .error e) :
    e = .tooManyEmptyPeriods maxEmptyPeriods ∧ ∃ p i, r.VacantRun w maxEmptyPeriods p i ∧
      ∀ n, r.limit? = some n →
        p.produced (r.anchor.getD w.after) (i + maxEmptyPeriods + 1) ≤ n := by
  cases hp : Plan.of? r (r.anchor.getD w.after) with
  | none =>
    rw [expand_of_none hp] at h
    cases h
  | some p =>
    obtain ⟨he, i, hi, hrun, hcount⟩ := Request.exists_run_of_error
      (q := (r.request p w maxEmptyPeriods).capped max) (Plan.lawful_of_valid hv hp)
      ((expand_eq_iff hv hp).mp h)
    refine ⟨he, p, i, ⟨hp, hi, fun k hk => (hrun k hk).1, fun k hk => (hrun k hk).2⟩, ?_⟩
    intro n hn
    apply hcount n
    change p.rule.limit? = some n
    rw [rule_of_plan hp, hn]

/-- The periods of a vacant run are more in number than tolerated. -/
theorem lt_encard_of_vacantRun {p : Plan} {i : Nat} (h : r.VacantRun w maxEmptyPeriods p i) :
    (maxEmptyPeriods : ENat) <
      {j | (r.request p w maxEmptyPeriods).firstIndex ≤ j ∧ p.InReach w j}.encard := by
  have hsub : (Finset.Icc i (i + maxEmptyPeriods) : Set Nat) ⊆
      {j | (r.request p w maxEmptyPeriods).firstIndex ≤ j ∧ p.InReach w j} := by
    intro j hj
    obtain ⟨hij, hj⟩ := Finset.mem_Icc.mp hj
    obtain ⟨k, rfl⟩ := Nat.exists_eq_add_of_le hij
    exact ⟨Nat.le_trans h.first_le hij, h.in_reach k (by omega)⟩
  apply lt_of_lt_of_le _ (Set.encard_le_encard hsub)
  rw [Set.encard_coe_eq_coe_finsetCard, Nat.card_Icc, Nat.cast_lt]
  omega

/-- A rule gives up only in a run of vacant periods that start inside the window and before the end
of the rule, so it does not give up where it has no more such periods than are tolerated. -/
theorem expand_error_vacant (r : Rule) (w : Window) (maxEmptyPeriods : Nat) (max : Option Nat)
    (hv : r.Valid) :
    (∀ e, r.expand w maxEmptyPeriods max = .error e →
      e = .tooManyEmptyPeriods maxEmptyPeriods ∧ ∃ p i, r.VacantRun w maxEmptyPeriods p i) ∧
    ∀ p, Plan.of? r (r.anchor.getD w.after) = some p →
      {j | (r.request p w maxEmptyPeriods).firstIndex ≤ j ∧ p.InReach w j}.encard ≤
        maxEmptyPeriods →
      ∃ found, r.expand w maxEmptyPeriods max = .ok found := by
  constructor
  · intro e h
    obtain ⟨he, p, i, hrun, -⟩ := vacantRun_of_error hv h
    exact ⟨he, p, i, hrun⟩
  · intro p hp hfew
    cases h : r.expand w maxEmptyPeriods max with
    | ok found => exact ⟨found, rfl⟩
    | error e =>
      obtain ⟨-, p', i, hrun, -⟩ := vacantRun_of_error hv h
      have heq := hrun.plan
      rw [hp] at heq
      cases heq
      exact absurd hfew (not_le_of_gt (lt_encard_of_vacantRun hrun))

/-- Every 30th of February. -/
def noDay : Rule where
  frequency := .daily
  byMonth := .singleton 2
  byMonthDay := .singleton 30

theorem expand_noDay : noDay.Valid ∧
    noDay.expand earlyDays 3 none = .error (.tooManyEmptyPeriods 3) ∧
    (∃ p i, noDay.VacantRun earlyDays 3 p i) ∧
    ∀ p, Plan.of? noDay newYear = some p →
      {j | (noDay.request p earlyDays 3).firstIndex ≤ j ∧ p.InReach earlyDays j}.encard ≤
        (3 : Nat) →
      ∃ found, noDay.expand earlyDays 3 none = .ok found := by
  have hv : noDay.Valid := by decide
  have hall := expand_error_vacant noDay earlyDays 3 none hv
  exact ⟨hv, rfl, (hall.1 _ rfl).2, hall.2⟩

end Rule

/-- What an expansion shows of its rules when it fails: one of them has met more vacant periods in a
row than tolerated, and had not exceeded its count before. -/
theorem RuleSet.expand_error_within_count (s : RuleSet) (w : Window) (maxEmptyPeriods : Nat)
    (max : Option Nat) (e : ExpansionError) (hv : ∀ r ∈ s.rule :: s.exceptRules, r.Valid)
    (h : s.expand w ⟨maxEmptyPeriods, max⟩ = .error e) :
    e = .tooManyEmptyPeriods maxEmptyPeriods ∧
      ∃ r ∈ s.rule :: s.exceptRules, ∃ p i, r.VacantRun w maxEmptyPeriods p i ∧
        ∀ n, r.count = some n → n < counterMax →
          p.produced (r.anchor.getD w.after) (i + maxEmptyPeriods + 1) ≤ n := by
  obtain ⟨r, hr, max, he⟩ := exists_error_of_expand h
  obtain ⟨he, p, i, hrun, hcount⟩ := Rule.vacantRun_of_error (hv r hr) he
  refine ⟨he, r, hr, p, i, hrun, ?_⟩
  intro n hn hlt
  apply hcount n
  rw [Rule.limit?, hn, Option.filter_some, if_pos (decide_eq_true hlt)]

/-- The first of a month, once: New Year's Day of 2024. -/
def newYearOnce : Rule where
  frequency := .daily
  count := some 1
  byMonthDay := .singleton 1
  anchor := some newYear

theorem produced_newYearOnce {p : Plan} {i : Nat} (h : newYearOnce.VacantRun earlyDays 5 p i) :
    1 ≤ p.produced newYear i := by
  have hp : Plan.of? newYearOnce newYear = some p := h.plan
  have hfirst : p.period 0 = [newYear] := by
    have hplan : (Plan.of? newYearOnce newYear).map (fun p => p.period 0) = some [newYear] := by
      decide
    rw [hp] at hplan
    exact Option.some.inj hplan
  have hone : p.produced newYear 1 = 1 := by
    rw [Plan.produced_succ, hfirst]
    rfl
  have hi : i ≠ 0 := by
    rintro rfl
    have hvacant := h.vacant 0 (Nat.zero_le 5) newYear
    rw [Nat.add_zero, hfirst] at hvacant
    exact Timestamp.lt_irrefl _ (hvacant List.mem_cons_self)
  rw [← hone]
  exact p.produced_mono newYear (Nat.one_le_iff_ne_zero.mpr hi)

/-- A rule that has reached its count still gives up in the gap that follows, as the rule of a set
and as an excepted one. -/
theorem newYearOnce_gives_up : newYearOnce.Valid ∧ newYearOnce.count = some 1 ∧
    newYearOnce.expand earlyDays 5 none = .error (.tooManyEmptyPeriods 5) ∧
    (∀ p i, newYearOnce.VacantRun earlyDays 5 p i → 1 ≤ p.produced newYear i) ∧
    RuleSet.expand { rule := lastFriday, exceptRules := [newYearOnce] } earlyDays ⟨5, none⟩ =
      .error (.tooManyEmptyPeriods 5) :=
  ⟨by decide, rfl, rfl, fun _ _ => produced_newYearOnce, rfl⟩

theorem expand_error_newYearOnce :
    (∀ r ∈ newYearOnce :: [], r.Valid) ∧
    RuleSet.expand { rule := newYearOnce } earlyDays ⟨5, none⟩ =
      .error (.tooManyEmptyPeriods 5) ∧
    ∃ r ∈ newYearOnce :: [], ∃ p i, r.VacantRun earlyDays 5 p i ∧
      ∀ n, r.count = some n → n < counterMax →
        p.produced (r.anchor.getD earlyDays.after) (i + 5 + 1) ≤ n := by
  have hv : ∀ r ∈ newYearOnce :: [], r.Valid := by decide
  exact ⟨hv, rfl, (RuleSet.expand_error_within_count { rule := newYearOnce } earlyDays 5 none _ hv
    rfl).2⟩

end Recurrence
