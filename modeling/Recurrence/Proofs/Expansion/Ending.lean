import Recurrence.Proofs.Calendar.Form
import Recurrence.Proofs.Expansion.RuleSet

/-!
# The last time of a rule

A last time does what an earlier end of the window does (`step_endingAt`), although it is compared
in other places and counts itself as inside.
-/

namespace Recurrence

set_option autoImplicit false

open Calendar

/-- The same rule, up to and with a last time. -/
def Rule.endingAt (r : Rule) (last : Timestamp) : Rule := { r with last := some last }

/-- The same plan, up to and with a last time. -/
def Plan.endingAt (p : Plan) (last : Timestamp) : Plan := { p with rule := p.rule.endingAt last }

/-- The part of a window that ends with a last time, up to the second after it. -/
def Window.endingAt? (w : Window) (last : Timestamp) : Option Window := do
  let next ← Timestamp.ofSeconds? (last.seconds + 1)
  Window.of? w.after (if w.before ≤ next then w.before else next)

/-- The window `v` has the same start as `w` and, of its whole seconds, those up to `last`. -/
structure Window.EndsAt (v w : Window) (last : Timestamp) : Prop where
  after_eq : v.after = w.after
  lt_before_iff : ∀ t : Timestamp, t.nano = 0 → (t < v.before ↔ t < w.before ∧ t ≤ last)

theorem Window.exists_endingAt {w : Window} {last : Timestamp} (hlast : last.Plain)
    (hle : w.after ≤ last) : ∃ v, w.endingAt? last = some v ∧ v.EndsAt w last := by
  have hclock := last.time.lt_day
  have hday : last.seconds + 1 ≤ last.date.index * 86400 + 86400 := by
    unfold Timestamp.seconds
    omega
  obtain ⟨next, hnext⟩ := Cadence.exists_seconds_of_year hlast.year_le hday
  obtain ⟨hnano, hseconds⟩ := Timestamp.ofSeconds?_eq_some_iff.mp hnext
  have hlater : last < next := by
    rw [Timestamp.lt_iff_seconds hlast.nano_eq hnano]
    omega
  have hnext_iff : ∀ t : Timestamp, t.nano = 0 → (t < next ↔ t ≤ last) := by
    intro t ht
    rw [Timestamp.lt_iff_seconds ht hnano, Timestamp.le_iff_seconds ht hlast.nano_eq]
    omega
  simp only [endingAt?, hnext, Option.bind_eq_bind, Option.bind_some, of?]
  split
  · next hb =>
    rw [dif_pos w.after_lt_before]
    refine ⟨w, rfl, rfl, fun t ht => ?_⟩
    rw [iff_self_and, ← hnext_iff t ht]
    exact fun h => Timestamp.lt_of_lt_of_le h hb
  · next hb =>
    rw [Timestamp.not_le] at hb
    rw [dif_pos (Timestamp.lt_of_le_of_lt hle hlater)]
    refine ⟨_, rfl, rfl, fun t ht => ?_⟩
    rw [hnext_iff t ht, iff_and_self, ← hnext_iff t ht]
    exact fun h => Timestamp.lt_trans h hb

theorem Rule.Valid.endingAt {r : Rule} (hv : r.Valid) (hc : r.count = none) (last : Timestamp) :
    (r.endingAt last).Valid := by
  cases hv
  constructor
  case one_limit => exact Or.inl hc
  all_goals assumption

namespace Plan

variable {p : Plan}

theorem of?_endingAt (r : Rule) (anchor last : Timestamp) :
    of? (r.endingAt last) anchor = (of? r anchor).map fun p => p.endingAt last := by
  rw [of?, of?, Option.map_map]
  rfl

/-- Neither the periods nor their candidates depend on the last time. -/
theorem Lawful.endingAt (h : p.Lawful) (last : Timestamp) : (p.endingAt last).Lawful :=
  ⟨h.step_pos, h.second_nonneg, h.length_times, h.timesPerDay_pos, h.ascending, h.within⟩

end Plan

namespace Request

def endingAt (q : Request) (last : Timestamp) : Request := { q with plan := q.plan.endingAt last }

def within (q : Request) (v : Window) : Request := { q with window := v }

variable {q : Request} {v : Window} {w : Walk} {last s t : Timestamp} {i : Nat}

theorem countExceeded_of_none (hc : q.rule.count = none) (p : Progress) :
    q.countExceeded p = false := by
  rw [countExceeded, hc]

theorem endsBefore_of_none (hl : q.rule.last = none) (t : Timestamp) : q.endsBefore t = false := by
  rw [endsBefore, hl]
  rfl

theorem endsBefore_endingAt : (q.endingAt last).endsBefore t = false ↔ t ≤ last := by
  rw [← Timestamp.not_lt]
  exact decide_eq_false_iff_not

section Inside

variable (hc : q.rule.count = none) (hl : q.rule.last = none) (hv : v.EndsAt q.window last)
include hl hv

theorem open_endingAt_iff : (q.endingAt last).Open i s ↔ (q.within v).Open i s := by
  constructor
  · intro ho
    have hle := endsBefore_endingAt.mp ho.not_ended
    exact ⟨ho.start, (hv.lt_before_iff s (Cadence.nano_start ho.start)).mpr ⟨ho.lt_before, hle⟩,
      endsBefore_of_none hl s, ho.not_exhausted⟩
  · intro ho
    obtain ⟨hb, hle⟩ := (hv.lt_before_iff s (Cadence.nano_start ho.start)).mp ho.lt_before
    exact ⟨ho.start, hb, endsBefore_endingAt.mpr hle, ho.not_exhausted⟩

include hc

/-- Where one of the walks stops, the other does, though not with the same position. -/
theorem kept_visit_endingAt (ht : t.nano = 0) (p : Progress) :
    ((q.endingAt last).visit p t).kept = ((q.within v).visit p t).kept := by
  by_cases ha : t < q.anchor
  · rw [visit_of_lt_anchor (q := q.endingAt last) ha, visit_of_lt_anchor (q := q.within v) ha]
  rw [Timestamp.not_lt] at ha
  have hiff := hv.lt_before_iff t ht
  have hends : (q.within v).endsBefore t = false := endsBefore_of_none hl t
  have hcount : (q.within v).countExceeded (p.advance 1) = false := countExceeded_of_none hc _
  by_cases hle : t ≤ last
  · have hends' := endsBefore_endingAt (q := q).mpr hle
    by_cases hb : t < q.window.before
    · have hb' := hiff.mpr ⟨hb, hle⟩
      by_cases hw : t < q.window.after
      · rw [visit_of_lt_after (q := q.endingAt last) ha hends' hcount hw,
          visit_of_lt_after (q := q.within v) ha hends hcount (hv.after_eq.symm ▸ hw)]
      · rw [Timestamp.not_lt] at hw
        rw [visit_of_contains (q := q.endingAt last) ha hends' hcount ⟨hw, hb⟩,
          visit_of_contains (q := q.within v) ha hends hcount ⟨hv.after_eq.symm ▸ hw, hb'⟩]
        rfl
    · have hb' : ¬ t < v.before := fun h => hb (hiff.mp h).1
      rw [Timestamp.not_lt] at hb hb'
      rw [visit_of_over (q := q.endingAt last) ha hends' (Or.inr hb),
        visit_of_over (q := q.within v) ha hends (Or.inr hb')]
  · have hends' : (q.endingAt last).endsBefore t = true :=
      Bool.of_not_eq_false fun h => hle (endsBefore_endingAt.mp h)
    have hb' : ¬ t < v.before := fun h => hle (hiff.mp h).2
    rw [Timestamp.not_lt] at hb'
    rw [visit_of_ended (q := q.endingAt last) ha hends',
      visit_of_over (q := q.within v) ha hends (Or.inr hb')]
    rfl

theorem step_endingAt (hp : q.plan.Lawful) (w : Walk) :
    (q.within v).step w = (q.endingAt last).step w := by
  by_cases ho : ∃ s, (q.endingAt last).Open w.index s
  · obtain ⟨s, ho⟩ := ho
    have ho' := (open_endingAt_iff hl hv).mp ho
    have hkept := kept_visitEach_congr (l := q.plan.period w.index)
      (fun p t ht => kept_visit_endingAt hc hl hv (hp.mem_period ht).1 p) false w.progress
    have hwithin := step_of_open (q := q.within v) hp ho'
    have hending := step_of_open (q := q.endingAt last) (hp.endingAt last) ho
    rw [← resume_kept] at hwithin hending
    rw [hwithin, hending]
    exact congrArg _ hkept.symm
  · have hclosed : ∀ s, ¬ (q.within v).Open w.index s :=
      fun s ho' => ho ⟨s, (open_endingAt_iff hl hv).mpr ho'⟩
    rw [step_of_closed hclosed, step_of_closed (not_exists.mp ho)]

end Inside

section Ahead

/-- A walk that finds nothing in its first period and does not look at a second one. -/
theorem returns_of_next_closed (hp : q.plan.Lawful)
    (houtside : ∀ t, q.window.Contains t → q.endsBefore t = true)
    (hclosed : ∀ i, w.index < i → ∀ s, ¬ q.Open i s) (hrun : w.emptyRun = 0)
    (hm : 1 ≤ q.maxEmptyPeriods) : q.Returns w (.ok w.progress.found) := by
  by_cases ho : ∃ s, q.Open w.index s
  · obtain ⟨s, ho⟩ := ho
    have hstep := step_of_open hp ho
    have hfound := found_visitEach_of_forall (l := q.plan.period w.index)
      (fun p t _ => found_visit_of_outside (houtside t) p) false w.progress
    rw [hrun] at hstep
    rw [← hfound]
    cases hf : visitEach q.visit (q.plan.period w.index) false w.progress with
    | stop p =>
      rw [hf] at hstep
      exact .halt hstep
    | more p seen =>
      rw [hf] at hstep
      have hseen : emptyRunAfter 0 seen ≤ 1 := by
        cases seen with
        | true => exact Nat.zero_le 1
        | false => exact Nat.min_le_left 1 counterMax
      rw [resume_eq_next_iff.mpr ⟨p, seen, rfl, hseen.trans hm, rfl⟩] at hstep
      apply Returns.next hstep
      apply Returns.halt
      exact step_of_closed (hclosed _ (q.plan.lt_nextIndex w.index s))
  · exact .halt (step_of_closed (not_exists.mp ho))

variable (hp : q.plan.Lawful) (hlast : last < q.window.after)
include hp hlast

theorem not_open_of_ended_lt (hi : q.plan.cadence.ended q.window.after < i) (s : Timestamp) :
    ¬ (q.endingAt last).Open i s := by
  intro ho
  have hstart := Cadence.second_start ho.start
  have hlt := Cadence.seconds_lt_second_of_ended_lt hp.step_pos hi
  have hle := Timestamp.seconds_le_of_le (endsBefore_endingAt.mp ho.not_ended)
  have hle' := Timestamp.seconds_le_of_le (Timestamp.le_of_lt hlast)
  change q.plan.cadence.second i = _ at hstart
  omega

theorem returns_of_last_lt_after (hc : q.rule.count = none) (hm : 1 ≤ q.maxEmptyPeriods) :
    (q.endingAt last).Returns (q.endingAt last).initial (.ok #[]) := by
  have hfirst : (q.endingAt last).initial.index = q.plan.cadence.ended q.window.after := by
    change (if q.rule.count.isNone then _ else 0) = _
    rw [hc]
    rfl
  have hclosed : ∀ i, (q.endingAt last).initial.index < i → ∀ s, ¬ (q.endingAt last).Open i s := by
    intro i hi
    rw [hfirst] at hi
    exact not_open_of_ended_lt hp hlast hi
  have houtside : ∀ t, (q.endingAt last).window.Contains t → (q.endingAt last).endsBefore t := by
    intro t ht
    exact decide_eq_true (Timestamp.lt_of_lt_of_le hlast ht.1)
  exact returns_of_next_closed (hp.endingAt last) houtside hclosed rfl hm

end Ahead

end Request

namespace Rule

variable {r : Rule} {p : Plan} {v w : Window} {last : Timestamp} {m : Nat} {max : Option Nat}

theorem request_within (hv : v.EndsAt w last) :
    (r.request p v m).capped max = ((r.request p w m).capped max).within v := by
  rw [request, hv.after_eq]
  rfl

theorem initial_within (hv : v.EndsAt w last) (max : Option Nat) :
    (r.request p v m).initial = (((r.request p w m).capped max).endingAt last).initial := by
  have hfirst : (r.request p v m).firstIndex =
      (((r.request p w m).capped max).endingAt last).firstIndex := by
    change (if p.rule.count.isNone then p.cadence.ended v.after else 0) = _
    rw [hv.after_eq]
    rfl
  rw [Request.initial, Request.initial, hfirst]

theorem expand_of_endsAt (hr : r.Valid) (hc : r.count = none) (hl : r.last = none)
    (hv : v.EndsAt w last) : (r.endingAt last).expand w m max = r.expand v m max := by
  have hof := Plan.of?_endingAt r (r.anchor.getD w.after) last
  cases hp : Plan.of? r (r.anchor.getD w.after) with
  | none =>
    rw [hp] at hof
    rw [← hv.after_eq] at hp
    rw [expand_of_none hof, expand_of_none hp]
  | some p =>
    rw [hp] at hof
    have hlaw := Plan.lawful_of_valid hr hp
    have hrule := rule_of_plan hp
    rw [← hv.after_eq] at hp
    have hreturns : ((r.request p v m).capped max).Returns (r.request p v m).initial
        ((r.expand v m max).map List.toArray) := (expand_eq_iff hr hp).mp rfl
    rw [request_within hv, initial_within hv max] at hreturns
    apply (expand_eq_iff (hr.endingAt hc last) hof).mpr
    apply Request.Returns.transfer _ hreturns
    intro w'
    have hc' : p.rule.count = none := hrule.symm ▸ hc
    have hl' : p.rule.last = none := hrule.symm ▸ hl
    exact Or.inl (Request.step_endingAt (q := (r.request p w m).capped max) hc' hl' hv hlaw w').symm

theorem expand_of_last_lt_after (hr : r.Valid) (hc : r.count = none) (hlast : last < w.after)
    (hm : 1 ≤ m) : (r.endingAt last).expand w m max = .ok [] := by
  have hof := Plan.of?_endingAt r (r.anchor.getD w.after) last
  cases hp : Plan.of? r (r.anchor.getD w.after) with
  | none =>
    rw [hp] at hof
    exact expand_of_none hof
  | some p =>
    rw [hp] at hof
    have hlaw := Plan.lawful_of_valid hr hp
    have hc' : p.rule.count = none := (rule_of_plan hp).symm ▸ hc
    apply (expand_eq_iff (hr.endingAt hc last) hof).mpr
    exact Request.returns_of_last_lt_after (q := (r.request p w m).capped max) hlaw hlast hc' hm

/-- With a last time in the window or after it, a rule without a limit expands like the rule
without that time in the window that ends a second after it; with a last time before the window, to
nothing. -/
theorem expand_endingAt (r : Rule) (w : Window) (last : Timestamp) (m : Nat) (max : Option Nat)
    (hr : r.Valid) (hc : r.count = none) (hl : r.last = none) (hlast : last.Plain) (hm : 1 ≤ m) :
    (w.after ≤ last → ∃ v, w.endingAt? last = some v ∧
      (r.endingAt last).expand w m max = r.expand v m max) ∧
    (last < w.after → (r.endingAt last).expand w m max = .ok []) := by
  constructor
  · intro hle
    obtain ⟨v, hv, hends⟩ := Window.exists_endingAt hlast hle
    exact ⟨v, hv, expand_of_endsAt hr hc hl hends⟩
  · intro hlt
    exact expand_of_last_lt_after hr hc hlt hm

/-- The last Friday of January 2024. -/
def januaryFriday : Timestamp := .startOfDay ⟨yearStart 2024 + 25, by decide, by decide⟩

/-- The last day of 2023. -/
def newYearsEve : Timestamp := .startOfDay ⟨yearStart 2024 - 1, by decide, by decide⟩

theorem expand_endingAt_lastFriday : lastFriday.Valid ∧
    (∃ v, earlyDays.endingAt? januaryFriday = some v ∧
      (lastFriday.endingAt januaryFriday).expand earlyDays 1 none = lastFriday.expand v 1 none) ∧
    (lastFriday.endingAt newYearsEve).expand earlyDays 1 (some 3) = .ok [] := by
  have hr : lastFriday.Valid := by decide
  have hfriday := expand_endingAt lastFriday earlyDays januaryFriday 1 none hr rfl rfl
    (by decide) (Nat.le_refl 1)
  have heve := expand_endingAt lastFriday earlyDays newYearsEve 1 (some 3) hr rfl rfl
    (by decide) (Nat.le_refl 1)
  exact ⟨hr, hfriday.1 (by decide), heve.2 (by decide)⟩

end Rule

end Recurrence
