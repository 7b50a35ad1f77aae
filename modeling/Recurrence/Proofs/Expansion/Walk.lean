import Recurrence.Proofs.Expansion.Visit

/-!
# Runs of a walk

`step_of_closed` and `step_of_open` say all that one step can do. `Returns` is the run of a walk
without a bound on its length; the bound of `Request.run` is never reached (`returns_run`). A run
finds what visiting all remaining candidates one by one finds (`found_eq`).
-/

namespace Recurrence

set_option autoImplicit false

open Calendar

namespace Request

variable {q : Request} {w w' : Walk} {p : Progress} {s t : Timestamp} {i : Nat}
variable {l : List Timestamp}

/-- The walk looks at the period `i`, which starts with `s`. -/
structure Open (q : Request) (i : Nat) (s : Timestamp) : Prop where
  start : q.plan.cadence.start? i = some s
  lt_before : s < q.window.before
  not_ended : q.endsBefore s = false
  not_exhausted : q.plan.candidates s ≠ .exhausted

/-- What follows after the candidates of a period, when `next` is the period to look at then. -/
def resume (q : Request) (next emptyRun : Nat) : Flow → Step
  | .stop p => .halt (.ok p.found)
  | .more p true => .next ⟨next, 0, p⟩
  | .more p false => q.skip emptyRun p next

theorem finish_eq_resume (i emptyRun : Nat) (f : Flow) :
    q.finish i emptyRun f = q.resume (i + 1) emptyRun f := by
  cases f with
  | stop p => rfl
  | more p seen => cases seen <;> rfl

theorem resume_kept (next emptyRun : Nat) (f : Flow) :
    q.resume next emptyRun f.kept = q.resume next emptyRun f := by
  cases f <;> rfl

/-- The number of empty periods in a row after one more period. -/
def emptyRunAfter (emptyRun : Nat) (seen : Bool) : Nat :=
  if seen then 0 else min (emptyRun + 1) counterMax

theorem resume_eq_next_iff {f : Flow} {next e : Nat} :
    q.resume next e f = .next w' ↔ ∃ p seen, f = .more p seen ∧
      emptyRunAfter e seen ≤ q.maxEmptyPeriods ∧ w' = ⟨next, emptyRunAfter e seen, p⟩ := by
  constructor
  · intro h
    cases f with
    | stop p => cases h
    | more p seen =>
      refine ⟨p, seen, rfl, ?_⟩
      cases seen with
      | true =>
        cases h
        exact ⟨Nat.zero_le _, rfl⟩
      | false =>
        dsimp only [resume, skip] at h
        split at h
        · cases h
        · next hle =>
          cases h
          exact ⟨Nat.not_lt.mp hle, rfl⟩
  · intro h
    obtain ⟨p, seen, rfl, hle, rfl⟩ := h
    cases seen with
    | true => rfl
    | false => exact if_neg (Nat.not_lt.mpr hle)

theorem resume_eq_ok_iff {f : Flow} {next e : Nat} {found : Array Occurrence} :
    q.resume next e f = .halt (.ok found) ↔ ∃ p, f = .stop p ∧ found = p.found := by
  constructor
  · intro h
    cases f with
    | stop p =>
      cases h
      exact ⟨p, rfl, rfl⟩
    | more p seen =>
      cases seen with
      | true => cases h
      | false =>
        dsimp only [resume, skip] at h
        split at h <;> cases h
  · intro h
    obtain ⟨p, rfl, rfl⟩ := h
    rfl

theorem step_of_closed (h : ∀ s, ¬ q.Open w.index s) : q.step w = .halt (.ok w.progress.found) := by
  obtain ⟨i, e, p⟩ := w
  rw [step, stepBy]
  dsimp only at h ⊢
  cases hs : q.plan.cadence.start? i with
  | none => rfl
  | some s =>
    dsimp only
    by_cases hc : (q.window.before ≤ s || q.endsBefore s) = true
    · rw [if_pos hc]
    · rw [if_neg hc]
      simp only [Bool.or_eq_true, decide_eq_true_eq, not_or, Bool.not_eq_true,
        Timestamp.not_le] at hc
      cases hk : q.plan.candidates s with
      | exhausted => rfl
      | _ => exact absurd ⟨hs, hc.1, hc.2, by rw [hk]; exact nofun⟩ (h s)

/-- A step visits the candidates of an open period one by one. -/
theorem step_of_open (hp : q.plan.Lawful) (ho : q.Open w.index s) : q.step w =
    q.resume (q.plan.nextIndex w.index s) w.emptyRun
      (visitEach q.visit (q.plan.period w.index) false w.progress) := by
  have hb := Timestamp.not_le.mpr ho.lt_before
  rw [Plan.period_of_start ho.start, step, stepBy, ho.start]
  simp only [hb, ho.not_ended, decide_false, Bool.or_self, Bool.false_eq_true, if_false]
  unfold Plan.nextIndex
  cases hk : q.plan.candidates s with
  | instants times => exact finish_eq_resume _ _ _
  | days dates =>
    dsimp only
    rw [← visitDay, finish_eq_resume, ← resume_kept, kept_visitEach_flatMap (kept_visitDay hp),
      resume_kept]
    rfl
  | skipTo time => rfl
  | exhausted => exact absurd hk ho.not_exhausted

theorem exists_open_of_next (h : q.step w = .next w') : ∃ s, q.Open w.index s := by
  by_contra hc
  rw [step_of_closed (not_exists.mp hc)] at h
  cases h

theorem index_of_next (hp : q.plan.Lawful) (h : q.step w = .next w') :
    ∃ s, q.Open w.index s ∧ w'.index = q.plan.nextIndex w.index s := by
  obtain ⟨s, ho⟩ := exists_open_of_next h
  rw [step_of_open hp ho, resume_eq_next_iff] at h
  obtain ⟨p, seen, -, -, rfl⟩ := h
  exact ⟨s, ho, rfl⟩

/-- An open period is one of those that start before the end of the window. -/
theorem lt_startedBefore_of_open (hp : q.plan.Lawful) (ho : q.Open i s) :
    i < q.plan.cadence.startedBefore q.window.before := by
  rw [← Nat.not_le, Cadence.startedBefore_le_iff_le hp.step_pos ho.start, Timestamp.not_le]
  exact ho.lt_before

/-- A run from `w` to its result, however many steps it takes. -/
inductive Returns (q : Request) : Walk → Except ExpansionError (Array Occurrence) → Prop
  | halt {w : Walk} {r : Except ExpansionError (Array Occurrence)} (h : q.step w = .halt r) :
    Returns q w r
  | next {w w' : Walk} {r : Except ExpansionError (Array Occurrence)} (h : q.step w = .next w')
    (hr : Returns q w' r) : Returns q w r

theorem Returns.unique {r r' : Except ExpansionError (Array Occurrence)} (h : q.Returns w r)
    (h' : q.Returns w r') : r = r' := by
  induction h with
  | halt h =>
    cases h' with
    | halt k =>
      rw [h] at k
      cases k
      rfl
    | next k _ =>
      rw [h] at k
      cases k
  | next h _ ih =>
    cases h' with
    | halt k =>
      rw [h] at k
      cases k
    | next k hr =>
      rw [h] at k
      cases k
      exact ih hr

/-- A run is one of another request as well if their steps agree, or end with another result. -/
theorem Returns.transfer {q' : Request} {r : Except ExpansionError (Array Occurrence)}
    (h : ∀ w, q'.step w = q.step w ∨ ∃ r', r' ≠ r ∧ q.step w = .halt r') (hr : q.Returns w r) :
    q'.Returns w r := by
  induction hr with
  | @halt w r hs =>
    rcases h w with heq | ⟨r', hne, hs'⟩
    · exact .halt (heq.trans hs)
    · rw [hs] at hs'
      cases hs'
      exact absurd rfl hne
  | @next w w' r hs _ ih =>
    rcases h w with heq | ⟨r', -, hs'⟩
    · exact .next (heq.trans hs) (ih h)
    · rw [hs] at hs'
      cases hs'

/-- The number of steps suffices if it reaches the end of the window. -/
theorem returns_run (hp : q.plan.Lawful) (fuel : Nat) (w : Walk)
    (hf : q.plan.cadence.startedBefore q.window.before ≤ w.index + fuel) :
    q.Returns w (q.run fuel w) := by
  induction fuel generalizing w with
  | zero =>
    apply Returns.halt
    apply step_of_closed
    intro s ho
    have := lt_startedBefore_of_open hp ho
    omega
  | succ fuel ih =>
    rw [run, runBy, ← step]
    cases hs : q.step w with
    | halt r => exact .halt hs
    | next w' =>
      obtain ⟨s, -, hi⟩ := index_of_next hp hs
      have := q.plan.lt_nextIndex w.index s
      exact .next hs (ih w' (by omega))

theorem returns_expand (hp : q.plan.Lawful) (hi : q.rule.interval ≠ 0) :
    q.Returns q.initial (q.run q.budget q.initial) := by
  apply returns_run hp
  rw [budget, if_neg hi]
  dsimp only [initial]
  omega

/-- Nothing is found in the time after the window or after the end of the rule. -/
theorem found_visitEach_of_past (hl : ∀ t ∈ l, q.window.before ≤ t ∨ q.endsBefore t = true)
    (seen : Bool) (p : Progress) : (visitEach q.visit l seen p).found = p.found := by
  apply found_visitEach_of_forall
  intro p t ht
  apply found_visit_of_outside
  intro hw
  exact (hl t ht).resolve_left (Timestamp.not_le.mpr hw.2)

theorem endsBefore_of_le (hst : s ≤ t) (hs : q.endsBefore s = true) : q.endsBefore t = true := by
  simp only [endsBefore, Option.any_eq_true, decide_eq_true_eq] at hs ⊢
  obtain ⟨last, hl, hlt⟩ := hs
  exact ⟨last, hl, Timestamp.lt_of_lt_of_le hlt hst⟩

/-- The periods before an open one are open. -/
theorem open_of_le (hp : q.plan.Lawful) {j : Nat} (ho : q.Open j s) (hij : i ≤ j) :
    ∃ s', q.Open i s' := by
  obtain ⟨s', hs'⟩ := Cadence.start?_of_le hp.step_pos hp.second_nonneg ho.start hij
  have hle := hp.start_le hs' ho.start hij
  refine ⟨s', hs', Timestamp.lt_of_le_of_lt hle ho.lt_before, ?_, ?_⟩
  · rw [Bool.eq_false_iff]
    intro he
    have := endsBefore_of_le hle he
    rw [ho.not_ended] at this
    cases this
  · intro hk
    exact ho.not_exhausted (hp.exhausted_of_le hs' hk hij ho.start)

/-- When a walk ends at a period, the window or the rule ends there, too. -/
theorem past_of_closed (hp : q.plan.Lawful) (h : ∀ s, ¬ q.Open i s)
    (ht : t ∈ q.plan.candidatesFrom i) : q.window.before ≤ t ∨ q.endsBefore t = true := by
  obtain ⟨j, hij, ht⟩ := hp.mem_candidatesFrom.mp ht
  cases hs : q.plan.cadence.start? i with
  | none =>
    rw [Plan.period_of_none (hp.start_none hs hij)] at ht
    cases ht
  | some s =>
    have hst := hp.start_le_of_mem hs ht hij
    by_contra hc
    rw [not_or, Timestamp.not_le] at hc
    refine h s ⟨hs, Timestamp.lt_of_le_of_lt hst hc.1, ?_, ?_⟩
    · exact Bool.eq_false_iff.mpr fun he => hc.2 (endsBefore_of_le hst he)
    · intro hk
      unfold Plan.period at ht
      split at ht
      · next s' hs' =>
        rw [hp.exhausted_of_le hs hk hij hs'] at ht
        cases ht
      · cases ht

/-- A run that does not fail finds what the remaining candidates give one by one. -/
theorem found_eq (hp : q.plan.Lawful) {found : Array Occurrence} (h : q.Returns w (.ok found)) :
    found = (visitEach q.visit (q.plan.candidatesFrom w.index) false w.progress).found := by
  generalize hr : Except.ok found = r at h
  -- on the run; a leap passes no candidates, so each step takes the next part of the list
  induction h with
  | @halt w r h =>
    subst hr
    by_cases ho : ∃ s, q.Open w.index s
    · obtain ⟨s, ho⟩ := ho
      rw [step_of_open hp ho, resume_eq_ok_iff] at h
      obtain ⟨p, hf, rfl⟩ := h
      rw [hp.candidatesFrom_succ, visitEach_append, hf]
      rfl
    · rw [not_exists] at ho
      rw [step_of_closed ho] at h
      cases h
      exact (found_visitEach_of_past (fun t => past_of_closed hp ho) false _).symm
  | @next w w' r h _ ih =>
    obtain ⟨s, ho⟩ := exists_open_of_next h
    rw [step_of_open hp ho, resume_eq_next_iff] at h
    obtain ⟨p, seen, hf, -, rfl⟩ := h
    rw [ih hr, hp.candidatesFrom_nextIndex ho.start, visitEach_append, hf, Flow.bind_more,
      found_visitEach_seen _ seen]

end Request

end Recurrence
