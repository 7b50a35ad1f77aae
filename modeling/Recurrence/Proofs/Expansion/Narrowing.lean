import Recurrence.Proofs.Expansion.Walk

/-!
# Walks for a smaller window

A walk for a smaller window follows the walk for a larger one: it starts later and waits until the
other has caught up, then both look at the same periods (`Follows`). So it cannot meet a longer run
of empty periods (`returns_of_follows`).
-/

namespace Recurrence

set_option autoImplicit false

open Calendar

namespace Request

structure Narrows (q q' : Request) : Prop where
  plan : q'.plan = q.plan
  anchor : q'.anchor = q.anchor
  after_le : q.window.after ≤ q'.window.after
  before_le : q'.window.before ≤ q.window.before
  maxEmptyPeriods : q'.maxEmptyPeriods = q.maxEmptyPeriods
  maxFound : q.maxFound = none

/-- Two walks are equally far in the count of the rule. -/
def Agree (q : Request) (p p' : Progress) : Prop :=
  q.rule.count = none ∨ p.position = p'.position

section Visits

variable {q q' : Request} {p p' r' : Progress} {s t : Timestamp} {l : List Timestamp}
variable {new seen : Bool} {i : Nat}

theorem rule_of_narrows (hn : q.Narrows q') : q'.rule = q.rule := by
  rw [rule, hn.plan]
  rfl

theorem endsBefore_of_narrows (hn : q.Narrows q') (t : Timestamp) :
    q'.endsBefore t = q.endsBefore t := by
  rw [endsBefore, rule_of_narrows hn]
  rfl

theorem countExceeded_of_agree (hn : q.Narrows q') (ha : q.Agree p p') :
    q'.countExceeded p' = q.countExceeded p := by
  rw [countExceeded, countExceeded, rule_of_narrows hn]
  rcases ha with hc | hpos
  · rw [hc]
  · rw [hpos]

theorem agree_advance (ha : q.Agree p p') (n : Nat) : q.Agree (p.advance n) (p'.advance n) := by
  rcases ha with hc | hpos
  · exact Or.inl hc
  · exact Or.inr (congrArg (Option.map fun k => min (k + min n counterMax) counterMax) hpos)

/-- Where the smaller window goes on, the larger one does. -/
theorem visit_of_narrows (hn : q.Narrows q') (ha : q.Agree p p')
    (h : q'.visit p' t = .more r' new) : ∃ r, q.visit p t = .more r new ∧ q.Agree r r' := by
  have hadv := agree_advance ha 1
  by_cases h1 : t < q.anchor
  · rw [visit_of_lt_anchor (hn.anchor.symm ▸ h1)] at h
    cases h
    exact ⟨p, visit_of_lt_anchor h1, ha⟩
  rw [Timestamp.not_lt] at h1
  have h1' : q'.anchor ≤ t := hn.anchor.symm ▸ h1
  by_cases h2 : q.endsBefore t = true
  · rw [visit_of_ended h1' (by rw [endsBefore_of_narrows hn, h2])] at h
    cases h
  have h2' : q'.endsBefore t = false := by
    rw [endsBefore_of_narrows hn]
    exact Bool.eq_false_iff.mpr h2
  rw [Bool.not_eq_true] at h2
  by_cases h3 : q'.countExceeded (p'.advance 1) = true ∨ q'.window.before ≤ t
  · rw [visit_of_over h1' h2' h3] at h
    cases h
  rw [not_or, Bool.not_eq_true, Timestamp.not_le] at h3
  obtain ⟨h3', hb'⟩ := h3
  have h3 : q.countExceeded (p.advance 1) = false := by
    rw [← countExceeded_of_agree hn hadv, h3']
  have hr' : new = true ∧ r'.position = (p'.advance 1).position := by
    by_cases hw' : t < q'.window.after
    · rw [visit_of_lt_after h1' h2' h3' hw'] at h
      cases h
      exact ⟨rfl, rfl⟩
    · rw [visit_of_contains h1' h2' h3' ⟨Timestamp.not_lt.mp hw', hb'⟩] at h
      split at h
      · cases h
      · cases h
        exact ⟨rfl, rfl⟩
  have hr : ∀ r : Progress, r.position = (p.advance 1).position → q.Agree r r' := by
    intro r hr
    unfold Agree
    rw [hr, hr'.2]
    exact hadv
  rw [hr'.1]
  by_cases hw : t < q.window.after
  · exact ⟨_, visit_of_lt_after h1 h2 h3 hw, hr _ rfl⟩
  · have hc : q.window.Contains t :=
      ⟨Timestamp.not_lt.mp hw, Timestamp.lt_of_lt_of_le hb' hn.before_le⟩
    refine ⟨(p.advance 1).add t, ?_, hr _ rfl⟩
    rw [visit_of_contains h1 h2 h3 hc, isFull, hn.maxFound]
    rfl

theorem visitEach_of_narrows (hn : q.Narrows q') (ha : q.Agree p p')
    (h : visitEach q'.visit l seen p' = .more r' new) :
    ∃ r, visitEach q.visit l seen p = .more r new ∧ q.Agree r r' := by
  induction l generalizing p p' seen with
  | nil =>
    cases h
    exact ⟨p, rfl, ha⟩
  | cons t l ih =>
    rw [visitEach_cons] at h ⊢
    cases hv : q'.visit p' t with
    | stop p'' =>
      rw [hv] at h
      cases h
    | more p'' b =>
      rw [hv] at h
      obtain ⟨r, hr, hagree⟩ := visit_of_narrows hn ha hv
      rw [hr]
      exact ih hagree h

theorem visitEach_more (hm : q.maxFound = none) (hc : q.rule.count = none)
    (hl : ∀ t ∈ l, t < q.window.before ∧ q.endsBefore t = false) (seen : Bool) (p : Progress) :
    ∃ r new, visitEach q.visit l seen p = .more r new := by
  induction l generalizing seen p with
  | nil => exact ⟨p, seen, rfl⟩
  | cons t l ih =>
    have ih := ih fun t' ht' => hl t' (List.mem_cons_of_mem t ht')
    obtain ⟨hb, he⟩ := hl t List.mem_cons_self
    have hcount : q.countExceeded (p.advance 1) = false := by rw [countExceeded, hc]
    rw [visitEach_cons]
    by_cases ha : t < q.anchor
    · rw [visit_of_lt_anchor ha]
      exact ih _ _
    rw [Timestamp.not_lt] at ha
    by_cases hw : t < q.window.after
    · rw [visit_of_lt_after ha he hcount hw]
      exact ih _ _
    · rw [visit_of_contains ha he hcount ⟨Timestamp.not_lt.mp hw, hb⟩, isFull, hm]
      exact ih _ _

theorem open_of_narrows (hn : q.Narrows q') (ho : q'.Open i s) : q.Open i s := by
  obtain ⟨hs, hb, he, hk⟩ := ho
  rw [hn.plan] at hs hk
  rw [endsBefore_of_narrows hn] at he
  exact ⟨hs, Timestamp.lt_of_lt_of_le hb hn.before_le, he, hk⟩

end Visits

section Walks

variable {q q' : Request} {w w' : Walk} {found : Array Occurrence}

/-- The second walk is at the same period after no longer a run of empty ones, or it has just begun
at a later period. -/
inductive Follows (q : Request) (w w' : Walk) : Prop
  | together (hi : w'.index = w.index) (he : w'.emptyRun ≤ w.emptyRun)
    (ha : q.Agree w.progress w'.progress)
  | ahead (hi : w.index < w'.index) (he : w'.emptyRun = 0) (hc : q.rule.count = none)

theorem emptyRunAfter_mono {m n : Nat} (h : m ≤ n) (seen : Bool) :
    emptyRunAfter m seen ≤ emptyRunAfter n seen := by
  unfold emptyRunAfter
  split <;> omega

theorem follows_initial (hp : q.plan.Lawful) (hn : q.Narrows q') :
    Follows q q.initial q'.initial := by
  have hrule := rule_of_narrows hn
  by_cases hc : q.rule.count = none
  · have hi : q.initial.index = q.plan.cadence.ended q.window.after := by
      simp [initial, firstIndex, hc]
    have hi' : q'.initial.index = q.plan.cadence.ended q'.window.after := by
      simp [initial, firstIndex, hrule, hc, hn.plan]
    have hle := Cadence.ended_mono hp.step_pos hn.after_le
    rw [← hi, ← hi'] at hle
    rcases Nat.lt_or_eq_of_le hle with hlt | heq
    · exact .ahead hlt rfl hc
    · exact .together heq.symm (Nat.le_refl 0) (Or.inl hc)
  · have hsome : q.rule.count.isNone ≠ true := by simpa using hc
    have hi : q.firstIndex = 0 := by rw [firstIndex, if_neg hsome]
    have hi' : q'.firstIndex = 0 := by rw [firstIndex, hrule, if_neg hsome]
    refine .together ?_ (Nat.le_refl 0) (Or.inr ?_)
    · exact hi'.trans hi.symm
    · rw [initial, initial, hi, hi']

/-- When both walks look at one period, they go on together. -/
theorem next_of_together (hp : q.plan.Lawful) (hn : q.Narrows q') {s : Timestamp}
    (hi : w'.index = w.index) (he : w'.emptyRun ≤ w.emptyRun)
    (ha : q.Agree w.progress w'.progress) (ho : q'.Open w'.index s) {p : Progress} {seen : Bool}
    (hv : visitEach q'.visit (q.plan.period w.index) false w'.progress = .more p seen)
    {w₂ : Walk} (h : q.step w = .next w₂) :
    ∃ w₂', q'.step w' = .next w₂' ∧ Follows q w₂ w₂' := by
  have ho' := open_of_narrows hn ho
  rw [hi] at ho'
  obtain ⟨r, hr, hagree⟩ := visitEach_of_narrows hn ha hv
  rw [step_of_open hp ho', hr, resume_eq_next_iff] at h
  obtain ⟨_, _, ⟨⟩, hle, rfl⟩ := h
  have hmono := emptyRunAfter_mono he seen
  refine ⟨⟨q.plan.nextIndex w.index s, emptyRunAfter w'.emptyRun seen, p⟩, ?_, ?_⟩
  · rw [step_of_open (hn.plan.symm ▸ hp) ho, hn.plan, hi, hv, resume_eq_next_iff,
      hn.maxEmptyPeriods]
    exact ⟨p, seen, rfl, Nat.le_trans hmono hle, rfl⟩
  · exact .together rfl hmono hagree

/-- Where the first walk leaps over the period of the second, the second leaps as far. -/
theorem next_of_leap (hp : q.plan.Lawful) (hn : q.Narrows q') {s s' : Timestamp}
    (ho : q.Open w.index s) (hi : w.index < w'.index) (he : w'.emptyRun = 0)
    (hc : q.rule.count = none) (hj : w'.index < q.plan.nextIndex w.index s)
    (ho' : q'.Open w'.index s') {w₂ : Walk} (h : q.step w = .next w₂) :
    ∃ w₂', q'.step w' = .next w₂' ∧ Follows q w₂ w₂' := by
  have hs' := (open_of_narrows hn ho').start
  obtain ⟨hempty, hempty', hnext⟩ := hp.nextIndex_of_leap ho.start hi hj hs'
  rw [step_of_open hp ho, hempty, resume_eq_next_iff] at h
  obtain ⟨_, _, ⟨⟩, hle, rfl⟩ := h
  have hmono : emptyRunAfter w'.emptyRun false ≤ emptyRunAfter w.emptyRun false :=
    emptyRunAfter_mono (by omega) false
  refine ⟨⟨q.plan.nextIndex w.index s, emptyRunAfter w'.emptyRun false, w'.progress⟩, ?_, ?_⟩
  · rw [step_of_open (hn.plan.symm ▸ hp) ho', hn.plan, hempty', hnext, resume_eq_next_iff,
      hn.maxEmptyPeriods]
    exact ⟨w'.progress, false, rfl, Nat.le_trans hmono hle, rfl⟩
  · exact .together rfl hmono (Or.inl hc)

/-- The first walk does not end before it reaches an open period of the second. -/
theorem step_ne_halt_of_ahead (hp : q.plan.Lawful) (hn : q.Narrows q') {s' : Timestamp}
    (hi : w.index < w'.index) (hc : q.rule.count = none) (ho' : q'.Open w'.index s') :
    q.step w ≠ .halt (.ok found) := by
  intro h
  have ho := open_of_narrows hn ho'
  obtain ⟨s, hs⟩ := open_of_le hp ho (Nat.le_of_lt hi)
  have hearly : ∀ t ∈ q.plan.period w.index, t < q.window.before ∧ q.endsBefore t = false := by
    intro t ht
    have hlt := hp.lt_start_of_mem ho.start ht hi
    refine ⟨Timestamp.lt_trans hlt ho.lt_before, ?_⟩
    rw [Bool.eq_false_iff]
    intro he
    have := endsBefore_of_le (Timestamp.le_of_lt hlt) he
    rw [ho.not_ended] at this
    cases this
  obtain ⟨r, new, hv⟩ := visitEach_more hn.maxFound hc hearly false w.progress
  rw [step_of_open hp hs, hv, resume_eq_ok_iff] at h
  obtain ⟨_, ⟨⟩, -⟩ := h

/-- A walk that follows one that does not fail does not fail. -/
theorem returns_of_follows (hp : q.plan.Lawful) (hn : q.Narrows q')
    (h : q.Returns w (.ok found)) (hf : Follows q w w') :
    ∃ found', q'.Returns w' (.ok found') := by
  generalize hr : Except.ok found = r at h
  -- on the run of the first walk; the second one waits until it has caught up
  induction h generalizing w' with
  | @halt w r h =>
    subst hr
    by_cases hclosed : ∀ s, ¬ q'.Open w'.index s
    · exact ⟨_, .halt (step_of_closed hclosed)⟩
    obtain ⟨s, ho⟩ := not_forall_not.mp hclosed
    cases hf with
    | together hi he ha =>
      have ho' := open_of_narrows hn ho
      rw [hi] at ho'
      cases hv : visitEach q'.visit (q.plan.period w.index) false w'.progress with
      | stop p =>
        refine ⟨p.found, .halt ?_⟩
        rw [step_of_open (hn.plan.symm ▸ hp) ho, hn.plan, hi, hv]
        rfl
      | more p seen =>
        obtain ⟨r, hr, -⟩ := visitEach_of_narrows hn ha hv
        rw [step_of_open hp ho', hr, resume_eq_ok_iff] at h
        obtain ⟨_, ⟨⟩, -⟩ := h
    | ahead hi he hc => exact absurd h (step_ne_halt_of_ahead hp hn hi hc ho)
  | @next w w₂ r h _ ih =>
    by_cases hclosed : ∀ s, ¬ q'.Open w'.index s
    · exact ⟨_, .halt (step_of_closed hclosed)⟩
    obtain ⟨s', ho'⟩ := not_forall_not.mp hclosed
    have hnext : (∃ w₂', q'.step w' = .next w₂' ∧ Follows q w₂ w₂') →
        ∃ found', q'.Returns w' (.ok found') := by
      intro h
      obtain ⟨w₂', hstep, hfollows⟩ := h
      obtain ⟨found', hret⟩ := ih hfollows hr
      exact ⟨found', .next hstep hret⟩
    cases hf with
    | together hi he ha =>
      cases hv : visitEach q'.visit (q.plan.period w.index) false w'.progress with
      | stop p =>
        refine ⟨p.found, .halt ?_⟩
        rw [step_of_open (hn.plan.symm ▸ hp) ho', hn.plan, hi, hv]
        rfl
      | more p seen => exact hnext (next_of_together hp hn hi he ha ho' hv h)
    | ahead hi he hc =>
      obtain ⟨s, ho, hj⟩ := index_of_next hp h
      rcases Nat.lt_trichotomy w₂.index w'.index with hlt | heq | hgt
      · exact ih (.ahead hlt he hc) hr
      · exact ih (.together heq.symm (by omega) (Or.inl hc)) hr
      · exact hnext (next_of_leap hp hn ho hi he hc (hj ▸ hgt) ho' h)

end Walks

end Request

end Recurrence
