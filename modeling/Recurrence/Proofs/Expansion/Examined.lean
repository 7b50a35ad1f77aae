import Recurrence.Proofs.Expansion.Sequence

/-!
# The periods that a walk examines

A walk goes from period to later period (`Request.Examines.lt_index`) until one starts after the
window or after the end of the rule. So it examines no more periods than start before the end of the
window, whatever ceiling and whatever limit it has (`Rule.expand_examines`).
-/

namespace Recurrence

set_option autoImplicit false

open Calendar

namespace Request

variable {q : Request} {w w' : Walk} {s : Timestamp} {i : Nat} {l l' : List (Nat × Timestamp)}
variable {r r' : Except ExpansionError (Array Occurrence)}

/-- The walk examines the period `i`, which starts with `s`, when it comes to it. -/
structure Looks (q : Request) (i : Nat) (s : Timestamp) : Prop where
  start : q.plan.cadence.start? i = some s
  lt_before : s < q.window.before
  not_ended : q.endsBefore s = false

/-- A run from `w` to its result, with the numbers and the starts of the periods it examines. -/
inductive Examines (q : Request) :
    Walk → List (Nat × Timestamp) → Except ExpansionError (Array Occurrence) → Prop
  | none {w : Walk} {r : Except ExpansionError (Array Occurrence)}
    (hn : ∀ s, ¬ q.Looks w.index s) (h : q.step w = .halt r) : Examines q w [] r
  | last {w : Walk} {s : Timestamp} {r : Except ExpansionError (Array Occurrence)}
    (hl : q.Looks w.index s) (h : q.step w = .halt r) : Examines q w [(w.index, s)] r
  | next {w w' : Walk} {s : Timestamp} {l : List (Nat × Timestamp)}
    {r : Except ExpansionError (Array Occurrence)} (hl : q.Looks w.index s)
    (h : q.step w = .next w') (hr : Examines q w' l r) : Examines q w ((w.index, s) :: l) r

theorem Looks.of_open (h : q.Open i s) : q.Looks i s := ⟨h.start, h.lt_before, h.not_ended⟩

theorem exists_examines (h : q.Returns w r) : ∃ l, q.Examines w l r := by
  induction h with
  | @halt w r h =>
    by_cases hl : ∃ s, q.Looks w.index s
    · obtain ⟨s, hl⟩ := hl
      exact ⟨_, .last hl h⟩
    · exact ⟨_, .none (not_exists.mp hl) h⟩
  | next h _ ih =>
    obtain ⟨s, ho⟩ := exists_open_of_next h
    obtain ⟨l, hl⟩ := ih
    exact ⟨_, .next (.of_open ho) h hl⟩

theorem Examines.returns (h : q.Examines w l r) : q.Returns w r := by
  induction h with
  | none _ h => exact .halt h
  | last _ h => exact .halt h
  | next _ h _ ih => exact .next h ih

theorem Looks.unique {s' : Timestamp} (h : q.Looks i s) (h' : q.Looks i s') : s = s' :=
  Option.some.inj (h.start.symm.trans h'.start)

/-- There is only one run. -/
theorem Examines.unique (h : q.Examines w l r) (h' : q.Examines w l' r') : l = l' ∧ r = r' := by
  refine ⟨?_, h.returns.unique h'.returns⟩
  induction h generalizing l' r' with
  | none hn h =>
    cases h' with
    | none => rfl
    | last hl => exact absurd hl (hn _)
    | next hl => exact absurd hl (hn _)
  | last hl h =>
    cases h' with
    | none hn => exact absurd hl (hn _)
    | last hl' => rw [hl.unique hl']
    | next _ h' => cases h.symm.trans h'
  | next hl h _ ih =>
    cases h' with
    | none hn => exact absurd hl (hn _)
    | last _ h' => cases h.symm.trans h'
    | next hl' h' hr' =>
      cases h.symm.trans h'
      rw [hl.unique hl', ih hr']

theorem Examines.head_eq (h : q.Examines w l r) : ∀ e ∈ l.head?, e.1 = w.index := by
  intro e he
  cases h with
  | none => cases he
  | last | next =>
    cases he
    rfl

theorem Examines.looks (h : q.Examines w l r) : ∀ e ∈ l, q.Looks e.1 e.2 := by
  induction h with
  | none => exact List.forall_mem_nil _
  | last hl => exact List.forall_mem_singleton.mpr hl
  | next hl _ _ ih => exact List.forall_mem_cons.mpr ⟨hl, ih⟩

variable (hp : q.plan.Lawful)
include hp

theorem lt_index_of_next (h : q.step w = .next w') : w.index < w'.index := by
  obtain ⟨s, -, hi⟩ := index_of_next hp h
  rw [hi]
  exact q.plan.lt_nextIndex w.index s

theorem Looks.lt_startedBefore (h : q.Looks i s) :
    i < q.plan.cadence.startedBefore q.window.before := by
  rw [← Nat.not_le, Cadence.startedBefore_le_iff_le hp.step_pos h.start, Timestamp.not_le]
  exact h.lt_before

theorem Examines.le_index (h : q.Examines w l r) : ∀ e ∈ l, w.index ≤ e.1 := by
  induction h with
  | none => exact List.forall_mem_nil _
  | last => exact List.forall_mem_singleton.mpr (Nat.le_refl _)
  | next _ h _ ih =>
    refine List.forall_mem_cons.mpr ⟨Nat.le_refl _, fun e he => ?_⟩
    exact (lt_index_of_next hp h).le.trans (ih e he)

theorem Examines.lt_index (h : q.Examines w l r) : l.Pairwise (·.1 < ·.1) := by
  induction h with
  | none => exact .nil
  | last => exact List.pairwise_singleton _ _
  | next _ h hr ih =>
    refine .cons (fun e he => ?_) ih
    exact (lt_index_of_next hp h).trans_le (hr.le_index hp e he)

/-- Later periods start later. -/
theorem Examines.lt_start (h : q.Examines w l r) : l.Pairwise (·.2 < ·.2) := by
  refine (h.lt_index hp).imp_of_mem fun ha hb hab => ?_
  exact Cadence.start_lt hp.step_pos (h.looks _ ha).start (h.looks _ hb).start hab

/-- The numbers of the examined periods increase, so there are no more of them than numbers. -/
theorem Examines.length_le (h : q.Examines w l r) :
    l.length ≤ q.plan.cadence.startedBefore q.window.before - w.index := by
  induction h with
  | none => exact Nat.zero_le _
  | last hl =>
    have := hl.lt_startedBefore hp
    rw [List.length_singleton]
    omega
  | next hl h _ ih =>
    have := hl.lt_startedBefore hp
    have := lt_index_of_next hp h
    rw [List.length_cons]
    omega

end Request

/-- The periods that are examined from a first one on: their numbers and starts increase, and they
start before the end of the window. If that is a whole second, `firstFrom` gives the first period
that does not. -/
structure Cadence.Advances (c : Cadence) (first : Nat) (before : Timestamp)
    (l : List (Nat × Timestamp)) : Prop where
  head_eq : ∀ e ∈ l.head?, e.1 = first
  start_eq : ∀ e ∈ l, c.start? e.1 = some e.2
  lt_index : l.Pairwise (·.1 < ·.1)
  lt_start : l.Pairwise (·.2 < ·.2)
  lt_startedBefore : ∀ e ∈ l, e.1 < c.startedBefore before
  length_le : l.length ≤ c.startedBefore before - first
  firstFrom_eq : before.nano = 0 → c.firstFrom before = c.startedBefore before

theorem Request.Examines.advances {q : Request} {w : Walk} {l : List (Nat × Timestamp)}
    {r : Except ExpansionError (Array Occurrence)} (hp : q.plan.Lawful) (h : q.Examines w l r) :
    q.plan.cadence.Advances w.index q.window.before l where
  head_eq := h.head_eq
  start_eq e he := (h.looks e he).start
  lt_index := h.lt_index hp
  lt_start := h.lt_start hp
  lt_startedBefore e he := (h.looks e he).lt_startedBefore hp
  length_le := h.length_le hp
  firstFrom_eq := Cadence.firstFrom_eq_startedBefore

namespace Rule

/-- An expansion is the result of one run, which goes from its first period to later and later ones
and examines at most as many as start before the end of the window. -/
theorem expand_examines (rule : Rule) (window : Window) (maxEmptyPeriods : Nat)
    (max : Option Nat) (hv : rule.Valid) (hy : 0 ≤ (rule.anchor.getD window.after).date.year) :
    ∃ p, Plan.of? rule (rule.anchor.getD window.after) = some p ∧ ∃ l,
      (∀ l' r, ((rule.request p window maxEmptyPeriods).capped max).Examines
        (rule.request p window maxEmptyPeriods).initial l' r ↔
          l' = l ∧ r = (rule.expand window maxEmptyPeriods max).map List.toArray) ∧
      p.cadence.Advances (if rule.count = none then p.cadence.ended window.after else 0)
        window.before l := by
  obtain ⟨c, -, hp⟩ := Plan.exists_plan rule hy
  generalize Plan.filled rule (rule.anchor.getD window.after) c = p at hp
  have hlaw := Plan.lawful_of_valid hv hp
  have hreturns : ((rule.request p window maxEmptyPeriods).capped max).Returns
      (rule.request p window maxEmptyPeriods).initial
      ((rule.expand window maxEmptyPeriods max).map List.toArray) := (expand_eq_iff hv hp).mp rfl
  obtain ⟨l, hl⟩ := Request.exists_examines hreturns
  have hfirst : (rule.request p window maxEmptyPeriods).initial.index =
      if rule.count = none then p.cadence.ended window.after else 0 := by
    change (if p.rule.count.isNone then p.cadence.ended window.after else 0) = _
    rw [rule_of_plan hp]
    cases rule.count <;> rfl
  refine ⟨p, hp, l, fun l' r => ⟨fun h => h.unique hl, ?_⟩, ?_⟩
  · rintro ⟨rfl, rfl⟩
    exact hl
  · rw [← hfirst]
    exact hl.advances hlaw

/-- Every hour of a Friday. -/
def fridayHours : Rule := { frequency := .hourly, byDay := .singleton (.every .friday) }

theorem expand_examines_fridayHours :
    fridayHours.Valid ∧ 0 ≤ (fridayHours.anchor.getD earlyDays.after).date.year ∧
    ∃ p, Plan.of? fridayHours newYear = some p ∧ ∃ l,
      (∀ l' r, ((fridayHours.request p earlyDays 3).capped (some 30)).Examines
        (fridayHours.request p earlyDays 3).initial l' r ↔
          l' = l ∧ r = (fridayHours.expand earlyDays 3 (some 30)).map List.toArray) ∧
      p.cadence.Advances (if fridayHours.count = none then p.cadence.ended newYear else 0)
        earlyDays.before l := by
  have hv : fridayHours.Valid := by decide
  have hy : 0 ≤ (fridayHours.anchor.getD earlyDays.after).date.year := by decide
  exact ⟨hv, hy, expand_examines fridayHours earlyDays 3 (some 30) hv hy⟩

end Rule

end Recurrence
