import Recurrence.Proofs.Expansion.Capped

/-!
# The sequence of a rule

`Plan.sequence` goes through all periods one by one: what comes before the anchor is dropped, the
rest is cut after the end of the rule and to its count. An expansion that does not fail lists the
part of the sequence that lies in the window (`expand_eq`).
-/

namespace Recurrence

set_option autoImplicit false

open Calendar

def upTo {α : Type} (limit : Option Nat) (l : List α) : List α :=
  match limit with
  | none => l
  | some n => l.take n

/-- The times of a list from the anchor on, up to the end of the rule. -/
def Rule.span (r : Rule) (anchor : Timestamp) (l : List Timestamp) : List Timestamp :=
  (l.filter (anchor ≤ ·)).takeWhile fun t => r.last.all (t ≤ ·)

/-- All occurrences of a rule from its anchor on, at most `limit` of them. -/
def Plan.sequence (p : Plan) (anchor : Timestamp) (limit : Option Nat) : List Timestamp :=
  upTo limit (p.rule.span anchor (p.candidatesFrom 0))

/-- The members that lie in a window, with their positions from `first` on. -/
def Window.numbered (w : Window) (first : Nat) (l : List Timestamp) : List (Timestamp × Nat) :=
  (l.zipIdx first).filter fun e => w.Contains e.1

theorem upTo_sublist {α : Type} (limit : Option Nat) (l : List α) : (upTo limit l).Sublist l := by
  cases limit with
  | none => exact List.Sublist.refl l
  | some n => exact List.take_sublist n l

theorem upTo_nil {α : Type} (limit : Option Nat) : upTo limit ([] : List α) = [] := by
  cases limit with
  | none => rfl
  | some n => exact List.take_nil

theorem upTo_sub_cons {α : Type} {limit : Option Nat} {k : Nat}
    (h : ∀ n, limit = some n → k + 1 ≤ n) (a : α) (l : List α) :
    upTo (limit.map (· - k)) (a :: l) = a :: upTo (limit.map (· - (k + 1))) l := by
  cases limit with
  | none => rfl
  | some n =>
    have hn := h n rfl
    simp only [upTo, Option.map_some]
    rw [show n - k = n - (k + 1) + 1 by omega, List.take_succ_cons]

namespace Window

variable {w : Window} {k : Nat} {l l' : List Timestamp} {t : Timestamp}

theorem numbered_cons_of_contains (h : w.Contains t) :
    w.numbered k (t :: l) = (t, k) :: w.numbered (k + 1) l := by
  rw [numbered, List.zipIdx_cons]
  exact List.filter_cons_of_pos (decide_eq_true h)

theorem numbered_cons_of_not_contains (h : ¬ w.Contains t) :
    w.numbered k (t :: l) = w.numbered (k + 1) l := by
  rw [numbered, List.zipIdx_cons]
  exact List.filter_cons_of_neg (by simpa using h)

theorem numbered_eq_nil (h : ∀ t ∈ l, ¬ w.Contains t) : w.numbered k l = [] := by
  rw [numbered, List.filter_eq_nil_iff]
  rintro ⟨t, n⟩ he
  simpa using h t (List.fst_mem_of_mem_zipIdx he)

theorem numbered_append :
    w.numbered k (l ++ l') = w.numbered k l ++ w.numbered (k + l.length) l' := by
  rw [numbered, List.zipIdx_append, List.filter_append]
  rfl

theorem map_fst_numbered : (w.numbered k l).map Prod.fst = l.filter w.Contains := by
  induction l generalizing k with
  | nil => rfl
  | cons t l ih =>
    by_cases h : w.Contains t
    · rw [numbered_cons_of_contains h, List.map_cons, ih,
        List.filter_cons_of_pos (by simpa using h)]
    · rw [numbered_cons_of_not_contains h, ih, List.filter_cons_of_neg (by simpa using h)]

end Window

namespace Rule

variable {r : Rule} {anchor t : Timestamp} {l l' : List Timestamp}

theorem span_sublist (r : Rule) (anchor : Timestamp) (l : List Timestamp) :
    (r.span anchor l).Sublist l :=
  (List.takeWhile_sublist _).trans List.filter_sublist

theorem span_cons_of_lt (h : t < anchor) : r.span anchor (t :: l) = r.span anchor l := by
  rw [span, List.filter_cons_of_neg (by simpa [Timestamp.not_le] using h)]
  rfl

theorem span_cons_of_le (h : anchor ≤ t) : r.span anchor (t :: l) =
    if r.last.all (t ≤ ·) then t :: r.span anchor l else [] := by
  rw [span, List.filter_cons_of_pos (by simpa using h), List.takeWhile_cons]
  rfl

/-- In an ascending list, nothing comes back after the end of the rule. -/
theorem span_eq_filter (hl : l.Pairwise (· < ·)) : r.span anchor l =
    l.filter fun t => anchor ≤ t ∧ r.last.all (t ≤ ·) = true := by
  induction l with
  | nil => rfl
  | cons t l ih =>
    obtain ⟨ht, hl⟩ := List.pairwise_cons.mp hl
    by_cases ha : anchor ≤ t
    · rw [span_cons_of_le ha]
      by_cases he : r.last.all (t ≤ ·) = true
      · rw [if_pos he, ih hl, List.filter_cons_of_pos (by simp [ha, he])]
      · rw [if_neg he, List.filter_cons_of_neg (by simp [he]), eq_comm, List.filter_eq_nil_iff]
        intro t' ht' hc
        simp only [decide_eq_true_eq, Option.all_eq_true] at hc he
        exact he fun last hlast =>
          Timestamp.le_trans (Timestamp.le_of_lt (ht t' ht')) (hc.2 last hlast)
    · rw [span_cons_of_lt (Timestamp.not_le.mp ha), ih hl,
        List.filter_cons_of_neg (by simp [ha])]

theorem span_append (hl : (l ++ l').Pairwise (· < ·)) :
    r.span anchor (l ++ l') = r.span anchor l ++ r.span anchor l' := by
  obtain ⟨h, h', -⟩ := List.pairwise_append.mp hl
  rw [span_eq_filter hl, span_eq_filter h, span_eq_filter h', List.filter_append]

/-- A count that the counter can exceed. -/
def limit? (r : Rule) : Option Nat := r.count.filter (· < counterMax)

end Rule

theorem Plan.Lawful.sequence_ascending {p : Plan} (hp : p.Lawful) (anchor : Timestamp)
    (limit : Option Nat) : (p.sequence anchor limit).Pairwise (· < ·) :=
  (hp.candidatesFrom_ascending 0).sublist
    ((upTo_sublist _ _).trans (p.rule.span_sublist anchor _))

namespace Request

variable {q : Request} {k : Nat} {t : Timestamp} {l : List Timestamp} {found : Array Occurrence}
variable {known : Bool}

/-- The position that an occurrence gets, if positions are known. -/
def mark (known : Bool) (k : Nat) : Option Nat := if known then some (min k counterMax) else none

def marked (known : Bool) (l : List (Timestamp × Nat)) : List Occurrence :=
  l.map fun e => ⟨e.1, mark known e.2⟩

theorem mark_not {c : Prop} [Decidable c] (k : Nat) :
    mark (¬ c) k = if c then none else some (min k counterMax) := by
  by_cases hc : c <;> simp [mark, hc]

theorem advance_mark :
    (⟨mark known k, found⟩ : Progress).advance 1 = ⟨mark known (k + 1), found⟩ := by
  cases known with
  | false => rfl
  | true =>
    simp only [mark, Progress.advance, if_true, Option.map_some, Progress.mk.injEq,
      Option.some.injEq, and_true]
    omega

theorem countExceeded_mark (hk : known = false → q.rule.count = none) :
    q.countExceeded ⟨mark known k, found⟩ = true ↔ ∃ n, q.rule.limit? = some n ∧ n < k := by
  unfold countExceeded Rule.limit?
  cases hc : q.rule.count with
  | none => simp
  | some count =>
    have hknown : known = true := by
      rw [← Bool.not_eq_false]
      intro h
      rw [hk h] at hc
      cases hc
    simp only [mark, hknown, if_true, decide_eq_true_eq, Option.filter_some]
    split <;> simp <;> omega

theorem endsBefore_eq : q.endsBefore t = !q.rule.last.all (t ≤ ·) := by
  unfold endsBefore
  cases q.rule.last with
  | none => rfl
  | some last => simp [← Timestamp.not_le]

/-- What visiting an ascending list finds, when `k` occurrences have come before. -/
theorem found_visitEach (known : Bool) (k : Nat) (found : Array Occurrence) (hm : q.maxFound = none)
    (hknown : known = false → q.rule.count = none) (hl : l.Pairwise (· < ·))
    (hk : ∀ n, q.rule.limit? = some n → k ≤ n) (seen : Bool) :
    (visitEach q.visit l seen ⟨mark known k, found⟩).found.toList = found.toList ++
      marked known (q.window.numbered (k + 1)
        (upTo (q.rule.limit?.map (· - k)) (q.rule.span q.anchor l))) := by
  induction l generalizing k found seen with
  | nil =>
    rw [Rule.span, List.filter_nil, List.takeWhile_nil, upTo_nil]
    exact (List.append_nil _).symm
  | cons t l ih =>
    obtain ⟨ht, hl⟩ := List.pairwise_cons.mp hl
    rw [visitEach_cons]
    by_cases ha : t < q.anchor
    · rw [visit_of_lt_anchor ha, Flow.bind_more, Bool.or_false, Rule.span_cons_of_lt ha]
      exact ih k found hl hk seen
    rw [Timestamp.not_lt] at ha
    rw [Rule.span_cons_of_le ha]
    by_cases he : q.rule.last.all (t ≤ ·) = true
    swap
    · rw [if_neg he, visit_of_ended ha (by simp [endsBefore_eq, he]), upTo_nil]
      exact (List.append_nil _).symm
    rw [if_pos he]
    have he : q.endsBefore t = false := by rw [endsBefore_eq, he, Bool.not_true]
    by_cases hx : q.countExceeded ⟨mark known (k + 1), found⟩ = true
    · obtain ⟨n, hn, hlt⟩ := (countExceeded_mark hknown).mp hx
      have hk := hk n hn
      rw [visit_of_over ha he (by rw [advance_mark]; exact Or.inl hx), hn, Option.map_some,
        show n - k = 0 by omega]
      exact (List.append_nil _).symm
    by_cases hb : q.window.before ≤ t
    · -- all that follows comes after the window, too
      rw [visit_of_over ha he (Or.inr hb), Window.numbered_eq_nil]
      · exact (List.append_nil _).symm
      · intro t' ht' hc
        have hmem := ((q.rule.span_sublist q.anchor l).cons_cons t).mem ((upTo_sublist _ _).mem ht')
        have hle : t ≤ t' := by
          rcases List.mem_cons.mp hmem with rfl | hmem
          · exact Nat.le_refl _
          · exact Timestamp.le_of_lt (ht t' hmem)
        exact Timestamp.not_lt.mpr (Timestamp.le_trans hb hle) hc.2
    have hk' : ∀ n, q.rule.limit? = some n → k + 1 ≤ n := by
      intro n hn
      by_contra hlt
      exact hx ((countExceeded_mark hknown).mpr ⟨n, hn, by omega⟩)
    have hx : q.countExceeded ((⟨mark known k, found⟩ : Progress).advance 1) = false := by
      rw [advance_mark]
      exact Bool.eq_false_iff.mpr hx
    rw [upTo_sub_cons hk']
    by_cases hw : t < q.window.after
    · rw [visit_of_lt_after ha he hx hw, Flow.bind_more, advance_mark, ih _ _ hl hk',
        Window.numbered_cons_of_not_contains fun hc => Timestamp.not_lt.mpr hc.1 hw]
    · have hw : q.window.Contains t := ⟨Timestamp.not_lt.mp hw, Timestamp.not_le.mp hb⟩
      have hfull : ∀ p, q.isFull p = false := by
        intro p
        rw [isFull, hm]
        rfl
      rw [visit_of_contains ha he hx hw, hfull, if_neg Bool.false_ne_true, Flow.bind_more,
        advance_mark, Progress.add, ih _ _ hl hk', Window.numbered_cons_of_contains hw,
        Array.toList_push, List.append_assoc]
      rfl

theorem lt_after_of_mem (hp : q.plan.Lawful) {i : Nat}
    (hi : i < q.plan.cadence.ended q.window.after) (ht : t ∈ q.plan.period i) :
    t < q.window.after := by
  obtain ⟨hn, -, hlt⟩ := hp.mem_period ht
  have hle := Cadence.second_le_ceil_of_lt_ended hp.step_pos hi
  rw [Timestamp.lt_iff_ceil hn]
  omega

theorem firstIndex_eq_zero_iff :
    q.firstIndex = 0 ↔ ¬ (q.rule.count = none ∧ 0 < q.plan.cadence.ended q.window.after) := by
  unfold firstIndex
  split
  · next h => simp [Option.isNone_iff_eq_none.mp h]
  · next h => simp [mt Option.isNone_iff_eq_none.mpr h]

/-- A walk from its first period finds what lies in the window, fast forward or not. -/
theorem found_initial (hp : q.plan.Lawful) (hm : q.maxFound = none) :
    (visitEach q.visit (q.plan.candidatesFrom q.firstIndex) false q.initial.progress).found.toList =
      marked (q.firstIndex = 0)
        (q.window.numbered 1 (q.plan.sequence q.anchor q.rule.limit?)) := by
  have hl := hp.candidatesFrom_ascending q.firstIndex
  by_cases h0 : q.firstIndex = 0
  · have hv := found_visitEach true 0 #[] hm nofun hl (fun n _ => Nat.zero_le n) false
    have hlimit : q.rule.limit?.map (· - 0) = q.rule.limit? := by simp
    rw [hlimit, h0] at hv
    rw [initial, h0, if_pos rfl, decide_eq_true rfl]
    exact hv
  · obtain ⟨hcount, -⟩ := Classical.not_not.mp (mt firstIndex_eq_zero_iff.mpr h0)
    have hlimit : q.rule.limit? = none := by rw [Rule.limit?, hcount, Option.filter_none]
    have hall := hp.candidatesFrom_append (Nat.zero_le q.firstIndex)
    have hsorted := hp.candidatesFrom_ascending 0
    rw [hall] at hsorted
    -- what the walk leaves out ends before the window
    generalize hskip : (List.range' 0 (q.firstIndex - 0)).flatMap q.plan.period = skipped
      at hall hsorted
    have hbefore : q.window.numbered 1 (q.rule.span q.anchor skipped) = [] := by
      apply Window.numbered_eq_nil
      intro t ht hc
      have hmem := (q.rule.span_sublist q.anchor skipped).mem ht
      rw [← hskip, List.mem_flatMap] at hmem
      obtain ⟨i, hi, hmem⟩ := hmem
      rw [List.mem_range'_1, firstIndex, hcount, Option.isNone_none, if_pos rfl] at hi
      exact Timestamp.not_lt.mpr hc.1 (lt_after_of_mem hp (by omega) hmem)
    have hv := found_visitEach false (q.rule.span q.anchor skipped).length #[] hm
      (fun _ => hcount) hl (by rw [hlimit]; exact nofun) false
    rw [initial, if_neg h0, decide_eq_false h0, Plan.sequence, hall, hlimit]
    change _ = marked false (q.window.numbered 1 (q.rule.span q.anchor (skipped ++ _)))
    rw [Rule.span_append hsorted, Window.numbered_append, hbefore, List.nil_append, Nat.add_comm 1]
    rw [hlimit] at hv
    exact hv

end Request

namespace Rule

variable {rule : Rule} {window : Window} {maxEmptyPeriods : Nat} {found : List Occurrence}
variable {p : Plan}

def request (rule : Rule) (p : Plan) (window : Window) (maxEmptyPeriods : Nat) : Request :=
  ⟨p, rule.anchor.getD window.after, window, maxEmptyPeriods, none⟩

theorem rule_of_plan {anchor : Timestamp} (hp : Plan.of? rule anchor = some p) : p.rule = rule := by
  obtain ⟨c, -, rfl⟩ := Plan.of?_eq_some_iff.mp hp
  rfl

/-- An expansion is a run of its walk. -/
theorem expand_eq_iff (hv : rule.Valid)
    (hp : Plan.of? rule (rule.anchor.getD window.after) = some p) {max : Option Nat}
    {result : Except ExpansionError (List Occurrence)} :
    rule.expand window maxEmptyPeriods max = result ↔
      ((rule.request p window maxEmptyPeriods).capped max).Returns
        (rule.request p window maxEmptyPeriods).initial (result.map List.toArray) := by
  have hi : (rule.request p window maxEmptyPeriods).rule.interval ≠ 0 := by
    change p.rule.interval ≠ 0
    rw [rule_of_plan hp]
    exact hv.interval_pos
  have hrun : ((rule.request p window maxEmptyPeriods).capped max).Returns
      (rule.request p window maxEmptyPeriods).initial
      (((rule.request p window maxEmptyPeriods).capped max).run
        (rule.request p window maxEmptyPeriods).budget
        (rule.request p window maxEmptyPeriods).initial) :=
    Request.returns_expand (Plan.lawful_of_valid hv hp) hi
  have he : rule.expand window maxEmptyPeriods max =
      (((rule.request p window maxEmptyPeriods).capped max).run
        (rule.request p window maxEmptyPeriods).budget
        (rule.request p window maxEmptyPeriods).initial).map Array.toList := by
    rw [expand, expandBy, hp]
    rfl
  rw [he]
  generalize Request.run _ _ _ = r at hrun
  constructor
  · rintro rfl
    cases r <;> exact hrun
  · intro h
    rw [hrun.unique h]
    cases result <;> rfl

theorem expand_eq_ok_iff (hv : rule.Valid)
    (hp : Plan.of? rule (rule.anchor.getD window.after) = some p) :
    rule.expand window maxEmptyPeriods none = .ok found ↔
      (rule.request p window maxEmptyPeriods).Returns
        (rule.request p window maxEmptyPeriods).initial (.ok found.toArray) :=
  expand_eq_iff hv hp

/-- An expansion that does not fail lists the sequence of the rule inside the window. -/
theorem expand_eq (hv : rule.Valid) (hp : Plan.of? rule (rule.anchor.getD window.after) = some p)
    (h : rule.expand window maxEmptyPeriods none = .ok found) :
    found = Request.marked (¬ (rule.count = none ∧ 0 < p.cadence.ended window.after))
      (window.numbered 1 (p.sequence (rule.anchor.getD window.after) rule.limit?)) := by
  have hlaw := Plan.lawful_of_valid hv hp
  have hfound := Request.found_eq hlaw ((expand_eq_ok_iff hv hp).mp h)
  have hinit := Request.found_initial (q := rule.request p window maxEmptyPeriods) hlaw rfl
  simp only [Request.firstIndex_eq_zero_iff] at hinit
  simp only [Request.rule, request, rule_of_plan hp] at hinit
  rw [← hinit]
  exact congrArg Array.toList hfound

theorem limit?_eq_count (h : ∀ n, rule.count = some n → n < counterMax) :
    rule.limit? = rule.count := by
  unfold limit?
  cases hc : rule.count with
  | none => rfl
  | some n => rw [Option.filter_some, if_pos (decide_eq_true (h n hc))]

end Rule

/-- An expansion is the part in the window of a walk through all periods one by one. -/
theorem expand_eq_sequence (rule : Rule) (window : Window) (maxEmptyPeriods : Nat)
    (found : List Occurrence) (hv : rule.Valid)
    (hcount : ∀ n, rule.count = some n → n < counterMax)
    (hy : 0 ≤ (rule.anchor.getD window.after).date.year)
    (h : rule.expand window maxEmptyPeriods none = .ok found) :
    ∃ p, Plan.of? rule (rule.anchor.getD window.after) = some p ∧
      (∀ i, calendarSeconds ≤ i → p.period i = []) ∧
      (p.sequence (rule.anchor.getD window.after) rule.count).Pairwise (· < ·) ∧
      found = (window.numbered 1 (p.sequence (rule.anchor.getD window.after) rule.count)).map
        fun e => ⟨e.1, if rule.count = none ∧ 0 < p.cadence.ended window.after then none
          else some (min e.2 counterMax)⟩ := by
  obtain ⟨c, -, hp⟩ := Plan.exists_plan rule hy
  have hlaw := Plan.lawful_of_valid hv hp
  refine ⟨_, hp, ?_, hlaw.sequence_ascending _ _, ?_⟩
  · intro i hi
    exact Plan.period_of_none (hlaw.start?_eq_none hi)
  · rw [Rule.expand_eq hv hp h, Rule.limit?_eq_count hcount, Request.marked]
    simp only [Request.mark_not]

/-- The first 60 days of 2024. -/
def earlyDays : Window :=
  ⟨newYear, .startOfDay ⟨yearStart 2024 + 60, by decide, by decide⟩, by decide⟩

theorem expand_lastFriday :
    lastFriday.Valid ∧ (∀ n, lastFriday.count = some n → n < counterMax) ∧
    0 ≤ (lastFriday.anchor.getD earlyDays.after).date.year ∧
    ∃ found, lastFriday.expand earlyDays 10 none = .ok found ∧ found.length = 2 ∧
    ∃ p, Plan.of? lastFriday newYear = some p ∧
      (∀ i, calendarSeconds ≤ i → p.period i = []) ∧
      (p.sequence newYear none).Pairwise (· < ·) ∧
      found = (earlyDays.numbered 1 (p.sequence newYear none)).map
        fun e => ⟨e.1, if lastFriday.count = none ∧ 0 < p.cadence.ended newYear then none
          else some (min e.2 counterMax)⟩ := by
  have hv : lastFriday.Valid := by decide
  have hy : 0 ≤ (lastFriday.anchor.getD earlyDays.after).date.year := by decide
  refine ⟨hv, nofun, hy, _, rfl, rfl, ?_⟩
  exact expand_eq_sequence lastFriday earlyDays 10 _ hv nofun hy rfl

end Recurrence
