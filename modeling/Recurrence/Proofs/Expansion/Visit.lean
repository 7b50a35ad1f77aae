import Recurrence.Expansion.Walk
import Recurrence.Proofs.Expansion.Lawful

/-!
# Visiting candidates

A day ahead of the window moves the position by all its times at once. A walk keeps the same as if
it had visited them one by one (`kept_visitDay`), so a period may be read as its list of timestamps.
-/

namespace Recurrence

set_option autoImplicit false

open Calendar

namespace Flow

def found : Flow → Array Occurrence
  | stop p => p.found
  | more p _ => p.found

/-- What a walk keeps of a flow: of a stop, only what was found. -/
def kept : Flow → Flow
  | stop p => stop ⟨none, p.found⟩
  | more p seen => more p seen

def bind (f : Flow) (next : Bool → Progress → Flow) : Flow :=
  match f with
  | stop p => stop p
  | more p seen => next seen p

@[simp] theorem bind_more (p : Progress) (seen : Bool) (next : Bool → Progress → Flow) :
    (more p seen).bind next = next seen p := rfl

theorem bind_more_bind (f : Flow) (seen : Bool) (next : Bool → Progress → Flow) :
    ((f.bind fun new p => .more p (seen || new)).bind next) =
      f.bind fun new p => next (seen || new) p := by
  cases f <;> rfl

theorem kept_bind {f f' : Flow} {next next' : Bool → Progress → Flow} (hf : f.kept = f'.kept)
    (hn : ∀ seen p, (next seen p).kept = (next' seen p).kept) :
    (f.bind next).kept = (f'.bind next').kept := by
  cases f with
  | stop p =>
    cases f' with
    | stop p' => exact hf
    | more p' seen => cases hf
  | more p seen =>
    cases f' with
    | stop p' => cases hf
    | more p' seen' =>
      cases hf
      exact hn seen p

end Flow

section VisitEach

variable {α β : Type} {visit : Progress → α → Flow}

theorem visitEach_cons (a : α) (l : List α) (seen : Bool) (p : Progress) :
    visitEach visit (a :: l) seen p =
      (visit p a).bind fun new p => visitEach visit l (seen || new) p := by
  rw [visitEach]
  cases visit p a <;> rfl

theorem visitEach_append (l l' : List α) (seen : Bool) (p : Progress) :
    visitEach visit (l ++ l') seen p =
      (visitEach visit l seen p).bind fun seen p => visitEach visit l' seen p := by
  induction l generalizing seen p with
  | nil => rfl
  | cons a l ih =>
    rw [List.cons_append, visitEach_cons, visitEach_cons]
    cases visit p a with
    | stop p => rfl
    | more p new => exact ih (seen || new) p

theorem visitEach_map (f : β → α) (l : List β) (seen : Bool) (p : Progress) :
    visitEach visit (l.map f) seen p = visitEach (fun p b => visit p (f b)) l seen p := by
  induction l generalizing seen p with
  | nil => rfl
  | cons b l ih =>
    rw [List.map_cons, visitEach_cons, visitEach_cons]
    simp only [ih]

theorem visitEach_seen (l : List α) (seen : Bool) (p : Progress) :
    visitEach visit l seen p =
      (visitEach visit l false p).bind fun new p => .more p (seen || new) := by
  induction l generalizing seen p with
  | nil =>
    simp only [visitEach, Flow.bind_more, Bool.or_false]
  | cons a l ih =>
    rw [visitEach_cons, visitEach_cons]
    cases visit p a with
    | stop p => rfl
    | more p new =>
      dsimp only [Flow.bind_more]
      rw [ih (seen || new), ih (false || new)]
      cases visitEach visit l false p with
      | stop p => rfl
      | more p later => simp only [Flow.bind_more, Bool.false_or, Bool.or_assoc]

theorem found_visitEach_seen (l : List α) (seen : Bool) (p : Progress) :
    (visitEach visit l seen p).found = (visitEach visit l false p).found := by
  rw [visitEach_seen]
  cases visitEach visit l false p <;> rfl

theorem found_visitEach_of_forall {l : List α} (h : ∀ p, ∀ a ∈ l, (visit p a).found = p.found)
    (seen : Bool) (p : Progress) : (visitEach visit l seen p).found = p.found := by
  induction l generalizing seen p with
  | nil => rfl
  | cons a l ih =>
    have ha := h p a List.mem_cons_self
    rw [visitEach_cons]
    cases hv : visit p a with
    | stop r =>
      rw [hv] at ha
      exact ha
    | more r new =>
      rw [hv] at ha
      exact (ih (fun p b hb => h p b (List.mem_cons_of_mem a hb)) _ r).trans ha

theorem kept_visitEach_congr {visit' : Progress → α → Flow} {l : List α}
    (h : ∀ p, ∀ a ∈ l, (visit p a).kept = (visit' p a).kept) (seen : Bool) (p : Progress) :
    (visitEach visit l seen p).kept = (visitEach visit' l seen p).kept := by
  induction l generalizing seen p with
  | nil => rfl
  | cons a l ih =>
    rw [visitEach_cons, visitEach_cons]
    apply Flow.kept_bind (h p a List.mem_cons_self)
    exact fun new p => ih (fun p b hb => h p b (List.mem_cons_of_mem a hb)) (seen || new) p

theorem kept_visitEach_flatMap {visit' : Progress → β → Flow} {g : β → List α}
    (h : ∀ p b, (visit' p b).kept = (visitEach visit (g b) false p).kept)
    (l : List β) (seen : Bool) (p : Progress) :
    (visitEach visit' l seen p).kept = (visitEach visit (l.flatMap g) seen p).kept := by
  induction l generalizing seen p with
  | nil => rfl
  | cons b l ih =>
    rw [List.flatMap_cons, visitEach_cons, visitEach_append, visitEach_seen, Flow.bind_more_bind]
    apply Flow.kept_bind (h p b)
    exact fun new p => ih (seen || new) p

end VisitEach

namespace Progress

variable (p : Progress) (m n : Nat)

theorem advance_advance : (p.advance m).advance n = p.advance (m + n) := by
  cases p with
  | mk position found =>
    cases position with
    | none => rfl
    | some k =>
      simp only [advance, Option.map_some, mk.injEq, Option.some.injEq, and_true]
      omega

end Progress

namespace Request

variable {q : Request} {p : Progress} {t : Timestamp} {d : Date} {l : List Timestamp}

theorem countExceeded_advance {m n : Nat} (h : q.countExceeded (p.advance m) = true)
    (hmn : m ≤ n) : q.countExceeded (p.advance n) = true := by
  cases p with
  | mk position found =>
    cases position with
    | none =>
      simp only [countExceeded, Progress.advance, Option.map_none] at h
      split at h <;> simp_all
    | some k =>
      unfold countExceeded at h ⊢
      cases hc : q.rule.count with
      | none =>
        rw [hc] at h
        cases h
      | some count =>
        simp only [hc, Progress.advance, Option.map_some, decide_eq_true_eq] at h ⊢
        omega

section Visit

theorem visit_of_lt_anchor (h : t < q.anchor) : q.visit p t = .more p false := by
  rw [visit, visitBy, if_pos h]

theorem visit_of_ended (ha : q.anchor ≤ t) (he : q.endsBefore t = true) :
    q.visit p t = .stop p := by
  rw [visit, visitBy, if_neg (Timestamp.not_lt.mpr ha), if_pos he]

variable (ha : q.anchor ≤ t) (he : q.endsBefore t = false)
include ha he

theorem visit_of_over (h : q.countExceeded (p.advance 1) = true ∨ q.window.before ≤ t) :
    q.visit p t = .stop (p.advance 1) := by
  rw [visit, visitBy, if_neg (Timestamp.not_lt.mpr ha), if_neg (Bool.eq_false_iff.mp he)]
  exact if_pos (by simpa using h)

variable (hc : q.countExceeded (p.advance 1) = false)
include hc

theorem visit_of_lt_after (hw : t < q.window.after) : q.visit p t = .more (p.advance 1) true := by
  have hb := Timestamp.not_le.mpr (Timestamp.lt_trans hw q.window.after_lt_before)
  rw [visit, visitBy, if_neg (Timestamp.not_lt.mpr ha), if_neg (Bool.eq_false_iff.mp he)]
  dsimp only
  rw [if_neg (by simp [hc, hb]), if_pos hw]

theorem visit_of_contains (hw : q.window.Contains t) :
    q.visit p t = if q.isFull ((p.advance 1).add t) then .stop ((p.advance 1).add t)
      else .more ((p.advance 1).add t) true := by
  have hb := Timestamp.not_le.mpr hw.2
  rw [visit, visitBy, if_neg (Timestamp.not_lt.mpr ha), if_neg (Bool.eq_false_iff.mp he)]
  dsimp only
  rw [if_neg (by simp [hc, hb]), if_neg (Timestamp.not_lt.mpr hw.1)]

end Visit

/-- A visit adds only a time of the window that is not after the end of the rule. -/
theorem found_visit_of_outside (h : q.window.Contains t → q.endsBefore t = true)
    (p : Progress) : (q.visit p t).found = p.found := by
  by_cases ha : t < q.anchor
  · rw [visit_of_lt_anchor ha]
    rfl
  rw [Timestamp.not_lt] at ha
  by_cases he : q.endsBefore t = true
  · rw [visit_of_ended ha he]
    rfl
  by_cases hc : q.countExceeded (p.advance 1) = true ∨ q.window.before ≤ t
  · rw [visit_of_over ha (Bool.eq_false_iff.mpr he) hc]
    rfl
  · rw [not_or, Bool.not_eq_true, Timestamp.not_le] at hc
    have hw : t < q.window.after := Timestamp.not_le.mp fun hle => he (h ⟨hle, hc.2⟩)
    rw [visit_of_lt_after ha (Bool.eq_false_iff.mpr he) hc.1 hw]
    rfl

/-- Visiting only moves the position. -/
def Moves (q : Request) (t : Timestamp) : Prop :=
  ∀ p, q.visit p t = if q.countExceeded (p.advance 1) then .stop (p.advance 1)
    else .more (p.advance 1) true

theorem moves_of_isAhead (h : q.isAhead t.date = true) : q.Moves t := by
  simp only [isAhead, Bool.and_eq_true, decide_eq_true_eq, Option.all_eq_true] at h
  obtain ⟨⟨ha, hw⟩, hl⟩ := h
  have hanchor : q.anchor ≤ t := Timestamp.le_of_lt (Timestamp.lt_iff.mpr (Or.inl ha))
  have hends : q.endsBefore t = false := by
    simp only [endsBefore, Option.any_eq_false, decide_eq_false_iff_not]
    intro last hlast
    rw [Timestamp.not_lt]
    exact Timestamp.le_of_lt (Timestamp.lt_iff.mpr (Or.inl (hl last hlast)))
  have hafter : t < q.window.after := Timestamp.lt_iff.mpr (Or.inl hw)
  intro p
  split
  · next hc => exact visit_of_over hanchor hends (Or.inl hc)
  · next hc => exact visit_of_lt_after hanchor hends (Bool.eq_false_iff.mpr hc) hafter

theorem kept_visitEach_of_moves (hl : ∀ t ∈ l, q.Moves t) (hne : l ≠ []) (seen : Bool)
    (p : Progress) : (visitEach q.visit l seen p).kept =
      (if q.countExceeded (p.advance l.length) then .stop (p.advance l.length)
        else .more (p.advance l.length) true : Flow).kept := by
  induction l generalizing seen p with
  | nil => exact absurd rfl hne
  | cons t l ih =>
    have hrest : ∀ t ∈ l, q.Moves t := fun t' ht' => hl t' (List.mem_cons_of_mem t ht')
    rw [visitEach_cons, hl t List.mem_cons_self p, List.length_cons]
    by_cases he : q.countExceeded (p.advance 1) = true
    · rw [if_pos he, if_pos (countExceeded_advance he (by omega))]
      rfl
    · rw [if_neg he]
      dsimp only [Flow.bind_more]
      rw [Bool.or_true]
      cases l with
      | nil =>
        rw [List.length_nil, Nat.zero_add, if_neg he]
        rfl
      | cons t' l =>
        rw [ih hrest (List.cons_ne_nil t' l), Progress.advance_advance, Nat.add_comm 1]

theorem visitEach_of_lt_anchor (h : ∀ t ∈ l, t < q.anchor) (seen : Bool) (p : Progress) :
    visitEach q.visit l seen p = .more p seen := by
  induction l generalizing seen with
  | nil => rfl
  | cons t l ih =>
    rw [visitEach_cons, visit_of_lt_anchor (h t List.mem_cons_self), Flow.bind_more,
      Bool.or_false]
    exact ih (fun t' ht' => h t' (List.mem_cons_of_mem t ht')) seen

/-- Visiting a day comes to the same as visiting its times. -/
theorem kept_visitDay (hp : q.plan.Lawful) (p : Progress) (d : Date) : (q.visitDay p d).kept =
    (visitEach q.visit (q.plan.times.map (Timestamp.of d)) false p).kept := by
  have hdate : ∀ t ∈ q.plan.times.map (Timestamp.of d), t.date = d := by
    intro t ht
    obtain ⟨u, -, rfl⟩ := List.mem_map.mp ht
    rfl
  unfold visitDay visitDayBy
  split
  · next hlt =>
    rw [visitEach_of_lt_anchor]
    intro t ht
    rw [← hdate t ht] at hlt
    exact Timestamp.lt_iff.mpr (Or.inl hlt)
  · split
    · next hahead =>
      have hmoves : ∀ t ∈ q.plan.times.map (Timestamp.of d), q.Moves t := by
        intro t ht
        rw [← hdate t ht] at hahead
        exact moves_of_isAhead hahead
      have hne : q.plan.times.map (Timestamp.of d) ≠ [] := by
        have := hp.length_times
        have := hp.timesPerDay_pos
        rw [ne_eq, List.map_eq_nil_iff, ← List.length_eq_zero_iff]
        omega
      rw [kept_visitEach_of_moves hmoves hne, List.length_map, hp.length_times]
    · rw [visitEach_map]
      rfl

end Request

end Recurrence
