import Recurrence.Proofs.Expansion.Walk

/-!
# Walks that stop early

A walk that may find only so many occurrences does what a walk without that limit does until it is
full (`visit_capped`). So it finds the first ones of them (`found_capped`), and it does not fail
where a walk with a higher limit does not fail (`returns_capped`).
-/

namespace Recurrence

set_option autoImplicit false

open Calendar

/-- The flow, ended as soon as that many occurrences have been found. -/
def Flow.stopAt (max : Nat) : Flow → Flow
  | stop p => stop p
  | more p seen => if max ≤ p.found.size then stop p else more p seen

namespace Request

/-- The same request for at most `max` occurrences. -/
def capped (q : Request) (max : Option Nat) : Request := { q with maxFound := max }

variable {q : Request} {p r : Progress} {t : Timestamp} {l : List Timestamp} {seen new : Bool}
variable {n : Nat} {max : Option Nat} {w : Walk} {found : Array Occurrence}

/-- The limit matters to a visit only if it adds an occurrence. -/
theorem visit_capped_cases (q : Request) (p : Progress) (t : Timestamp) :
    (∃ f : Flow, f.found = p.found ∧ ∀ max, (q.capped max).visit p t = f) ∨
      ∀ max, (q.capped max).visit p t =
        if max.any (· ≤ p.found.size + 1) then .stop ((p.advance 1).add t)
        else .more ((p.advance 1).add t) true := by
  by_cases ha : t < q.anchor
  · exact Or.inl ⟨.more p false, rfl, fun _ => visit_of_lt_anchor ha⟩
  rw [Timestamp.not_lt] at ha
  by_cases he : q.endsBefore t = true
  · exact Or.inl ⟨.stop p, rfl, fun _ => visit_of_ended ha he⟩
  rw [Bool.not_eq_true] at he
  by_cases hc : q.countExceeded (p.advance 1) = true ∨ q.window.before ≤ t
  · exact Or.inl ⟨.stop (p.advance 1), rfl, fun max => visit_of_over (q := q.capped max) ha he hc⟩
  rw [not_or, Bool.not_eq_true, Timestamp.not_le] at hc
  obtain ⟨hc, hb⟩ := hc
  by_cases hw : t < q.window.after
  · exact Or.inl ⟨.more (p.advance 1) true, rfl,
      fun max => visit_of_lt_after (q := q.capped max) ha he hc hw⟩
  · refine Or.inr fun max => ?_
    rw [visit_of_contains (q := q.capped max) ha he hc ⟨Timestamp.not_lt.mp hw, hb⟩]
    simp only [isFull, Progress.add, Progress.advance, Array.size_push]
    rfl

theorem found_visit (q : Request) (p : Progress) (t : Timestamp) :
    (q.visit p t).found = p.found ∨ ∃ o, (q.visit p t).found = p.found.push o := by
  rcases visit_capped_cases q p t with ⟨f, hf, hv⟩ | hv
  · left
    rw [← hf, ← hv q.maxFound]
    rfl
  · right
    refine ⟨⟨t, (p.advance 1).position⟩, ?_⟩
    change ((q.capped q.maxFound).visit p t).found = _
    rw [hv]
    split <;> rfl

theorem found_prefix (q : Request) (l : List Timestamp) (seen : Bool) (p : Progress) :
    p.found.toList <+: (visitEach q.visit l seen p).found.toList := by
  induction l generalizing seen p with
  | nil => exact List.prefix_refl _
  | cons t l ih =>
    have hv : p.found.toList <+: (q.visit p t).found.toList := by
      rcases found_visit q p t with h | ⟨o, h⟩
      · exact h.symm ▸ List.prefix_refl _
      · rw [h, Array.toList_push]
        exact List.prefix_append _ _
    rw [visitEach_cons]
    cases he : q.visit p t with
    | stop p' =>
      rw [he] at hv
      exact hv
    | more p' new =>
      rw [he] at hv
      exact hv.trans (ih (seen || new) p')

theorem visit_capped (hp : p.found.size < n) :
    (q.capped (some n)).visit p t = ((q.capped none).visit p t).stopAt n := by
  rcases visit_capped_cases q p t with ⟨f, hf, hv⟩ | hv
  · rw [hv, hv]
    cases f with
    | stop p' => rfl
    | more p' seen =>
      have hsize : ¬ n ≤ p'.found.size := by
        change p'.found = p.found at hf
        rw [hf]
        exact Nat.not_le.mpr hp
      exact (if_neg hsize).symm
  · have hsize : ((p.advance 1).add t).found.size = p.found.size + 1 := Array.size_push _
    rw [hv, hv]
    simp only [Option.any_some, Option.any_none, Bool.false_eq_true, if_false, decide_eq_true_eq,
      Flow.stopAt, hsize]

/-- A walk with a limit finds the first ones of what it would find without. -/
theorem found_capped (hp : p.found.size < n) (l : List Timestamp) (seen : Bool) :
    (visitEach (q.capped (some n)).visit l seen p).found.toList =
      (visitEach (q.capped none).visit l seen p).found.toList.take n := by
  induction l generalizing seen p with
  | nil =>
    rw [List.take_of_length_le]
    · rfl
    · exact Nat.le_of_lt hp
  | cons t l ih =>
    have hsize : ((q.capped none).visit p t).found.size ≤ n := by
      rcases found_visit (q.capped none) p t with h | ⟨o, h⟩
      · rw [h]
        exact Nat.le_of_lt hp
      · rw [h, Array.size_push]
        exact hp
    rw [visitEach_cons, visitEach_cons, visit_capped hp]
    cases hv : (q.capped none).visit p t with
    | stop p' =>
      rw [hv] at hsize
      exact (List.take_of_length_le hsize).symm
    | more p' new =>
      rw [hv] at hsize
      dsimp only [Flow.stopAt, Flow.bind_more]
      split
      · next hfull =>
        -- the walk is full; without a limit, the rest comes after what it has found
        have hlen : p'.found.toList.length = n := Nat.le_antisymm hsize hfull
        have hpre := found_prefix (q.capped none) l (seen || new) p'
        rw [List.prefix_iff_eq_take, hlen] at hpre
        exact hpre
      · next hfull => exact ih (Nat.not_le.mp hfull) (seen || new)

section Higher

variable (hmax : ∀ m, max = some m → n ≤ m)
include hmax

/-- Where the lower limit goes on, the higher one goes on the same way. -/
theorem visit_of_higher (h : (q.capped (some n)).visit p t = .more r new) :
    (q.capped max).visit p t = .more r new := by
  rcases visit_capped_cases q p t with ⟨f, -, hv⟩ | hv
  · rw [hv] at h ⊢
    exact h
  · rw [hv] at h ⊢
    split at h
    · cases h
    · next hfull =>
      rw [if_neg]
      · exact h
      · intro hany
        obtain ⟨m, hm, hle⟩ := (Option.any_eq_true _ _).mp hany
        have hnm := hmax m hm
        simp only [Option.any_some, decide_eq_true_eq] at hfull hle
        omega

theorem visitEach_of_higher (h : visitEach (q.capped (some n)).visit l seen p = .more r new) :
    visitEach (q.capped max).visit l seen p = .more r new := by
  induction l generalizing seen p with
  | nil => exact h
  | cons t l ih =>
    rw [visitEach_cons] at h ⊢
    cases hv : (q.capped (some n)).visit p t with
    | stop p' =>
      rw [hv] at h
      cases h
    | more p' b =>
      rw [hv] at h
      rw [visit_of_higher hmax hv]
      exact ih h

/-- A walk does not fail where it does not fail with a higher limit. -/
theorem returns_capped (hp : q.plan.Lawful) (h : (q.capped max).Returns w (.ok found)) :
    ∃ found', (q.capped (some n)).Returns w (.ok found') := by
  generalize hr : Except.ok found = r at h
  -- on the run with the higher limit; the other one makes the same steps until it stops
  induction h with
  | @halt w r h =>
    subst hr
    by_cases ho : ∃ s, (q.capped max).Open w.index s
    · obtain ⟨s, ho⟩ := ho
      have ho' : (q.capped (some n)).Open w.index s := ⟨ho.1, ho.2, ho.3, ho.4⟩
      rw [step_of_open (q := q.capped max) hp ho, resume_eq_ok_iff] at h
      obtain ⟨p, hstop, -⟩ := h
      cases hv : visitEach (q.capped (some n)).visit (q.plan.period w.index) false w.progress with
      | stop p' =>
        refine ⟨p'.found, .halt ?_⟩
        rw [step_of_open (q := q.capped (some n)) hp ho', resume_eq_ok_iff]
        exact ⟨p', hv, rfl⟩
      | more p' new =>
        have hmore := visitEach_of_higher hmax hv
        cases hstop.symm.trans hmore
    · refine ⟨_, .halt (step_of_closed fun s ho' => ho ⟨s, ho'.1, ho'.2, ho'.3, ho'.4⟩)⟩
  | @next w w' r h _ ih =>
    obtain ⟨s, ho⟩ := exists_open_of_next h
    have ho' : (q.capped (some n)).Open w.index s := ⟨ho.1, ho.2, ho.3, ho.4⟩
    cases hv : visitEach (q.capped (some n)).visit (q.plan.period w.index) false w.progress with
    | stop p' =>
      refine ⟨p'.found, .halt ?_⟩
      rw [step_of_open (q := q.capped (some n)) hp ho', resume_eq_ok_iff]
      exact ⟨p', hv, rfl⟩
    | more p' new =>
      obtain ⟨found', hret⟩ := ih hr
      refine ⟨found', .next ?_ hret⟩
      rw [← h, step_of_open (q := q.capped (some n)) hp ho', step_of_open (q := q.capped max) hp ho]
      exact congrArg _ (hv.trans (visitEach_of_higher hmax hv).symm)

end Higher

end Request

end Recurrence
