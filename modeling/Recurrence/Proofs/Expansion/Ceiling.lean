import Recurrence.Proofs.Expansion.Capped
import Recurrence.Proofs.Expansion.RuleSet

/-!
# The ceiling on empty periods

The ceiling decides whether a walk gives up and nothing else: a step is the same with a higher
ceiling unless it gives up (`step_withCeiling`), and so is what an expansion answers.
-/

namespace Recurrence

set_option autoImplicit false

open Calendar

namespace Request

/-- The same request with another ceiling on the empty periods in a row. -/
def withCeiling (q : Request) (ceiling : Nat) : Request := { q with maxEmptyPeriods := ceiling }

variable {q : Request} {w : Walk} {n : Nat}

theorem resume_withCeiling (hle : q.maxEmptyPeriods ≤ n) (next emptyRun : Nat) (f : Flow) :
    (q.withCeiling n).resume next emptyRun f = q.resume next emptyRun f ∨
      ∃ e, q.resume next emptyRun f = .halt (.error e) := by
  cases f with
  | stop p => exact Or.inl rfl
  | more p seen =>
    cases seen with
    | true => exact Or.inl rfl
    | false =>
      rcases Nat.lt_or_ge q.maxEmptyPeriods (min (emptyRun + 1) counterMax) with hlt | hge
      · exact Or.inr ⟨_, if_pos hlt⟩
      · have hge' : ¬ n < min (emptyRun + 1) counterMax := Nat.not_lt.mpr (hge.trans hle)
        exact Or.inl ((if_neg hge').trans (if_neg (Nat.not_lt.mpr hge)).symm)

/-- With a higher ceiling a step is the same, unless it gives up with the lower one. -/
theorem step_withCeiling (hp : q.plan.Lawful) (hle : q.maxEmptyPeriods ≤ n) (w : Walk) :
    (q.withCeiling n).step w = q.step w ∨ ∃ e, q.step w = .halt (.error e) := by
  by_cases ho : ∃ s, q.Open w.index s
  · obtain ⟨s, ho⟩ := ho
    have ho' : (q.withCeiling n).Open w.index s := ⟨ho.1, ho.2, ho.3, ho.4⟩
    rw [step_of_open hp ho, step_of_open (q := q.withCeiling n) hp ho']
    exact resume_withCeiling hle _ _ _
  · left
    rw [step_of_closed (not_exists.mp ho)]
    exact step_of_closed (q := q.withCeiling n) fun s ho' => ho ⟨s, ho'.1, ho'.2, ho'.3, ho'.4⟩

theorem returns_withCeiling {found : Array Occurrence} (hp : q.plan.Lawful)
    (hle : q.maxEmptyPeriods ≤ n) (h : q.Returns w (.ok found)) :
    (q.withCeiling n).Returns w (.ok found) := by
  apply Returns.transfer _ h
  intro w
  rcases step_withCeiling hp hle w with heq | ⟨e, he⟩
  · exact Or.inl heq
  · exact Or.inr ⟨.error e, nofun, he⟩

end Request

namespace Rule

variable {r : Rule} {w : Window} {m n : Nat} {max : Option Nat} {found : List Occurrence}

theorem expand_withCeiling (hv : r.Valid) (hle : m ≤ n) (h : r.expand w m max = .ok found) :
    r.expand w n max = .ok found := by
  cases hp : Plan.of? r (r.anchor.getD w.after) with
  | none =>
    rw [expand_of_none hp] at h ⊢
    exact h
  | some p =>
    rw [expand_eq_iff hv hp] at h ⊢
    exact Request.returns_withCeiling (q := (r.request p w m).capped max)
      (Plan.lawful_of_valid hv hp) hle h

end Rule

namespace RuleSet

variable {s : RuleSet} {w : Window} {m n : Nat} {x : Times}

theorem exceptions_withCeiling (hv : ∀ r ∈ s.exceptRules, r.Valid) (hle : m ≤ n)
    (h : s.exceptions w m = .ok x) : s.exceptions w n = .ok x := by
  rw [exceptions_eq_ok_iff] at h ⊢
  obtain ⟨excepted, hm, hx⟩ := h
  refine ⟨excepted, mapM_of_forall ?_ hm, hx⟩
  intro r hr found hf
  exact Rule.expand_withCeiling (hv r hr) hle hf

/-- An expansion that does not give up answers the same with every higher ceiling. -/
theorem expand_of_ceiling_le (s : RuleSet) (w : Window) (m n : Nat) (max : Option Nat)
    (e : Expansion) (hv : ∀ r ∈ s.rule :: s.exceptRules, r.Valid) (hle : m ≤ n)
    (h : s.expand w ⟨m, max⟩ = .ok e) : s.expand w ⟨n, max⟩ = .ok e := by
  rw [List.forall_mem_cons] at hv
  rw [expand_limited_eq_ok_iff] at h ⊢
  obtain ⟨x, hx, found, hf, he⟩ := h
  exact ⟨x, exceptions_withCeiling hv.2 hle hx, found,
    Rule.expand_withCeiling hv.1 hle hf, he⟩

theorem expand_of_ceiling_le_fewFridays :
    (∀ r ∈ fewFridays.rule :: fewFridays.exceptRules, r.Valid) ∧ 10 ≤ 100000 ∧
    ∃ e, fewFridays.expand earlyDays ⟨10, none⟩ = .ok e ∧
      fewFridays.expand earlyDays ⟨100000, none⟩ = .ok e := by
  have hv : ∀ r ∈ fewFridays.rule :: fewFridays.exceptRules, r.Valid := by decide
  have hr : ∀ r ∈ fewFridays.exceptRules, ∃ found, r.expand earlyDays 10 none = .ok found := by
    intro r hr
    obtain rfl := List.mem_singleton.mp hr
    exact ⟨_, rfl⟩
  have hle : 10 ≤ 100000 := by decide
  obtain ⟨e, he⟩ := exists_expand_iff.mpr ⟨⟨_, rfl⟩, hr⟩
  exact ⟨hv, hle, e, he, expand_of_ceiling_le fewFridays earlyDays 10 100000 none e hv hle he⟩

end RuleSet

end Recurrence
