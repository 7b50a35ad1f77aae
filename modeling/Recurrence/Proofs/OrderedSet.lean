import Mathlib.Data.List.Sort
import Recurrence.OrderedSet
import Recurrence.Proofs.Calendar.Seconds
import Recurrence.Rule.Basic

/-!
# Ordered sets with the same members

Where no value comes before itself, a set is known by its members, so the order and the repetition of
the values that it is made of do not matter.
-/

namespace Recurrence

set_option autoImplicit false

namespace OrderedSet

variable {α : Type} [LT α] [Std.Asymm (LT.lt (α := α))] {s t : OrderedSet α} {l l' : List α}

theorem ext_mem (h : ∀ a, a ∈ s ↔ a ∈ t) : s = t :=
  ext (s.ascending.eq_of_mem_iff t.ascending h)

variable [DecidableLT α] [Trans (LT.lt (α := α)) (LT.lt (α := α)) (LT.lt (α := α))]
  [Std.Trichotomous (LT.lt (α := α))]

theorem ofList_congr (h : ∀ a, a ∈ l ↔ a ∈ l') : ofList l = ofList l' := by
  apply ext_mem
  intro a
  rw [mem_ofList, mem_ofList, h]

end OrderedSet

instance : Std.Irrefl (LT.lt (α := NthWeekday)) where
  irrefl a h := by
    change NthWeekday.Before a a at h
    obtain ⟨_ | n, day⟩ := a <;> simp only [NthWeekday.Before] at h <;> omega

end Recurrence
