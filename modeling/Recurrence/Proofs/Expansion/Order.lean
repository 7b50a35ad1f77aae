import Recurrence.Expansion.RuleSet
import Recurrence.Proofs.Calendar.Seconds

/-!
# Occurrences in order

`inOrder` keeps one occurrence at each time, the first one of the list (`mem_inOrder`). Sorting does
not change which one is first, because it keeps the order of occurrences at the same time.
-/

namespace Recurrence

set_option autoImplicit false

open Calendar

/-- Each occurrence that is not at the same time as the one before it. -/
def firsts (last : Option Timestamp) : List Occurrence → List Occurrence
  | [] => []
  | o :: rest => if last = some o.time then firsts last rest else o :: firsts (some o.time) rest

theorem toList_keepFirst (kept : Array Occurrence) (l : List Occurrence) :
    (keepFirst kept l).toList = kept.toList ++ firsts (kept.back?.map Occurrence.time) l := by
  induction l generalizing kept with
  | nil => exact (List.append_nil _).symm
  | cons o rest ih =>
    unfold keepFirst firsts
    split
    · exact ih kept
    · rw [ih, Array.toList_push, Array.back?_push, List.append_assoc]
      rfl

section Sorted

variable {l : List Occurrence} {o : Occurrence} {last : Option Timestamp} {t : Timestamp}

theorem mem_firsts (hl : l.Pairwise fun a b => a.time ≤ b.time)
    (hlast : ∀ u, last = some u → ∀ x ∈ l, u ≤ x.time) :
    o ∈ firsts last l ↔ last ≠ some o.time ∧ l.find? (fun x => x.time = o.time) = some o := by
  induction l generalizing last with
  | nil =>
    constructor
    · intro h
      cases h
    · intro h
      obtain ⟨-, h⟩ := h
      cases h
  | cons a rest ih =>
    obtain ⟨ha, hrest⟩ := List.pairwise_cons.mp hl
    unfold firsts
    split
    · next heq =>
      rw [ih hrest fun u hu x hx => hlast u hu x (List.mem_cons_of_mem a hx)]
      constructor
      · intro h
        obtain ⟨hne, hfind⟩ := h
        refine ⟨hne, ?_⟩
        rw [List.find?_cons_of_neg (by simpa [heq] using hne)]
        exact hfind
      · intro h
        obtain ⟨hne, hfind⟩ := h
        rw [List.find?_cons_of_neg (by simpa [heq] using hne)] at hfind
        exact ⟨hne, hfind⟩
    · next hne =>
      rw [List.mem_cons, ih hrest (by rintro _ ⟨⟩; exact ha), List.find?_cons_eq_some]
      simp only [decide_eq_true_eq, Bool.not_eq_true', decide_eq_false_iff_not, ne_eq,
        Option.some.injEq]
      constructor
      · rintro (rfl | ⟨hao, hfind⟩)
        · exact ⟨hne, Or.inl ⟨rfl, rfl⟩⟩
        · refine ⟨fun hlo => hao ?_, Or.inr ⟨hao, hfind⟩⟩
          have h1 := hlast _ hlo a List.mem_cons_self
          have h2 := ha o (List.mem_of_find?_eq_some hfind)
          exact Timestamp.rank_inj (Nat.le_antisymm h2 h1)
      · intro h
        rcases h with ⟨-, ⟨-, rfl⟩ | h⟩
        · exact Or.inl rfl
        · exact Or.inr h

theorem firsts_ascending (hl : l.Pairwise fun a b => a.time ≤ b.time)
    (hlast : ∀ u, last = some u → ∀ x ∈ l, u ≤ x.time) :
    (firsts last l).Pairwise fun a b => a.time < b.time := by
  induction l generalizing last with
  | nil => exact List.Pairwise.nil
  | cons a rest ih =>
    obtain ⟨ha, hrest⟩ := List.pairwise_cons.mp hl
    have hbound : ∀ u, some a.time = some u → ∀ x ∈ rest, u ≤ x.time := by
      rintro _ ⟨⟩
      exact ha
    unfold firsts
    split
    · exact ih hrest fun u hu x hx => hlast u hu x (List.mem_cons_of_mem a hx)
    · refine List.pairwise_cons.mpr ⟨?_, ih hrest hbound⟩
      intro x hx
      obtain ⟨hne, hfind⟩ := (mem_firsts hrest hbound).mp hx
      have hle := ha x (List.mem_of_find?_eq_some hfind)
      rw [← Timestamp.not_le]
      intro hge
      exact hne (congrArg some (Timestamp.rank_inj (Nat.le_antisymm hle hge)))

end Sorted

section InOrder

variable {l : List Occurrence} {o : Occurrence}

theorem sort_trans (a b c : Occurrence) (hab : decide (a.time ≤ b.time) = true)
    (hbc : decide (b.time ≤ c.time) = true) : decide (a.time ≤ c.time) = true := by
  rw [decide_eq_true_eq] at *
  exact Timestamp.le_trans hab hbc

theorem sort_total (a b : Occurrence) :
    (decide (a.time ≤ b.time) || decide (b.time ≤ a.time)) = true := by
  rw [Bool.or_eq_true, decide_eq_true_eq, decide_eq_true_eq]
  exact Nat.le_total _ _

theorem sort_ascending (l : List Occurrence) :
    (l.mergeSort fun a b => a.time ≤ b.time).Pairwise fun a b => a.time ≤ b.time :=
  (List.pairwise_mergeSort sort_trans sort_total l).imp of_decide_eq_true

/-- Sorting keeps the occurrences at one time in their order. -/
theorem filter_sort (l : List Occurrence) (t : Timestamp) :
    (l.mergeSort fun a b => a.time ≤ b.time).filter (fun x => x.time = t) =
      l.filter fun x => x.time = t := by
  have htied : (l.filter fun x => x.time = t).Pairwise
      fun a b => decide (a.time ≤ b.time) = true := by
    rw [List.pairwise_filter]
    apply List.pairwise_of_forall
    intro a b ha hb
    rw [decide_eq_true_eq] at ha hb ⊢
    rw [ha, hb]
    exact Nat.le_refl _
  -- what is in order already stays so in a stable sort, and nothing else has this time
  have hsub := List.sublist_mergeSort sort_trans sort_total htied List.filter_sublist
  have hsub := hsub.filter fun x => decide (x.time = t)
  rw [List.filter_filter] at hsub
  simp only [Bool.and_self] at hsub
  have hperm := (List.mergeSort_perm l fun a b => a.time ≤ b.time).filter
    fun x => decide (x.time = t)
  exact (hsub.eq_of_length hperm.length_eq.symm).symm

theorem inOrder_eq (l : List Occurrence) :
    inOrder l = firsts none (l.mergeSort fun a b => a.time ≤ b.time) := by
  rw [inOrder, toList_keepFirst]
  rfl

/-- The occurrence kept at a time is the first one in the list. -/
theorem mem_inOrder : o ∈ inOrder l ↔ l.find? (fun x => x.time = o.time) = some o := by
  have hlast : ∀ u, none = some u → ∀ x ∈ l.mergeSort fun a b => a.time ≤ b.time, u ≤ x.time :=
    fun _ h => nomatch h
  rw [inOrder_eq, mem_firsts (sort_ascending l) hlast, ← List.head?_filter, filter_sort,
    List.head?_filter]
  exact and_iff_right (Option.some_ne_none _).symm

theorem inOrder_ascending (l : List Occurrence) :
    (inOrder l).Pairwise fun a b => a.time < b.time := by
  rw [inOrder_eq]
  exact firsts_ascending (sort_ascending l) fun _ h => nomatch h

theorem exists_mem_inOrder {t : Timestamp} :
    (∃ o ∈ inOrder l, o.time = t) ↔ ∃ o ∈ l, o.time = t := by
  constructor
  · intro h
    obtain ⟨o, ho, rfl⟩ := h
    exact ⟨o, List.mem_of_find?_eq_some (mem_inOrder.mp ho), rfl⟩
  · intro h
    obtain ⟨o, ho, rfl⟩ := h
    cases hfind : l.find? fun x => x.time = o.time with
    | none =>
      rw [List.find?_eq_none] at hfind
      exact absurd (decide_eq_true rfl) (hfind o ho)
    | some o' =>
      have ht : o'.time = o.time := by simpa using List.find?_some hfind
      exact ⟨o', mem_inOrder.mpr (by rw [ht]; exact hfind), ht⟩

end InOrder

end Recurrence
