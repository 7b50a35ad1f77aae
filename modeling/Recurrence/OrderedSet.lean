/-!
# Finite sets as ascending lists

Equal sets are equal values, and `mem_insert` and `mem_ofList` say what the operations hold.
-/

namespace Recurrence

set_option autoImplicit false

universe u

/-- A finite set, listed in ascending order without repetition. -/
structure OrderedSet (α : Type u) [LT α] where
  toList : List α
  ascending : toList.Pairwise (· < ·)

namespace OrderedSet

variable {α : Type u} [LT α]

theorem ext {s t : OrderedSet α} (h : s.toList = t.toList) : s = t := by
  cases s; cases t; simp_all

instance [DecidableEq α] : DecidableEq (OrderedSet α) := fun s t =>
  decidable_of_iff (s.toList = t.toList) ⟨ext, fun h => h ▸ rfl⟩

instance : Membership α (OrderedSet α) := ⟨fun s a => a ∈ s.toList⟩

instance [DecidableEq α] (s : OrderedSet α) (a : α) : Decidable (a ∈ s) :=
  inferInstanceAs (Decidable (a ∈ s.toList))

def empty : OrderedSet α := ⟨[], List.Pairwise.nil⟩

instance : EmptyCollection (OrderedSet α) := ⟨empty⟩

instance : Inhabited (OrderedSet α) := ⟨empty⟩

def singleton (a : α) : OrderedSet α := ⟨[a], List.pairwise_singleton _ a⟩

def isEmpty (s : OrderedSet α) : Bool := s.toList.isEmpty

@[simp] theorem toList_empty : (empty : OrderedSet α).toList = [] := rfl

@[simp] theorem toList_singleton (a : α) : (singleton a).toList = [a] := rfl

@[simp] theorem mem_mk {a : α} {l : List α} {h : l.Pairwise (· < ·)} :
    a ∈ OrderedSet.mk l h ↔ a ∈ l := Iff.rfl

theorem mem_toList {a : α} {s : OrderedSet α} : a ∈ s.toList ↔ a ∈ s := Iff.rfl

variable [DecidableLT α]

/-- Puts `a` at its place in an ascending list that does not hold it yet. -/
def insertSorted (a : α) : List α → List α
  | [] => [a]
  | b :: l => if a < b then a :: b :: l else if b < a then b :: insertSorted a l else b :: l

theorem mem_of_mem_insertSorted {a c : α} {l : List α} (h : c ∈ insertSorted a l) :
    c = a ∨ c ∈ l := by
  induction l with
  | nil => simpa [insertSorted] using h
  | cons b l ih =>
    simp only [insertSorted] at h
    split at h
    · simpa using h
    · split at h
      · rcases List.mem_cons.1 h with rfl | h
        · simp
        · rcases ih h with rfl | h <;> simp [*]
      · exact Or.inr h

section Transitive

variable [Trans (LT.lt (α := α)) (LT.lt (α := α)) (LT.lt (α := α))]

theorem pairwise_insertSorted {a : α} {l : List α} (h : l.Pairwise (· < ·)) :
    (insertSorted a l).Pairwise (· < ·) := by
  induction l with
  | nil => simp [insertSorted]
  | cons b l ih =>
    have hb := List.pairwise_cons.1 h
    simp only [insertSorted]
    split
    · next hab =>
      refine List.pairwise_cons.2 ⟨fun c hc => ?_, h⟩
      rcases List.mem_cons.1 hc with rfl | hc
      · exact hab
      · exact Trans.trans hab (hb.1 c hc)
    · split
      · next hba =>
        refine List.pairwise_cons.2 ⟨fun c hc => ?_, ih hb.2⟩
        rcases mem_of_mem_insertSorted hc with rfl | hc
        · exact hba
        · exact hb.1 c hc
      · exact h

def insert (s : OrderedSet α) (a : α) : OrderedSet α :=
  ⟨insertSorted a s.toList, pairwise_insertSorted s.ascending⟩

def ofList (l : List α) : OrderedSet α :=
  l.foldr (fun a s => s.insert a) empty

@[simp] theorem ofList_nil : (ofList [] : OrderedSet α) = empty := rfl

@[simp] theorem ofList_cons (a : α) (l : List α) : ofList (a :: l) = (ofList l).insert a := rfl

theorem toList_ofList {l : List α} (h : l.Pairwise (· < ·)) : (ofList l).toList = l := by
  induction l with
  | nil => rfl
  | cons a l ih =>
    have ha := List.pairwise_cons.1 h
    change insertSorted a (ofList l).toList = a :: l
    rw [ih ha.2]
    cases l with
    | nil => rfl
    | cons b l => rw [insertSorted, if_pos (ha.1 b List.mem_cons_self)]

@[simp] theorem ofList_toList (s : OrderedSet α) : ofList s.toList = s :=
  ext (toList_ofList s.ascending)

variable [Std.Trichotomous (α := α) (· < ·)]

omit [Trans (LT.lt (α := α)) (LT.lt (α := α)) (LT.lt (α := α))] in
theorem mem_insertSorted {a c : α} {l : List α} : c ∈ insertSorted a l ↔ c = a ∨ c ∈ l := by
  refine ⟨mem_of_mem_insertSorted, fun h => ?_⟩
  induction l with
  | nil => simpa [insertSorted] using h
  | cons b l ih =>
    simp only [insertSorted]
    split
    · simpa using h
    · split
      · rcases h with h | h
        · exact List.mem_cons_of_mem b (ih (Or.inl h))
        · rcases List.mem_cons.1 h with rfl | h
          · simp
          · exact List.mem_cons_of_mem b (ih (Or.inr h))
      · next hab hba =>
        have : a = b := Std.Trichotomous.trichotomous a b hab hba
        rcases h with rfl | h
        · simp [this]
        · exact h

@[simp] theorem mem_insert {a c : α} {s : OrderedSet α} : c ∈ s.insert a ↔ c = a ∨ c ∈ s :=
  mem_insertSorted

@[simp] theorem mem_ofList {c : α} {l : List α} : c ∈ ofList l ↔ c ∈ l := by
  induction l with
  | nil => simp [empty]
  | cons a l ih => simp [ih]

end Transitive

end OrderedSet

end Recurrence
