import Recurrence.Rule.Valid

/-!
# Computations that may fail

A chain of computations and a computation over a list are taken apart at their results: by
`bind_eq_ok_iff` and `mem_of_mapM` at a result, by `bind_eq_error_iff` and `exists_error_of_mapM` at
an error.
-/

namespace Recurrence

set_option autoImplicit false

variable {α β ε : Type} {f : α → Except ε β} {a : α} {b : β} {l : List α} {l' : List β}

theorem mapError_eq_ok_iff {ε' : Type} {x : Except ε α} {g : ε → ε'} {a : α} :
    x.mapError g = .ok a ↔ x = .ok a := by
  cases x with
  | error e => exact iff_of_false nofun nofun
  | ok b =>
    constructor
    · intro h
      cases h
      rfl
    · intro h
      cases h
      rfl

theorem map_eq_ok_iff {g : α → β} {x : Except ε α} : g <$> x = .ok b ↔ ∃ a, x = .ok a ∧ g a = b := by
  cases x with
  | error e => exact iff_of_false nofun nofun
  | ok a => simp [Functor.map, Except.map]

theorem mapM_nil_eq_ok_iff : ([] : List α).mapM f = .ok l' ↔ l' = [] := by
  constructor
  · rintro ⟨⟩
    rfl
  · rintro rfl
    rfl

theorem mapM_cons_eq_ok_iff : (a :: l).mapM f = .ok l' ↔
    ∃ b, f a = .ok b ∧ ∃ bs, l.mapM f = .ok bs ∧ b :: bs = l' := by
  rw [List.mapM_cons]
  simp only [bind_eq_ok_iff, pure, Except.pure, Except.ok.injEq]

theorem exists_mapM_eq_ok_iff : (∃ l', l.mapM f = .ok l') ↔ ∀ a ∈ l, ∃ b, f a = .ok b := by
  induction l with
  | nil =>
    constructor
    · intro _ a ha
      cases ha
    · intro _
      exact ⟨[], rfl⟩
  | cons a l ih =>
    rw [List.forall_mem_cons, ← ih]
    simp only [mapM_cons_eq_ok_iff]
    constructor
    · intro h
      obtain ⟨_, b, hb, bs, hbs, -⟩ := h
      exact ⟨⟨b, hb⟩, bs, hbs⟩
    · intro h
      obtain ⟨⟨b, hb⟩, bs, hbs⟩ := h
      exact ⟨_, b, hb, bs, hbs, rfl⟩

theorem mem_of_mapM (h : l.mapM f = .ok l') : b ∈ l' ↔ ∃ a ∈ l, f a = .ok b := by
  induction l generalizing l' with
  | nil =>
    cases h
    simp
  | cons a l ih =>
    obtain ⟨b', hb, bs, hbs, rfl⟩ := mapM_cons_eq_ok_iff.mp h
    simp only [List.mem_cons, ih hbs, exists_eq_or_imp, hb, Except.ok.injEq, eq_comm (a := b)]

theorem length_of_mapM (h : l.mapM f = .ok l') : l'.length = l.length := by
  induction l generalizing l' with
  | nil =>
    obtain rfl := mapM_nil_eq_ok_iff.mp h
    rfl
  | cons a l ih =>
    obtain ⟨b, -, bs, hbs, rfl⟩ := mapM_cons_eq_ok_iff.mp h
    rw [List.length_cons, List.length_cons, ih hbs]

/-- The results come in the order of the list. -/
theorem mapM_of_forall {g : α → Except ε β} (h : ∀ a ∈ l, ∀ b, f a = .ok b → g a = .ok b)
    (hm : l.mapM f = .ok l') : l.mapM g = .ok l' := by
  induction l generalizing l' with
  | nil => exact hm
  | cons a l ih =>
    rw [List.forall_mem_cons] at h
    obtain ⟨b, hb, bs, hbs, rfl⟩ := mapM_cons_eq_ok_iff.mp hm
    exact mapM_cons_eq_ok_iff.mpr ⟨b, h.1 b hb, bs, ih h.2 hbs, rfl⟩

theorem mapM_perm {m : List α} (hp : l.Perm m) (h : l.mapM f = .ok l') :
    ∃ m', m.mapM f = .ok m' ∧ l'.Perm m' := by
  induction hp generalizing l' with
  | nil => exact ⟨l', h, List.Perm.refl l'⟩
  | cons a _ ih =>
    obtain ⟨b, hb, bs, hbs, rfl⟩ := mapM_cons_eq_ok_iff.mp h
    obtain ⟨m', hm, hperm⟩ := ih hbs
    exact ⟨b :: m', mapM_cons_eq_ok_iff.mpr ⟨b, hb, m', hm, rfl⟩, hperm.cons b⟩
  | swap a a' l =>
    obtain ⟨b', hb', _, hrest, rfl⟩ := mapM_cons_eq_ok_iff.mp h
    obtain ⟨b, hb, bs, hbs, rfl⟩ := mapM_cons_eq_ok_iff.mp hrest
    refine ⟨b :: b' :: bs, ?_, List.Perm.swap b b' bs⟩
    exact mapM_cons_eq_ok_iff.mpr
      ⟨b, hb, b' :: bs, mapM_cons_eq_ok_iff.mpr ⟨b', hb', bs, hbs, rfl⟩, rfl⟩
  | trans _ _ ih ih' =>
    obtain ⟨m', hm, hperm⟩ := ih h
    obtain ⟨m'', hm', hperm'⟩ := ih' hm
    exact ⟨m'', hm', hperm.trans hperm'⟩

/-- What undoes a map over a list is undone by it. -/
theorem mapM_map_of_forall {write : β → α} {bs : List β} (h : ∀ b ∈ bs, f (write b) = .ok b) :
    (bs.map write).mapM f = .ok bs := by
  induction bs with
  | nil => rfl
  | cons b bs ih =>
    rw [List.map_cons, mapM_cons_eq_ok_iff]
    exact ⟨b, h b List.mem_cons_self, bs, ih fun c hc => h c (List.mem_cons_of_mem b hc), rfl⟩

theorem bind_eq_error_iff {x : Except ε α} {g : α → Except ε β} {e : ε} :
    (x >>= g) = .error e ↔ x = .error e ∨ ∃ a, x = .ok a ∧ g a = .error e := by
  cases x with
  | error e' =>
    constructor
    · intro h
      cases h
      exact Or.inl rfl
    · intro h
      rcases h with h | ⟨a, h, -⟩
      · cases h
        rfl
      · cases h
  | ok a =>
    constructor
    · intro h
      exact Or.inr ⟨a, rfl, h⟩
    · intro h
      rcases h with h | ⟨_, ⟨⟩, h⟩
      · cases h
      · exact h

theorem exists_error_of_mapM {e : ε} (h : l.mapM f = .error e) : ∃ a ∈ l, f a = .error e := by
  induction l with
  | nil => cases h
  | cons a l ih =>
    rw [List.mapM_cons, bind_eq_error_iff] at h
    rcases h with h | ⟨b, -, h⟩
    · exact ⟨a, List.mem_cons_self, h⟩
    · rw [bind_eq_error_iff] at h
      rcases h with h | ⟨bs, -, h⟩
      · obtain ⟨a', ha', he⟩ := ih h
        exact ⟨a', List.mem_cons_of_mem a ha', he⟩
      · cases h

end Recurrence
