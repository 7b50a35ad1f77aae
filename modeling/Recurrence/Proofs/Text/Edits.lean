import Mathlib.Logic.Relation
import Recurrence.Proofs.Text.Spelling

/-!
# Texts that are read alike

A change of a text does not matter if what is read from one side of it is read, alike, from the
other. Then any number of such changes, made or undone, does not matter (`ReadAlike.of_eqvGen`).
-/

namespace Recurrence.Text

set_option autoImplicit false

section Alike

variable {α β : Type} {reads : α → β → Prop} {alike : β → β → Prop} {a a' : α}

/-- What is read from one of the two is read, alike, from the other. -/
def ReadAlike (reads : α → β → Prop) (alike : β → β → Prop) (a a' : α) : Prop :=
  (∀ b, reads a b → ∃ b', reads a' b' ∧ alike b b') ∧
    ∀ b, reads a' b → ∃ b', reads a b' ∧ alike b b'

theorem ReadAlike.of_iff (hrefl : ∀ b, alike b b) (h : ∀ b, reads a b ↔ reads a' b) :
    ReadAlike reads alike a a' :=
  ⟨fun b hb => ⟨b, (h b).mp hb, hrefl b⟩, fun b hb => ⟨b, (h b).mpr hb, hrefl b⟩⟩

theorem ReadAlike.of_eqvGen {edit : α → α → Prop} (hrefl : ∀ b, alike b b)
    (htrans : ∀ b b' b'', alike b b' → alike b' b'' → alike b b'')
    (hedit : ∀ a a', edit a a' → ReadAlike reads alike a a') (h : Relation.EqvGen edit a a') :
    ReadAlike reads alike a a' := by
  induction h with
  | rel a a' h => exact hedit a a' h
  | refl a => exact .of_iff hrefl fun _ => Iff.rfl
  | symm _ _ _ ih => exact And.symm ih
  | trans _ _ _ _ _ ih ih' =>
    constructor
    · intro b hb
      obtain ⟨b', hb', h⟩ := ih.1 b hb
      obtain ⟨b'', hb'', h'⟩ := ih'.1 b' hb'
      exact ⟨b'', hb'', htrans b b' b'' h h'⟩
    · intro b hb
      obtain ⟨b', hb', h⟩ := ih'.2 b hb
      obtain ⟨b'', hb'', h'⟩ := ih.2 b' hb'
      exact ⟨b'', hb'', htrans b b' b'' h h'⟩

end Alike

/-- A change of the elements of a list. They may change places, so each of the other changes is
that of the first one. -/
inductive ElementsEdit : List (List Char) → List (List Char) → Prop
  | reorder {l l' : List (List Char)} (h : l.Perm l') : ElementsEdit l l'
  | duplicate (e : List Char) (l : List (List Char)) : ElementsEdit (e :: l) (e :: e :: l)
  | pad {a b : List Char} (ha : IsSpace a) (hb : IsSpace b) (e : List Char)
    (l : List (List Char)) : ElementsEdit (e :: l) ((a ++ e ++ b) :: l)

theorem mem_map_trim_of_edit {l l' : List (List Char)} (h : ElementsEdit l l') (p : List Char) :
    p ∈ l.map trim ↔ p ∈ l'.map trim := by
  cases h with
  | reorder h => exact (h.map trim).mem_iff
  | duplicate e l => simp
  | pad ha hb e l => rw [List.map_cons, List.map_cons, trim_pad ha hb]

end Recurrence.Text
