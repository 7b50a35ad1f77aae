import Mathlib.Data.List.Basic
import Recurrence.Proofs.Rule.Collection
import Recurrence.Proofs.Rule.Values

/-!
# Parts that are written and read

The parts of a written rule are collected as they were written, one for each field that does not
have its default value: `Rule.collect_chars`. A field is then read back from its part or from its
absence, by one lemma for each way of leaving a field out.
-/

namespace Recurrence

set_option autoImplicit false

open Calendar Text

/-- The fields in the order in which they are written. -/
def Field.written : List Field :=
  [freq, interval, last, count, wkst, bySecond, byMinute, byHour, byDay, byMonthDay, byYearDay,
    byMonth, bySetPos]

theorem Field.mem_written (f : Field) : f ∈ written := by cases f <;> decide

namespace Rule

section Lists

variable {α : Type} [LT α]

def listValue? (write : α → List Char) (values : OrderedSet α) : Option (List Char) :=
  if values.isEmpty then none else some ([','].intercalate (values.toList.map write))

theorem listPart_eq (field : Field) (write : α → List Char) (values : OrderedSet α) :
    listPart field write values = ((listValue? write values).map (part field)).toList := by
  unfold listPart listValue?
  split <;> rfl

theorem isValue_listValue? {write : α → List Char} {values : OrderedSet α} {v : List Char}
    (hw : ∀ a, IsWord (write a)) (h : listValue? write values = some v) : IsValue v := by
  unfold listValue? at h
  split at h
  · cases h
  · next hne =>
    cases h
    refine isValue_list ?_ ?_
    · intro w hm
      obtain ⟨a, -, rfl⟩ := List.mem_map.mp hm
      exact hw a
    · simpa [OrderedSet.isEmpty] using hne

end Lists

variable {r : Rule} {f : Field} {v : List Char}

/-- The text of a field's value; a field with its default value has none. -/
def value? (r : Rule) : Field → Option (List Char)
  | .freq => some r.frequency.keyword
  | .interval => if r.interval = 1 then none else some (digits r.interval)
  | .count => r.count.map digits
  | .last => r.last.map Timestamp.chars
  | .wkst => if r.weekStart = .monday then none else some r.weekStart.code
  | .byDay => listValue? NthWeekday.chars r.byDay
  | .byMonthDay => listValue? integer r.byMonthDay
  | .byMonth => listValue? digits r.byMonth
  | .byYearDay => listValue? integer r.byYearDay
  | .byHour => listValue? digits r.byHour
  | .byMinute => listValue? digits r.byMinute
  | .bySecond => listValue? digits r.bySecond
  | .bySetPos => listValue? integer r.byPosition

def entries (r : Rule) : List Entry :=
  Field.written.filterMap fun f => (r.value? f).map (Entry.mk f)

theorem parts_eq_flatMap (r : Rule) :
    r.parts = Field.written.flatMap fun f => ((r.value? f).map (part f)).toList := by
  have hi (c : Prop) [Decidable c] (f : Field) (v : List Char) :
      (if c then [] else [part f v]) = ((if c then none else some v).map (part f)).toList := by
    split <;> rfl
  have ho {α : Type} (o : Option α) (f : Field) (write : α → List Char) :
      (o.toList.map fun a => part f (write a)) = ((o.map write).map (part f)).toList := by
    cases o <;> rfl
  simp only [parts, Field.written, List.flatMap_cons, List.flatMap_nil, List.append_nil,
    List.append_assoc, value?, listPart_eq, hi, ho, Option.map_some, Option.toList_some]

theorem parts_eq (r : Rule) : r.parts = r.entries.map fun e => part e.field e.value := by
  rw [parts_eq_flatMap, entries, List.map_filterMap, List.filterMap_eq_flatMap_toList]
  simp only [Option.map_map]
  rfl

theorem isValue_of_value? (h : r.value? f = some v) : IsValue v := by
  cases f with
  | freq =>
    cases h
    exact (isWord_keyword _).isValue
  | interval =>
    obtain ⟨-, ⟨⟩⟩ := Option.ite_none_left_eq_some.mp h
    exact (isWord_digits _).isValue
  | count =>
    obtain ⟨n, -, rfl⟩ := Option.map_eq_some_iff.mp h
    exact (isWord_digits n).isValue
  | last =>
    obtain ⟨t, -, rfl⟩ := Option.map_eq_some_iff.mp h
    exact (isWord_timestamp t).isValue
  | wkst =>
    obtain ⟨-, ⟨⟩⟩ := Option.ite_none_left_eq_some.mp h
    exact (isWord_code _).isValue
  | byDay => exact isValue_listValue? isWord_nthWeekday h
  | byMonthDay | byYearDay | bySetPos => exact isValue_listValue? isWord_integer h
  | byMonth | byHour | byMinute | bySecond => exact isValue_listValue? isWord_digits h

theorem isWord_name (f : Field) : IsWord f.name := by
  cases f <;> exact isWord_of_all rfl rfl

theorem isValue_part (h : IsValue v) : IsValue (part f v) := by
  refine ⟨by simp [part], ?_⟩
  intro c hc
  rcases List.mem_append.mp hc with hc | hc
  · exact Or.inl ((isWord_name f).forall_mem c hc)
  · rcases List.mem_cons.mp hc with rfl | hc
    · exact Or.inl rfl
    · exact h.forall_mem c hc

theorem read_part (h : IsValue v) : Entry.read (part f v) = .ok ⟨f, v⟩ := by
  have hn : '=' ∉ f.name := by cases f <;> decide
  rw [Entry.read, part, cut?_append_cons hn]
  simp only [(isWord_name f).isValue.trim, h.trim, Field.ofName?_name]

theorem isValue_of_mem_entries {e : Entry} (h : e ∈ r.entries) : IsValue e.value := by
  obtain ⟨f, -, h⟩ := List.mem_filterMap.mp h
  obtain ⟨v, hv, rfl⟩ := Option.map_eq_some_iff.mp h
  exact isValue_of_value? hv

theorem entries_nodup (r : Rule) : (r.entries.map Entry.field).Nodup := by
  have hn : Field.written.Pairwise (· ≠ ·) := by decide
  rw [List.nodup_iff_pairwise_ne, List.pairwise_map, entries, List.pairwise_filterMap]
  refine hn.imp ?_
  intro f g hfg d hd e he
  obtain ⟨_, -, rfl⟩ := Option.map_eq_some_iff.mp hd
  obtain ⟨_, -, rfl⟩ := Option.map_eq_some_iff.mp he
  exact hfg

/-- A written rule is collected as it was written. -/
theorem collect_chars (r : Rule) : Entry.collect r.chars = .ok r.entries := by
  have hparts : ∀ w ∈ r.parts, IsValue w := by
    intro w h
    rw [parts_eq] at h
    obtain ⟨e, he, rfl⟩ := List.mem_map.mp h
    exact isValue_part (isValue_of_mem_entries he)
  have hnonblank : nonblank r.parts = r.parts := by
    rw [nonblank, (List.map_congr_left fun w h => (hparts w h).trim).trans r.parts.map_id]
    exact List.filter_eq_self.mpr fun w h => decide_eq_true (hparts w h).ne_nil
  rw [chars, Entry.collect_intercalate_eq_ok_iff fun w h => (hparts w h).not_mem]
  refine ⟨?_, r.entries_nodup⟩
  rw [hnonblank, parts_eq]
  exact mapM_map_of_forall fun e he => read_part (isValue_of_mem_entries he)

/-- A field is collected with its value, or not at all. -/
theorem value?_entries (r : Rule) (f : Field) : Entry.value? r.entries f = r.value? f := by
  apply Option.ext
  intro v
  rw [Entry.value?_eq_some_iff r.entries_nodup]
  constructor
  · intro h
    obtain ⟨g, -, he⟩ := List.mem_filterMap.mp h
    obtain ⟨u, hu, he⟩ := Option.map_eq_some_iff.mp he
    cases he
    exact hu
  · intro hv
    exact List.mem_filterMap.mpr ⟨f, f.mem_written, by rw [hv]; rfl⟩

section Fields

variable {α : Type} {read : List Char → Except Fault α} {write : α → List Char} {a d : α}

theorem readField_of_none (hv : r.value? f = none) : readField r.entries f d read = .ok d := by
  rw [readField_eq, value?_entries, hv]

theorem readField_of_some (hv : r.value? f = some v) (hr : read v = .ok a) :
    readField r.entries f d read = .ok a := by
  have hne := (isValue_of_value? hv).ne_nil
  rw [readField_eq, value?_entries, hv]
  cases v with
  | nil => exact absurd rfl hne
  | cons c cs => exact mapError_eq_ok_iff.mpr hr

theorem readField_default [DecidableEq α]
    (hv : r.value? f = if a = d then none else some (write a)) (hr : read (write a) = .ok a) :
    readField r.entries f d read = .ok a := by
  by_cases h : a = d
  · rw [if_pos h] at hv
    rw [h]
    exact readField_of_none hv
  · rw [if_neg h] at hv
    exact readField_of_some hv hr

theorem readField_option {o : Option α} (hv : r.value? f = o.map write)
    (hr : ∀ a ∈ o, read (write a) = .ok a) :
    readField r.entries f none (fun cs => some <$> read cs) = .ok o := by
  cases o with
  | none => exact readField_of_none hv
  | some a =>
    refine readField_of_some hv ?_
    rw [hr a rfl]
    rfl

theorem readField_list [LT α] [DecidableLT α]
    [Trans (LT.lt (α := α)) (LT.lt (α := α)) (LT.lt (α := α))] {values : OrderedSet α}
    (hv : r.value? f = listValue? write values) (hw : ∀ a, IsWord (write a))
    (hr : ∀ a ∈ values.toList, read (write a) = .ok a) :
    readField r.entries f {} (readSet read) = .ok values := by
  unfold listValue? at hv
  split at hv
  · next h =>
    have he : values = {} := OrderedSet.ext (List.isEmpty_iff.mp h)
    rw [he]
    exact readField_of_none hv
  · next h =>
    exact readField_of_some hv (readSet_list hw (by simpa [OrderedSet.isEmpty] using h) hr)

end Fields

end Rule

end Recurrence
