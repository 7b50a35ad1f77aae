import Mathlib.Data.List.Nodup
import Recurrence.Proofs.Except
import Recurrence.Proofs.Text.Spelling
import Recurrence.Rule.Parser

/-!
# Collecting the parts of a rule

The parts of a rule are collected unless the segments are `Faulty`, and a rule is read from the value
of each part wherever the part stands. So the order of the segments does not matter, neither to the
rule nor to the first fault of its values (`Rule.parse_of_perm`).
-/

namespace Recurrence

set_option autoImplicit false

open Text

namespace Entry

variable {earlier es es' : List Entry} {e : Entry} {s key value : List Char}
variable {segments segments' : List (List Char)} {f : Field}

/-- The part that a segment names, if it names one. -/
def field? (segment : List Char) : Option Field :=
  (cut? '=' segment).bind fun part => Field.ofName? (trim part.1)

/-- Why the parts of a rule are not collected. -/
inductive Faulty (segments : List (List Char)) : Prop
  | noEquals {s : List Char} (hs : s ∈ segments) (hb : trim s ≠ []) (h : '=' ∉ s) :
    Faulty segments
  | unknown {s key value : List Char} (hs : s ∈ segments) (hc : cut? '=' s = some (key, value))
    (h : Field.ofName? (trim key) = none) : Faulty segments
  | repeated (h : ¬ (segments.filterMap field?).Nodup) : Faulty segments

/-- The segments that are not blank are parts, and no two are the same part. -/
structure Collects (segments : List (List Char)) (es : List Entry) : Prop where
  read : (nonblank segments).mapM read = .ok es
  nodup : (es.map field).Nodup

theorem any_field_iff : (earlier.any fun e => e.field = f) = true ↔ f ∈ earlier.map field := by
  simp only [List.any_eq_true, decide_eq_true_eq, List.mem_map]

theorem readAll_cons_eq_ok_iff {rest : List (List Char)} :
    readAll earlier (s :: rest) = .ok es ↔ ∃ e, read s = .ok e ∧ e.field ∉ earlier.map field ∧
      readAll (earlier ++ [e]) rest = .ok es := by
  rw [readAll, bind_eq_ok_iff]
  apply exists_congr
  intro e
  apply and_congr_right
  intro _
  by_cases h : e.field ∈ earlier.map field
  · rw [if_pos (any_field_iff.mpr h)]
    constructor
    · intro h'
      cases h'
    · intro h'
      exact absurd h h'.1
  · rw [if_neg (mt any_field_iff.mp h), and_iff_right h]

/-- The segments are read in their order; each names a part that has not come before. -/
theorem readAll_eq_ok_iff : readAll earlier segments = .ok es ↔ ∃ new,
    segments.mapM read = .ok new ∧ earlier ++ new = es ∧ (new.map field).Nodup ∧
      ∀ e ∈ new, e.field ∉ earlier.map field := by
  induction segments generalizing earlier with
  | nil =>
    constructor
    · rintro ⟨⟩
      exact ⟨[], rfl, List.append_nil _, List.nodup_nil, fun _ h => nomatch h⟩
    · rintro ⟨_, ⟨⟩, rfl, -⟩
      exact congrArg Except.ok (List.append_nil _).symm
  | cons s rest ih =>
    simp only [readAll_cons_eq_ok_iff, mapM_cons_eq_ok_iff, ih]
    constructor
    · rintro ⟨e, he, hnew, es', hes, rfl, hnodup, hdisjoint⟩
      refine ⟨e :: es', ⟨e, he, es', hes, rfl⟩, by simp, ?_, ?_⟩
      · rw [List.map_cons, List.nodup_cons]
        refine ⟨?_, hnodup⟩
        intro hm
        obtain ⟨d, hd, hde⟩ := List.mem_map.mp hm
        exact hdisjoint d hd (by simp [hde])
      · rw [List.forall_mem_cons]
        refine ⟨hnew, ?_⟩
        intro d hd hm
        exact hdisjoint d hd (by simp [hm])
    · rintro ⟨_, ⟨e, he, es', hes, rfl⟩, rfl, hnodup, hdisjoint⟩
      rw [List.map_cons, List.nodup_cons] at hnodup
      rw [List.forall_mem_cons] at hdisjoint
      refine ⟨e, he, hdisjoint.1, es', hes, by simp, hnodup.2, ?_⟩
      intro d hd hm
      rw [List.map_append, List.mem_append] at hm
      rcases hm with hm | hm
      · exact hdisjoint.2 d hd hm
      · have hde : d.field = e.field := by simpa using hm
        exact hnodup.1 (hde ▸ List.mem_map_of_mem hd)

theorem collect_eq_ok_iff {cs : List Char} :
    collect cs = .ok es ↔ Collects (splitOn ';' cs) es := by
  change readAll [] (nonblank (splitOn ';' cs)) = .ok es ↔ _
  rw [readAll_eq_ok_iff]
  constructor
  · rintro ⟨_, hr, rfl, hn, -⟩
    exact ⟨hr, hn⟩
  · intro h
    exact ⟨es, h.read, rfl, h.nodup, fun _ _ => List.not_mem_nil⟩

/-- A segment with a key and a value. -/
theorem read_trim_part (hk : '=' ∉ key) :
    read (trim (key ++ '=' :: value)) = .ok e ↔
      Field.ofName? (trim key) = some e.field ∧ trim value = e.value := by
  have hk' : '=' ∉ key.dropWhile isBlank := fun h => hk ((List.dropWhile_sublist _).mem h)
  rw [trim_append_cons rfl, read, cut?_append_cons hk']
  dsimp only
  rw [trim_dropWhile, trim_trimEnd]
  obtain ⟨f, v⟩ := e
  cases Field.ofName? (trim key) with
  | none => simp
  | some g => simp

theorem trim_part_ne_nil : trim (key ++ '=' :: value) ≠ [] := by
  rw [trim_append_cons rfl]
  exact List.append_ne_nil_of_right_ne_nil _ (List.cons_ne_nil _ _)

theorem read_trim_eq_ok_iff : read (trim s) = .ok e ↔ ∃ key value,
    cut? '=' s = some (key, value) ∧ Field.ofName? (trim key) = some e.field ∧
      trim value = e.value := by
  cases hc : cut? '=' s with
  | none =>
    have hn : cut? '=' (trim s) = none :=
      cut?_eq_none_iff.mpr fun h => cut?_eq_none_iff.mp hc (mem_of_mem_trim h)
    simp [read, hn]
  | some part =>
    obtain ⟨key, value⟩ := part
    obtain ⟨hk, rfl⟩ := eq_append_of_cut? hc
    rw [read_trim_part hk]
    simp

theorem field?_of_read (h : read (trim s) = .ok e) : field? s = some e.field := by
  obtain ⟨key, value, hc, hf, -⟩ := read_trim_eq_ok_iff.mp h
  rw [field?, hc]
  exact hf

theorem trim_ne_nil_of_field? (h : field? s = some f) : trim s ≠ [] := by
  obtain ⟨⟨key, value⟩, hc, -⟩ := Option.bind_eq_some_iff.mp h
  obtain ⟨-, rfl⟩ := eq_append_of_cut? hc
  exact trim_part_ne_nil

theorem map_field_eq (h : (nonblank segments).mapM read = .ok es) :
    es.map field = segments.filterMap field? := by
  induction segments generalizing es with
  | nil =>
    cases h
    rfl
  | cons s rest ih =>
    by_cases hs : trim s = []
    · rw [nonblank_cons_of_isSpace (trim_eq_nil_iff.mp hs)] at h
      have hn : field? s = none := by
        cases hf : field? s with
        | none => rfl
        | some f => exact absurd hs (trim_ne_nil_of_field? hf)
      rw [List.filterMap_cons_none hn]
      exact ih h
    · rw [nonblank_cons_of_ne_nil hs, mapM_cons_eq_ok_iff] at h
      obtain ⟨e, he, es', hes, rfl⟩ := h
      rw [List.map_cons, List.filterMap_cons_some (field?_of_read he), ih hes]

/-- The parts are collected unless one of the three faults is there. -/
theorem exists_collects_iff : (∃ es, Collects segments es) ↔ ¬ Faulty segments := by
  constructor
  · rintro ⟨es, h⟩ hf
    have hall := exists_mapM_eq_ok_iff.mp ⟨es, h.read⟩
    cases hf with
    | @noEquals s hs hb hn =>
      obtain ⟨e, he⟩ := hall _ (mem_nonblank.mpr ⟨s, hs, rfl, hb⟩)
      obtain ⟨key, value, hc, -⟩ := read_trim_eq_ok_iff.mp he
      rw [cut?_eq_none_iff.mpr hn] at hc
      cases hc
    | @unknown s key value hs hc hn =>
      obtain ⟨-, rfl⟩ := eq_append_of_cut? hc
      obtain ⟨e, he⟩ := hall _ (mem_nonblank.mpr ⟨_, hs, rfl, trim_part_ne_nil⟩)
      obtain ⟨key', value', hc', hf, -⟩ := read_trim_eq_ok_iff.mp he
      rw [hc] at hc'
      cases hc'
      rw [hn] at hf
      cases hf
    | repeated hn => exact hn (map_field_eq h.read ▸ h.nodup)
  · intro hf
    have hall : ∀ u ∈ nonblank segments, ∃ e, read u = .ok e := by
      intro u hu
      obtain ⟨s, hs, rfl, hb⟩ := mem_nonblank.mp hu
      cases hc : cut? '=' s with
      | none => exact absurd (.noEquals hs hb (cut?_eq_none_iff.mp hc)) hf
      | some part =>
        cases hk : Field.ofName? (trim part.1) with
        | none => exact absurd (.unknown hs hc hk) hf
        | some f => exact ⟨⟨f, trim part.2⟩, read_trim_eq_ok_iff.mpr ⟨_, _, hc, hk, rfl⟩⟩
    obtain ⟨es, hes⟩ := exists_mapM_eq_ok_iff.mpr hall
    refine ⟨es, hes, ?_⟩
    by_contra hn
    exact hf (.repeated (map_field_eq hes ▸ hn))

/-- Joined segments are collected as they are. -/
theorem collect_intercalate_eq_ok_iff (hs : ∀ s ∈ segments, ';' ∉ s) :
    collect ([';'].intercalate segments) = .ok es ↔ Collects segments es := by
  rw [collect_eq_ok_iff]
  constructor
  · intro h
    exact ⟨nonblank_splitOn_intercalate hs ▸ h.read, h.nodup⟩
  · intro h
    exact ⟨(nonblank_splitOn_intercalate hs).symm ▸ h.read, h.nodup⟩

theorem exists_error_of_faulty (hs : ∀ s ∈ segments, ';' ∉ s) (hf : Faulty segments) :
    ∃ e, collect ([';'].intercalate segments) = .error e := by
  cases hc : collect ([';'].intercalate segments) with
  | error e => exact ⟨e, rfl⟩
  | ok es =>
    exact absurd hf (exists_collects_iff.mp ⟨es, (collect_intercalate_eq_ok_iff hs).mp hc⟩)

theorem Collects.perm (h : Collects segments es) (hp : segments.Perm segments') :
    ∃ es', Collects segments' es' ∧ es.Perm es' := by
  obtain ⟨es', hread, hperm⟩ := mapM_perm (nonblank_perm hp) h.read
  exact ⟨es', ⟨hread, (hperm.map field).nodup_iff.mp h.nodup⟩, hperm⟩

theorem faulty_iff_of_perm (hp : segments.Perm segments') : Faulty segments ↔ Faulty segments' := by
  rw [← not_iff_not, ← exists_collects_iff, ← exists_collects_iff]
  constructor
  · rintro ⟨es, h⟩
    obtain ⟨es', h', -⟩ := h.perm hp
    exact ⟨es', h'⟩
  · rintro ⟨es, h⟩
    obtain ⟨es', h', -⟩ := h.perm hp.symm
    exact ⟨es', h'⟩

/-- The value of a part, if it was collected. -/
def value? (es : List Entry) (f : Field) : Option (List Char) :=
  (es.find? fun e => e.field = f).map Entry.value

theorem value?_cons (e : Entry) (es : List Entry) (f : Field) :
    value? (e :: es) f = if e.field = f then some e.value else value? es f := by
  unfold value?
  rw [List.find?_cons]
  by_cases h : e.field = f <;> simp [h]

theorem value?_eq_some_iff {v : List Char} (hn : (es.map field).Nodup) :
    value? es f = some v ↔ ⟨f, v⟩ ∈ es := by
  induction es with
  | nil => simp [value?]
  | cons e es ih =>
    rw [List.map_cons, List.nodup_cons] at hn
    rw [value?_cons, List.mem_cons]
    by_cases h : e.field = f
    · subst h
      have hnew : ⟨e.field, v⟩ ∉ es := fun hm => hn.1 (List.mem_map.mpr ⟨_, hm, rfl⟩)
      obtain ⟨g, u⟩ := e
      simp [hnew, eq_comm]
    · have hne : ⟨f, v⟩ ≠ e := by
        rintro rfl
        exact h rfl
      rw [if_neg h, ih hn.2, or_iff_right hne]

theorem value?_perm (hn : (es.map field).Nodup) (hp : es.Perm es') (f : Field) :
    value? es f = value? es' f := by
  have hn' := (hp.map field).nodup_iff.mp hn
  apply Option.ext
  intro v
  rw [value?_eq_some_iff hn, value?_eq_some_iff hn', hp.mem_iff]

end Entry

namespace Rule

variable {es es' : List Entry} {segments segments' : List (List Char)}

theorem readField_eq {α : Type} (es : List Entry) (f : Field) (default : α)
    (read : List Char → Except Fault α) : readField es f default read =
      match Entry.value? es f with
      | none => .ok default
      | some [] => .error (.invalidValue f.name .empty)
      | some (c :: cs) => (read (c :: cs)).mapError (.invalidValue f.name) := by
  unfold readField Entry.value?
  cases es.find? fun e => e.field = f with
  | none => rfl
  | some e =>
    obtain ⟨g, _ | ⟨c, cs⟩⟩ := e <;> rfl

theorem readFrequency_eq (es : List Entry) : readFrequency es =
    match Entry.value? es .freq with
    | none => .error .missingFrequency
    | some v =>
      match Frequency.ofKeyword? v with
      | some frequency => .ok frequency
      | none => .error (.invalidValue Field.freq.name (.notFrequency v)) := by
  unfold readFrequency Entry.value?
  cases es.find? fun e => e.field = .freq with
  | none => rfl
  | some e => rfl

/-- A rule is read from the values of its parts. -/
theorem ofEntries_congr (h : ∀ f, Entry.value? es f = Entry.value? es' f) :
    ofEntries es = ofEntries es' := by
  simp only [ofEntries, readField_eq, readFrequency_eq, h]

/-- Joined segments are read alike in every order. -/
theorem parse_of_perm (hs : ∀ s ∈ segments, ';' ∉ s) (hp : segments.Perm segments')
    (hf : ¬ Entry.Faulty segments) :
    parse ([';'].intercalate segments) = parse ([';'].intercalate segments') := by
  obtain ⟨es, h⟩ := Entry.exists_collects_iff.mpr hf
  obtain ⟨es', h', hperm⟩ := h.perm hp
  have hs' : ∀ s ∈ segments', ';' ∉ s := fun s hm => hs s (hp.mem_iff.mpr hm)
  have heq := ofEntries_congr (Entry.value?_perm h.nodup hperm)
  rw [parse, parse, (Entry.collect_intercalate_eq_ok_iff hs).mpr h,
    (Entry.collect_intercalate_eq_ok_iff hs').mpr h']
  dsimp only [bind, Except.bind]
  rw [heq]

end Rule

end Recurrence
