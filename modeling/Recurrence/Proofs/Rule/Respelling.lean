import Recurrence.Proofs.OrderedSet
import Recurrence.Proofs.Rule.Collection
import Recurrence.Proofs.Rule.Values
import Recurrence.Proofs.Text.Edits

/-!
# Rules that are spelled in different ways

A rule may be written with its parts in another order, with blank segments and white space between
them, in upper or lower case, and with the values of a part in any order and repeated. Such changes
are the constructors of `SegmentsEdit`; a rule is read as the same from either side of any number of
them (`Rule.parse_respelled`).
-/

namespace Recurrence

set_option autoImplicit false

open Calendar Text

/-- Whether the value of the part is a list. -/
def Field.listsValues : Field → Bool
  | freq | interval | count | last | wkst => false
  | byDay | byMonthDay | byMonth | byYearDay | byHour | byMinute | bySecond | bySetPos => true

section Edits

/-- A change of the value of a part. Only the `T` of a timestamp has to be in upper case. -/
inductive ValueEdit (f : Field) : List Char → List Char → Prop
  | pad {a b : List Char} (ha : IsSpace a) (hb : IsSpace b) (v : List Char) :
    ValueEdit f v (a ++ v ++ b)
  | letters {v v' : List Char} (hf : f ≠ .last) (h : SameLetters v v') : ValueEdit f v v'
  | elements {v v' : List Char} (hf : f.listsValues = true)
    (h : ElementsEdit (splitOn ',' v) (splitOn ',' v')) : ValueEdit f v v'

/-- A change of one segment. -/
inductive SegmentEdit : List Char → List Char → Prop
  | pad {a b : List Char} (ha : IsSpace a) (hb : IsSpace b) (s : List Char) :
    SegmentEdit s (a ++ s ++ b)
  | padKey {a b key : List Char} (ha : IsSpace a) (hb : IsSpace b) (hk : '=' ∉ key)
    (value : List Char) : SegmentEdit (key ++ '=' :: value) ((a ++ key ++ b) ++ '=' :: value)
  | keyLetters {key key' : List Char} (hk : '=' ∉ key) (h : SameLetters key key')
    (value : List Char) : SegmentEdit (key ++ '=' :: value) (key' ++ '=' :: value)
  | value {key v v' : List Char} {f : Field} (hk : '=' ∉ key)
    (hf : Field.ofName? (trim key) = some f) (h : ValueEdit f v v') :
    SegmentEdit (key ++ '=' :: v) (key ++ '=' :: v')

/-- A change of the segments of a rule. They may change places, too. -/
inductive SegmentsEdit : List (List Char) → List (List Char) → Prop
  | reorder {l l' : List (List Char)} (h : l.Perm l') : SegmentsEdit l l'
  | blank {b : List Char} (hb : IsSpace b) (l : List (List Char)) : SegmentsEdit l (b :: l)
  | segment {s s' : List Char} (h : SegmentEdit s s') (l : List (List Char)) :
    SegmentsEdit (s :: l) (s' :: l)

/-- Whether a text comes from the other by any number of changes, made or undone. -/
def Rule.Respelled (t t' : List Char) : Prop :=
  Relation.EqvGen SegmentsEdit (splitOn ';' t) (splitOn ';' t')

end Edits

section Values

variable {f : Field} {v v' v'' : List Char}

/-- The values of a part are read as the same. -/
def Field.Alike (f : Field) (v v' : List Char) : Prop :=
  if f.listsValues = true then
    ∀ u, u ∈ (pieces ',' v).map (List.map Char.toUpper) ↔
      u ∈ (pieces ',' v').map (List.map Char.toUpper)
  else if f = .last then v = v'
  else SameLetters v v'

namespace Field.Alike

theorem refl (f : Field) (v : List Char) : f.Alike v v := by
  unfold Alike
  split
  · exact fun _ => Iff.rfl
  · split <;> rfl

theorem symm (h : f.Alike v v') : f.Alike v' v := by
  unfold Alike at *
  split
  · next hl =>
    rw [if_pos hl] at h
    exact fun u => (h u).symm
  · next hl =>
    rw [if_neg hl] at h
    split <;> simp_all [SameLetters]

theorem trans (h : f.Alike v v') (h' : f.Alike v' v'') : f.Alike v v'' := by
  unfold Alike at *
  split
  · next hl =>
    rw [if_pos hl] at h h'
    exact fun u => (h u).trans (h' u)
  · next hl =>
    rw [if_neg hl] at h h'
    split <;> simp_all [SameLetters]

end Field.Alike

theorem map_pieces_of_sameLetters (h : SameLetters v v') :
    (pieces ',' v).map (List.map Char.toUpper) = (pieces ',' v').map (List.map Char.toUpper) := by
  have hmap (l : List Char) : (pieces ',' l).map (List.map Char.toUpper) =
      (splitOn ',' (l.map Char.toUpper)).map trim := by
    rw [pieces, splitOn_map_toUpper rfl, List.map_map, List.map_map]
    exact List.map_congr_left fun p _ => (trim_map_toUpper p).symm
  rw [hmap, hmap, h]

theorem ValueEdit.alike (h : ValueEdit f v v') : f.Alike (trim v) (trim v') := by
  cases h with
  | pad ha hb =>
    rw [trim_pad ha hb]
    exact .refl f _
  | letters hf h =>
    unfold Field.Alike
    split
    · rw [map_pieces_of_sameLetters h.trim]
      exact fun _ => Iff.rfl
    · exact h.trim
  | elements hf h =>
    rw [Field.Alike, if_pos hf]
    have hp : ∀ p, p ∈ pieces ',' (trim v) ↔ p ∈ pieces ',' (trim v') := by
      intro p
      rw [pieces, pieces, map_trim_splitOn_trim rfl, map_trim_splitOn_trim rfl,
        mem_map_trim_of_edit h]
    intro u
    simp only [List.mem_map, hp]

end Values

namespace Rule

section Readers

variable {cs ds : List Char}

/-- A reader that reads alike texts as the same, and refuses the empty text. -/
structure Tolerates {α : Type} (alike : List Char → List Char → Prop)
    (read : List Char → Except Fault α) : Prop where
  nil : ∀ a, read [] ≠ .ok a
  ok : ∀ {cs ds : List Char} {a : α}, alike cs ds → read cs = .ok a → read ds = .ok a

theorem ofKeyword?_of_sameLetters (h : SameLetters cs ds) :
    Frequency.ofKeyword? cs = Frequency.ofKeyword? ds := by
  rw [Frequency.ofKeyword?, Frequency.ofKeyword?, h]

theorem ofCode?_of_sameLetters (h : SameLetters cs ds) :
    Weekday.ofCode? cs = Weekday.ofCode? ds := by
  rw [Weekday.ofCode?, Weekday.ofCode?, h]

theorem any_not_ascii_of_sameLetters (h : SameLetters cs ds) :
    (cs.any fun c => 0x7f < c.toNat) = ds.any fun c => 0x7f < c.toNat := by
  have hmap (l : List Char) : (l.any fun c => 0x7f < c.toNat) =
      (l.map Char.toUpper).any fun c => 0x7f < c.toNat := by
    rw [List.any_map]
    apply congrArg (l.any ·)
    funext c
    rw [Function.comp_apply, toNat_toUpper]
    split
    · rw [decide_eq_false (by omega), decide_eq_false (by omega)]
    · rfl
  rw [hmap cs, hmap ds, h]

theorem tolerates_readPositive : Tolerates SameLetters readPositive where
  nil _ := nofun
  ok h hr := by
    rw [readPositive_eq_ok_iff] at hr ⊢
    rwa [← unsigned?_of_sameLetters _ h]

theorem tolerates_readUnsigned (max : Nat) : Tolerates SameLetters (readUnsigned max) where
  nil _ := nofun
  ok h hr := by
    rw [readUnsigned_eq_ok_iff] at hr ⊢
    rwa [← unsigned?_of_sameLetters _ h]

theorem tolerates_readSigned (low high : Int) : Tolerates SameLetters (readSigned low high) where
  nil _ := nofun
  ok h hr := by
    rw [readSigned_eq_ok_iff] at hr ⊢
    rwa [← signed?_of_sameLetters _ _ h]

theorem tolerates_readWeekday : Tolerates SameLetters readWeekday where
  nil _ := nofun
  ok h hr := by
    rw [readWeekday_eq_ok_iff] at hr ⊢
    rwa [← ofCode?_of_sameLetters h]

theorem tolerates_readNthWeekday : Tolerates SameLetters readNthWeekday where
  nil _ := nofun
  ok {cs ds _} h hr := by
    rw [readNthWeekday_eq_ok_iff] at hr ⊢
    have hordinal := h.take (cs.length - 2)
    rw [← h.length_eq, any_not_ascii_of_sameLetters h.symm, ← ofCode?_of_sameLetters (h.drop _),
      ← signed?_of_sameLetters _ _ hordinal]
    simp only [← hordinal.eq_nil_iff]
    exact hr

theorem tolerates_readTimestamp : Tolerates Eq readTimestamp where
  nil _ := nofun
  ok h hr := h ▸ hr

namespace Tolerates

variable {α : Type} {alike : List Char → List Char → Prop} {read : List Char → Except Fault α}
variable {f : Field}

theorem mono {alike' : List Char → List Char → Prop} (h : Tolerates alike read)
    (hi : ∀ cs ds, alike' cs ds → alike cs ds) : Tolerates alike' read where
  nil := h.nil
  ok ha hr := h.ok (hi _ _ ha) hr

theorem some (h : Tolerates alike read) : Tolerates alike fun cs => Option.some <$> read cs where
  nil o hr := by
    obtain ⟨a, ha, -⟩ := map_eq_ok_iff.mp hr
    exact h.nil a ha
  ok ha hr := by
    obtain ⟨a, hread, rfl⟩ := map_eq_ok_iff.mp hr
    exact map_eq_ok_iff.mpr ⟨a, h.ok ha hread, rfl⟩

theorem single (h : Tolerates SameLetters read) (hf : f.listsValues = false) (hl : f ≠ .last) :
    Tolerates f.Alike read := by
  refine h.mono ?_
  intro cs ds ha
  rwa [Field.Alike, if_neg (by simp [hf]), if_neg hl] at ha

theorem set [LT α] [DecidableLT α] [Trans (LT.lt (α := α)) (LT.lt (α := α)) (LT.lt (α := α))]
    [Std.Asymm (LT.lt (α := α))] [Std.Trichotomous (LT.lt (α := α))]
    (h : Tolerates SameLetters read) (hf : f.listsValues = true) :
    Tolerates f.Alike (readSet read) where
  nil s hr := by
    obtain ⟨l, hl, -⟩ := bind_eq_ok_iff.mp hr
    obtain ⟨a, ha⟩ := exists_mapM_eq_ok_iff.mp ⟨l, hl⟩ [] (List.mem_singleton.mpr rfl)
    exact h.nil a ha
  ok {cs ds s} ha hr := by
    rw [Field.Alike, if_pos hf] at ha
    -- every piece of one text is a piece of the other in other letters
    have hpiece : ∀ {p}, p ∈ pieces ',' ds → ∃ q ∈ pieces ',' cs, SameLetters q p := by
      intro p hp
      obtain ⟨q, hq, he⟩ := List.mem_map.mp ((ha _).mpr (List.mem_map_of_mem hp))
      exact ⟨q, hq, he⟩
    have hpiece' : ∀ {q}, q ∈ pieces ',' cs → ∃ p ∈ pieces ',' ds, SameLetters q p := by
      intro q hq
      obtain ⟨p, hp, he⟩ := List.mem_map.mp ((ha _).mp (List.mem_map_of_mem hq))
      exact ⟨p, hp, Eq.symm he⟩
    obtain ⟨l, hl, hs⟩ := bind_eq_ok_iff.mp hr
    have hall : ∀ p ∈ pieces ',' ds, ∃ a, read p = .ok a := by
      intro p hp
      obtain ⟨q, hq, he⟩ := hpiece hp
      obtain ⟨a, ha⟩ := exists_mapM_eq_ok_iff.mp ⟨l, hl⟩ q hq
      exact ⟨a, h.ok he ha⟩
    obtain ⟨l', hl'⟩ := exists_mapM_eq_ok_iff.mpr hall
    have hmem : ∀ a, a ∈ l ↔ a ∈ l' := by
      intro a
      rw [mem_of_mapM hl, mem_of_mapM hl']
      constructor
      · rintro ⟨q, hq, hr⟩
        obtain ⟨p, hp, he⟩ := hpiece' hq
        exact ⟨p, hp, h.ok he hr⟩
      · rintro ⟨p, hp, hr⟩
        obtain ⟨q, hq, he⟩ := hpiece hp
        exact ⟨q, hq, h.ok he.symm hr⟩
    rw [OrderedSet.ofList_congr hmem] at hs
    exact bind_eq_ok_iff.mpr ⟨l', hl', hs⟩

end Tolerates

end Readers

end Rule

/-- The same parts have alike values. -/
def Entry.Alike (es es' : List Entry) : Prop :=
  ∀ f : Field, Option.Rel f.Alike (value? es f) (value? es' f)

namespace Entry

variable {es es' es'' : List Entry} {e e' : Entry} {s s' : List Char} {l l' : List (List Char)}

namespace Alike

theorem refl (es : List Entry) : Alike es es := by
  intro f
  cases value? es f with
  | none => exact .none
  | some v => exact .some (.refl f v)

theorem trans (h : Alike es es') (h' : Alike es' es'') : Alike es es'' := by
  intro f
  have hf := h f
  have hf' := h' f
  revert hf hf'
  generalize value? es f = o, value? es' f = o', value? es'' f = o''
  rintro (hv | _) (hv' | _)
  · exact .some (hv.trans hv')
  · exact .none

theorem of_perm (hn : (es.map field).Nodup) (hp : es.Perm es') : Alike es es' := by
  intro f
  rw [← value?_perm hn hp]
  exact refl es f

theorem cons {f : Field} {v v' : List Char} (hv : f.Alike v v') (es : List Entry) :
    Alike (⟨f, v⟩ :: es) (⟨f, v'⟩ :: es) := by
  intro g
  rw [value?_cons, value?_cons]
  split
  · next he =>
    cases he
    exact .some hv
  · exact refl es g

end Alike

/-- Two segments that are read alike: either they differ only at their ends, or both have a key and
a value. -/
inductive SameSegment : List Char → List Char → Prop
  | ends {s s' : List Char} (h : trim s = trim s') : SameSegment s s'
  | part {key key' v v' : List Char} (hk : '=' ∉ key) (hk' : '=' ∉ key')
    (hn : Field.ofName? (trim key) = Field.ofName? (trim key'))
    (hv : ∀ f, Field.ofName? (trim key) = some f → f.Alike (trim v) (trim v')) :
    SameSegment (key ++ '=' :: v) (key' ++ '=' :: v')

theorem SameSegment.symm (h : SameSegment s s') : SameSegment s' s := by
  cases h with
  | ends h => exact .ends h.symm
  | part hk hk' hn hv =>
    refine .part hk' hk hn.symm ?_
    intro f hf
    exact (hv f (hn.trans hf)).symm

theorem ofName?_of_sameLetters {key key' : List Char} (h : SameLetters key key') :
    Field.ofName? key = Field.ofName? key' := by
  rw [Field.ofName?, Field.ofName?, h]

theorem sameSegment_of_edit (h : SegmentEdit s s') : SameSegment s s' := by
  cases h with
  | pad ha hb s => exact .ends (trim_pad ha hb).symm
  | @padKey a b key ha hb hk value =>
    have hk' : '=' ∉ a ++ key ++ b := by
      simp only [List.mem_append, not_or]
      exact ⟨⟨not_mem_of_isSpace rfl ha, hk⟩, not_mem_of_isSpace rfl hb⟩
    refine .part hk hk' ?_ fun f _ => .refl f _
    rw [trim_pad ha hb]
  | keyLetters hk h value =>
    refine .part hk (fun hm => hk (h.symm.mem rfl hm)) ?_ fun f _ => .refl f _
    exact ofName?_of_sameLetters h.trim
  | value hk hf h =>
    refine .part hk hk rfl ?_
    intro g hg
    obtain rfl := Option.some.inj (hf.symm.trans hg)
    exact h.alike

theorem collects_of_sameSegment (h : SameSegment s s') (hc : Collects (s :: l) es) :
    ∃ es', Collects (s' :: l) es' ∧ Alike es es' := by
  cases h with
  | ends h =>
    have he : nonblank (s' :: l) = nonblank (s :: l) := by
      rw [nonblank, nonblank, List.map_cons, List.map_cons, h]
    exact ⟨es, ⟨he ▸ hc.read, hc.nodup⟩, .refl es⟩
  | @part _ _ _ v' hk hk' hn hv =>
    have hread := hc.read
    rw [nonblank_cons_of_ne_nil trim_part_ne_nil, mapM_cons_eq_ok_iff] at hread
    obtain ⟨⟨f, u⟩, he, es, hes, rfl⟩ := hread
    obtain ⟨hf, rfl⟩ := (read_trim_part hk).mp he
    refine ⟨⟨f, trim v'⟩ :: es, ⟨?_, hc.nodup⟩, .cons (hv f hf) es⟩
    rw [nonblank_cons_of_ne_nil trim_part_ne_nil, mapM_cons_eq_ok_iff]
    have he' : read (trim (_ ++ '=' :: v')) = .ok ⟨f, trim v'⟩ :=
      (read_trim_part hk').mpr ⟨hn.symm.trans hf, rfl⟩
    exact ⟨_, he', es, hes, rfl⟩

theorem readAlike_of_edit (h : SegmentsEdit l l') : ReadAlike Collects Alike l l' := by
  cases h with
  | reorder hp =>
    have hperm {m m' : List (List Char)} (hp : m.Perm m') (es : List Entry) (hc : Collects m es) :
        ∃ es', Collects m' es' ∧ Alike es es' := by
      obtain ⟨es', hc', he⟩ := hc.perm hp
      exact ⟨es', hc', .of_perm hc.nodup he⟩
    exact ⟨hperm hp, hperm hp.symm⟩
  | @blank b hb l =>
    have he : nonblank (b :: l) = nonblank l := nonblank_cons_of_isSpace hb
    refine .of_iff Alike.refl ?_
    intro es
    exact ⟨fun hc => ⟨he ▸ hc.read, hc.nodup⟩, fun hc => ⟨he ▸ hc.read, hc.nodup⟩⟩
  | segment h l =>
    have h := sameSegment_of_edit h
    exact ⟨fun _ => collects_of_sameSegment h, fun _ => collects_of_sameSegment h.symm⟩

end Entry

namespace Rule

variable {es es' : List Entry} {r : Rule}

theorem readField_alike {α : Type} {f : Field} {d a : α} {read : List Char → Except Fault α}
    (hr : Tolerates f.Alike read) (h : Entry.Alike es es') (ha : readField es f d read = .ok a) :
    readField es' f d read = .ok a := by
  have hf := h f
  rw [readField_eq] at ha ⊢
  revert hf ha
  generalize Entry.value? es f = o, Entry.value? es' f = o'
  intro ha hf
  cases hf with
  | none => exact ha
  | @some v v' hv =>
    cases v with
    | nil => cases ha
    | cons c cs =>
      have hr' := hr.ok hv (mapError_eq_ok_iff.mp ha)
      cases v' with
      | nil => exact absurd hr' (hr.nil a)
      | cons d ds => exact mapError_eq_ok_iff.mpr hr'

theorem readFrequency_alike {frequency : Frequency} (h : Entry.Alike es es')
    (hr : readFrequency es = .ok frequency) : readFrequency es' = .ok frequency := by
  have hf := h .freq
  rw [readFrequency_eq] at hr ⊢
  revert hf hr
  generalize Entry.value? es .freq = o, Entry.value? es' .freq = o'
  intro hr hf
  cases hf with
  | none => cases hr
  | @some v v' hv =>
    have hk : Frequency.ofKeyword? v = Frequency.ofKeyword? v' := ofKeyword?_of_sameLetters hv
    dsimp only at hr ⊢
    rw [← hk]
    -- the values differ in the error only
    cases hf : Frequency.ofKeyword? v with
    | none =>
      rw [hf] at hr
      cases hr
    | some f =>
      rw [hf] at hr
      exact hr

theorem ofEntries_alike (h : Entry.Alike es es') (hr : ofEntries es = .ok r) :
    ofEntries es' = .ok r := by
  have hset {α : Type} [LT α] [DecidableLT α]
      [Trans (LT.lt (α := α)) (LT.lt (α := α)) (LT.lt (α := α))]
      [Std.Asymm (LT.lt (α := α))] [Std.Trichotomous (LT.lt (α := α))]
      {read : List Char → Except Fault α} {f : Field} {values : OrderedSet α}
      (hread : Tolerates SameLetters read) (hf : f.listsValues = true)
      (hr : readField es f {} (readSet read) = .ok values) :
      readField es' f {} (readSet read) = .ok values :=
    readField_alike (hread.set hf) h hr
  have hinteger := tolerates_readPositive
  have hlast : Tolerates (Field.Alike .last) readTimestamp := tolerates_readTimestamp
  simp only [ofEntries, bind_eq_ok_iff] at hr ⊢
  obtain ⟨_, hfreq, _, hinterval, _, hcount, _, hend, _, hwkst, _, hday, _, hmonthDay, _, hmonth,
    _, hyearDay, _, hhour, _, hminute, _, hsecond, _, hposition, hr⟩ := hr
  exact ⟨_, readFrequency_alike h hfreq,
    _, readField_alike (hinteger.single rfl (by decide)) h hinterval,
    _, readField_alike (hinteger.some.single rfl (by decide)) h hcount,
    _, readField_alike hlast.some h hend,
    _, readField_alike (tolerates_readWeekday.single rfl (by decide)) h hwkst,
    _, hset tolerates_readNthWeekday rfl hday,
    _, hset (tolerates_readSigned _ _) rfl hmonthDay,
    _, hset (tolerates_readUnsigned _) rfl hmonth,
    _, hset (tolerates_readSigned _ _) rfl hyearDay,
    _, hset (tolerates_readUnsigned _) rfl hhour,
    _, hset (tolerates_readUnsigned _) rfl hminute,
    _, hset (tolerates_readUnsigned _) rfl hsecond,
    _, hset (tolerates_readSigned _ _) rfl hposition, hr⟩

theorem parse_of_alike {t t' : List Char} (h : ∀ es, Entry.Collects (splitOn ';' t) es →
      ∃ es', Entry.Collects (splitOn ';' t') es' ∧ Entry.Alike es es') (hr : parse t = .ok r) :
    parse t' = .ok r := by
  obtain ⟨es, hc, hr⟩ := bind_eq_ok_iff.mp hr
  obtain ⟨r', hes, hr⟩ := bind_eq_ok_iff.mp hr
  obtain ⟨es', hc', ha⟩ := h es (Entry.collect_eq_ok_iff.mp hc)
  exact bind_eq_ok_iff.mpr ⟨es', Entry.collect_eq_ok_iff.mpr hc',
    bind_eq_ok_iff.mpr ⟨r', ofEntries_alike ha hes, hr⟩⟩

/-- The parts of a rule may come in any order: unless they cannot be collected in any, the rule or
its first fault is the same. Nor do blank segments and white space, the case of letters, and the
order and the repetition of listed values matter to a rule that can be read. -/
theorem parse_respelled :
    (∀ segments segments' : List (List Char), (∀ s ∈ segments, ';' ∉ s) →
      segments.Perm segments' →
        (Entry.Faulty segments ∧ Entry.Faulty segments' ∧
          ∃ e e', Entry.collect ([';'].intercalate segments) = .error e ∧
            parse ([';'].intercalate segments) = .error e ∧
            Entry.collect ([';'].intercalate segments') = .error e' ∧
            parse ([';'].intercalate segments') = .error e') ∨
        (¬ Entry.Faulty segments ∧ ¬ Entry.Faulty segments' ∧
          parse ([';'].intercalate segments) = parse ([';'].intercalate segments'))) ∧
      ∀ (t t' : List Char) (r : Rule), Respelled t t' → (parse t = .ok r ↔ parse t' = .ok r) := by
  constructor
  · intro segments segments' hs hp
    have hs' : ∀ s ∈ segments', ';' ∉ s := fun s hm => hs s (hp.mem_iff.mpr hm)
    have hiff := Entry.faulty_iff_of_perm hp
    by_cases hf : Entry.Faulty segments
    · obtain ⟨e, he⟩ := Entry.exists_error_of_faulty hs hf
      obtain ⟨e', he'⟩ := Entry.exists_error_of_faulty hs' (hiff.mp hf)
      refine Or.inl ⟨hf, hiff.mp hf, e, e', he, ?_, he', ?_⟩
      · rw [parse, he]
        rfl
      · rw [parse, he']
        rfl
    · exact Or.inr ⟨hf, mt hiff.mpr hf, parse_of_perm hs hp hf⟩
  · intro t t' r h
    have h := ReadAlike.of_eqvGen Entry.Alike.refl (fun _ _ _ => Entry.Alike.trans)
      (fun _ _ => Entry.readAlike_of_edit) h
    exact ⟨parse_of_alike h.1, parse_of_alike h.2⟩

/-- Mondays and Tuesdays. -/
def mondayOrTuesday : Rule where
  frequency := .weekly
  byDay := .ofList [⟨none, .monday⟩, ⟨none, .tuesday⟩]

theorem parse_respelled_mondayOrTuesday :
    (∃ e e', parse "COUNT=1;count=2;X".toList = .error e ∧
      parse "X;COUNT=1;count=2".toList = .error e') ∧
    parse "COUNT=0;FREQ=DAILY".toList = parse "FREQ=DAILY;COUNT=0".toList ∧
    parse "FREQ=WEEKLY;BYDAY=MO,TU".toList = .ok mondayOrTuesday ∧
    parse ";byDay=MO ,MO,TU;FREQ=WEEKLY".toList = .ok mondayOrTuesday := by
  obtain ⟨hperm, hrespelled⟩ := parse_respelled
  refine ⟨?_, ?_, rfl, ?_⟩
  · have h := hperm ["COUNT=1".toList, "count=2".toList, "X".toList]
      ["X".toList, "COUNT=1".toList, "count=2".toList] (by decide +kernel) (by decide +kernel)
    obtain ⟨-, -, e, e', -, he, -, he'⟩ | ⟨hn, -⟩ := h
    · exact ⟨e, e', he, he'⟩
    · exact absurd (.repeated (by decide +kernel)) hn
  · have h := hperm ["COUNT=0".toList, "FREQ=DAILY".toList] ["FREQ=DAILY".toList, "COUNT=0".toList]
      (by decide +kernel) (.swap _ _ _)
    obtain ⟨-, -, e, e', he, -⟩ | ⟨-, -, h⟩ := h
    · cases he
    · exact h
  · have hkey : SegmentEdit ("BYDAY".toList ++ '=' :: "MO,TU".toList)
        ("byDay".toList ++ '=' :: "MO,TU".toList) := by
      apply SegmentEdit.keyLetters
      · decide
      · rfl
    have hrepeated : SegmentEdit ("byDay".toList ++ '=' :: "MO,TU".toList)
        ("byDay".toList ++ '=' :: "MO,MO,TU".toList) :=
      .value (by decide) rfl (.elements rfl (.duplicate "MO".toList ["TU".toList]))
    have hpadded : SegmentEdit ("byDay".toList ++ '=' :: "MO,MO,TU".toList)
        ("byDay".toList ++ '=' :: "MO ,MO,TU".toList) := by
      refine .value (by decide) rfl (.elements rfl ?_)
      exact .pad (a := []) (b := [' ']) (by decide) (by decide) "MO".toList
        ["MO".toList, "TU".toList]
    have hrespelled' : Respelled "FREQ=WEEKLY;BYDAY=MO,TU".toList
        ";byDay=MO ,MO,TU;FREQ=WEEKLY".toList := by
      refine .trans _ ["BYDAY=MO,TU".toList, "FREQ=WEEKLY".toList] _ (.rel _ _ ?_) ?_
      · exact .reorder (.swap _ _ _)
      · exact .trans _ _ _ (.rel _ _ (.segment hkey _)) <| .trans _ _ _
          (.rel _ _ (.segment hrepeated _)) <| .trans _ _ _ (.rel _ _ (.segment hpadded _))
          (.rel _ _ (.blank (b := []) (by decide) _))
    exact (hrespelled _ _ mondayOrTuesday hrespelled').mp rfl

end Rule

end Recurrence
