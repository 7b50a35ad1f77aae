import Recurrence.Proofs.Expansion.Overflow
import Recurrence.Proofs.OrderedSet
import Recurrence.Proofs.RuleSet.Lines
import Recurrence.Proofs.Text.Edits

/-!
# Rule sets that are written in different ways

The lines of a rule set may come in any order, with blank lines between them and white space around
them; the name of a line may be in upper or lower case, and dates may be listed in one line or in
several, in any order and repeated. Such changes are the constructors of `LinesEdit`. They keep what
the lines say (`Line.Alike`), so the rule set is the same but for the order of its excepted rules,
which does not matter to an expansion (`RuleSet.expand_of_perm`).
-/

namespace Recurrence

set_option autoImplicit false

open Calendar Text

/-- Whether the value of the line is a list of dates. -/
def LineKind.listsDates : LineKind → Bool
  | start | rule | exceptRule => false
  | dates | exceptDates => true

/-- A change of the lines of a rule set. They may change places, so each of the other changes is
that of the first line. -/
inductive LinesEdit : List (List Char) → List (List Char) → Prop
  | reorder {l l' : List (List Char)} (h : l.Perm l') : LinesEdit l l'
  | blank {b : List Char} (hb : IsSpace b) (l : List (List Char)) : LinesEdit l (b :: l)
  | pad {a b : List Char} (ha : IsSpace a) (hb : IsSpace b) (line : List Char)
    (l : List (List Char)) : LinesEdit (line :: l) ((a ++ line ++ b) :: l)
  | nameLetters {name name' : List Char} (hn : ':' ∉ name ∧ '=' ∉ name)
    (h : SameLetters name name') (value : List Char) (l : List (List Char)) :
    LinesEdit ((name ++ ':' :: value) :: l) ((name' ++ ':' :: value) :: l)
  | split {name name' : List Char} {kind : LineKind} (hn : ':' ∉ name ∧ '=' ∉ name)
    (hn' : ':' ∉ name' ∧ '=' ∉ name') (hk : LineKind.ofName? (trim name) = some kind)
    (hk' : LineKind.ofName? (trim name') = some kind) (hd : kind.listsDates = true)
    (v v' : List Char) (l : List (List Char)) :
    LinesEdit ((name ++ ':' :: (v ++ ',' :: v')) :: l)
      ((name ++ ':' :: v) :: (name' ++ ':' :: v') :: l)
  | dates {name v v' : List Char} {kind : LineKind} (hn : ':' ∉ name ∧ '=' ∉ name)
    (hk : LineKind.ofName? (trim name) = some kind) (hd : kind.listsDates = true)
    (h : ElementsEdit (splitOn ',' v) (splitOn ',' v')) (l : List (List Char)) :
    LinesEdit ((name ++ ':' :: v) :: l) ((name ++ ':' :: v') :: l)

/-- Whether a text comes from the other by any number of changes, made or undone. -/
def RuleSet.Rearranged (t t' : List Char) : Prop :=
  Relation.EqvGen LinesEdit (splitOn '\n' t) (splitOn '\n' t')

namespace RuleSet

section Values

variable {kind : LineKind} {lines lines' : List Line}

theorem values_perm (h : lines.Perm lines') (kind : LineKind) :
    (values kind lines).Perm (values kind lines') := (h.filter _).map _

/-- The dates in the lines of a kind, as they stand in the text. -/
def datesOf (kind : LineKind) (lines : List Line) : List (List Char) :=
  (values kind lines).flatMap (pieces ',')

/-- The values of some lines of a kind and of more lines. -/
theorem values_block (k : LineKind) (vs : List (List Char)) (rest : List Line) :
    values k (vs.map (Line.mk kind) ++ rest) = (if kind = k then vs else []) ++ values k rest := by
  induction vs with
  | nil => simp
  | cons v vs ih =>
    rw [List.map_cons, List.cons_append, values_cons, ih]
    split <;> rfl

/-- The lines say the same: the same start, the same rules and the same dates. -/
structure Alike (lines lines' : List Line) : Prop where
  single : ∀ kind : LineKind, kind.listsDates = false →
    (values kind lines).Perm (values kind lines')
  dates : ∀ kind : LineKind, kind.listsDates = true →
    ∀ p, p ∈ datesOf kind lines ↔ p ∈ datesOf kind lines'

namespace Alike

theorem refl (lines : List Line) : Alike lines lines :=
  ⟨fun _ _ => .refl _, fun _ _ _ => Iff.rfl⟩

theorem symm (h : Alike lines lines') : Alike lines' lines :=
  ⟨fun kind hk => (h.single kind hk).symm, fun kind hk p => (h.dates kind hk p).symm⟩

theorem trans {lines'' : List Line} (h : Alike lines lines') (h' : Alike lines' lines'') :
    Alike lines lines'' :=
  ⟨fun kind hk => (h.single kind hk).trans (h'.single kind hk),
    fun kind hk p => (h.dates kind hk p).trans (h'.dates kind hk p)⟩

theorem of_perm (h : lines.Perm lines') : Alike lines lines' :=
  ⟨fun kind _ => values_perm h kind,
    fun kind _ _ => ((values_perm h kind).flatMap_right _).mem_iff⟩

theorem of_dates (hd : kind.listsDates = true) (vs vs' : List (List Char))
    (h : ∀ p, p ∈ vs.flatMap (pieces ',') ↔ p ∈ vs'.flatMap (pieces ',')) (rest : List Line) :
    Alike (vs.map (Line.mk kind) ++ rest) (vs'.map (Line.mk kind) ++ rest) := by
  constructor
  · intro k hk
    have hne : kind ≠ k := by
      rintro rfl
      rw [hd] at hk
      cases hk
    rw [values_block, values_block, if_neg hne, if_neg hne]
  · intro k _ p
    rw [datesOf, datesOf, values_block, values_block, List.flatMap_append, List.flatMap_append,
      List.mem_append, List.mem_append]
    apply or_congr_left
    split
    · exact h p
    · exact Iff.rfl

end Alike

end Values

section Lines

variable {name value v v' : List Char} {kind : LineKind} {lines lines' : List Line}
variable {l l' : List (List Char)}

theorem ofName?_of_sameLetters (h : SameLetters v v') :
    LineKind.ofName? v = LineKind.ofName? v' := by
  rw [LineKind.ofName?, LineKind.ofName?, h]

/-- A line with a name. -/
theorem read_trim_named {line : Line} (hn : ':' ∉ name ∧ '=' ∉ name) :
    Line.read (trim (name ++ ':' :: value)) = .ok line ↔
      LineKind.ofName? (trim name) = some line.kind ∧ trim value = line.value := by
  have hmem {c : Char} (h : c ∈ name.dropWhile isBlank) : c ∈ name :=
    (List.dropWhile_sublist _).mem h
  rw [trim_append_cons rfl, Line.read, cut?_append_cons (fun h => hn.1 (hmem h))]
  dsimp only
  rw [if_neg (fun h => hn.2 (hmem h)), trim_dropWhile, trim_trimEnd]
  obtain ⟨kind, u⟩ := line
  cases LineKind.ofName? (trim name) with
  | none => simp
  | some k => simp

theorem trim_named_ne_nil : trim (name ++ ':' :: value) ≠ [] := by
  rw [trim_append_cons rfl]
  exact List.append_ne_nil_of_right_ne_nil _ (List.cons_ne_nil _ _)

/-- What the lines of a text say. -/
def Reads (l : List (List Char)) (lines : List Line) : Prop :=
  (nonblank l).mapM Line.read = .ok lines

theorem reads_named_iff (hn : ':' ∉ name ∧ '=' ∉ name) :
    Reads ((name ++ ':' :: value) :: l) lines ↔ ∃ kind rest,
      LineKind.ofName? (trim name) = some kind ∧ Reads l rest ∧
        lines = ⟨kind, trim value⟩ :: rest := by
  rw [Reads, nonblank_cons_of_ne_nil trim_named_ne_nil, mapM_cons_eq_ok_iff]
  constructor
  · rintro ⟨⟨kind, u⟩, hline, rest, hrest, rfl⟩
    obtain ⟨hk, rfl⟩ := (read_trim_named hn).mp hline
    exact ⟨kind, rest, hk, hrest, rfl⟩
  · rintro ⟨kind, rest, hk, hrest, rfl⟩
    exact ⟨_, (read_trim_named hn).mpr ⟨hk, rfl⟩, rest, hrest, rfl⟩

theorem reads_dates_iff (hn : ':' ∉ name ∧ '=' ∉ name)
    (hk : LineKind.ofName? (trim name) = some kind) :
    Reads ((name ++ ':' :: value) :: l) lines ↔
      ∃ rest, Reads l rest ∧ lines = ⟨kind, trim value⟩ :: rest := by
  rw [reads_named_iff hn, hk]
  simp only [Option.some.injEq, exists_eq_left', exists_and_left]

theorem pieces_trim (cs : List Char) : pieces ',' (trim cs) = pieces ',' cs :=
  map_trim_splitOn_trim rfl cs

theorem pieces_append (cs ds : List Char) :
    pieces ',' (cs ++ ',' :: ds) = pieces ',' cs ++ pieces ',' ds := by
  rw [pieces, splitOn_append_sep, List.map_append]
  rfl

theorem readAlike_of_edit (h : LinesEdit l l') : ReadAlike Reads Alike l l' := by
  cases h with
  | reorder h =>
    have hperm {m m' : List (List Char)} (hp : m.Perm m') (lines : List Line) (hr : Reads m lines) :
        ∃ lines', Reads m' lines' ∧ Alike lines lines' := by
      obtain ⟨lines', hr', hp'⟩ := mapM_perm (nonblank_perm hp) hr
      exact ⟨lines', hr', .of_perm hp'⟩
    exact ⟨hperm h, hperm h.symm⟩
  | blank hb l =>
    refine .of_iff Alike.refl fun lines => ?_
    rw [Reads, Reads, nonblank_cons_of_isSpace hb]
  | pad ha hb line l =>
    refine .of_iff Alike.refl fun lines => ?_
    rw [Reads, Reads, nonblank, nonblank, List.map_cons, List.map_cons, trim_pad ha hb]
  | @nameLetters name name' hn h value l =>
    have hn' : ':' ∉ name' ∧ '=' ∉ name' :=
      ⟨fun hm => hn.1 (h.symm.mem rfl hm), fun hm => hn.2 (h.symm.mem rfl hm)⟩
    refine .of_iff Alike.refl fun lines => ?_
    rw [reads_named_iff hn, reads_named_iff hn', ofName?_of_sameLetters h.trim]
  | @split name name' kind hn hn' hk hk' hd v v' l =>
    have halike := Alike.of_dates hd [trim (v ++ ',' :: v')] [trim v, trim v']
      (by simp [pieces_trim, pieces_append])
    rw [ReadAlike]
    simp only [reads_dates_iff hn hk, reads_dates_iff hn' hk']
    constructor
    · rintro _ ⟨rest, hr, rfl⟩
      exact ⟨_, ⟨_, ⟨rest, hr, rfl⟩, rfl⟩, halike rest⟩
    · rintro _ ⟨_, ⟨rest, hr, rfl⟩, rfl⟩
      exact ⟨_, ⟨rest, hr, rfl⟩, (halike rest).symm⟩
  | @dates name v v' kind hn hk hd h l =>
    have hmem : ∀ p, p ∈ pieces ',' v ↔ p ∈ pieces ',' v' := mem_map_trim_of_edit h
    have halike := Alike.of_dates hd [trim v] [trim v'] (by simpa [pieces_trim] using hmem)
    rw [ReadAlike]
    simp only [reads_dates_iff hn hk]
    constructor
    · rintro _ ⟨rest, hr, rfl⟩
      exact ⟨_, ⟨rest, hr, rfl⟩, halike rest⟩
    · rintro _ ⟨rest, hr, rfl⟩
      exact ⟨_, ⟨rest, hr, rfl⟩, (halike rest).symm⟩

end Lines

section Sets

variable {s s' : RuleSet} {lines lines' : List Line}

/-- The same rule set but for the order of the excepted rules. -/
structure SameButOrder (s s' : RuleSet) : Prop where
  rule : s'.rule = s.rule
  dates : s'.dates = s.dates
  exceptDates : s'.exceptDates = s.exceptDates
  exceptRules : s'.exceptRules.Perm s.exceptRules

/-- The dates do not depend on the lines in which they stand. -/
theorem readDates_alike {kind : LineKind} {tss : List (List Timestamp)} (ha : Alike lines lines')
    (hd : kind.listsDates = true) (h : (values kind lines).mapM (readDates kind) = .ok tss) :
    ∃ tss', (values kind lines').mapM (readDates kind) = .ok tss' ∧
      OrderedSet.ofList tss.flatten = OrderedSet.ofList tss'.flatten := by
  have hmem := ha.dates kind hd
  simp only [datesOf] at hmem
  have hall := exists_readDates_iff.mp ⟨tss, h⟩
  obtain ⟨tss', h'⟩ := exists_readDates_iff.mpr fun p hp => hall p ((hmem p).mpr hp)
  refine ⟨tss', h', OrderedSet.ofList_congr fun t => ?_⟩
  simp only [mem_flatten_readDates h, mem_flatten_readDates h', hmem]

theorem tells_alike (ha : Alike lines lines') (h : Tells lines s) :
    ∃ s', Tells lines' s' ∧ SameButOrder s s' := by
  obtain ⟨hstart, ⟨body, hbody, hrule⟩, ⟨tss, htss, hd⟩, ⟨xss, hxss, hx⟩, ⟨rs, hrs, he⟩⟩ := h
  obtain ⟨ts, hts, hanchor⟩ := mapM_perm (ha.single .start rfl) hstart
  have hts' : ts = s.rule.anchor.toList := by
    cases hs : s.rule.anchor with
    | none => simpa [hs] using hanchor
    | some t => simpa [hs, eq_comm] using hanchor
  have hbody' := ha.single .rule rfl
  rw [hbody, List.singleton_perm] at hbody'
  obtain ⟨tss', htss', hd'⟩ := readDates_alike ha rfl htss
  obtain ⟨xss', hxss', hx'⟩ := readDates_alike ha rfl hxss
  obtain ⟨rs', hrs', hp⟩ := mapM_perm (ha.single .exceptRule rfl) hrs
  refine ⟨⟨s.rule, s.dates, s.exceptDates, rs'.map fun r => { r with anchor := s.rule.anchor }⟩,
    ⟨hts' ▸ hts, ⟨body, hbody'.symm, hrule⟩, ⟨tss', htss', hd.trans hd'⟩,
      ⟨xss', hxss', hx.trans hx'⟩, ⟨rs', hrs', rfl⟩⟩, rfl, rfl, rfl, ?_⟩
  rw [he]
  exact (hp.map _).symm

variable {w : Window} {maxEmptyPeriods : Nat} {x x' : Times} {err : ExpansionError}

theorem error_of_exceptions (hv : ∀ r ∈ s.exceptRules, r.Valid)
    (h : s.exceptions w maxEmptyPeriods = .error err) :
    err = .tooManyEmptyPeriods maxEmptyPeriods := by
  unfold exceptions at h
  rw [bind_eq_error_iff] at h
  rcases h with h | ⟨_, -, h⟩
  · obtain ⟨r, hr, he⟩ := exists_error_of_mapM h
    exact (Rule.vacantRun_of_error (hv r hr) he).1
  · cases h

theorem SameButOrder.excepts_iff (h : SameButOrder s s') (t : Timestamp) :
    s'.Excepts w maxEmptyPeriods t ↔ s.Excepts w maxEmptyPeriods t := by
  simp only [Excepts, h.exceptDates, h.exceptRules.mem_iff]

/-- The order of the excepted rules matters neither to the times that they take away, nor to their
number, nor to the error. -/
theorem expand_of_perm (h : SameButOrder s s') (hv : ∀ r ∈ s.exceptRules, r.Valid) (w : Window)
    (limits : Limits) : s'.expand w limits = s.expand w limits := by
  obtain ⟨maxEmptyPeriods, max⟩ := limits
  have hv' : ∀ r ∈ s'.exceptRules, r.Valid := fun r hr => hv r (h.exceptRules.mem_iff.mp hr)
  cases hx : s.exceptions w maxEmptyPeriods with
  | error e =>
    cases hx' : s'.exceptions w maxEmptyPeriods with
    | error e' =>
      rw [expand, expand, hx, hx', error_of_exceptions hv hx, error_of_exceptions hv' hx']
      rfl
    | ok x' =>
      have hall := exists_exceptions_iff.mp ⟨x', hx'⟩
      obtain ⟨x, hx''⟩ := exists_exceptions_iff.mpr fun r hr =>
        hall r (h.exceptRules.mem_iff.mpr hr)
      rw [hx] at hx''
      cases hx''
  | ok x =>
    have hall := exists_exceptions_iff.mp ⟨x, hx⟩
    obtain ⟨x', hx'⟩ := exists_exceptions_iff.mpr fun r hr => hall r (h.exceptRules.mem_iff.mp hr)
    have hcontains (t : Timestamp) : x'.contains t = x.contains t := by
      rw [Bool.eq_iff_iff, contains_exceptions_iff hx, contains_exceptions_iff hx',
        h.excepts_iff]
    have hsize : x'.size = x.size := by
      apply Std.TreeSet.Equiv.size_eq
      rw [Std.TreeSet.equiv_iff_forall_mem_iff]
      intro t
      rw [← Std.TreeSet.contains_iff_mem, ← Std.TreeSet.contains_iff_mem, hcontains]
    have hdates : s'.datesIn w = s.datesIn w := by rw [datesIn, datesIn, h.dates]
    rw [expand, expand, hx, hx']
    dsimp only [bind, Except.bind]
    simp only [hsize, hcontains, hdates, h.rule]

end Sets

/-- A rule set that can be read can be read in every arrangement of its lines and dates. It is the
same but for the order of its excepted rules, and its expansions are the same. -/
theorem parse_rearranged (t t' : String) (s : RuleSet) (h : Rearranged t.toList t'.toList)
    (hp : parse t.toList = .ok s) :
    ∃ s', parse t'.toList = .ok s' ∧ s'.rule = s.rule ∧ s'.dates = s.dates ∧
      s'.exceptDates = s.exceptDates ∧ s'.exceptRules.Perm s.exceptRules ∧
      ∀ (w : Window) (limits : Limits), s'.expand w limits = s.expand w limits := by
  obtain ⟨lines, hread, ht⟩ := parse_eq_ok_iff.mp hp
  have halike := ReadAlike.of_eqvGen Alike.refl (fun _ _ _ => Alike.trans)
    (fun _ _ => readAlike_of_edit) h
  obtain ⟨lines', hread', ha⟩ := halike.1 lines hread
  obtain ⟨s', ht', hs⟩ := tells_alike ha ht
  refine ⟨s', parse_eq_ok_iff.mpr ⟨lines', hread', ht'⟩, hs.rule, hs.dates, hs.exceptDates,
    hs.exceptRules, ?_⟩
  exact expand_of_perm hs fun r hr => ht.wellFormed.valid r (List.mem_cons_of_mem _ hr)

/-- Every day but the first two of January 2024. -/
def twoDaysOff : RuleSet where
  rule := { frequency := .daily }
  exceptDates := .ofList [newYear, .startOfDay ⟨yearStart 2024 + 1, by decide, by decide⟩]

theorem parse_rearranged_twoDaysOff :
    parse "RRULE:FREQ=DAILY\nEXDATE:2024-01-01,2024-01-02".toList = .ok twoDaysOff ∧
    ∃ s', parse "\nexdate:2024-01-01\r\nEXDATE:2024-01-02\nRRULE:FREQ=DAILY".toList = .ok s' ∧
      s'.rule = twoDaysOff.rule ∧ s'.dates = twoDaysOff.dates ∧
      s'.exceptDates = twoDaysOff.exceptDates ∧ s'.exceptRules.Perm twoDaysOff.exceptRules ∧
      ∀ (w : Window) (limits : Limits), s'.expand w limits = twoDaysOff.expand w limits := by
  have hparse : parse "RRULE:FREQ=DAILY\nEXDATE:2024-01-01,2024-01-02".toList =
      .ok twoDaysOff := rfl
  have hreorder : LinesEdit
      ["RRULE:FREQ=DAILY".toList, "EXDATE".toList ++ ':' :: "2024-01-01,2024-01-02".toList]
      ["EXDATE".toList ++ ':' :: "2024-01-01,2024-01-02".toList, "RRULE:FREQ=DAILY".toList] :=
    .reorder (.swap _ _ _)
  have hsplit : LinesEdit
      ["EXDATE".toList ++ ':' :: ("2024-01-01".toList ++ ',' :: "2024-01-02".toList),
        "RRULE:FREQ=DAILY".toList]
      ["EXDATE".toList ++ ':' :: "2024-01-01".toList, "EXDATE:2024-01-02".toList,
        "RRULE:FREQ=DAILY".toList] := by
    have hn : ':' ∉ "EXDATE".toList ∧ '=' ∉ "EXDATE".toList := by decide
    have hk : LineKind.ofName? (trim "EXDATE".toList) = some .exceptDates := rfl
    exact .split hn hn hk hk rfl _ _ _
  have hname : LinesEdit
      ["EXDATE".toList ++ ':' :: "2024-01-01".toList, "EXDATE:2024-01-02".toList,
        "RRULE:FREQ=DAILY".toList]
      ["exdate".toList ++ ':' :: "2024-01-01".toList, "EXDATE:2024-01-02".toList,
        "RRULE:FREQ=DAILY".toList] := by
    apply LinesEdit.nameLetters
    · decide
    · rfl
  have hreturn : LinesEdit
      ["exdate:2024-01-01".toList, "EXDATE:2024-01-02".toList, "RRULE:FREQ=DAILY".toList]
      ["exdate:2024-01-01\r".toList, "EXDATE:2024-01-02".toList, "RRULE:FREQ=DAILY".toList] :=
    .pad (a := []) (b := ['\r']) (by decide) (by decide) _ _
  refine ⟨hparse, parse_rearranged _ _ twoDaysOff ?_ hparse⟩
  exact .trans _ _ _ (.rel _ _ hreorder) <| .trans _ _ _ (.rel _ _ hsplit) <| .trans _ _ _
    (.rel _ _ hname) <| .trans _ _ _ (.rel _ _ hreturn) <|
      .rel _ _ (.blank (b := []) (by decide) _)

end RuleSet

end Recurrence
