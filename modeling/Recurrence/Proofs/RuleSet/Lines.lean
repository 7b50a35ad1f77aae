import Recurrence.Proofs.Rule.Collection
import Recurrence.Proofs.Rule.RoundTrip
import Recurrence.RuleSet.Parser

/-!
# What the lines of a rule set tell

The lines are added to a draft one after another, and a draft holds the values of the lines of each
kind in their order (`Draft.addAll_eq_ok_iff`). So a rule set is read from the lines that tell it,
and from no others (`RuleSet.parse_eq_ok_iff`), and whatever is read is `WellFormed`.
-/

namespace Recurrence

set_option autoImplicit false

open Calendar Text

namespace RuleSet

/-- The values of the lines of a kind. -/
def values (kind : LineKind) (lines : List Line) : List (List Char) :=
  (lines.filter fun line => line.kind = kind).map Line.value

theorem values_cons (kind : LineKind) (line : Line) (lines : List Line) :
    values kind (line :: lines) =
      if line.kind = kind then line.value :: values kind lines else values kind lines := by
  unfold values
  rw [List.filter_cons]
  by_cases h : line.kind = kind <;> simp [h]

theorem readDate_eq_ok_iff {cs : List Char} {t : Timestamp} :
    readDate cs = .ok t ↔ Timestamp.parse cs = .ok t := mapError_eq_ok_iff

theorem readDates_eq_ok_iff {kind : LineKind} {cs : List Char} {ts : List Timestamp} :
    readDates kind cs = .ok ts ↔ (pieces ',' cs).mapM readDate = .ok ts := mapError_eq_ok_iff

namespace Draft

/-- The lines that lead from one draft to the other. -/
structure Grows (lines : List Line) (draft draft' : Draft) : Prop where
  start : ∃ ts, (values .start lines).mapM Rule.readTimestamp = .ok ts ∧
    draft'.anchor.toList = draft.anchor.toList ++ ts
  rule : draft'.body.toList = draft.body.toList ++ values .rule lines
  dates : ∃ tss, (values .dates lines).mapM (readDates .dates) = .ok tss ∧
    draft'.dates = draft.dates ++ tss.flatten
  exceptDates : ∃ tss, (values .exceptDates lines).mapM (readDates .exceptDates) = .ok tss ∧
    draft'.exceptDates = draft.exceptDates ++ tss.flatten
  exceptRules : ∃ rs, (values .exceptRule lines).mapM Rule.parse = .ok rs ∧
    draft'.exceptRules = draft.exceptRules ++ rs

variable {draft draft' : Draft} {line : Line} {lines : List Line}

theorem toList_inj {α : Type} {o o' : Option α} (h : o.toList = o'.toList) : o = o' := by
  cases o <;> cases o' <;> simp_all

/-- There is one value at most. -/
theorem eq_none_of_toList_eq {α : Type} {o o' : Option α} {a : α} {l : List α}
    (h : o'.toList = o.toList ++ a :: l) : o = none := by
  cases o <;> cases o' <;> simp_all

theorem grows_nil_iff : Grows [] draft draft' ↔ draft' = draft := by
  constructor
  · rintro ⟨⟨ts, ht, hs⟩, hr, ⟨tss, htss, hd⟩, ⟨xss, hxss, hx⟩, ⟨rs, hrs, he⟩⟩
    obtain rfl := mapM_nil_eq_ok_iff.mp ht
    obtain rfl := mapM_nil_eq_ok_iff.mp htss
    obtain rfl := mapM_nil_eq_ok_iff.mp hxss
    obtain rfl := mapM_nil_eq_ok_iff.mp hrs
    rw [List.append_nil] at hs he
    rw [List.flatten_nil, List.append_nil] at hd hx
    have hs := toList_inj hs
    have hr := toList_inj (hr.trans (List.append_nil _))
    cases draft
    cases draft'
    simp_all
  · rintro rfl
    have hnil {α : Type} (l : List α) : l = l ++ [] := (List.append_nil l).symm
    exact ⟨⟨_, rfl, hnil _⟩, hnil _, ⟨_, rfl, hnil _⟩, ⟨_, rfl, hnil _⟩, ⟨_, rfl, hnil _⟩⟩

theorem add_start_eq_ok_iff {value : List Char} : draft.add ⟨.start, value⟩ = .ok draft' ↔
    draft.anchor = none ∧ ∃ t, Rule.readTimestamp value = .ok t ∧
      { draft with anchor := some t } = draft' := by
  unfold add
  dsimp only
  cases draft.anchor with
  | none =>
    rw [if_neg (by simp), bind_eq_ok_iff]
    simp [mapError_eq_ok_iff, pure, Except.pure]
  | some t => simp

theorem add_rule_eq_ok_iff {value : List Char} : draft.add ⟨.rule, value⟩ = .ok draft' ↔
    draft.body = none ∧ { draft with body := some value } = draft' := by
  unfold add
  dsimp only
  cases draft.body <;> simp

/-- The dates of the first line come first. -/
theorem exists_mapM_cons_flatten {read : List Char → Except RuleError (List Timestamp)}
    {v : List Char} {vs : List (List Char)} {earlier all : List Timestamp} :
    (∃ tss, (v :: vs).mapM read = .ok tss ∧ all = earlier ++ tss.flatten) ↔
      ∃ ts, read v = .ok ts ∧ ∃ tss, vs.mapM read = .ok tss ∧
        all = earlier ++ ts ++ tss.flatten := by
  simp only [mapM_cons_eq_ok_iff, List.append_assoc]
  constructor
  · rintro ⟨_, ⟨ts, hts, tss, htss, rfl⟩, he⟩
    exact ⟨ts, hts, tss, htss, he⟩
  · rintro ⟨ts, hts, tss, htss, he⟩
    exact ⟨ts :: tss, ⟨ts, hts, tss, htss, rfl⟩, he⟩

/-- A line is added first, then the others. -/
theorem grows_cons_iff :
    Grows (line :: lines) draft draft' ↔ ∃ next, draft.add line = .ok next ∧
      Grows lines next draft' := by
  obtain ⟨kind, value⟩ := line
  -- a line adds to one field, and the values of the other kinds are those of the rest
  cases kind with
  | start =>
    constructor
    · rintro ⟨⟨_, ht, hs⟩, hr, hd, hx, he⟩
      obtain ⟨t, hread, ts, hts, rfl⟩ := mapM_cons_eq_ok_iff.mp ht
      have hnone := eq_none_of_toList_eq hs
      rw [hnone] at hs
      exact ⟨{ draft with anchor := some t }, add_start_eq_ok_iff.mpr ⟨hnone, t, hread, rfl⟩,
        ⟨ts, hts, hs⟩, hr, hd, hx, he⟩
    · rintro ⟨next, hn, ⟨ts, ht, hs⟩, hr, hd, hx, he⟩
      obtain ⟨hnone, t, hread, rfl⟩ := add_start_eq_ok_iff.mp hn
      refine ⟨⟨t :: ts, mapM_cons_eq_ok_iff.mpr ⟨t, hread, ts, ht, rfl⟩, ?_⟩, hr, hd, hx, he⟩
      rw [hnone]
      exact hs
  | rule =>
    constructor
    · rintro ⟨hs, hr, hd, hx, he⟩
      have hnone := eq_none_of_toList_eq (l := values .rule lines) hr
      rw [hnone] at hr
      exact ⟨{ draft with body := some value }, add_rule_eq_ok_iff.mpr ⟨hnone, rfl⟩, hs, hr, hd,
        hx, he⟩
    · rintro ⟨next, hn, hs, hr, hd, hx, he⟩
      obtain ⟨hnone, rfl⟩ := add_rule_eq_ok_iff.mp hn
      refine ⟨hs, ?_, hd, hx, he⟩
      rw [hnone]
      exact hr
  | dates =>
    constructor
    · rintro ⟨hs, hr, hd, hx, he⟩
      obtain ⟨ts, hts, hd⟩ := exists_mapM_cons_flatten.mp hd
      exact ⟨{ draft with dates := draft.dates ++ ts }, bind_eq_ok_iff.mpr ⟨ts, hts, rfl⟩, hs, hr,
        hd, hx, he⟩
    · rintro ⟨next, hn, hs, hr, hd, hx, he⟩
      obtain ⟨ts, hts, ⟨⟩⟩ := bind_eq_ok_iff.mp hn
      exact ⟨hs, hr, exists_mapM_cons_flatten.mpr ⟨ts, hts, hd⟩, hx, he⟩
  | exceptDates =>
    constructor
    · rintro ⟨hs, hr, hd, hx, he⟩
      obtain ⟨ts, hts, hx⟩ := exists_mapM_cons_flatten.mp hx
      exact ⟨{ draft with exceptDates := draft.exceptDates ++ ts },
        bind_eq_ok_iff.mpr ⟨ts, hts, rfl⟩, hs, hr, hd, hx, he⟩
    · rintro ⟨next, hn, hs, hr, hd, hx, he⟩
      obtain ⟨ts, hts, ⟨⟩⟩ := bind_eq_ok_iff.mp hn
      exact ⟨hs, hr, hd, exists_mapM_cons_flatten.mpr ⟨ts, hts, hx⟩, he⟩
  | exceptRule =>
    constructor
    · rintro ⟨hs, hr, hd, hx, ⟨_, ht, he⟩⟩
      obtain ⟨r, hread, rs, hrs, rfl⟩ := mapM_cons_eq_ok_iff.mp ht
      exact ⟨{ draft with exceptRules := draft.exceptRules ++ [r] },
        bind_eq_ok_iff.mpr ⟨r, hread, rfl⟩, hs, hr, hd, hx, ⟨rs, hrs, by simp [he]⟩⟩
    · rintro ⟨next, hn, hs, hr, hd, hx, ⟨rs, ht, he⟩⟩
      obtain ⟨r, hread, ⟨⟩⟩ := bind_eq_ok_iff.mp hn
      exact ⟨hs, hr, hd, hx,
        ⟨r :: rs, mapM_cons_eq_ok_iff.mpr ⟨r, hread, rs, ht, rfl⟩, by simp [he]⟩⟩

theorem addAll_eq_ok_iff {texts : List (List Char)} : draft.addAll texts = .ok draft' ↔
    ∃ lines, texts.mapM Line.read = .ok lines ∧ Grows lines draft draft' := by
  induction texts generalizing draft with
  | nil =>
    simp only [mapM_nil_eq_ok_iff, exists_eq_left, grows_nil_iff, addAll, Except.ok.injEq]
    exact eq_comm
  | cons cs rest ih =>
    simp only [addAll, bind_eq_ok_iff, mapM_cons_eq_ok_iff, ih]
    constructor
    · rintro ⟨line, hline, next, hn, lines, hlines, hg⟩
      exact ⟨line :: lines, ⟨line, hline, lines, hlines, rfl⟩, grows_cons_iff.mpr ⟨next, hn, hg⟩⟩
    · rintro ⟨_, ⟨line, hline, lines, hlines, rfl⟩, hg⟩
      obtain ⟨next, hn, hg⟩ := grows_cons_iff.mp hg
      exact ⟨line, hline, next, hn, lines, hlines, hg⟩

end Draft

/-- The lines say what the set holds. -/
structure Tells (lines : List Line) (s : RuleSet) : Prop where
  start : (values .start lines).mapM Rule.readTimestamp = .ok s.rule.anchor.toList
  rule : ∃ body, values .rule lines = [body] ∧
    Rule.parse body = .ok { s.rule with anchor := none }
  dates : ∃ tss, (values .dates lines).mapM (readDates .dates) = .ok tss ∧
    s.dates = .ofList tss.flatten
  exceptDates : ∃ tss, (values .exceptDates lines).mapM (readDates .exceptDates) = .ok tss ∧
    s.exceptDates = .ofList tss.flatten
  exceptRules : ∃ rs, (values .exceptRule lines).mapM Rule.parse = .ok rs ∧
    s.exceptRules = rs.map fun r => { r with anchor := s.rule.anchor }

variable {s : RuleSet} {cs : List Char} {lines : List Line}

theorem finish_eq_ok_iff {draft : Draft} : draft.finish = .ok s ↔
    ∃ body rule, draft.body = some body ∧ Rule.parse body = .ok rule ∧
      s = ⟨{ rule with anchor := draft.anchor }, .ofList draft.dates, .ofList draft.exceptDates,
        draft.exceptRules.map fun r => { r with anchor := draft.anchor }⟩ := by
  unfold Draft.finish
  cases draft.body with
  | none => simp
  | some body => simp [bind_eq_ok_iff, pure, Except.pure, eq_comm (a := s)]

theorem anchor_none_of_parse {body : List Char} {rule : Rule} (h : Rule.parse body = .ok rule) :
    { rule with anchor := none } = rule := by
  have ha := (Rule.plain_of_parse h).1.anchor_eq
  cases rule
  cases ha
  rfl

theorem parse_eq_ok_iff : parse cs = .ok s ↔
    ∃ lines, (nonblank (splitOn '\n' cs)).mapM Line.read = .ok lines ∧ Tells lines s := by
  change (Draft.addAll {} (nonblank (splitOn '\n' cs)) >>= fun draft => draft.finish) = .ok s ↔ _
  simp only [bind_eq_ok_iff, Draft.addAll_eq_ok_iff, finish_eq_ok_iff]
  constructor
  · rintro ⟨draft, ⟨lines, hread, hg⟩, body, rule, hbody, hrule, rfl⟩
    obtain ⟨⟨ts, hts, ha⟩, hb, ⟨tss, htss, hd⟩, ⟨xss, hxss, hx⟩, ⟨rs, hrs, he⟩⟩ := hg
    rw [hbody] at hb
    refine ⟨lines, hread, ?_, ⟨body, hb.symm, ?_⟩, ⟨tss, htss, ?_⟩, ⟨xss, hxss, ?_⟩, ⟨rs, hrs, ?_⟩⟩
    · rw [hts]
      exact congrArg Except.ok ha.symm
    · rw [hrule]
      exact congrArg Except.ok (anchor_none_of_parse hrule).symm
    · rw [hd]
      rfl
    · rw [hx]
      rfl
    · rw [he]
      rfl
  · rintro ⟨lines, hread, hs, ⟨body, hvalues, hrule⟩, ⟨tss, htss, hd⟩, ⟨xss, hxss, hx⟩,
      ⟨rs, hrs, he⟩⟩
    let draft : Draft := ⟨s.rule.anchor, some body, tss.flatten, xss.flatten, rs⟩
    refine ⟨draft, ⟨lines, hread, ⟨_, hs, rfl⟩, hvalues.symm, ⟨tss, htss, rfl⟩, ⟨xss, hxss, rfl⟩,
      ⟨rs, hrs, rfl⟩⟩, body, _, rfl, hrule, ?_⟩
    cases s
    dsimp only at hd hx he
    subst hd hx he
    rfl

/-- Whether the rules of the set make sense, start together and tell times that a text can tell. -/
structure WellFormed (s : RuleSet) : Prop where
  valid : ∀ r ∈ s.rule :: s.exceptRules, r.Valid
  ordinal_mem : ∀ r ∈ s.rule :: s.exceptRules, ∀ day ∈ r.byDay.toList, ∀ n ∈ day.ordinal,
    n ≠ 0 ∧ -53 ≤ n ∧ n ≤ 53
  last_plain : ∀ r ∈ s.rule :: s.exceptRules, ∀ t ∈ r.last, t.Plain
  anchor_eq : ∀ r ∈ s.exceptRules, r.anchor = s.rule.anchor
  anchor_plain : ∀ t ∈ s.rule.anchor, t.Plain
  dates_plain : ∀ t ∈ s.dates, t.Plain
  exceptDates_plain : ∀ t ∈ s.exceptDates, t.Plain

theorem valid_with_anchor {r : Rule} (h : r.Valid) (a : Option Timestamp) :
    { r with anchor := a }.Valid := by
  cases h
  constructor <;> assumption

/-- The rules of a set are read without their anchor. -/
theorem Tells.exists_parse (h : Tells lines s) : ∀ r ∈ s.rule :: s.exceptRules,
    ∃ body r', Rule.parse body = .ok r' ∧ r = { r' with anchor := s.rule.anchor } := by
  intro r hr
  rcases List.mem_cons.mp hr with rfl | hr
  · obtain ⟨body, -, hb⟩ := h.rule
    exact ⟨body, _, hb, rfl⟩
  · obtain ⟨rs, hrs, he⟩ := h.exceptRules
    rw [he] at hr
    obtain ⟨r', hm, rfl⟩ := List.mem_map.mp hr
    obtain ⟨body, -, hb⟩ := (mem_of_mapM hrs).mp hm
    exact ⟨body, r', hb, rfl⟩

section Dates

variable {kind : LineKind} {texts : List (List Char)} {tss : List (List Timestamp)} {t : Timestamp}

theorem exists_readDates_iff : (∃ tss, texts.mapM (readDates kind) = .ok tss) ↔
    ∀ p ∈ texts.flatMap (pieces ','), ∃ t, readDate p = .ok t := by
  simp only [exists_mapM_eq_ok_iff, readDates_eq_ok_iff, List.mem_flatMap]
  constructor
  · rintro h p ⟨cs, hcs, hp⟩
    exact h cs hcs p hp
  · intro h cs hcs p hp
    exact h p ⟨cs, hcs, hp⟩

theorem mem_flatten_readDates (h : texts.mapM (readDates kind) = .ok tss) :
    t ∈ tss.flatten ↔ ∃ p ∈ texts.flatMap (pieces ','), readDate p = .ok t := by
  simp only [List.mem_flatten, mem_of_mapM h, List.mem_flatMap]
  constructor
  · rintro ⟨ts, ⟨cs, hcs, hread⟩, ht⟩
    obtain ⟨p, hp, hpt⟩ := (mem_of_mapM (readDates_eq_ok_iff.mp hread)).mp ht
    exact ⟨p, ⟨cs, hcs, hp⟩, hpt⟩
  · rintro ⟨p, ⟨cs, hcs, hp⟩, hpt⟩
    obtain ⟨ts, hts⟩ := exists_mapM_eq_ok_iff.mp ⟨tss, h⟩ cs hcs
    exact ⟨ts, ⟨cs, hcs, hts⟩, (mem_of_mapM (readDates_eq_ok_iff.mp hts)).mpr ⟨p, hp, hpt⟩⟩

theorem plain_of_mem_ofList (h : texts.mapM (readDates kind) = .ok tss)
    (ht : t ∈ OrderedSet.ofList tss.flatten) : t.Plain := by
  obtain ⟨p, -, hp⟩ := (mem_flatten_readDates h).mp (OrderedSet.mem_ofList.mp ht)
  exact Timestamp.plain_of_parse (readDate_eq_ok_iff.mp hp)

end Dates

theorem Tells.wellFormed (h : Tells lines s) : s.WellFormed := by
  constructor
  · intro r hr
    obtain ⟨body, r', hb, rfl⟩ := h.exists_parse r hr
    exact valid_with_anchor (Rule.plain_of_parse hb).1.toValid _
  · intro r hr
    obtain ⟨body, r', hb, rfl⟩ := h.exists_parse r hr
    exact (Rule.plain_of_parse hb).1.ordinal_mem
  · intro r hr
    obtain ⟨body, r', hb, rfl⟩ := h.exists_parse r hr
    exact (Rule.plain_of_parse hb).1.last_plain
  · intro r hr
    obtain ⟨body, r', hb, rfl⟩ := h.exists_parse r (List.mem_cons_of_mem _ hr)
    rfl
  · intro t ht
    obtain ⟨cs, -, hread⟩ := (mem_of_mapM h.start).mp (Option.mem_toList.mpr ht)
    exact Rule.plain_of_readTimestamp hread
  · obtain ⟨tss, htss, he⟩ := h.dates
    intro t ht
    exact plain_of_mem_ofList htss (he ▸ ht)
  · obtain ⟨tss, htss, he⟩ := h.exceptDates
    intro t ht
    exact plain_of_mem_ofList htss (he ▸ ht)

/-- Whatever is read as a rule set makes sense, and is written with one rule and at most one start. -/
theorem wellFormed_of_parse (text : String) (s : RuleSet) (h : parse text.toList = .ok s) :
    s.WellFormed ∧ ∃ lines, (nonblank (splitOn '\n' text.toList)).mapM Line.read = .ok lines ∧
      (lines.countP fun line => line.kind = .rule) = 1 ∧
        (lines.countP fun line => line.kind = .start) ≤ 1 := by
  have hcount (kind : LineKind) (lines : List Line) :
      (lines.countP fun line => line.kind = kind) = (values kind lines).length := by
    rw [values, List.length_map, List.countP_eq_length_filter]
  obtain ⟨lines, hread, ht⟩ := parse_eq_ok_iff.mp h
  refine ⟨ht.wellFormed, lines, hread, ?_, ?_⟩
  · obtain ⟨body, hvalues, -⟩ := ht.rule
    rw [hcount, hvalues]
    rfl
  · rw [hcount, ← length_of_mapM ht.start]
    cases s.rule.anchor <;> simp

/-- Every day from the first of January 2023 on that is not on a weekend. -/
def workdays : RuleSet where
  rule := { frequency := .daily, anchor := some (.startOfDay ⟨yearStart 2023, by decide, by decide⟩) }
  exceptRules := [{
    frequency := .weekly
    byDay := .ofList [⟨none, .saturday⟩, ⟨none, .sunday⟩]
    anchor := some (.startOfDay ⟨yearStart 2023, by decide, by decide⟩) }]

theorem wellFormed_of_parse_workdays :
    parse "EXRULE:FREQ=WEEKLY;BYDAY=SA,SU\nFREQ=DAILY\ndtstart:2023-01-01".toList =
      .ok workdays ∧ workdays.WellFormed := by
  have h : parse "EXRULE:FREQ=WEEKLY;BYDAY=SA,SU\nFREQ=DAILY\ndtstart:2023-01-01".toList =
      .ok workdays := rfl
  exact ⟨h, (wellFormed_of_parse _ _ h).1⟩

end RuleSet

end Recurrence
