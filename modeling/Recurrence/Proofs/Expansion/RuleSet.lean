import Recurrence.Proofs.Except
import Recurrence.Proofs.Expansion.Order
import Recurrence.Proofs.Expansion.Sequence

/-!
# Rule sets

The expansion of a rule set is that of its rule with the dates of the set added and the excepted
times taken away. The dates and the exceptions leave the positions of the other occurrences alone.
-/

namespace Recurrence

set_option autoImplicit false

open Calendar

namespace Rule

variable {r : Rule} {w : Window} {maxEmptyPeriods : Nat} {found : List Occurrence} {p : Plan}

/-- Whether the rule occurs at `t` in the window. -/
def Lists (r : Rule) (w : Window) (maxEmptyPeriods : Nat) (t : Timestamp) : Prop :=
  ∃ found, r.expand w maxEmptyPeriods none = .ok found ∧ ∃ o ∈ found, o.time = t

theorem map_time_expand (hv : r.Valid) (hp : Plan.of? r (r.anchor.getD w.after) = some p)
    (h : r.expand w maxEmptyPeriods none = .ok found) : found.map Occurrence.time =
      (p.sequence (r.anchor.getD w.after) r.limit?).filter w.Contains := by
  rw [expand_eq hv hp h, Request.marked, List.map_map, ← Window.map_fst_numbered]
  rfl

theorem expand_of_none {max : Option Nat} (hp : Plan.of? r (r.anchor.getD w.after) = none) :
    r.expand w maxEmptyPeriods max = .ok [] := by
  rw [expand, expandBy, hp]

theorem contains_of_mem_expand (hv : r.Valid) (h : r.expand w maxEmptyPeriods none = .ok found)
    {o : Occurrence} (ho : o ∈ found) : w.Contains o.time := by
  have hmem : o.time ∈ found.map Occurrence.time := List.mem_map_of_mem ho
  cases hp : Plan.of? r (r.anchor.getD w.after) with
  | none =>
    rw [expand_of_none hp] at h
    cases h
    cases ho
  | some p =>
    rw [map_time_expand hv hp h] at hmem
    exact of_decide_eq_true (List.mem_filter.mp hmem).2

end Rule

namespace RuleSet

variable {s : RuleSet} {w : Window} {maxEmptyPeriods : Nat} {found : List Occurrence}
variable {e : Expansion} {o : Occurrence} {t : Timestamp} {x : Times}

/-- Whether an excepted date or rule of the set takes `t` away. -/
def Excepts (s : RuleSet) (w : Window) (maxEmptyPeriods : Nat) (t : Timestamp) : Prop :=
  t ∈ s.exceptDates ∨ ∃ r ∈ s.exceptRules, r.Lists w maxEmptyPeriods t

theorem exceptions_eq_ok_iff : s.exceptions w maxEmptyPeriods = .ok x ↔
    ∃ excepted, s.exceptRules.mapM (fun r => r.expand w maxEmptyPeriods none) = .ok excepted ∧
      .ofList (s.exceptDates.toList ++ excepted.flatten.map Occurrence.time) _ = x := by
  unfold exceptions
  simp only [bind_eq_ok_iff, pure, Except.pure, Except.ok.injEq]

theorem exists_exceptions_iff : (∃ x, s.exceptions w maxEmptyPeriods = .ok x) ↔
    ∀ r ∈ s.exceptRules, ∃ found, r.expand w maxEmptyPeriods none = .ok found := by
  simp only [exceptions_eq_ok_iff, ← exists_mapM_eq_ok_iff]
  constructor
  · intro h
    obtain ⟨_, excepted, h, -⟩ := h
    exact ⟨excepted, h⟩
  · intro h
    obtain ⟨excepted, h⟩ := h
    exact ⟨_, excepted, h, rfl⟩

theorem contains_exceptions_iff (h : s.exceptions w maxEmptyPeriods = .ok x) :
    x.contains t = true ↔ s.Excepts w maxEmptyPeriods t := by
  obtain ⟨excepted, hm, rfl⟩ := exceptions_eq_ok_iff.mp h
  have hrules : (∃ o ∈ excepted.flatten, o.time = t) ↔
      ∃ r ∈ s.exceptRules, r.Lists w maxEmptyPeriods t := by
    constructor
    · intro h
      obtain ⟨o, ho, rfl⟩ := h
      obtain ⟨found, hf, ho⟩ := List.mem_flatten.mp ho
      obtain ⟨r, hr, he⟩ := (mem_of_mapM hm).mp hf
      exact ⟨r, hr, found, he, o, ho, rfl⟩
    · intro h
      obtain ⟨r, hr, found, he, o, ho, rfl⟩ := h
      exact ⟨o, List.mem_flatten.mpr ⟨found, (mem_of_mapM hm).mpr ⟨r, hr, he⟩, ho⟩, rfl⟩
  rw [Std.TreeSet.contains_ofList, List.contains_iff_mem, List.mem_append, List.mem_map, hrules]
  rfl

/-- The dates of the set and what its rule has found, without the exceptions. -/
def kept (s : RuleSet) (w : Window) (x : Times) (found : List Occurrence) : List Occurrence :=
  (s.datesIn w ++ found).filter fun o => !x.contains o.time

theorem expand_limited_eq_ok_iff {max : Option Nat} :
    s.expand w ⟨maxEmptyPeriods, max⟩ = .ok e ↔
      ∃ x, s.exceptions w maxEmptyPeriods = .ok x ∧ ∃ found,
        s.rule.expand w maxEmptyPeriods (max.map fun max => max + x.size + 1) = .ok found ∧
          .cut max (inOrder (s.kept w x found)) = e := by
  unfold expand
  simp only [bind_eq_ok_iff, pure, Except.pure, Except.ok.injEq]
  rfl

theorem expand_eq_ok_iff : s.expand w ⟨maxEmptyPeriods, none⟩ = .ok e ↔
    ∃ x, s.exceptions w maxEmptyPeriods = .ok x ∧
      ∃ found, s.rule.expand w maxEmptyPeriods none = .ok found ∧
        ⟨inOrder ((s.datesIn w ++ found).filter fun o => !x.contains o.time), false⟩ = e :=
  expand_limited_eq_ok_iff

theorem exists_expand_iff : (∃ e, s.expand w ⟨maxEmptyPeriods, none⟩ = .ok e) ↔
    (∃ found, s.rule.expand w maxEmptyPeriods none = .ok found) ∧
      ∀ r ∈ s.exceptRules, ∃ found, r.expand w maxEmptyPeriods none = .ok found := by
  rw [← exists_exceptions_iff]
  simp only [expand_eq_ok_iff]
  constructor
  · intro h
    obtain ⟨_, x, hx, found, hf, -⟩ := h
    exact ⟨⟨found, hf⟩, x, hx⟩
  · intro h
    obtain ⟨⟨found, hf⟩, x, hx⟩ := h
    exact ⟨_, x, hx, found, hf, rfl⟩

/-- A rule set fails only as one of its rules does. -/
theorem exists_error_of_expand {max : Option Nat} {err : ExpansionError}
    (h : s.expand w ⟨maxEmptyPeriods, max⟩ = .error err) :
    ∃ r ∈ s.rule :: s.exceptRules, ∃ max, r.expand w maxEmptyPeriods max = .error err := by
  unfold expand at h
  rw [bind_eq_error_iff] at h
  rcases h with h | ⟨x, -, h⟩
  · unfold exceptions at h
    rw [bind_eq_error_iff] at h
    rcases h with h | ⟨found, -, h⟩
    · obtain ⟨r, hr, he⟩ := exists_error_of_mapM h
      exact ⟨r, List.mem_cons_of_mem _ hr, none, he⟩
    · cases h
  · dsimp only at h
    rw [bind_eq_error_iff] at h
    rcases h with h | ⟨found, -, h⟩
    · exact ⟨s.rule, List.mem_cons_self, _, h⟩
    · cases h

theorem mem_datesIn :
    o ∈ s.datesIn w ↔ o.time ∈ s.dates ∧ w.Contains o.time ∧ o.position = none := by
  unfold datesIn
  rw [List.mem_map]
  constructor
  · intro h
    obtain ⟨t, ht, rfl⟩ := h
    rw [List.mem_filter, decide_eq_true_eq] at ht
    exact ⟨ht.1, ht.2, rfl⟩
  · intro h
    obtain ⟨hd, hw, hn⟩ := h
    refine ⟨o.time, List.mem_filter.mpr ⟨hd, decide_eq_true hw⟩, ?_⟩
    rw [← hn]

theorem exists_mem_expand_iff (h : s.expand w ⟨maxEmptyPeriods, none⟩ = .ok e)
    (hf : s.rule.expand w maxEmptyPeriods none = .ok found) :
    (∃ o ∈ e.occurrences, o.time = t) ↔ ((∃ o ∈ found, o.time = t) ∨
      t ∈ s.dates ∧ w.Contains t) ∧ ¬ s.Excepts w maxEmptyPeriods t := by
  obtain ⟨x, hx, found', hf', rfl⟩ := expand_eq_ok_iff.mp h
  rw [hf] at hf'
  cases hf'
  dsimp only
  rw [exists_mem_inOrder, ← contains_exceptions_iff hx]
  simp only [List.mem_filter, List.mem_append, mem_datesIn, Bool.not_eq_true']
  constructor
  · intro h
    rcases h with ⟨o, ⟨hd | hr, hc⟩, rfl⟩
    · exact ⟨Or.inr ⟨hd.1, hd.2.1⟩, by simp [hc]⟩
    · exact ⟨Or.inl ⟨o, hr, rfl⟩, by simp [hc]⟩
  · intro h
    rcases h with ⟨⟨o, ho, rfl⟩ | ⟨hd, hw⟩, hc⟩
    · exact ⟨o, ⟨Or.inr ho, Bool.eq_false_iff.mpr hc⟩, rfl⟩
    · exact ⟨⟨t, none⟩, ⟨Or.inl ⟨hd, hw, rfl⟩, Bool.eq_false_iff.mpr hc⟩, rfl⟩

/-- A date of the set has no position, another occurrence keeps that of the rule. -/
theorem of_mem_expand (hv : s.rule.Valid) (h : s.expand w ⟨maxEmptyPeriods, none⟩ = .ok e)
    (hf : s.rule.expand w maxEmptyPeriods none = .ok found) (ho : o ∈ e.occurrences) :
    o.time ∈ s.dates ∧ o.position = none ∨ o.time ∉ s.dates ∧ o ∈ found := by
  obtain ⟨x, hx, found', hf', rfl⟩ := expand_eq_ok_iff.mp h
  rw [hf] at hf'
  cases hf'
  dsimp only at ho
  rw [mem_inOrder, List.filter_append, List.find?_append, Option.or_eq_some_iff] at ho
  rcases ho with ho | ⟨hnone, ho⟩
  · have hd := mem_datesIn.mp (List.mem_of_mem_filter (List.mem_of_find?_eq_some ho))
    exact Or.inl ⟨hd.1, hd.2.2⟩
  · have hmem := List.mem_filter.mp (List.mem_of_find?_eq_some ho)
    refine Or.inr ⟨?_, hmem.1⟩
    -- a date would stand before it in the list, and be kept instead
    intro hd
    have hw := Rule.contains_of_mem_expand hv hf hmem.1
    have hin : (⟨o.time, none⟩ : Occurrence) ∈ (s.datesIn w).filter fun o => !x.contains o.time :=
      List.mem_filter.mpr ⟨mem_datesIn.mpr ⟨hd, hw, rfl⟩, hmem.2⟩
    exact List.find?_eq_none.mp hnone _ hin (decide_eq_true rfl)

theorem expand_times_ascending (h : s.expand w ⟨maxEmptyPeriods, none⟩ = .ok e) :
    e.occurrences.Pairwise fun a b => a.time < b.time := by
  obtain ⟨x, -, found, -, rfl⟩ := expand_eq_ok_iff.mp h
  exact inOrder_ascending _

theorem not_limited (h : s.expand w ⟨maxEmptyPeriods, none⟩ = .ok e) : e.limited = false := by
  obtain ⟨x, -, found, -, rfl⟩ := expand_eq_ok_iff.mp h
  rfl

/-- An expansion is that of the rule with the dates, without the exceptions. -/
theorem expand_eq_union_sdiff (s : RuleSet) (w : Window) (maxEmptyPeriods : Nat)
    (hv : s.rule.Valid) :
    ((∃ e, s.expand w ⟨maxEmptyPeriods, none⟩ = .ok e) ↔
      (∃ found, s.rule.expand w maxEmptyPeriods none = .ok found) ∧
        ∀ r ∈ s.exceptRules, ∃ found, r.expand w maxEmptyPeriods none = .ok found) ∧
    ∀ e found, s.expand w ⟨maxEmptyPeriods, none⟩ = .ok e →
      s.rule.expand w maxEmptyPeriods none = .ok found →
      e.limited = false ∧
      e.occurrences.Pairwise (fun a b => a.time < b.time) ∧
      (∀ t, (∃ o ∈ e.occurrences, o.time = t) ↔ ((∃ o ∈ found, o.time = t) ∨
        t ∈ s.dates ∧ w.Contains t) ∧ ¬ s.Excepts w maxEmptyPeriods t) ∧
      ∀ o ∈ e.occurrences,
        o.time ∈ s.dates ∧ o.position = none ∨ o.time ∉ s.dates ∧ o ∈ found := by
  refine ⟨exists_expand_iff, ?_⟩
  intro e found h hf
  exact ⟨not_limited h, expand_times_ascending h, fun t => exists_mem_expand_iff h hf,
    fun o => of_mem_expand hv h hf⟩

/-- New Year and the last Fridays, unless they are a 26th. -/
def fewFridays : RuleSet where
  rule := lastFriday
  dates := .singleton newYear
  exceptRules := [{ frequency := .monthly, byMonthDay := .singleton 26 }]

theorem expand_fewFridays : fewFridays.rule.Valid ∧
    ∃ e found, fewFridays.expand earlyDays ⟨10, none⟩ = .ok e ∧
      fewFridays.rule.expand earlyDays 10 none = .ok found ∧
      e.limited = false ∧
      e.occurrences.Pairwise (fun a b => a.time < b.time) ∧
      (∀ t, (∃ o ∈ e.occurrences, o.time = t) ↔ ((∃ o ∈ found, o.time = t) ∨
        t ∈ fewFridays.dates ∧ earlyDays.Contains t) ∧ ¬ fewFridays.Excepts earlyDays 10 t) ∧
      ∀ o ∈ e.occurrences, o.time ∈ fewFridays.dates ∧ o.position = none ∨
        o.time ∉ fewFridays.dates ∧ o ∈ found := by
  have hv : fewFridays.rule.Valid := by decide
  obtain ⟨hiff, hall⟩ := expand_eq_union_sdiff fewFridays earlyDays 10 hv
  have hr : ∀ r ∈ fewFridays.exceptRules, ∃ found, r.expand earlyDays 10 none = .ok found := by
    intro r hr
    obtain rfl := List.mem_singleton.mp hr
    exact ⟨_, rfl⟩
  obtain ⟨e, he⟩ := hiff.mpr ⟨⟨_, rfl⟩, hr⟩
  exact ⟨hv, e, _, he, rfl, hall e _ he rfl⟩

end RuleSet

end Recurrence
