import Mathlib.Data.List.Sort
import Recurrence.Proofs.Expansion.Narrowing
import Recurrence.Proofs.Expansion.RuleSet

/-!
# Expansions in smaller windows

What a rule set with an anchor lists in a window, it lists in a larger one too, and adjacent windows
share out the occurrences between them.
-/

namespace Recurrence

set_option autoImplicit false

open Calendar

theorem Window.contains_of_narrower {v w : Window} {t : Timestamp} (ha : w.after ≤ v.after)
    (hb : v.before ≤ w.before) (h : v.Contains t) : w.Contains t :=
  ⟨Timestamp.le_trans ha h.1, Timestamp.lt_of_lt_of_le h.2 hb⟩

namespace Rule

variable {r : Rule} {v w : Window} {maxEmptyPeriods : Nat} {found found' : List Occurrence}
variable {t : Timestamp}

theorem anchor_eq (hr : r.anchor.isSome = true) (w v : Window) :
    r.anchor.getD v.after = r.anchor.getD w.after := by
  obtain ⟨anchor, hr⟩ := Option.isSome_iff_exists.mp hr
  rw [hr, Option.getD_some, Option.getD_some]

section Narrower

variable (hv : r.Valid) (hr : r.anchor.isSome = true) (ha : w.after ≤ v.after)
variable (hb : v.before ≤ w.before) (h : r.expand w maxEmptyPeriods none = .ok found)
include hv hr ha hb h

/-- A rule that does not fail in a window does not fail in a smaller one. -/
theorem exists_expand_of_narrower : ∃ found', r.expand v maxEmptyPeriods none = .ok found' := by
  have hanchor := anchor_eq hr w v
  cases hp : Plan.of? r (r.anchor.getD w.after) with
  | none => exact ⟨[], expand_of_none (hanchor ▸ hp)⟩
  | some p =>
    have hp' : Plan.of? r (r.anchor.getD v.after) = some p := hanchor ▸ hp
    have hlaw := Plan.lawful_of_valid hv hp
    have hn : (r.request p w maxEmptyPeriods).Narrows (r.request p v maxEmptyPeriods) :=
      ⟨rfl, hanchor, ha, hb, rfl, rfl⟩
    obtain ⟨found', hret⟩ := Request.returns_of_follows hlaw hn ((expand_eq_ok_iff hv hp).mp h)
      (Request.follows_initial hlaw hn)
    exact ⟨found'.toList, (expand_eq_ok_iff hv hp').mpr hret⟩

theorem exists_mem_expand_narrower_iff (h' : r.expand v maxEmptyPeriods none = .ok found') :
    (∃ o ∈ found', o.time = t) ↔ (∃ o ∈ found, o.time = t) ∧ v.Contains t := by
  have hanchor := anchor_eq hr w v
  rw [← List.mem_map, ← List.mem_map]
  cases hp : Plan.of? r (r.anchor.getD w.after) with
  | none =>
    rw [expand_of_none hp] at h
    rw [expand_of_none (hanchor ▸ hp)] at h'
    cases h
    cases h'
    constructor
    · intro ht
      cases ht
    · intro ⟨ht, _⟩
      cases ht
  | some p =>
    have hp' : Plan.of? r (r.anchor.getD v.after) = some p := hanchor ▸ hp
    rw [map_time_expand hv hp h, map_time_expand hv hp' h', hanchor, List.mem_filter,
      List.mem_filter, decide_eq_true_eq, decide_eq_true_eq]
    constructor
    · intro ⟨hm, hc⟩
      exact ⟨⟨hm, Window.contains_of_narrower ha hb hc⟩, hc⟩
    · intro ⟨⟨hm, _⟩, hc⟩
      exact ⟨hm, hc⟩

end Narrower

theorem position_of_mem_expand {p : Plan} {o : Occurrence} {n : Nat} (hv : r.Valid)
    (hp : Plan.of? r (r.anchor.getD w.after) = some p)
    (h : r.expand w maxEmptyPeriods none = .ok found) (ho : o ∈ found) (hn : o.position = some n) :
    ∃ k, (p.sequence (r.anchor.getD w.after) r.limit?)[k]? = some o.time ∧
      n = min (k + 1) counterMax := by
  rw [expand_eq hv hp h, Request.marked, List.mem_map] at ho
  obtain ⟨⟨t, k⟩, he, rfl⟩ := ho
  have hmem : (t, k) ∈ (p.sequence (r.anchor.getD w.after) r.limit?).zipIdx 1 :=
    List.mem_of_mem_filter he
  rw [List.mk_mem_zipIdx_iff_le_and_getElem?_sub] at hmem
  refine ⟨k - 1, hmem.2, ?_⟩
  rw [Nat.sub_add_cancel hmem.1]
  dsimp only [Request.mark] at hn
  split at hn
  · cases hn
    rfl
  · cases hn

theorem position_eq_of_time_eq (hv : r.Valid) (hr : r.anchor.isSome = true)
    (h : r.expand w maxEmptyPeriods none = .ok found)
    (h' : r.expand v maxEmptyPeriods none = .ok found') {o o' : Occurrence} (ho : o ∈ found)
    (ho' : o' ∈ found') (ht : o.time = o'.time) {m n : Nat} (hm : o.position = some m)
    (hn : o'.position = some n) : m = n := by
  cases hp : Plan.of? r (r.anchor.getD w.after) with
  | none =>
    rw [expand_of_none hp] at h
    cases h
    cases ho
  | some p =>
    have hanchor := anchor_eq hr w v
    have hp' : Plan.of? r (r.anchor.getD v.after) = some p := hanchor ▸ hp
    obtain ⟨k, hk, rfl⟩ := position_of_mem_expand hv hp h ho hm
    obtain ⟨k', hk', rfl⟩ := position_of_mem_expand hv hp' h' ho' hn
    have hnodup := ((Plan.lawful_of_valid hv hp).sequence_ascending
      (r.anchor.getD w.after) r.limit?).nodup
    have hlt := (List.getElem?_eq_some_iff.mp hk).1
    rw [hanchor, ← ht, ← hk] at hk'
    rw [(List.getElem?_inj hlt hnodup).mp hk'.symm]

end Rule

def Expansion.times (e : Expansion) : List Timestamp := e.occurrences.map Occurrence.time

namespace RuleSet

variable {s : RuleSet} {v w : Window} {maxEmptyPeriods : Nat} {e e' : Expansion} {t : Timestamp}

theorem times_ascending (h : s.expand w ⟨maxEmptyPeriods, none⟩ = .ok e) :
    e.times.Pairwise (· < ·) :=
  List.pairwise_map.mpr (expand_times_ascending h)

def Anchored (s : RuleSet) : Prop := ∀ r ∈ s.rule :: s.exceptRules, r.Valid ∧ r.anchor.isSome = true

theorem contains_of_mem_times (hs : s.Anchored) (h : s.expand w ⟨maxEmptyPeriods, none⟩ = .ok e)
    (ht : t ∈ e.times) : w.Contains t := by
  obtain ⟨⟨found, hf⟩, -⟩ := exists_expand_iff.mp ⟨e, h⟩
  obtain ⟨⟨o, ho, rfl⟩ | hd, -⟩ := (exists_mem_expand_iff h hf).mp (List.mem_map.mp ht)
  · exact Rule.contains_of_mem_expand (hs _ List.mem_cons_self).1 hf ho
  · exact hd.2

section Narrower

variable (hs : s.Anchored) (ha : w.after ≤ v.after) (hb : v.before ≤ w.before)
variable (h : s.expand w ⟨maxEmptyPeriods, none⟩ = .ok e)
include hs ha hb h

theorem exists_expand_of_narrower : ∃ e', s.expand v ⟨maxEmptyPeriods, none⟩ = .ok e' := by
  obtain ⟨⟨found, hf⟩, hrules⟩ := exists_expand_iff.mp ⟨e, h⟩
  rw [exists_expand_iff]
  constructor
  · obtain ⟨hv, hr⟩ := hs _ List.mem_cons_self
    exact Rule.exists_expand_of_narrower hv hr ha hb hf
  · intro r hmem
    obtain ⟨hv, hr⟩ := hs r (List.mem_cons_of_mem _ hmem)
    obtain ⟨excepted, he⟩ := hrules r hmem
    exact Rule.exists_expand_of_narrower hv hr ha hb he

theorem excepts_narrower_iff (ht : v.Contains t) :
    s.Excepts v maxEmptyPeriods t ↔ s.Excepts w maxEmptyPeriods t := by
  obtain ⟨-, hrules⟩ := exists_expand_iff.mp ⟨e, h⟩
  have hlists : ∀ r ∈ s.exceptRules,
      (r.Lists v maxEmptyPeriods t ↔ r.Lists w maxEmptyPeriods t) := by
    intro r hmem
    obtain ⟨hv, hr⟩ := hs r (List.mem_cons_of_mem _ hmem)
    obtain ⟨found, hf⟩ := hrules r hmem
    obtain ⟨found', hf'⟩ := Rule.exists_expand_of_narrower hv hr ha hb hf
    have hiff := Rule.exists_mem_expand_narrower_iff (t := t) hv hr ha hb hf hf'
    rw [and_iff_left ht] at hiff
    simp only [Rule.Lists, hf, hf', Except.ok.injEq, exists_eq_left', hiff]
  unfold Excepts
  rw [exists_congr fun r => and_congr_right (hlists r)]

theorem times_narrower (h' : s.expand v ⟨maxEmptyPeriods, none⟩ = .ok e') :
    e'.times = e.times.filter v.Contains := by
  apply (times_ascending h').eq_of_mem_iff ((times_ascending h).filter _)
  intro t
  obtain ⟨⟨found, hf⟩, -⟩ := exists_expand_iff.mp ⟨e, h⟩
  obtain ⟨⟨found', hf'⟩, -⟩ := exists_expand_iff.mp ⟨e', h'⟩
  obtain ⟨hv, hr⟩ := hs _ List.mem_cons_self
  have hmem := Rule.exists_mem_expand_narrower_iff (t := t) hv hr ha hb hf hf'
  rw [List.mem_filter, decide_eq_true_eq]
  unfold Expansion.times
  rw [List.mem_map, List.mem_map, exists_mem_expand_iff h hf, exists_mem_expand_iff h' hf', hmem]
  constructor
  · intro h
    obtain ⟨hlisted, hx⟩ := h
    have ht : v.Contains t := by
      rcases hlisted with hl | hl <;> exact hl.2
    rw [excepts_narrower_iff hs ha hb h ht] at hx
    exact ⟨⟨hlisted.imp And.left fun hd => ⟨hd.1, Window.contains_of_narrower ha hb hd.2⟩, hx⟩, ht⟩
  · intro h
    obtain ⟨⟨hlisted, hx⟩, ht⟩ := h
    rw [← excepts_narrower_iff hs ha hb h ht] at hx
    exact ⟨hlisted.imp (fun hl => ⟨hl, ht⟩) fun hd => ⟨hd.1, ht⟩, hx⟩

omit ha hb in
theorem position_narrower (h' : s.expand v ⟨maxEmptyPeriods, none⟩ = .ok e') {o o' : Occurrence}
    (ho : o ∈ e.occurrences) (ho' : o' ∈ e'.occurrences) (ht : o.time = o'.time) {m n : Nat}
    (hm : o.position = some m) (hn : o'.position = some n) : m = n := by
  obtain ⟨⟨found, hf⟩, -⟩ := exists_expand_iff.mp ⟨e, h⟩
  obtain ⟨⟨found', hf'⟩, -⟩ := exists_expand_iff.mp ⟨e', h'⟩
  obtain ⟨hv, hr⟩ := hs _ List.mem_cons_self
  rcases of_mem_expand hv h hf ho with ⟨-, hnone⟩ | ⟨-, hof⟩
  · rw [hm] at hnone
    cases hnone
  rcases of_mem_expand hv h' hf' ho' with ⟨-, hnone⟩ | ⟨-, hof'⟩
  · rw [hn] at hnone
    cases hnone
  exact Rule.position_eq_of_time_eq hv hr hf hf' hof hof' ht hm hn

end Narrower

theorem filter_append_filter {v' : Window} (hs : s.Anchored)
    (h : s.expand w ⟨maxEmptyPeriods, none⟩ = .ok e) (ha : v.after = w.after)
    (hm : v'.after = v.before) (hb : v'.before = w.before) :
    e.times.filter v.Contains ++ e.times.filter v'.Contains = e.times := by
  have hsorted := times_ascending h
  refine List.Pairwise.eq_of_mem_iff (List.pairwise_append.mpr
    ⟨hsorted.filter _, hsorted.filter _, ?_⟩) hsorted ?_
  · intro t ht t' ht'
    rw [List.mem_filter, decide_eq_true_eq] at ht ht'
    have hle := ht'.2.1
    rw [hm] at hle
    exact Timestamp.lt_of_lt_of_le ht.2.2 hle
  · intro t
    rw [List.mem_append, List.mem_filter, List.mem_filter, ← and_or_left, and_iff_left_iff_imp]
    intro ht
    obtain ⟨hafter, hbefore⟩ := contains_of_mem_times hs h ht
    rw [decide_eq_true_eq, decide_eq_true_eq, Window.Contains, Window.Contains, ha, hm, hb]
    by_cases hlt : t < v.before
    · exact Or.inl ⟨hafter, hlt⟩
    · exact Or.inr ⟨Timestamp.not_lt.mp hlt, hbefore⟩

/-- The expansion in a smaller window is the part in it of the larger one, and adjacent windows give
the whole. -/
theorem expand_eq_filter (s : RuleSet) (w : Window) (maxEmptyPeriods : Nat) (e : Expansion)
    (hs : s.Anchored) (h : s.expand w ⟨maxEmptyPeriods, none⟩ = .ok e) :
    (∀ v : Window, w.after ≤ v.after → v.before ≤ w.before →
      ∃ e', s.expand v ⟨maxEmptyPeriods, none⟩ = .ok e' ∧
        e'.times = e.times.filter v.Contains ∧
        ∀ o ∈ e.occurrences, ∀ o' ∈ e'.occurrences, o.time = o'.time →
          ∀ m n, o.position = some m → o'.position = some n → m = n) ∧
    ∀ v v' : Window, v.after = w.after → v'.after = v.before → v'.before = w.before →
      ∃ e₁ e₂, s.expand v ⟨maxEmptyPeriods, none⟩ = .ok e₁ ∧
        s.expand v' ⟨maxEmptyPeriods, none⟩ = .ok e₂ ∧ e₁.times ++ e₂.times = e.times := by
  constructor
  · intro v ha hb
    obtain ⟨e', h'⟩ := exists_expand_of_narrower hs ha hb h
    refine ⟨e', h', times_narrower hs ha hb h h', ?_⟩
    intro o ho o' ho' ht m n hm hn
    exact position_narrower hs h h' ho ho' ht hm hn
  · intro v v' ha hm hb
    have hv : w.after ≤ v.after ∧ v.before ≤ w.before :=
      ⟨Nat.le_of_eq (congrArg Timestamp.rank ha.symm),
        Timestamp.le_of_lt (hm ▸ hb ▸ v'.after_lt_before)⟩
    have hv' : w.after ≤ v'.after ∧ v'.before ≤ w.before :=
      ⟨Timestamp.le_of_lt (ha ▸ hm ▸ v.after_lt_before), Nat.le_of_eq (congrArg Timestamp.rank hb)⟩
    obtain ⟨e₁, h₁⟩ := exists_expand_of_narrower hs hv.1 hv.2 h
    obtain ⟨e₂, h₂⟩ := exists_expand_of_narrower hs hv'.1 hv'.2 h
    refine ⟨e₁, e₂, h₁, h₂, ?_⟩
    rw [times_narrower hs hv.1 hv.2 h h₁, times_narrower hs hv'.1 hv'.2 h h₂,
      filter_append_filter hs h ha hm hb]

/-- The last Fridays from 2024 on, unless they are a 26th. -/
def anchoredFridays : RuleSet where
  rule := { lastFriday with anchor := some newYear }
  exceptRules :=
    [{ frequency := .monthly, byMonthDay := .singleton 26, anchor := some newYear }]

theorem expand_anchoredFridays : anchoredFridays.Anchored ∧
    ∃ e, anchoredFridays.expand earlyDays ⟨10, none⟩ = .ok e ∧
      (∀ v : Window, earlyDays.after ≤ v.after → v.before ≤ earlyDays.before →
        ∃ e', anchoredFridays.expand v ⟨10, none⟩ = .ok e' ∧
          e'.times = e.times.filter v.Contains ∧
          ∀ o ∈ e.occurrences, ∀ o' ∈ e'.occurrences, o.time = o'.time →
            ∀ m n, o.position = some m → o'.position = some n → m = n) ∧
      ∀ v v' : Window, v.after = earlyDays.after → v'.after = v.before →
        v'.before = earlyDays.before →
        ∃ e₁ e₂, anchoredFridays.expand v ⟨10, none⟩ = .ok e₁ ∧
          anchoredFridays.expand v' ⟨10, none⟩ = .ok e₂ ∧ e₁.times ++ e₂.times = e.times := by
  have hs : anchoredFridays.Anchored := by
    unfold Anchored
    decide
  have hr : ∀ r ∈ anchoredFridays.exceptRules, ∃ found, r.expand earlyDays 10 none = .ok found := by
    intro r hr
    obtain rfl := List.mem_singleton.mp hr
    exact ⟨_, rfl⟩
  obtain ⟨e, he⟩ := exists_expand_iff.mpr ⟨⟨_, rfl⟩, hr⟩
  exact ⟨hs, e, he, expand_eq_filter anchoredFridays earlyDays 10 e hs he⟩

end RuleSet

end Recurrence
