import Mathlib.Data.List.Nodup
import Recurrence.Proofs.Expansion.RuleSet

/-!
# Limited expansions

The walk of a rule may stop as soon as it has found one occurrence more than is wanted, besides all
that may be excepted. What it leaves out comes after everything that is kept (`take_kept`), so an
expansion with a limit is the beginning of the expansion without (`expand_limited`).
-/

namespace Recurrence

set_option autoImplicit false

open Calendar

section Ascending

variable {l l' : List Occurrence} {c : Timestamp}

theorem nodup_times (h : l.Pairwise fun a b => a.time < b.time) :
    (l.map Occurrence.time).Nodup := by
  rw [List.nodup_iff_pairwise_ne, List.pairwise_map]
  apply h.imp
  intro a b hab heq
  rw [heq] at hab
  exact Timestamp.lt_irrefl _ hab

theorem eq_of_ascending (h : l.Pairwise fun a b => a.time < b.time)
    (h' : l'.Pairwise fun a b => a.time < b.time) (hm : ∀ o, o ∈ l ↔ o ∈ l') : l = l' := by
  have hnodup := List.Nodup.of_map _ (nodup_times h)
  have hnodup' := List.Nodup.of_map _ (nodup_times h')
  have hperm : l.Perm l' := (List.perm_ext_iff_of_nodup hnodup hnodup').mpr hm
  apply hperm.eq_of_pairwise _ h h'
  intro a b _ _ hab hba
  exact absurd (Timestamp.lt_trans hab hba) (Timestamp.lt_irrefl _)

/-- What comes before a time stands at the beginning. -/
theorem filter_lt_prefix (h : l.Pairwise fun a b => a.time < b.time) (c : Timestamp) :
    l.filter (fun o => o.time < c) <+: l := by
  induction l with
  | nil => exact List.prefix_refl _
  | cons o l ih =>
    obtain ⟨ho, hl⟩ := List.pairwise_cons.mp h
    by_cases hc : o.time < c
    · rw [List.filter_cons_of_pos (by simpa using hc)]
      exact (List.prefix_cons_inj o).mpr (ih hl)
    · have hnil : (o :: l).filter (fun o => o.time < c) = [] := by
        rw [List.filter_eq_nil_iff]
        intro a ha hac
        rw [decide_eq_true_eq] at hac
        rcases List.mem_cons.mp ha with rfl | ha
        · exact hc hac
        · exact hc (Timestamp.lt_trans (ho a ha) hac)
      rw [hnil]
      exact List.nil_prefix

/-- Occurrences that come late leave what is kept before them as it is. -/
theorem filter_inOrder_append (h : ∀ o ∈ l', c ≤ o.time) :
    (inOrder (l ++ l')).filter (fun o => o.time < c) =
      (inOrder l).filter fun o => o.time < c := by
  apply eq_of_ascending ((inOrder_ascending _).filter _) ((inOrder_ascending _).filter _)
  intro o
  rw [List.mem_filter, List.mem_filter, decide_eq_true_eq, mem_inOrder, mem_inOrder]
  apply and_congr_left
  intro hc
  have hnone : l'.find? (fun a => a.time = o.time) = none := by
    rw [List.find?_eq_none]
    intro a ha heq
    have hle := h a ha
    rw [of_decide_eq_true heq] at hle
    exact Timestamp.not_lt.mpr hle hc
  rw [List.find?_append, hnone, Option.or_none]

/-- Of occurrences at different times, no more are excepted than there are exceptions. -/
theorem length_filter_contains_le (h : l.Pairwise fun a b => a.time < b.time)
    (x : RuleSet.Times) : (l.filter fun o => x.contains o.time).length ≤ x.size := by
  have hsub : (l.filter fun o => x.contains o.time).map Occurrence.time ⊆ x.toList := by
    intro t ht
    obtain ⟨o, ho, rfl⟩ := List.mem_map.mp ht
    exact Std.TreeSet.mem_toList.mpr (List.mem_filter.mp ho).2
  have hle := (nodup_times (h.filter _)).length_le_of_subset hsub
  rwa [List.length_map, Std.TreeSet.length_toList] at hle

end Ascending

namespace Rule

variable {r : Rule} {w : Window} {maxEmptyPeriods : Nat} {p : Plan}

/-- A limited expansion lists the beginning of the sequence of the rule inside the window. -/
theorem expand_eq_upTo {max : Option Nat} {found : List Occurrence} (hv : r.Valid)
    (hp : Plan.of? r (r.anchor.getD w.after) = some p) (hmax : ∀ n, max = some n → 0 < n)
    (h : r.expand w maxEmptyPeriods max = .ok found) :
    found = upTo max (Request.marked ((r.request p w maxEmptyPeriods).firstIndex = 0)
      (w.numbered 1 (p.sequence (r.anchor.getD w.after) r.limit?))) := by
  have hlaw := Plan.lawful_of_valid hv hp
  let q := r.request p w maxEmptyPeriods
  have hinit := Request.found_initial (q := q) hlaw rfl
  have hfound := Request.found_eq (q := q.capped max) hlaw ((expand_eq_iff hv hp).mp h)
  have hlimit : q.rule.limit? = r.limit? := congrArg limit? (rule_of_plan hp)
  change found = upTo max (Request.marked (q.firstIndex = 0)
    (q.window.numbered 1 (q.plan.sequence q.anchor r.limit?)))
  rw [← hlimit, ← hinit]
  cases max with
  | none => exact congrArg Array.toList hfound
  | some n =>
    exact (congrArg Array.toList hfound).trans
      (Request.found_capped (p := q.initial.progress) (hmax n rfl) _ false)

/-- All occurrences of a rule in a window, and what a limited expansion finds of them. -/
theorem exists_occurrences (hv : r.Valid) (w : Window) (maxEmptyPeriods : Nat) :
    ∃ all : List Occurrence, all.Pairwise (fun a b => a.time < b.time) ∧
      ∀ max found, (∀ n, max = some n → 0 < n) →
        r.expand w maxEmptyPeriods max = .ok found → found = upTo max all := by
  cases hp : Plan.of? r (r.anchor.getD w.after) with
  | none =>
    refine ⟨[], List.Pairwise.nil, ?_⟩
    intro max found _ h
    rw [expand_of_none hp] at h
    cases h
    exact (upTo_nil max).symm
  | some p =>
    refine ⟨_, ?_, fun max found hmax h => expand_eq_upTo hv hp hmax h⟩
    rw [← List.pairwise_map, Request.marked, List.map_map]
    change (List.map Prod.fst _).Pairwise _
    rw [Window.map_fst_numbered]
    exact ((Plan.lawful_of_valid hv hp).sequence_ascending _ _).filter _

/-- With a lower limit, a rule finds the first ones of what it finds with a higher one. -/
theorem expand_take {n : Nat} {max : Option Nat} {found : List Occurrence} (hv : r.Valid)
    (h : r.expand w maxEmptyPeriods max = .ok found) (hn : 0 < n)
    (hmax : ∀ m, max = some m → n ≤ m) :
    r.expand w maxEmptyPeriods (some n) = .ok (found.take n) := by
  obtain ⟨all, -, hall⟩ := exists_occurrences hv w maxEmptyPeriods
  have hsome : ∃ found', r.expand w maxEmptyPeriods (some n) = .ok found' := by
    cases hp : Plan.of? r (r.anchor.getD w.after) with
    | none => exact ⟨[], expand_of_none hp⟩
    | some p =>
      obtain ⟨found', hret⟩ := Request.returns_capped (q := r.request p w maxEmptyPeriods) hmax
        (Plan.lawful_of_valid hv hp) ((expand_eq_iff hv hp).mp h)
      exact ⟨found'.toList, (expand_eq_iff hv hp).mpr hret⟩
  obtain ⟨found', hf⟩ := hsome
  rw [hf, hall _ found' (by rintro _ ⟨⟩; exact hn) hf,
    hall max found (fun m hm => Nat.lt_of_lt_of_le hn (hmax m hm)) h]
  cases max with
  | none => rfl
  | some m =>
    have hmin := Nat.min_eq_left (hmax m rfl)
    simp only [upTo, List.take_take, hmin]

end Rule

namespace RuleSet

variable {s : RuleSet} {w : Window} {x : Times} {found : List Occurrence} {m : Nat}

/-- Enough is found: more than `m` of the first occurrences are kept. -/
theorem lt_length_kept (h : found.Pairwise fun a b => a.time < b.time) {c : Timestamp}
    (hc : ∀ o ∈ found, o.time < c) (hm : m + x.size < found.length) :
    m < ((inOrder (s.kept w x found)).filter fun o => o.time < c).length := by
  have hsplit := List.length_eq_length_filter_add (l := found) fun o => x.contains o.time
  have hexcepted := length_filter_contains_le h x
  have hsub : (found.filter fun o => !x.contains o.time).map Occurrence.time ⊆
      ((inOrder (s.kept w x found)).filter fun o => o.time < c).map Occurrence.time := by
    intro t ht
    obtain ⟨o, ho, rfl⟩ := List.mem_map.mp ht
    have hmem : o ∈ s.kept w x found := by
      rw [kept, List.filter_append]
      exact List.mem_append_right _ ho
    obtain ⟨a, ha, hat⟩ := exists_mem_inOrder.mpr ⟨o, hmem, rfl⟩
    have hlt := hc o (List.mem_of_mem_filter ho)
    rw [← hat] at hlt
    rw [← hat]
    exact List.mem_map_of_mem (List.mem_filter.mpr ⟨ha, decide_eq_true hlt⟩)
  have hle := (nodup_times (h.filter _)).length_le_of_subset hsub
  rw [List.length_map, List.length_map] at hle
  omega

/-- What a walk leaves out when it stops early does not matter to the first `m` occurrences, nor to
whether there are more. -/
theorem take_kept (h : found.Pairwise fun a b => a.time < b.time) :
    (inOrder (s.kept w x (found.take (m + x.size + 1)))).take m =
        (inOrder (s.kept w x found)).take m ∧
      (m < (inOrder (s.kept w x (found.take (m + x.size + 1)))).length ↔
        m < (inOrder (s.kept w x found)).length) := by
  have hsplit := List.take_append_drop (m + x.size + 1) found
  cases hdrop : found.drop (m + x.size + 1) with
  | nil =>
    rw [hdrop, List.append_nil] at hsplit
    rw [hsplit]
    exact ⟨rfl, Iff.rfl⟩
  | cons o rest =>
    have hlen : (found.take (m + x.size + 1)).length = m + x.size + 1 := by
      rw [List.length_take]
      have hmore := congrArg List.length hdrop
      rw [List.length_drop, List.length_cons] at hmore
      omega
    rw [hdrop] at hsplit
    generalize found.take (m + x.size + 1) = first at hsplit hlen
    subst hsplit
    obtain ⟨hfirst, hlast, hcross⟩ := List.pairwise_append.mp h
    have hlt : ∀ a ∈ first, a.time < o.time := fun a ha => hcross a ha o List.mem_cons_self
    have hle : ∀ a ∈ (o :: rest).filter (fun o => !x.contains o.time), o.time ≤ a.time := by
      intro a ha
      rcases List.mem_cons.mp (List.mem_of_mem_filter ha) with rfl | ha
      · exact Nat.le_refl _
      · exact Timestamp.le_of_lt ((List.pairwise_cons.mp hlast).1 a ha)
    have hkept : s.kept w x (first ++ o :: rest) =
        s.kept w x first ++ (o :: rest).filter fun o => !x.contains o.time := by
      rw [kept, kept, ← List.append_assoc, List.filter_append]
    have hmore := lt_length_kept (s := s) (w := w) (x := x) hfirst hlt (m := m) (by omega)
    have hpre := filter_lt_prefix (inOrder_ascending (s.kept w x first)) o.time
    have hpre' := filter_lt_prefix (inOrder_ascending (s.kept w x (first ++ o :: rest))) o.time
    -- both lists begin with what comes before the first occurrence that was left out
    rw [hkept, filter_inOrder_append hle] at hpre'
    rw [hkept]
    have hlonger := hpre.length_le
    have hlonger' := hpre'.length_le
    refine ⟨?_, by omega⟩
    obtain ⟨t, ht⟩ := hpre
    obtain ⟨t', ht'⟩ := hpre'
    rw [← ht, ← ht', List.take_append_of_le_length (Nat.le_of_lt hmore),
      List.take_append_of_le_length (Nat.le_of_lt hmore)]

/-- With a limit, an expansion is the beginning of one with a higher limit or without a limit. -/
theorem expand_limited (s : RuleSet) (w : Window) (maxEmptyPeriods m : Nat) (max : Option Nat)
    (e : Expansion) (hv : s.rule.Valid) (hmax : ∀ n, max = some n → m ≤ n)
    (h : s.expand w ⟨maxEmptyPeriods, max⟩ = .ok e) :
    ∃ e', s.expand w ⟨maxEmptyPeriods, some m⟩ = .ok e' ∧
      e'.occurrences = e.occurrences.take m ∧
      (e'.limited = true ↔ e.limited = true ∨ m < e.occurrences.length) := by
  obtain ⟨x, hx, found, hf, rfl⟩ := expand_limited_eq_ok_iff.mp h
  have hpos : ∀ n, max.map (fun max => max + x.size + 1) = some n → m + x.size + 1 ≤ n := by
    intro n hn
    obtain ⟨k, hk, rfl⟩ := Option.map_eq_some_iff.mp hn
    have := hmax k hk
    omega
  have hasc : found.Pairwise fun a b => a.time < b.time := by
    obtain ⟨all, hall, hupTo⟩ := Rule.exists_occurrences hv w maxEmptyPeriods
    rw [hupTo _ found (fun n hn => Nat.zero_lt_of_lt (hpos n hn)) hf]
    exact hall.sublist (upTo_sublist _ all)
  obtain ⟨htake, hmore⟩ := take_kept (s := s) (w := w) (x := x) (m := m) hasc
  refine ⟨_, expand_limited_eq_ok_iff.mpr
    ⟨x, hx, _, Rule.expand_take hv hf (Nat.succ_pos _) hpos, rfl⟩, ?_, ?_⟩
  · dsimp only [Option.map_some, Expansion.cut]
    rw [htake]
    cases max with
    | none => rfl
    | some n => rw [List.take_take, Nat.min_eq_left (hmax n rfl)]
  · dsimp only [Option.map_some, Expansion.cut]
    rw [decide_eq_true_eq, hmore]
    cases max with
    | none => simp
    | some n =>
      have := hmax n rfl
      rw [decide_eq_true_eq, List.length_take]
      omega

theorem expand_limited_fewFridays : fewFridays.rule.Valid ∧
    (∀ n, some 2 = some n → 1 ≤ n) ∧
    ∃ e, fewFridays.expand earlyDays ⟨10, some 2⟩ = .ok e ∧
      ∃ e', fewFridays.expand earlyDays ⟨10, some 1⟩ = .ok e' ∧
        e'.occurrences = e.occurrences.take 1 ∧
        (e'.limited = true ↔ e.limited = true ∨ 1 < e.occurrences.length) := by
  have hv : fewFridays.rule.Valid := by decide
  have hr : ∀ r ∈ fewFridays.exceptRules, ∃ found, r.expand earlyDays 10 none = .ok found := by
    intro r hr
    obtain rfl := List.mem_singleton.mp hr
    exact ⟨_, rfl⟩
  obtain ⟨e, he⟩ := exists_expand_iff.mpr ⟨⟨_, rfl⟩, hr⟩
  obtain ⟨e₂, he₂, -⟩ := expand_limited fewFridays earlyDays 10 2 none e hv nofun he
  have hmax : ∀ n, some 2 = some n → 1 ≤ n := by
    rintro _ ⟨⟩
    decide
  exact ⟨hv, hmax, e₂, he₂, expand_limited fewFridays earlyDays 10 1 (some 2) e₂ hv hmax he₂⟩

end RuleSet

end Recurrence
