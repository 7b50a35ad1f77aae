import Mathlib.Data.List.Sort
import Recurrence.Proofs.Expansion.Lawful

/-!
# Positions among all candidates of a period

`atPositions` keeps of a list what stands at the places that positions tell. It does so with the
candidates of a period (`candidates_eq_atPositions`), although those of days are never listed: a
place is divided into the number of a day and the number of a time of day.
-/

namespace Recurrence

set_option autoImplicit false

open Calendar

instance (values : OrderedSet Int) (place length : Nat) :
    Decidable (HoldsPlace values place length) := by
  unfold HoldsPlace
  infer_instance

/-- The members of a list at the places that the positions tell, counted from 1 from the start of
the list or, if negative, from its end. -/
def atPositions (positions : OrderedSet Int) (l : List Timestamp) : List Timestamp :=
  ((l.zipIdx 1).filter fun e => HoldsPlace positions e.2 l.length).map Prod.fst

section AtPositions

variable {positions : OrderedSet Int} {l : List Timestamp} {t : Timestamp}

theorem mem_atPositions : t ∈ atPositions positions l ↔
    ∃ place, 1 ≤ place ∧ l[place - 1]? = some t ∧ HoldsPlace positions place l.length := by
  simp only [atPositions, List.mem_map, List.mem_filter, decide_eq_true_eq, Prod.exists,
    List.mk_mem_zipIdx_iff_le_and_getElem?_sub]
  constructor
  · intro h
    obtain ⟨_, place, ⟨⟨hle, hget⟩, hholds⟩, rfl⟩ := h
    exact ⟨place, hle, hget, hholds⟩
  · intro h
    obtain ⟨place, hle, hget, hholds⟩ := h
    exact ⟨t, place, ⟨⟨hle, hget⟩, hholds⟩, rfl⟩

theorem atPositions_sublist (positions : OrderedSet Int) (l : List Timestamp) :
    (atPositions positions l).Sublist l := by
  have h := (List.filter_sublist (p := fun e => HoldsPlace positions e.2 l.length)
    (l := l.zipIdx 1)).map Prod.fst
  rwa [List.zipIdx_map_fst] at h

end AtPositions

/-- The rule without its positions. -/
def Rule.withoutPositions (r : Rule) : Rule := { r with byPosition := {} }

theorem Rule.Valid.withoutPositions {r : Rule} (hv : r.Valid) : r.withoutPositions.Valid := by
  cases hv
  constructor
  case position_mem => exact nofun
  case position_scope => exact Or.inl rfl
  all_goals assumption

theorem length_le_of_ascending {l : List Nat} {n : Nat} (h : l.Pairwise (· < ·))
    (hlt : ∀ a ∈ l, a < n) : l.length ≤ n := by
  have hsub : l ⊆ List.range n := fun a ha => List.mem_range.mpr (hlt a ha)
  simpa using h.nodup.length_le_of_subset hsub

namespace Plan

def withoutPositions (p : Plan) : Plan := { p with rule := p.rule.withoutPositions }

theorem of?_withoutPositions (r : Rule) (anchor : Timestamp) :
    of? r.withoutPositions anchor = (of? r anchor).map withoutPositions := by
  rw [of?, of?, Option.map_map]
  rfl

/-- The member of a list of equally long runs with a number. -/
theorem getElem?_flatMap {α β : Type} {l : List α} {f : α → List β} {n : Nat} (hn : 0 < n)
    (h : ∀ a ∈ l, (f a).length = n) (i : Nat) :
    (l.flatMap f)[i]? = l[i / n]?.bind fun a => (f a)[i % n]? := by
  induction l generalizing i with
  | nil => simp
  | cons a l ih =>
    have ha := h a List.mem_cons_self
    rw [List.flatMap_cons]
    rcases Nat.lt_or_ge i n with hlt | hge
    · rw [List.getElem?_append_left (ha.symm ▸ hlt), Nat.div_eq_of_lt hlt, Nat.mod_eq_of_lt hlt]
      rfl
    · obtain ⟨j, rfl⟩ := Nat.exists_eq_add_of_le hge
      rw [List.getElem?_append_right (by omega), ha, Nat.add_sub_cancel_left,
        ih (fun b hb => h b (List.mem_cons_of_mem a hb)), Nat.add_div_left j hn,
        Nat.add_mod_left]
      rfl

variable {rule : Rule} {anchor s t : Timestamp} {c : Cadence} {p : Plan}

/-- For a valid rule every number below `timesPerDay` is the number of a time of day. -/
theorem timeAt?_eq_getElem? (hv : rule.Valid) {i : Nat}
    (hi : i < (filled rule anchor c).timesPerDay) :
    (filled rule anchor c).timeAt? i = (filled rule anchor c).times[i]? := by
  have htimes := times_eq_timeAt? (p := filled rule anchor c) (valuesOr_length_pos _ _)
    (valuesOr_length_pos _ _)
  have hlength : (filled rule anchor c).times.length = (filled rule anchor c).timesPerDay :=
    length_times hv
  generalize (filled rule anchor c).timesPerDay = n at htimes hlength hi
  have hsome : ∀ k ∈ List.range n, ((filled rule anchor c).timeAt? k).isSome = true := by
    rwa [← List.filterMap_length_eq_length, List.length_range, ← htimes]
  have hmap : (filled rule anchor c).times =
      (List.range n).map fun k => ((filled rule anchor c).timeAt? k).getD .midnight := by
    rw [htimes, List.filterMap_eq_map_iff_forall_eq_some]
    intro k hk
    obtain ⟨u, hu⟩ := Option.isSome_iff_exists.mp (hsome k hk)
    rw [hu, Option.getD_some]
  obtain ⟨u, hu⟩ := Option.isSome_iff_exists.mp (hsome i (List.mem_range.mpr hi))
  rw [hmap, List.getElem?_map, List.getElem?_range hi, Option.map_some, hu, Option.getD_some]

section Cross

variable {dates : List Date} {times : List TimeOfDay}

theorem length_cross : (dates.flatMap fun date => times.map (Timestamp.of date)).length =
    dates.length * times.length :=
  TimeOfDay.length_flatMap_eq_mul fun _ _ => List.length_map _

theorem getElem?_cross (ht : 0 < times.length) (i : Nat) :
    (dates.flatMap fun date => times.map (Timestamp.of date))[i]? =
      dates[i / times.length]?.bind fun date =>
        times[i % times.length]?.map (Timestamp.of date) := by
  rw [getElem?_flatMap ht fun _ _ => List.length_map _]
  simp only [List.getElem?_map]

end Cross

theorem mem_pick (hpos : p.rule.byPosition.isEmpty = false) {times : List Timestamp} :
    t ∈ p.pick times ↔ ∃ position ∈ p.rule.byPosition, ∃ place,
      place? position times.length = some place ∧ times[place - 1]? = some t := by
  rw [pick, if_neg (Bool.eq_false_iff.mp hpos)]
  simp only [OrderedSet.mem_toList, OrderedSet.mem_ofList, List.mem_filterMap,
    Option.bind_eq_bind, Option.bind_eq_some_iff]

theorem pick_eq_atPositions (hpos : p.rule.byPosition.isEmpty = false) {times : List Timestamp}
    (h : times.Pairwise (· < ·)) : p.pick times = atPositions p.rule.byPosition times := by
  apply (pick_ascending h).eq_of_mem_iff (h.sublist (atPositions_sublist _ _))
  intro t
  rw [mem_pick hpos, mem_atPositions]
  simp only [place?_eq_some_iff, HoldsPlace]
  constructor
  · intro h
    obtain ⟨position, hmem, place, ⟨hle, -, rfl | rfl⟩, hget⟩ := h
    · exact ⟨place, hle, hget, Or.inl hmem⟩
    · exact ⟨place, hle, hget, Or.inr hmem⟩
  · intro h
    obtain ⟨place, hle, hget, hmem⟩ := h
    have hlt : place ≤ times.length := by
      have := (List.getElem?_eq_some_iff.mp hget).1
      omega
    rcases hmem with hmem | hmem
    · exact ⟨_, hmem, place, ⟨hle, hlt, Or.inl rfl⟩, hget⟩
    · exact ⟨_, hmem, place, ⟨hle, hlt, Or.inr rfl⟩, hget⟩

theorem length_flatMap_le {α β : Type} {l : List α} {f : α → List β} {n : Nat}
    (h : ∀ a ∈ l, (f a).length ≤ n) : (l.flatMap f).length ≤ l.length * n := by
  induction l with
  | nil => simp
  | cons a l ih =>
    rw [List.forall_mem_cons] at h
    rw [List.flatMap_cons, List.length_append, List.length_cons, Nat.succ_mul, Nat.add_comm]
    exact Nat.add_le_add (ih h.2) h.1

theorem length_days_le (hv : rule.Valid) (first : Date) :
    ((filled rule anchor c).days first).length ≤ 403 := by
  have hmonth (year : Int) (month : Nat) : (daysOfMonth year month).length ≤ 31 := by
    apply (List.length_filterMap_le _ _).trans
    rw [List.length_range]
    exact monthLength_le _ _
  apply (List.length_filter_le _ _).trans
  cases hf : rule.frequency <;> simp only [rule_filled, hf]
  case yearly =>
    have hmonths := length_le_of_ascending (n := 13) (filled rule anchor c).months_ascending
      fun m hm => Nat.lt_succ_of_le (months_mem hv m hm).2
    exact (length_flatMap_le fun m _ => hmonth first.year m).trans (Nat.mul_le_mul_right 31 hmonths)
  case monthly => exact (hmonth _ _).trans (by decide)
  case weekly => exact (List.length_filterMap_le _ _).trans (by decide)
  all_goals exact Nat.le_add_left 1 402

theorem timesPerDay_le (hv : rule.Valid) : (filled rule anchor c).timesPerDay ≤ 86400 := by
  have hhours : (filled rule anchor c).hours.length ≤ 24 :=
    length_le_of_ascending (valuesOr_ascending _ _) (hours_lt hv)
  have hminutes : (filled rule anchor c).minutes.length ≤ 60 :=
    length_le_of_ascending (valuesOr_ascending _ _) (minutes_lt hv)
  have hseconds : (filled rule anchor c).seconds.length ≤ 60 :=
    length_le_of_ascending (valuesOr_ascending _ _) (seconds_lt hv)
  exact Nat.mul_le_mul (Nat.mul_le_mul hhours hminutes) hseconds

/-- No period has so many candidates that their number is cut, and each place among them is found
by division. -/
theorem pickFromDays_eq_pick (hv : rule.Valid) (hpos : rule.byPosition.isEmpty = false)
    {dates : List Date} (hd : dates.length ≤ 403) :
    (filled rule anchor c).pickFromDays dates = (filled rule anchor c).pick
      (dates.flatMap fun date => (filled rule anchor c).times.map (Timestamp.of date)) := by
  have hlength : (filled rule anchor c).times.length = (filled rule anchor c).timesPerDay :=
    length_times hv
  have hpositive : 0 < (filled rule anchor c).timesPerDay := timesPerDay_pos
  have htotal : dates.length * (filled rule anchor c).timesPerDay ≤ 4294967295 :=
    (Nat.mul_le_mul hd (timesPerDay_le hv)).trans (by decide)
  rw [pickFromDays, pick, rule_filled, if_neg (Bool.eq_false_iff.mp hpos), length_cross, hlength,
    Nat.min_eq_left htotal]
  congr 2
  apply List.filterMap_congr
  intro position _
  apply Option.bind_congr
  intro place _
  rw [getElem?_cross (hlength ▸ hpositive), hlength]
  apply Option.bind_congr
  intro date _
  rw [timeAt?_eq_getElem? hv (Nat.mod_lt _ hpositive), Option.map_eq_bind]
  rfl

theorem ofSkip_ne_instants (o : Option Timestamp) (times : List Timestamp) :
    Candidates.ofSkip o ≠ .instants times := by
  cases o <;> exact nofun

theorem candidates_of_not_blocked (hsub : p.rule.frequency.isSubDaily = true)
    (hb : p.blockEnd? s = none) : p.candidates s = .instants (p.pick (p.instantsAt s)) := by
  rw [candidates, if_pos hsub, subDaily_eq hsub, hb]

theorem candidates_of_days (hsub : p.rule.frequency.isSubDaily = false)
    (hpos : p.rule.byPosition.isEmpty = false) :
    p.candidates s = .instants (p.pickFromDays (p.days s.date)) := by
  rw [candidates, if_neg (Bool.eq_false_iff.mp hsub), if_neg (Bool.eq_false_iff.mp hpos)]

/-- Without its positions, a plan has the same blocks. -/
theorem withoutPositions_of_blocked (hsub : p.rule.frequency.isSubDaily = true) {n : Nat}
    (hb : p.blockEnd? s = some n) :
    p.withoutPositions.candidates s = .ofSkip (Timestamp.ofSeconds? n) :=
  candidates_eq_ofSkip (p := p.withoutPositions) hsub hb

theorem withoutPositions_of_not_blocked (hsub : p.rule.frequency.isSubDaily = true)
    (hb : p.blockEnd? s = none) : p.withoutPositions.candidates s = .instants (p.instantsAt s) := by
  rw [candidates_of_not_blocked (p := p.withoutPositions) hsub hb, pick_of_isEmpty rfl]
  rfl

theorem withoutPositions_of_days (hsub : p.rule.frequency.isSubDaily = false) :
    p.withoutPositions.candidates s = .days (p.days s.date) := by
  have hsub' : ¬ p.withoutPositions.rule.frequency.isSubDaily = true := Bool.eq_false_iff.mp hsub
  rw [candidates, if_neg hsub']
  rfl

theorem flatten_withoutPositions_instants (times : List Timestamp) :
    p.withoutPositions.flatten (.instants times) = times := rfl

theorem flatten_withoutPositions_days (dates : List Date) :
    p.withoutPositions.flatten (.days dates) =
      dates.flatMap fun date => p.times.map (Timestamp.of date) := rfl

end Plan

/-- Positions keep of the candidates of a period what stands at their places among all of them, in
ascending order. A period lists its candidates unless it is blocked, which positions do not change;
one of a day or more always does, and these are its days with all times of day. -/
theorem candidates_eq_atPositions (rule : Rule) (anchor s : Timestamp) (p : Plan)
    (hv : rule.Valid) (hpos : rule.byPosition.isEmpty = false)
    (hp : Plan.of? rule anchor = some p) :
    ∃ q, Plan.of? rule.withoutPositions anchor = some q ∧
      (q.flatten (q.candidates s)).Pairwise (· < ·) ∧
      (∀ times, p.candidates s = .instants times →
        times = atPositions rule.byPosition (q.flatten (q.candidates s))) ∧
      ((∃ times, p.candidates s = .instants times) ↔
        rule.frequency.isSubDaily = false ∨ ∃ times, q.candidates s = .instants times) ∧
      (rule.frequency.isSubDaily = false → q.flatten (q.candidates s) =
        (p.days s.date).flatMap fun date => p.times.map (Timestamp.of date)) := by
  have hq := Plan.of?_withoutPositions rule anchor
  rw [hp, Option.map_some] at hq
  obtain ⟨c, -, rfl⟩ := Plan.of?_eq_some_iff.mp hp
  have hall : ((Plan.filled rule.withoutPositions anchor c).flatten
      ((Plan.filled rule.withoutPositions anchor c).candidates s)).Pairwise (· < ·) :=
    Plan.flatten_ascending hv.withoutPositions s
  change ((Plan.filled rule anchor c).withoutPositions.flatten
    ((Plan.filled rule anchor c).withoutPositions.candidates s)).Pairwise (· < ·) at hall
  refine ⟨_, hq, hall, ?_⟩
  cases hsub : rule.frequency.isSubDaily with
  | true =>
    cases hb : (Plan.filled rule anchor c).blockEnd? s with
    | some n =>
      rw [Plan.withoutPositions_of_blocked hsub hb, Plan.candidates_eq_ofSkip hsub hb]
      simp [Plan.ofSkip_ne_instants]
    | none =>
      rw [Plan.withoutPositions_of_not_blocked hsub hb, Plan.flatten_withoutPositions_instants]
        at hall ⊢
      rw [Plan.candidates_of_not_blocked hsub hb, Plan.pick_eq_atPositions hpos hall]
      simp [eq_comm]
  | false =>
    rw [Plan.withoutPositions_of_days hsub, Plan.flatten_withoutPositions_days] at hall ⊢
    rw [Plan.candidates_of_days hsub hpos,
      Plan.pickFromDays_eq_pick hv hpos (Plan.length_days_le hv _),
      Plan.pick_eq_atPositions (p := Plan.filled rule anchor c) hpos hall]
    simp [eq_comm]

/-- Of four candidates in a month the last two and the second, which is also the third last. -/
def twoOfFour : Rule where
  frequency := .monthly
  byMonthDay := .ofList [1, 2]
  byHour := .ofList [8, 20]
  byPosition := .ofList [2, -1, -3]

theorem candidates_eq_atPositions_twoOfFour :
    twoOfFour.Valid ∧ twoOfFour.byPosition.isEmpty = false ∧
    ∃ p, Plan.of? twoOfFour newYear = some p ∧
    ∃ times, p.candidates newYear = .instants times ∧ times.length = 2 ∧
    ∃ q, Plan.of? twoOfFour.withoutPositions newYear = some q ∧
      (q.flatten (q.candidates newYear)).length = 4 ∧
      times = atPositions twoOfFour.byPosition (q.flatten (q.candidates newYear)) := by
  have hv : twoOfFour.Valid := by decide
  have hp : ∃ p, Plan.of? twoOfFour newYear = some p := ⟨_, rfl⟩
  obtain ⟨p, hp⟩ := hp
  obtain ⟨q, hq, -, htimes, hlists, -⟩ :=
    candidates_eq_atPositions twoOfFour newYear newYear p hv rfl hp
  obtain ⟨times, ht⟩ := hlists.mpr (Or.inl rfl)
  refine ⟨hv, rfl, p, hp, times, ht, ?_, q, hq, ?_, htimes times ht⟩
  · cases hp
    cases ht
    rfl
  · cases hq
    rfl

end Recurrence
