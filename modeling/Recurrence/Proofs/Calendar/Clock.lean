import Recurrence.Calendar.Timestamp

/-!
# Times of day as hours, minutes and seconds

The times of day that lists of hours, minutes and seconds name are exactly those whose parts are in
the lists, and ascending lists give them in ascending order.
-/

namespace Recurrence.Calendar.TimeOfDay

set_option autoImplicit false

theorem seconds_eq_clock (t : TimeOfDay) :
    t.seconds = t.hour * 3600 + t.minute * 60 + t.second := by
  unfold hour minute second
  omega

theorem ofClock?_eq_some_iff {h m s : Nat} {t : TimeOfDay} :
    ofClock? h m s = some t ↔ t.hour = h ∧ t.minute = m ∧ t.second = s := by
  constructor
  · unfold ofClock?
    split
    · intro ht
      cases ht
      unfold hour minute second
      dsimp only
      omega
    · intro ht
      cases ht
  · intro h
    obtain ⟨rfl, rfl, rfl⟩ := h
    exact ofClock?_clock t

def ofHour (h : Nat) (minutes seconds : List Nat) : List TimeOfDay :=
  minutes.flatMap fun m => seconds.filterMap (ofClock? h m)

variable {hours minutes seconds : List Nat} {h m : Nat} {t : TimeOfDay}

theorem mem_ofMinute : t ∈ seconds.filterMap (ofClock? h m) ↔
    t.hour = h ∧ t.minute = m ∧ t.second ∈ seconds := by
  simp only [List.mem_filterMap, ofClock?_eq_some_iff]
  constructor
  · intro h
    obtain ⟨s, hs, rfl, rfl, rfl⟩ := h
    exact ⟨rfl, rfl, hs⟩
  · intro h
    obtain ⟨rfl, rfl, hs⟩ := h
    exact ⟨_, hs, rfl, rfl, rfl⟩

theorem mem_ofHour : t ∈ ofHour h minutes seconds ↔
    t.hour = h ∧ t.minute ∈ minutes ∧ t.second ∈ seconds := by
  simp only [ofHour, List.mem_flatMap, mem_ofMinute]
  constructor
  · intro h
    obtain ⟨m, hm, rfl, rfl, hs⟩ := h
    exact ⟨rfl, hm, hs⟩
  · intro h
    obtain ⟨rfl, hm, hs⟩ := h
    exact ⟨_, hm, rfl, rfl, hs⟩

theorem ofMinute_ascending (hs : seconds.Pairwise (· < ·)) :
    (seconds.filterMap (ofClock? h m)).Pairwise fun a b => a.seconds < b.seconds := by
  rw [List.pairwise_filterMap]
  apply hs.imp
  intro s s' hlt a ha b hb
  rw [ofClock?_eq_some_iff] at ha hb
  rw [a.seconds_eq_clock, b.seconds_eq_clock]
  omega

theorem ofHour_ascending (hm : minutes.Pairwise (· < ·)) (hs : seconds.Pairwise (· < ·)) :
    (ofHour h minutes seconds).Pairwise fun a b => a.seconds < b.seconds := by
  apply List.pairwise_flatMap.mpr
  refine ⟨fun m _ => ofMinute_ascending hs, ?_⟩
  apply hm.imp
  intro m m' hlt a ha b hb
  have ha := mem_ofMinute.mp ha
  have hb := mem_ofMinute.mp hb
  have := a.clock_lt
  rw [a.seconds_eq_clock, b.seconds_eq_clock]
  omega

theorem ofHours_ascending (hh : hours.Pairwise (· < ·)) (hm : minutes.Pairwise (· < ·))
    (hs : seconds.Pairwise (· < ·)) :
    (hours.flatMap fun h => ofHour h minutes seconds).Pairwise
      fun a b => a.seconds < b.seconds := by
  apply List.pairwise_flatMap.mpr
  refine ⟨fun h _ => ofHour_ascending hm hs, ?_⟩
  apply hh.imp
  intro h h' hlt a ha b hb
  have ha := mem_ofHour.mp ha
  have hb := mem_ofHour.mp hb
  have := a.clock_lt
  rw [a.seconds_eq_clock, b.seconds_eq_clock]
  omega

/-- No time is lost if each part is in its range. -/
theorem length_ofMinute (hh : h < 24) (hm : m < 60) (hs : ∀ s ∈ seconds, s < 60) :
    (seconds.filterMap (ofClock? h m)).length = seconds.length := by
  induction seconds with
  | nil => rfl
  | cons s rest ih =>
    have hlt := hs s List.mem_cons_self
    have hc : (ofClock? h m s).isSome = true := by
      rw [ofClock?, dif_pos ⟨hh, hm, hlt⟩]
      rfl
    obtain ⟨t, ht⟩ := Option.isSome_iff_exists.mp hc
    rw [List.filterMap_cons_some ht, List.length_cons, List.length_cons,
      ih fun s hs' => hs s (List.mem_cons_of_mem _ hs')]

theorem length_flatMap_eq_mul {α β : Type} {l : List α} {f : α → List β} {n : Nat}
    (h : ∀ a ∈ l, (f a).length = n) : (l.flatMap f).length = l.length * n := by
  rw [List.length_flatMap, List.map_congr_left h, List.map_const', List.sum_replicate_nat]

theorem length_ofHour (hh : h < 24) (hm : ∀ m ∈ minutes, m < 60) (hs : ∀ s ∈ seconds, s < 60) :
    (ofHour h minutes seconds).length = minutes.length * seconds.length :=
  length_flatMap_eq_mul fun m hm' => length_ofMinute hh (hm m hm') hs

theorem length_ofHours (hh : ∀ h ∈ hours, h < 24) (hm : ∀ m ∈ minutes, m < 60)
    (hs : ∀ s ∈ seconds, s < 60) : (hours.flatMap fun h => ofHour h minutes seconds).length =
      hours.length * minutes.length * seconds.length := by
  rw [length_flatMap_eq_mul fun h hh' => length_ofHour (hh h hh') hm hs, Nat.mul_assoc]

end Recurrence.Calendar.TimeOfDay
