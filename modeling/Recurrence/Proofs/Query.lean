import Recurrence.Proofs.Expansion.Limited
import Recurrence.Proofs.RuleSet.Lines
import Recurrence.Query

/-!
# What a query answers

A query that is answered lists times of its window in ascending order, each in the text from which it
is read back, and no more of them than are wanted (`Listing.Lists`). Without dates of its own, a rule
set lists only times of the sequence of its rule (`Rule.Confines`).
-/

namespace Recurrence

set_option autoImplicit false

open Calendar Text

namespace Rule

variable {r : Rule} {w : Window} {maxEmptyPeriods : Nat} {start t : Timestamp}

/-- All occurrences of a rule from its start on. -/
def sequence (r : Rule) (start : Timestamp) : List Timestamp :=
  match Plan.of? r start with
  | none => []
  | some p => p.sequence start r.limit?

/-- What a limited expansion finds comes from the sequence of the rule. -/
theorem times_sublist {max : Option Nat} {found : List Occurrence} (hv : r.Valid)
    (hmax : ∀ n, max = some n → 0 < n) (h : r.expand w maxEmptyPeriods max = .ok found) :
    (found.map Occurrence.time).Sublist
      ((r.sequence (r.anchor.getD w.after)).filter w.Contains) := by
  unfold sequence
  cases hp : Plan.of? r (r.anchor.getD w.after) with
  | none =>
    rw [expand_of_none hp] at h
    cases h
    exact List.nil_sublist _
  | some p =>
    rw [expand_eq_upTo hv hp hmax h, ← Window.map_fst_numbered]
    refine ((upTo_sublist _ _).map _).trans ?_
    rw [Request.marked, List.map_map]
    exact List.Sublist.refl _

theorem of_mem_sequence (hv : r.Valid) (ht : t ∈ r.sequence start) :
    t.nano = 0 ∧ start ≤ t ∧ ∀ last ∈ r.last, t ≤ last := by
  unfold sequence at ht
  split at ht
  · cases ht
  · next p hp =>
    have hlaw := Plan.lawful_of_valid hv hp
    have hspan := (upTo_sublist _ _).mem ht
    rw [rule_of_plan hp, span_eq_filter (hlaw.candidatesFrom_ascending 0), List.mem_filter,
      decide_eq_true_eq, Option.all_eq_true] at hspan
    obtain ⟨hmem, hstart, hlast⟩ := hspan
    obtain ⟨i, -, hi⟩ := hlaw.mem_candidatesFrom.mp hmem
    exact ⟨(hlaw.mem_period hi).1, hstart, fun last hl => of_decide_eq_true (hlast last hl)⟩

theorem length_sequence_le {n : Nat} (hn : r.count = some n) (hlt : n < counterMax) :
    (r.sequence start).length ≤ n := by
  unfold sequence
  split
  · exact Nat.zero_le n
  · have hlimit : r.limit? = some n := by
      rw [limit?_eq_count, hn]
      rintro _ hm
      rw [hn] at hm
      cases hm
      exact hlt
    rw [Plan.sequence, hlimit]
    exact List.length_take_le n _

end Rule

namespace Expansion

variable {max : Option Nat} {l : List Occurrence}

theorem cut_sublist (max : Option Nat) (l : List Occurrence) :
    (cut max l).occurrences.Sublist l := by
  cases max with
  | none => exact List.Sublist.refl l
  | some m => exact List.take_sublist m l

theorem length_cut_le {m : Nat} (h : max = some m) : (cut max l).occurrences.length ≤ m := by
  rw [h]
  exact List.length_take_le m l

/-- A cut is full if it leaves something out. -/
theorem length_cut_of_limited (h : (cut max l).limited = true) :
    max = some (cut max l).occurrences.length := by
  cases max with
  | none => cases h
  | some m =>
    have hlt : m < l.length := of_decide_eq_true h
    change some m = some (l.take m).length
    rw [List.length_take, Nat.min_eq_left (Nat.le_of_lt hlt)]

end Expansion

namespace RuleSet

variable {s : RuleSet} {w : Window} {maxEmptyPeriods : Nat} {max : Option Nat} {e : Expansion}

/-- Every occurrence is a date of the set or comes from its rule. -/
theorem time_of_mem_expand (hv : s.rule.Valid) (h : s.expand w ⟨maxEmptyPeriods, max⟩ = .ok e)
    {t : Timestamp} (ht : t ∈ e.occurrences.map Occurrence.time) :
    w.Contains t ∧ (t ∈ s.dates ∨ t ∈ s.rule.sequence (s.rule.anchor.getD w.after)) := by
  obtain ⟨x, -, found, hf, rfl⟩ := expand_limited_eq_ok_iff.mp h
  obtain ⟨o, ho, rfl⟩ := List.mem_map.mp ht
  obtain ⟨o', ho', ht⟩ := exists_mem_inOrder.mp ⟨o, (Expansion.cut_sublist _ _).mem ho, rfl⟩
  rw [← ht]
  have hmem := List.mem_of_mem_filter ho'
  rcases List.mem_append.mp hmem with hd | hr
  · obtain ⟨hd, hw, -⟩ := mem_datesIn.mp hd
    exact ⟨hw, Or.inl hd⟩
  · have hpos : ∀ n, max.map (fun max => max + x.size + 1) = some n → 0 < n := by
      intro n hn
      obtain ⟨m, -, rfl⟩ := Option.map_eq_some_iff.mp hn
      exact Nat.succ_pos _
    have hseq := (Rule.times_sublist hv hpos hf).mem (List.mem_map_of_mem hr)
    rw [List.mem_filter, decide_eq_true_eq] at hseq
    exact ⟨hseq.2, Or.inr hseq.1⟩

theorem expand_limited_ascending (h : s.expand w ⟨maxEmptyPeriods, max⟩ = .ok e) :
    (e.occurrences.map Occurrence.time).Pairwise (· < ·) := by
  obtain ⟨x, -, found, -, rfl⟩ := expand_limited_eq_ok_iff.mp h
  rw [List.pairwise_map]
  exact (inOrder_ascending _).sublist (Expansion.cut_sublist _ _)

end RuleSet

theorem Window.plain_of_contains {w : Window} {t : Timestamp} (ha : w.after.Plain)
    (hb : w.before.Plain) (hn : t.nano = 0) (h : w.Contains t) : t.Plain := by
  have hafter := Date.year_le_of_le (Timestamp.date_le_of_le h.1)
  have hbefore := Date.year_le_of_le (Timestamp.date_le_of_le (Timestamp.le_of_lt h.2))
  exact ⟨hn, ha.year_nonneg.trans hafter, hbefore.trans hb.year_le⟩

theorem Bound.parse_eq_ok_iff {which : Bound} {cs : List Char} {t : Timestamp} :
    which.parse cs = .ok t ↔ Timestamp.parse (trim cs) = .ok t := mapError_eq_ok_iff

theorem Window.parse_eq_ok_iff {after before : List Char} {w : Window} :
    Window.parse after before = .ok w ↔
      Bound.after.parse after = .ok w.after ∧ Bound.before.parse before = .ok w.before := by
  simp only [Window.parse, bind_eq_ok_iff]
  constructor
  · rintro ⟨a, ha, b, hb, h⟩
    unfold Window.of? at h
    split at h
    · next hw =>
      split at hw
      · cases hw
        cases h
        exact ⟨ha, hb⟩
      · cases hw
    · cases h
  · rintro ⟨ha, hb⟩
    refine ⟨_, ha, _, hb, ?_⟩
    rw [Window.of?, dif_pos w.after_lt_before]
    rfl

theorem occurrencesBetween_eq_ok_iff {rule after before : String} {limits : Limits}
    {listing : Listing} : occurrencesBetween rule after before limits = .ok listing ↔
      ∃ s w e, RuleSet.parse rule.toList = .ok s ∧
        Window.parse after.toList before.toList = .ok w ∧ s.expand w limits = .ok e ∧
        e.listing = listing := by
  change Expansion.listing <$> expandText rule after before limits = .ok listing ↔ _
  simp only [map_eq_ok_iff, expandText, bind_eq_ok_iff, mapError_eq_ok_iff]
  constructor
  · rintro ⟨e, ⟨s, hs, w, hw, he⟩, rfl⟩
    exact ⟨s, w, e, hs, hw, he, rfl⟩
  · rintro ⟨s, w, e, hs, hw, he, rfl⟩
    exact ⟨e, ⟨s, hs, w, hw, he⟩, rfl⟩

/-- The listing has the times of a window, each in the text from which it is read back. -/
structure Listing.Lists (listing : Listing) (w : Window) (max : Option Nat)
    (times : List Timestamp) : Prop where
  occurrences_eq : listing.occurrences = times.map Timestamp.text
  parse_text : ∀ t ∈ times, Timestamp.parse t.text.toList = .ok t
  contains : ∀ t ∈ times, w.Contains t
  ascending : times.Pairwise (· < ·)
  length_le : ∀ m, max = some m → times.length ≤ m
  length_eq : listing.limited = true → max = some times.length

/-- The times lie between the start of the rule and its end, and there are no more of them than the
rule counts. They all belong to one sequence, however many windows they come from. -/
structure Rule.Confines (r : Rule) (start : Timestamp) (times : List Timestamp) : Prop where
  start_le : ∀ t ∈ times, start ≤ t
  le_last : ∀ t ∈ times, ∀ last ∈ r.last, t ≤ last
  mem_sequence : ∀ t ∈ times, t ∈ r.sequence start
  length_sequence_le : ∀ n, r.count = some n → n < counterMax → (r.sequence start).length ≤ n
  length_le : ∀ n, r.count = some n → n < counterMax → times.length ≤ n

theorem Rule.confines_of_sequence {r : Rule} {start : Timestamp} {times : List Timestamp}
    (hv : r.Valid) (hasc : times.Pairwise (· < ·)) (h : ∀ t ∈ times, t ∈ r.sequence start) :
    r.Confines start times := by
  refine ⟨fun t ht => (of_mem_sequence hv (h t ht)).2.1,
    fun t ht => (of_mem_sequence hv (h t ht)).2.2, h, fun n => length_sequence_le, ?_⟩
  intro n hn hlt
  exact (hasc.nodup.length_le_of_subset h).trans (length_sequence_le hn hlt)

/-- An expansion of a set that makes sense is listed in texts that are read back. -/
theorem RuleSet.lists_of_expand {s : RuleSet} {w : Window} {maxEmptyPeriods : Nat}
    {max : Option Nat} {e : Expansion} (hs : s.WellFormed) (ha : w.after.Plain)
    (hb : w.before.Plain) (h : s.expand w ⟨maxEmptyPeriods, max⟩ = .ok e) :
    e.listing.Lists w max (e.occurrences.map Occurrence.time) := by
  have hv : s.rule.Valid := hs.valid s.rule List.mem_cons_self
  obtain ⟨x, -, found, -, hcut⟩ := expand_limited_eq_ok_iff.mp h
  constructor
  · rw [List.map_map]
    rfl
  · intro t ht
    obtain ⟨hcontains, horigin⟩ := time_of_mem_expand hv h ht
    have hplain : t.Plain := by
      rcases horigin with hd | hseq
      · exact hs.dates_plain t hd
      · exact Window.plain_of_contains ha hb (Rule.of_mem_sequence hv hseq).1 hcontains
    rw [Timestamp.text, String.toList_ofList, Timestamp.parse_chars hplain]
  · intro t ht
    exact (time_of_mem_expand hv h ht).1
  · exact expand_limited_ascending h
  · intro m hm
    rw [List.length_map, ← hcut]
    exact Expansion.length_cut_le hm
  · intro hl
    rw [← hcut] at hl
    rw [List.length_map, ← hcut]
    exact Expansion.length_cut_of_limited hl

/-- A set without lines of dates has no dates. -/
theorem RuleSet.not_mem_dates {cs : List Char} {s : RuleSet} (h : RuleSet.parse cs = .ok s)
    (hd : ∀ text ∈ splitOn '\n' cs, ∀ line, Line.read (trim text) = .ok line →
      line.kind ≠ .dates) (t : Timestamp) : t ∉ s.dates := by
  obtain ⟨lines, hread, ht⟩ := parse_eq_ok_iff.mp h
  have hvalues : values .dates lines = [] := by
    rw [values, List.map_eq_nil_iff, List.filter_eq_nil_iff]
    intro line hline
    obtain ⟨u, hu, hr⟩ := (mem_of_mapM hread).mp hline
    obtain ⟨text, htext, rfl, -⟩ := mem_nonblank.mp hu
    simpa using hd text htext line hr
  obtain ⟨tss, htss, hdates⟩ := ht.dates
  rw [hvalues, mapM_nil_eq_ok_iff] at htss
  rw [hdates, htss]
  exact List.not_mem_nil

/-- What is answered to a query: times of the window, ascending and in canonical texts, no more than
are wanted. Unless the set has dates of its own, the start, the end and the count of its rule confine
them. -/
theorem occurrencesBetween_ok (rule after before : String) (limits : Limits) (listing : Listing)
    (h : occurrencesBetween rule after before limits = .ok listing) :
    ∃ s w times, RuleSet.parse rule.toList = .ok s ∧
      Bound.after.parse after.toList = .ok w.after ∧
      Bound.before.parse before.toList = .ok w.before ∧ w.after < w.before ∧
      listing.Lists w limits.maxOccurrences times ∧
      ((∀ text ∈ splitOn '\n' rule.toList, ∀ line, Line.read (trim text) = .ok line →
          line.kind ≠ .dates) →
        s.rule.Confines (s.rule.anchor.getD w.after) times) := by
  obtain ⟨s, w, e, hs, hw, he, rfl⟩ := occurrencesBetween_eq_ok_iff.mp h
  obtain ⟨maxEmptyPeriods, max⟩ := limits
  obtain ⟨ha, hb⟩ := Window.parse_eq_ok_iff.mp hw
  obtain ⟨lines, -, htells⟩ := RuleSet.parse_eq_ok_iff.mp hs
  have hwell := htells.wellFormed
  have hv : s.rule.Valid := hwell.valid s.rule List.mem_cons_self
  have hafter : w.after.Plain := Timestamp.plain_of_parse (Bound.parse_eq_ok_iff.mp ha)
  have hbefore : w.before.Plain := Timestamp.plain_of_parse (Bound.parse_eq_ok_iff.mp hb)
  refine ⟨s, w, e.occurrences.map Occurrence.time, hs, ha, hb, w.after_lt_before,
    RuleSet.lists_of_expand hwell hafter hbefore he, ?_⟩
  intro hdates
  apply Rule.confines_of_sequence hv (RuleSet.expand_limited_ascending he)
  intro t ht
  rcases (RuleSet.time_of_mem_expand hv he ht).2 with hd | hseq
  · exact absurd hd (RuleSet.not_mem_dates hs hdates t)
  · exact hseq

/-- The first days of the first three months of 2024. -/
def threeMonths : RuleSet where
  rule := { frequency := .monthly, count := some 3, anchor := some newYear }

theorem occurrencesBetween_ok_threeMonths : ∃ listing,
    occurrencesBetween "DTSTART:2024-01-01\nFREQ=MONTHLY;COUNT=3" " 2024-01-01" "2024-03-01"
      ⟨10, some 2⟩ = .ok listing ∧
    ∃ (s : RuleSet) (w : Window) (times : List Timestamp), w.after < w.before ∧
      listing.Lists w (some 2) times ∧ s.rule.Confines (s.rule.anchor.getD w.after) times := by
  have hs : RuleSet.parse "DTSTART:2024-01-01\nFREQ=MONTHLY;COUNT=3".toList =
      .ok threeMonths := rfl
  have hw : Window.parse " 2024-01-01".toList "2024-03-01".toList = .ok earlyDays := rfl
  have hv : threeMonths.rule.Valid := by decide
  have hexcepted : ∃ x, threeMonths.exceptions earlyDays 10 = .ok x := ⟨_, rfl⟩
  obtain ⟨x, hx⟩ := hexcepted
  have hfound : ∃ found, threeMonths.rule.expand earlyDays 10 none = .ok found := ⟨_, rfl⟩
  obtain ⟨found, hf⟩ := hfound
  have hfirst : threeMonths.rule.expand earlyDays 10 (some (2 + x.size + 1)) =
      .ok (found.take (2 + x.size + 1)) := Rule.expand_take hv hf (Nat.succ_pos _) nofun
  have he : ∃ e, threeMonths.expand earlyDays ⟨10, some 2⟩ = .ok e :=
    ⟨_, RuleSet.expand_limited_eq_ok_iff.mpr ⟨x, hx, _, hfirst, rfl⟩⟩
  obtain ⟨e, he⟩ := he
  have h := occurrencesBetween_eq_ok_iff.mpr ⟨threeMonths, earlyDays, e, hs, hw, he, rfl⟩
  obtain ⟨s, w, times, -, -, -, hlt, hlists, hconfines⟩ := occurrencesBetween_ok _ _ _ _ _ h
  refine ⟨_, h, s, w, times, hlt, hlists, hconfines ?_⟩
  intro text htext line hline hkind
  rcases List.mem_pair.mp htext with rfl | rfl
  · cases hline
    cases hkind
  · cases hline
    cases hkind

end Recurrence
