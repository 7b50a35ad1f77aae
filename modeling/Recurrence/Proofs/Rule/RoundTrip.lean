import Recurrence.Proofs.Rule.Parts

/-!
# Rules that are written and read

A text can tell a rule if the rule is `Plain`: valid, without an anchor, and with an end, if any,
that a text can tell. Writing and reading are inverse on the plain rules and on no other: a rule that
is read from any text is plain (`Rule.plain_of_parse`), and a plain rule is read back from its own
text (`Rule.parse_chars`).
-/

namespace Recurrence

set_option autoImplicit false

open Calendar Text

namespace Rule

variable {r : Rule} {cs : List Char}

/-- Whether a text can tell the rule. -/
structure Plain (r : Rule) : Prop extends Valid r where
  anchor_eq : r.anchor = none
  last_plain : ∀ t ∈ r.last, t.Plain
  ordinal_mem : ∀ day ∈ r.byDay.toList, ∀ n ∈ day.ordinal, n ≠ 0 ∧ -53 ≤ n ∧ n ≤ 53

instance (r : Rule) : Decidable r.Plain :=
  decidable_of_iff (r.Valid ∧ r.anchor = none ∧ (∀ t ∈ r.last, t.Plain) ∧
      ∀ day ∈ r.byDay.toList, ∀ n ∈ day.ordinal, n ≠ 0 ∧ -53 ≤ n ∧ n ≤ 53)
    ⟨fun ⟨hv, ha, hl, ho⟩ => ⟨hv, ha, hl, ho⟩,
      fun h => ⟨h.toValid, h.anchor_eq, h.last_plain, h.ordinal_mem⟩⟩

/-- Whether the interval and the count are numbers of 32 bits. The values of the BY parts of a plain
rule are smaller still. -/
structure Sized (r : Rule) : Prop where
  interval_le : r.interval ≤ 4294967295
  count_le : ∀ n ∈ r.count, n ≤ 4294967295

instance (r : Rule) : Decidable r.Sized :=
  decidable_of_iff (r.interval ≤ 4294967295 ∧ ∀ n ∈ r.count, n ≤ 4294967295)
    ⟨fun ⟨hi, hc⟩ => ⟨hi, hc⟩, fun h => ⟨h.interval_le, h.count_le⟩⟩

theorem readFrequency_entries (r : Rule) : readFrequency r.entries = .ok r.frequency := by
  rw [readFrequency_eq, value?_entries]
  dsimp only [value?]
  rw [Frequency.ofKeyword?_keyword]

theorem le_of_mem_integers {values : OrderedSet Nat} {b : Bounds} {max : Nat}
    (h : ∀ n ∈ integers values, b.Holds n) (hb : b.high ≤ max) : ∀ n ∈ values.toList, n ≤ max := by
  intro n hn
  have := (h n (List.mem_map_of_mem hn)).2.1
  omega

theorem ofEntries_entries (h : r.Plain) (hs : r.Sized) : ofEntries r.entries = .ok r := by
  have hinterval : readField r.entries .interval 1 readPositive = .ok r.interval :=
    readField_default rfl (readPositive_digits hs.interval_le)
  have hcount :
      readField r.entries .count none (fun cs => some <$> readPositive cs) = .ok r.count :=
    readField_option rfl fun n hn => readPositive_digits (hs.count_le n hn)
  have hlast :
      readField r.entries .last none (fun cs => some <$> readTimestamp cs) = .ok r.last :=
    readField_option rfl fun t ht => readTimestamp_chars (h.last_plain t ht)
  have hstart : readField r.entries .wkst .monday readWeekday = .ok r.weekStart :=
    readField_default rfl (readWeekday_code r.weekStart)
  have hday : readField r.entries .byDay {} (readSet readNthWeekday) = .ok r.byDay :=
    readField_list rfl isWord_nthWeekday fun d hd => readNthWeekday_chars (h.ordinal_mem d hd)
  -- the bounds of a valid rule are narrower than those of the numbers that are read
  have hnat {f : Field} {values : OrderedSet Nat} {b : Bounds}
      (hv : r.value? f = listValue? digits values) (hm : ∀ n ∈ integers values, b.Holds n)
      (hb : b.high ≤ (255 : Nat)) :
      readField r.entries f {} (readSet (readUnsigned 255)) = .ok values :=
    readField_list hv isWord_digits fun n hn => readUnsigned_digits (le_of_mem_integers hm hb n hn)
  have hint {f : Field} {values : OrderedSet Int} {b : Bounds} {low high : Int}
      (hv : r.value? f = listValue? integer values) (hm : ∀ n ∈ values.toList, b.Holds n)
      (hlow : low ≤ b.low) (hhigh : b.high ≤ high) :
      readField r.entries f {} (readSet (readSigned low high)) = .ok values :=
    readField_list hv isWord_integer fun n hn =>
      readSigned_integer (hlow.trans (hm n hn).1) ((hm n hn).2.1.trans hhigh)
  rw [ofEntries, readFrequency_entries, hinterval, hcount, hlast, hstart, hday,
    hint rfl h.monthDay_mem (by decide) (by decide), hnat rfl h.month_mem (by decide),
    hint rfl h.yearDay_mem (by decide) (by decide), hnat rfl h.hour_mem (by decide),
    hnat rfl h.minute_mem (by decide), hnat rfl h.second_mem (by decide),
    hint rfl h.position_mem (by decide) (by decide)]
  have ha := h.anchor_eq
  cases r
  cases ha
  rfl

theorem parse_chars (h : r.Plain) (hs : r.Sized) : parse r.chars = .ok r := by
  rw [parse, collect_chars]
  dsimp only [bind, Except.bind]
  rw [ofEntries_entries h hs]
  dsimp only
  rw [check_eq_ok_iff.mpr h.toValid]
  rfl

section Read

variable {α : Type} {P : α → Prop} {es : List Entry} {f : Field} {a d : α}
  {read : List Char → Except Fault α}

/-- What holds of a default value and of all values that are read holds of the value of a field. -/
theorem forall_of_readField (hd : P d) (hr : ∀ cs a, read cs = .ok a → P a)
    (h : readField es f d read = .ok a) : P a := by
  rw [readField_eq] at h
  split at h
  · cases h
    exact hd
  · cases h
  · exact hr _ a (mapError_eq_ok_iff.mp h)

theorem forall_of_readField_option {o : Option α} (hr : ∀ cs a, read cs = .ok a → P a)
    (h : readField es f none (fun cs => some <$> read cs) = .ok o) : ∀ a ∈ o, P a := by
  refine forall_of_readField (P := fun o => ∀ a ∈ o, P a) ?_ ?_ h
  · rintro a ⟨⟩
  · intro cs o ho
    obtain ⟨b, hb, rfl⟩ := map_eq_ok_iff.mp ho
    rintro a ⟨⟩
    exact hr cs b hb

end Read

theorem plain_of_parse (h : parse cs = .ok r) : r.Plain ∧ r.Sized := by
  obtain ⟨es, _, h⟩ := bind_eq_ok_iff.mp h
  obtain ⟨r', hr, h⟩ := bind_eq_ok_iff.mp h
  obtain ⟨_, hc, he⟩ := bind_eq_ok_iff.mp h
  cases he
  simp only [ofEntries, bind_eq_ok_iff] at hr
  obtain ⟨_, -, _, hi, _, hn, _, hl, _, -, _, hd, _, -, _, -, _, -, _, -, _, -, _, -, _, -, he⟩ :=
    hr
  cases he
  constructor
  · exact {
      toValid := check_eq_ok_iff.mp hc
      anchor_eq := rfl
      last_plain := forall_of_readField_option (fun _ _ => plain_of_readTimestamp) hl
      ordinal_mem := forall_of_readField (P := fun days => ∀ day ∈ days.toList, _)
        (by rintro _ ⟨⟩) (fun _ _ => forall_of_readSet fun _ _ => ordinal_of_readNthWeekday) hd }
  · exact {
      interval_le := forall_of_readField (P := (· ≤ 4294967295)) (by decide)
        (fun _ _ => le_of_readPositive) hi
      count_le := forall_of_readField_option (fun _ _ => le_of_readPositive) hn }

/-- Writing and reading are inverse on the plain rules: they alone are read back from their texts,
so two of them have different texts, and a text that can be read tells the same rule as the text
that is written for it. -/
theorem parse_text_iff_plain :
    (∀ r : Rule, r.Sized → (parse r.text.toList = .ok r ↔ r.Plain)) ∧
      (∀ r r' : Rule, r.Sized → r.Plain → r'.Sized → r'.Plain → r.text = r'.text → r = r') ∧
      ∀ (s : String) (r : Rule), parse s.toList = .ok r → parse r.text.toList = .ok r := by
  have hchars (r : Rule) : r.text.toList = r.chars := String.toList_ofList
  refine ⟨?_, ?_, ?_⟩
  · intro r hs
    rw [hchars]
    exact ⟨fun h => (plain_of_parse h).1, fun h => parse_chars h hs⟩
  · intro r r' hs h hs' h' he
    have hr : parse r.text.toList = .ok r := by rw [hchars]; exact parse_chars h hs
    have hr' : parse r'.text.toList = .ok r' := by rw [hchars]; exact parse_chars h' hs'
    rw [he, hr'] at hr
    exact (Except.ok.inj hr).symm
  · intro s r h
    obtain ⟨hp, hs⟩ := plain_of_parse h
    rw [hchars]
    exact parse_chars hp hs

/-- Second Tuesdays and last Fridays of every other month up to June 2025, the first day in each. -/
def tuesdayOrFriday : Rule where
  frequency := .monthly
  interval := 2
  last := some (.startOfDay ⟨yearStart 2025 + 151, by decide, by decide⟩)
  byDay := .ofList [⟨some 2, .tuesday⟩, ⟨some (-1), .friday⟩]
  byPosition := .singleton 1

theorem parse_text_tuesdayOrFriday : tuesdayOrFriday.Sized ∧ tuesdayOrFriday.Plain ∧
    parse "FREQ=MONTHLY;INTERVAL=2;UNTIL=2025-06-01;BYDAY=-1FR,2TU;BYSETPOS=1".toList =
      .ok tuesdayOrFriday ∧
    (∀ r : Rule, r.Sized → r.Plain → r ≠ tuesdayOrFriday → r.text ≠ tuesdayOrFriday.text) ∧
    parse
      "bysetpos=01; byday=+2tu, -1fr;;until=2025-06-01T00:00:00;interval=2;freq=monthly".toList =
        .ok tuesdayOrFriday ∧
    parse tuesdayOrFriday.text.toList = .ok tuesdayOrFriday := by
  obtain ⟨hback, hinj, hagain⟩ := parse_text_iff_plain
  have hs : tuesdayOrFriday.Sized := by decide
  have hp : tuesdayOrFriday.Plain := by decide
  have hread : parse
      "bysetpos=01; byday=+2tu, -1fr;;until=2025-06-01T00:00:00;interval=2;freq=monthly".toList =
        .ok tuesdayOrFriday := rfl
  exact ⟨hs, hp, (hback tuesdayOrFriday hs).mpr hp,
    fun r hrs hrp hne he => hne (hinj r tuesdayOrFriday hrs hrp hs hp he), hread,
    hagain _ _ hread⟩

end Rule

end Recurrence
