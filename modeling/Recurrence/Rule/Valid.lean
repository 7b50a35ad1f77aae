import Recurrence.Rule.Error

/-!
# Rules that make sense

`Rule.check` refuses a rule for the first fault in a fixed order; `Rule.check_eq_ok_iff` says that
it refuses exactly the rules that are not `Rule.Valid`.
-/

namespace Recurrence

set_option autoImplicit false

theorem bind_eq_ok_iff {α β ε : Type} {x : Except ε α} {f : α → Except ε β} {b : β} :
    (x >>= f) = .ok b ↔ ∃ a, x = .ok a ∧ f a = .ok b := by
  cases x with
  | error e =>
    constructor
    · intro h
      cases h
    · intro h
      obtain ⟨a, h, -⟩ := h
      cases h
  | ok a =>
    constructor
    · intro h
      exact ⟨a, rfl, h⟩
    · intro h
      obtain ⟨_, ⟨⟩, h⟩ := h
      exact h

structure Bounds where
  low : Int
  high : Int
  zeroExcluded : Bool

namespace Bounds

def Holds (b : Bounds) (n : Int) : Prop :=
  b.low ≤ n ∧ n ≤ b.high ∧ (b.zeroExcluded = true → n ≠ 0)

instance (b : Bounds) (n : Int) : Decidable (b.Holds n) := by unfold Holds; infer_instance

/-- Refuses the first value out of bounds. -/
def check (b : Bounds) (field : Field) : List Int → Except RuleError Unit
  | [] => .ok ()
  | n :: rest =>
    if b.Holds n then b.check field rest
    else .error (.invalidValue field.name (.outside n b.low b.high b.zeroExcluded))

theorem check_eq_ok_iff {b : Bounds} {field : Field} {values : List Int} :
    b.check field values = .ok () ↔ ∀ n ∈ values, b.Holds n := by
  induction values with
  | nil => simp [check]
  | cons n rest ih =>
    by_cases h : b.Holds n <;> simp [check, h, ih]

def month : Bounds := ⟨1, 12, false⟩

def monthDay : Bounds := ⟨-31, 31, true⟩

def yearDay : Bounds := ⟨-366, 366, true⟩

def hour : Bounds := ⟨0, 23, false⟩

def minute : Bounds := ⟨0, 59, false⟩

def position : Bounds := ⟨-366, 366, true⟩

end Bounds

namespace Rule

def integers (values : OrderedSet Nat) : List Int := values.toList.map Int.ofNat

def hasOrdinal (r : Rule) : Bool := r.byDay.toList.any fun day => day.ordinal.isSome

def allowsOrdinal : Frequency → Bool
  | .monthly | .yearly => true
  | _ => false

def allowsYearDay : Frequency → Bool
  | .daily | .weekly | .monthly => false
  | _ => true

structure Valid (r : Rule) : Prop where
  interval_pos : r.interval ≠ 0
  count_pos : r.count ≠ some 0
  one_limit : r.count = none ∨ r.last = none
  month_mem : ∀ n ∈ integers r.byMonth, Bounds.month.Holds n
  monthDay_mem : ∀ n ∈ r.byMonthDay.toList, Bounds.monthDay.Holds n
  yearDay_mem : ∀ n ∈ r.byYearDay.toList, Bounds.yearDay.Holds n
  hour_mem : ∀ n ∈ integers r.byHour, Bounds.hour.Holds n
  minute_mem : ∀ n ∈ integers r.byMinute, Bounds.minute.Holds n
  second_mem : ∀ n ∈ integers r.bySecond, Bounds.minute.Holds n
  position_mem : ∀ n ∈ r.byPosition.toList, Bounds.position.Holds n
  ordinal_scope : r.hasOrdinal = true → allowsOrdinal r.frequency = true
  yearDay_scope : r.byYearDay.isEmpty = true ∨ allowsYearDay r.frequency = true
  monthDay_scope : r.byMonthDay.isEmpty = true ∨ r.frequency ≠ .weekly
  position_scope : r.byPosition.isEmpty = true ∨ r.hasByPart = true

def require (condition : Prop) [Decidable condition] (error : RuleError) : Except RuleError Unit :=
  if condition then .ok () else .error error

def check (r : Rule) : Except RuleError Unit := do
  require (r.interval ≠ 0) (.invalidValue Field.interval.name .notPositive)
  require (r.count ≠ some 0) (.invalidValue Field.count.name .notPositive)
  require (r.count = none ∨ r.last = none) .countWithLast
  Bounds.month.check .byMonth (integers r.byMonth)
  Bounds.monthDay.check .byMonthDay r.byMonthDay.toList
  Bounds.yearDay.check .byYearDay r.byYearDay.toList
  Bounds.hour.check .byHour (integers r.byHour)
  Bounds.minute.check .byMinute (integers r.byMinute)
  Bounds.minute.check .bySecond (integers r.bySecond)
  Bounds.position.check .bySetPos r.byPosition.toList
  require (r.hasOrdinal = true → allowsOrdinal r.frequency = true)
    (.invalidValue Field.byDay.name (.ordinalNeedsMonth r.frequency))
  require (r.byYearDay.isEmpty = true ∨ allowsYearDay r.frequency = true)
    (.invalidValue Field.byYearDay.name (.notWith r.frequency))
  require (r.byMonthDay.isEmpty = true ∨ r.frequency ≠ .weekly)
    (.invalidValue Field.byMonthDay.name (.notWith r.frequency))
  require (r.byPosition.isEmpty = true ∨ r.hasByPart = true)
    (.invalidValue Field.bySetPos.name .needsByPart)

theorem require_eq_ok_iff {condition : Prop} [Decidable condition] {error : RuleError} :
    require condition error = .ok () ↔ condition := by
  unfold require
  split <;> simp_all

theorem seq_eq_ok_iff {first : Except RuleError Unit} {rest : Unit → Except RuleError Unit} :
    (first >>= rest) = .ok () ↔ first = .ok () ∧ rest () = .ok () := by
  rw [bind_eq_ok_iff]
  constructor
  · intro h
    obtain ⟨_, h⟩ := h
    exact h
  · intro h
    exact ⟨(), h⟩

theorem check_eq_ok_iff {r : Rule} : r.check = .ok () ↔ r.Valid := by
  simp only [check, seq_eq_ok_iff, require_eq_ok_iff, Bounds.check_eq_ok_iff]
  constructor
  · rintro ⟨h₁, h₂, h₃, h₄, h₅, h₆, h₇, h₈, h₉, h₁₀, h₁₁, h₁₂, h₁₃, h₁₄⟩
    exact ⟨h₁, h₂, h₃, h₄, h₅, h₆, h₇, h₈, h₉, h₁₀, h₁₁, h₁₂, h₁₃, h₁₄⟩
  · rintro ⟨h₁, h₂, h₃, h₄, h₅, h₆, h₇, h₈, h₉, h₁₀, h₁₁, h₁₂, h₁₃, h₁₄⟩
    exact ⟨h₁, h₂, h₃, h₄, h₅, h₆, h₇, h₈, h₉, h₁₀, h₁₁, h₁₂, h₁₃, h₁₄⟩

instance (r : Rule) : Decidable r.Valid :=
  match h : r.check with
  | .ok () => isTrue (check_eq_ok_iff.1 h)
  | .error _ => isFalse fun hv => by rw [check_eq_ok_iff.2 hv] at h; cases h

end Rule

end Recurrence
