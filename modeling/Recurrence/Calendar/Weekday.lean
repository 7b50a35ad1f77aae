/-!
# Days of the week
-/

namespace Recurrence.Calendar

set_option autoImplicit false

inductive Weekday
  | monday | tuesday | wednesday | thursday | friday | saturday | sunday
deriving DecidableEq, Repr, Inhabited

namespace Weekday

def all : List Weekday := [monday, tuesday, wednesday, thursday, friday, saturday, sunday]

/-- Days since Monday. -/
def fromMonday : Weekday → Nat
  | monday => 0
  | tuesday => 1
  | wednesday => 2
  | thursday => 3
  | friday => 4
  | saturday => 5
  | sunday => 6

/-- The weekday that many days after a Monday. -/
def ofMonday (n : Nat) : Weekday :=
  match n % 7 with
  | 0 => monday
  | 1 => tuesday
  | 2 => wednesday
  | 3 => thursday
  | 4 => friday
  | 5 => saturday
  | _ => sunday

def code : Weekday → List Char
  | monday => ['M', 'O']
  | tuesday => ['T', 'U']
  | wednesday => ['W', 'E']
  | thursday => ['T', 'H']
  | friday => ['F', 'R']
  | saturday => ['S', 'A']
  | sunday => ['S', 'U']

def ofCode? (text : List Char) : Option Weekday :=
  all.find? fun day => day.code = text.map Char.toUpper

/-- Weeks are ordered from Monday. -/
instance : LT Weekday := ⟨fun a b => a.fromMonday < b.fromMonday⟩

instance : DecidableLT Weekday := fun a b =>
  inferInstanceAs (Decidable (a.fromMonday < b.fromMonday))

theorem mem_all (day : Weekday) : day ∈ all := by cases day <;> decide

@[simp] theorem ofCode?_code (day : Weekday) : ofCode? day.code = some day := by
  cases day <;> decide

@[simp] theorem ofMonday_fromMonday (day : Weekday) : ofMonday day.fromMonday = day := by
  cases day <;> rfl

theorem fromMonday_ofMonday (n : Nat) : (ofMonday n).fromMonday = n % 7 := by
  have h : n % 7 < 7 := Nat.mod_lt _ (by decide)
  unfold ofMonday
  generalize n % 7 = r at h
  match r, h with
  | 0, _ | 1, _ | 2, _ | 3, _ | 4, _ | 5, _ | 6, _ => rfl
  | r + 7, h => omega

theorem fromMonday_inj {a b : Weekday} (h : a.fromMonday = b.fromMonday) : a = b := by
  rw [← ofMonday_fromMonday a, h, ofMonday_fromMonday]

end Weekday

end Recurrence.Calendar
