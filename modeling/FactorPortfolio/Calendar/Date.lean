/-! # Dates

A date is a day of the Gregorian calendar, held as the number of days since 1 March of year 0.
The calendar reaches from 1 January −262143 to 31 December 262142. Moving by days is arithmetic
on the number; `earliest` and `latest` are where a move is cut short by `back` and `ahead`. In
ascending dates a date is looked up by halving.
-/

namespace FactorPortfolio

structure Date where
  day : Int
  inRange : -95745824 ≤ day ∧ day ≤ 95745704
  deriving DecidableEq

namespace Date

instance : Ord Date := ⟨compareOn day⟩

instance : Std.TransOrd Date := inferInstanceAs (Std.TransCmp (compareOn day))

instance : Std.LawfulEqOrd Date where
  compare_self {a} := Std.ReflOrd.compare_self (a := a.day)
  eq_of_compare {a b} h := by
    obtain ⟨x, hx⟩ := a
    obtain ⟨y, hy⟩ := b
    have : x = y := Std.LawfulEqOrd.eq_of_compare h
    subst this
    rfl

instance : LT Date := ⟨fun a b => a.day < b.day⟩

instance : LE Date := ⟨fun a b => a.day ≤ b.day⟩

instance : DecidableLT Date := fun a b => inferInstanceAs (Decidable (a.day < b.day))

instance : DecidableLE Date := fun a b => inferInstanceAs (Decidable (a.day ≤ b.day))

theorem lt_def {a b : Date} : a < b ↔ a.day < b.day := .rfl

theorem le_def {a b : Date} : a ≤ b ↔ a.day ≤ b.day := .rfl

theorem day_injective {a b : Date} (h : a.day = b.day) : a = b := by
  obtain ⟨_, _⟩ := a
  obtain ⟨_, _⟩ := b
  cases h
  rfl

def earliest : Date := ⟨-95745824, by decide⟩

def latest : Date := ⟨95745704, by decide⟩

instance : Inhabited Date := ⟨earliest⟩

/-- The date with a day number, if the calendar reaches so far. -/
def ofDay? (n : Int) : Option Date :=
  if h : -95745824 ≤ n ∧ n ≤ 95745704 then some ⟨n, h⟩ else none

/-- The date `n` days later; earlier for a negative `n`. -/
def addDays? (d : Date) (n : Int) : Option Date := ofDay? (d.day + n)

/-- The date `n` days before, and the earliest date where there is none. -/
def back (d : Date) (n : Int) : Date := (d.addDays? (-n)).getD earliest

/-- The date `n` days after, and the latest date where there is none. -/
def ahead (d : Date) (n : Int) : Date := (d.addDays? n).getD latest

def min (a b : Date) : Date := if a ≤ b then a else b

def max (a b : Date) : Date := if a ≤ b then b else a

def daysBetween (a b : Date) : Int := b.day - a.day

/-- Whether `d` is in a list of ascending dates. The list is halved until one date is left: the
second half stays if it starts with no later date than `d`, else the first. -/
def isIn (d : Date) (days : List Date) : Bool :=
  match days with
  | [] => false
  | [e] => e == d
  | e :: e' :: rest =>
    let half := (rest.length + 2) / 2
    if (((e :: e' :: rest)[half]?).getD e) ≤ d then isIn d ((e :: e' :: rest).drop half)
    else isIn d ((e :: e' :: rest).take (rest.length + 2 - half))
termination_by days.length
decreasing_by
  all_goals simp only [List.length_drop, List.length_take, List.length_cons]
  all_goals omega

end Date

end FactorPortfolio
