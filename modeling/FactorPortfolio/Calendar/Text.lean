import FactorPortfolio.Calendar.Civil
import FactorPortfolio.Decimal.Digits
import FactorPortfolio.Text.Blank

/-! # Dates as text

A date is written as year, month and day with hyphens: four digits for the years 0 to 9999, a
sign and at least four digits for the others. Blanks may stand before each number when a date is
read; the spaced form, which command lines and rows of files take, allows them after each number
as well.
-/

namespace FactorPortfolio.Date

open Text Decimal

def yearText (year : Int) : String :=
  if 0 ≤ year ∧ year ≤ 9999 then padded 4 year.toNat
  else (if year < 0 then "-" else "+") ++ padded 4 year.natAbs

def text (d : Date) : String :=
  let c := d.civil
  yearText c.year ++ "-" ++ padded 2 c.month ++ "-" ++ padded 2 c.day

/-- Reads one to `most` digits after blanks. -/
def readNumber? (most : Nat) (cs : List Char) : Option (Nat × List Char) :=
  let cs := skipBlanks cs
  match (cs.take most).takeWhile isDigit with
  | [] => none
  | ds => some (ofDigits ds, cs.drop ds.length)

/-- Reads a year after blanks: one to four digits, or any number of digits after a sign. -/
def readYear? (cs : List Char) : Option (Int × List Char) :=
  match skipBlanks cs with
  | '-' :: rest => (readSigned rest).map fun (n, r) => (-(n : Int), r)
  | '+' :: rest => (readSigned rest).map fun (n, r) => ((n : Int), r)
  | cs => (readNumber? 4 cs).map fun (n, r) => ((n : Int), r)
where
  readSigned (cs : List Char) : Option (Nat × List Char) :=
    match cs.takeWhile isDigit with
    | [] => none
    | ds => some (ofDigits ds, cs.drop ds.length)

def readHyphen? : List Char → Option (List Char)
  | '-' :: rest => some rest
  | _ => none

/-- Reads a whole text as a date; `gap` is what is passed over after each number. -/
def read? (gap : List Char → List Char) (cs : List Char) : Option Date := do
  let (year, cs) ← readYear? cs
  let cs ← readHyphen? (gap cs)
  let (month, cs) ← readNumber? 2 cs
  let cs ← readHyphen? (gap cs)
  let (day, cs) ← readNumber? 2 cs
  if (gap cs).isEmpty then ofCivil? year month day else none

/-- Reads a date with nothing between its numbers and the hyphens that follow them. -/
def ofText? (s : String) : Option Date := read? id s.toList

/-- Reads a date that may have blanks after each of its numbers. -/
def ofSpacedText? (s : String) : Option Date := read? skipBlanks s.toList

end FactorPortfolio.Date
