import FactorPortfolio.Scalar.Binary64
import FactorPortfolio.Store.Memory
import FactorPortfolio.Text.Case
import FactorPortfolio.Text.Csv

/-! # A store filled from files

A directory holds `prices.csv` with the columns symbol, date and price, and may hold
`fundamentals.csv` with a symbol, a date and four figures that can be left empty. All rows are
read before the first price is looked at; symbols are put into upper case.
-/

namespace FactorPortfolio

inductive FileContent where
  | absent
  /-- Something that is no text, a folder for one. -/
  | unreadable
  | text (content : String)
  deriving DecidableEq

namespace FileStore

open Text

structure PriceRow where
  symbol : Symbol
  date : Date
  price : Float

structure FundamentalsRow where
  symbol : Symbol
  date : Date
  record : Fundamentals Float

def priceRow? (header row : List String) : Option PriceRow := do
  let symbol ← Csv.field? header row "symbol"
  let date ← Date.ofSpacedText? (← Csv.field? header row "date")
  let price ← Binary64.read? (← Csv.field? header row "price")
  return ⟨symbol, date, price⟩

/-- A figure that may be absent; a field that is no number is refused. -/
def figure? (header row : List String) (name : String) : Option (Option Float) := do
  match ← Csv.optionalField? header row name with
  | none => return none
  | some field => return some (← Binary64.read? field)

def fundamentalsRow? (header row : List String) : Option FundamentalsRow := do
  let symbol ← Csv.field? header row "symbol"
  let date ← Date.ofSpacedText? (← Csv.field? header row "date")
  let shares ← figure? header row "shares_outstanding"
  let eps ← figure? header row "eps"
  let assets ← figure? header row "total_assets"
  let liabilities ← figure? header row "total_liabilities"
  return ⟨symbol, date, ⟨shares, eps, assets, liabilities⟩⟩

/-- The rows of a file, which has to be there and to be text. -/
def readRows {β : Type} (read : List String → List String → Option β) (path : String) :
    FileContent → Except StoreError (List β)
  | .text content =>
    match Csv.records? read content with
    | some rows => .ok rows
    | none => .error (.badRow path)
  | .absent | .unreadable => .error (.unreadableFile path)

/-- A price is finite and greater than zero. -/
def insertPriceRow (path : String) (s : MemoryStore Float) (row : PriceRow) :
    Except StoreError (MemoryStore Float) :=
  if !row.price.isFinite || row.price ≤ 0 then
    .error (.invalidPrice path (Scalar.text row.price) row.symbol row.date)
  else .ok (s.insertPrice (upper row.symbol) row.date row.price)

def insertFundamentalsRow (s : MemoryStore Float) (row : FundamentalsRow) : MemoryStore Float :=
  s.insertFundamentals (upper row.symbol) row.date row.record

/-- Reads the figures of a file into a store. -/
def addFundamentals (path : String) (content : FileContent) (s : MemoryStore Float) :
    Except StoreError (MemoryStore Float) :=
  return (← readRows fundamentalsRow? path content).foldl insertFundamentalsRow s

/-- Fills a store from the two files. The first has to be there; the second may be absent, but
what is there has to be readable. -/
def load (minSymbols : Nat) (pricesPath : String) (prices : FileContent)
    (fundamentalsPath : String) (fundamentals : FileContent) :
    Except StoreError (MemoryStore Float) := do
  let rows ← readRows priceRow? pricesPath prices
  let store ← rows.foldlM (insertPriceRow pricesPath) (.empty minSymbols)
  match fundamentals with
  | .absent => return store
  | content => addFundamentals fundamentalsPath content store

end FileStore

end FactorPortfolio
