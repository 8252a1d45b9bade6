import PlaceSearch.Error
import PlaceSearch.NormalForm.Conjunction
import PlaceSearch.Query.Clause
import PlaceSearch.Query.Expr

/-!
# Symbols for terms

The distinct terms of an expression are numbered in order of appearance.  A mask has room for
64 symbols, so no table holds more terms.

## Main definitions

* `SymbolTable` — the terms by symbol.
* `SymbolTable.ofExpr` — the table of an expression, within a cap.
* `SymbolTable.symbol?`, `SymbolTable.term?` — the two directions.
* `SymbolTable.render` — the text of a disjunction of conjunctions over symbols.
* `SymbolTable.decompose` — its clauses over terms.
-/

namespace PlaceSearch

/-- The number of symbols a mask has room for. -/
def symbolSpace : Nat := 64

/-- The terms of an expression; a term's symbol is its place. -/
structure SymbolTable where
  terms : List Term
deriving Repr

namespace SymbolTable

/-- The table of the distinct terms of an expression, if there are not more than `cap` and a
mask has room for them. -/
def ofExpr (e : Expr) (cap : Nat) : Except Error SymbolTable :=
  let terms := e.terms
  let cap := min cap symbolSpace
  if terms.length > cap then .error (.tooManyTerms terms.length cap) else .ok ⟨terms⟩

/-- The symbol of a term. -/
def symbol? (t : SymbolTable) (u : Term) : Option Nat :=
  t.terms.idxOf? u

/-- The term of a symbol. -/
def term? (t : SymbolTable) (s : Nat) : Option Term :=
  t.terms[s]?

def size (t : SymbolTable) : Nat :=
  t.terms.length

/-- The name of a symbol: a letter for the first twenty-six, a number beyond. -/
def symbolName (s : Nat) : String :=
  if s < 26 then String.singleton (Char.ofNat ('a'.toNat + s)) else "s" ++ toString s

/-- The text of a conjunction over symbols. -/
def renderConjunction (c : Conjunction) : String :=
  let names := (List.range symbolSpace).flatMap fun s =>
    (if c.pos.testBit s then [symbolName s] else [])
      ++ (if c.neg.testBit s then ["~" ++ symbolName s] else [])
  if names.isEmpty then "true" else " & ".intercalate names

/-- The text of a disjunction of conjunctions over symbols. -/
def render (cs : List Conjunction) : String :=
  if cs.isEmpty then "false" else " | ".intercalate (cs.map renderConjunction)

/-- The literals of a conjunction over the terms of the table, by symbol. -/
def literals (t : SymbolTable) (c : Conjunction) : List Literal :=
  t.terms.zipIdx.flatMap fun (u, s) =>
    (if c.pos.testBit s then [⟨u, false⟩] else [])
      ++ (if c.neg.testBit s then [⟨u, true⟩] else [])

/-- The clauses of a disjunction over symbols; contradictions are left out. -/
def decompose (t : SymbolTable) (cs : List Conjunction) : List Clause :=
  cs.filterMap fun c => Clause.ofLiterals? (t.literals c)

end SymbolTable

end PlaceSearch
