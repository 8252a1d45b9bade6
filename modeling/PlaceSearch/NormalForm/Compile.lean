import PlaceSearch.NormalForm.Dnf
import PlaceSearch.Query.Parser

/-!
# Compiling queries into clauses

A query is compiled into the clauses of its normal form, unless it has too many terms or the form
becomes too large.  The terms of all clauses together are those to include and those to exclude.
-/

namespace PlaceSearch

/-- Caps on the distinct terms of a query and on the clauses it may expand to. -/
structure Limits where
  maxTerms : Nat := 26
  maxClauses : Nat := 512
deriving DecidableEq, Repr

/-- The clauses of an expression: a disjunction that says the same. -/
def compileExpr (limits : Limits) (e : Expr) : Except Error (List Clause) :=
  match SymbolTable.ofExpr e limits.maxTerms with
  | .error err => .error err
  | .ok table => (Dnf.ofExpr e table limits.maxClauses).map table.decompose

/-- The clauses of a query text. -/
def compile (limits : Limits) (query : String) : Except Error (List Clause) :=
  match parse query with
  | .error err => .error err
  | .ok e => compileExpr limits e

/-- The texts to include and the texts to exclude, over all clauses; a text that occurs in
both is left out of both. -/
def reduceClauses (cs : List Clause) : List String × List String :=
  let included := Sorted.ofList (cs.flatMap (·.included.map (·.text)))
  let excluded := Sorted.ofList (cs.flatMap (·.excluded.map (·.text)))
  (included.filter (!excluded.contains ·), excluded.filter (!included.contains ·))

/-- The texts to include and the texts to exclude, over all clauses of a query. -/
def reduce (limits : Limits) (query : String) : Except Error (List String × List String) :=
  (compile limits query).map reduceClauses

end PlaceSearch
