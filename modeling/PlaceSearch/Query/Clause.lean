import PlaceSearch.Query.Term

/-!
# Clauses

A clause is a conjunction of terms and negated terms; a list of clauses is read as their
disjunction.  The terms of a clause are kept as two increasing lists, so that equal clauses
are equal values.

## Main definitions

* `Literal` — a term or a negated term.
* `Clause` — the included and the excluded terms.
* `Clause.ofLiterals?` — the conjunction of literals, unless one contradicts another.
* `Clause.eval`, `Clause.evalAny` — truth of a clause and of a disjunction of clauses.
* `Clause.kind` — whether the clause is over categories, phrases or both.
* `Clause.render`, `Clause.renderAll` — its text and the text of a disjunction.
-/

namespace PlaceSearch

/-- A term or a negated term. -/
structure Literal where
  term : Term
  negated : Bool
deriving DecidableEq, Repr

def Literal.render (l : Literal) : String :=
  if l.negated then "~" ++ l.term.render else l.term.render

/-- The kinds of terms in a clause. -/
inductive ClauseKind where
  | category
  | phrase
  | mixed
deriving DecidableEq, Repr

/-- A conjunction: all included terms hold and no excluded one does. -/
structure Clause where
  included : List Term
  excluded : List Term
deriving DecidableEq, Repr

namespace Clause

/-- The conjunction of literals, unless a term occurs with both signs. -/
def ofLiterals? (ls : List Literal) : Option Clause :=
  let included := Sorted.ofList ((ls.filter (!·.negated)).map (·.term))
  let excluded := Sorted.ofList ((ls.filter (·.negated)).map (·.term))
  if included.any excluded.contains then none else some ⟨included, excluded⟩

/-- The literals: included terms first, each group in order. -/
def literals (c : Clause) : List Literal :=
  c.included.map (⟨·, false⟩) ++ c.excluded.map (⟨·, true⟩)

def terms (c : Clause) : List Term :=
  c.included ++ c.excluded

/-- The truth of a clause under an assignment of the terms. -/
def eval (holds : Term → Bool) (c : Clause) : Bool :=
  c.included.all holds && c.excluded.all (!holds ·)

/-- The truth of a disjunction of clauses. -/
def evalAny (holds : Term → Bool) (cs : List Clause) : Bool :=
  cs.any (eval holds)

def size (c : Clause) : Nat :=
  c.included.length + c.excluded.length

/-- Whether the clause has no literal; it is then true. -/
def isEmpty (c : Clause) : Bool :=
  c.size == 0

/-- Whether the clause is a single literal. -/
def isSimple (c : Clause) : Bool :=
  c.size == 1

/-- The kinds of terms in the clause; a clause without terms counts as one over
categories. -/
def kind (c : Clause) : ClauseKind :=
  match c.terms with
  | [] => .category
  | t :: ts =>
    if ts.all (·.kind = t.kind) then
      match t.kind with
      | .category => .category
      | .phrase => .phrase
    else .mixed

def render (c : Clause) : String :=
  if c.isEmpty then "true" else " & ".intercalate (c.literals.map Literal.render)

def renderAll (cs : List Clause) : String :=
  if cs.isEmpty then "false" else " | ".intercalate (cs.map render)

end Clause

end PlaceSearch
