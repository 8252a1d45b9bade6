import PlaceSearch.Query.Term

/-!
# Boolean expressions

The tree of a query: terms under negations, conjunctions and disjunctions with any number of
operands.

## Main definitions

* `Expr` — a tree.
* `Expr.eval` — its truth under an assignment of the terms.
* `Expr.terms` — its distinct terms, in order of first appearance.
* `Expr.render` — its text, fully parenthesised.
-/

namespace PlaceSearch

/-- A boolean expression over terms. -/
inductive Expr where
  | atom (t : Term)
  | not (e : Expr)
  | and (es : List Expr)
  | or (es : List Expr)

namespace Expr

mutual

/-- The truth of an expression under an assignment of the terms. -/
def eval (holds : Term → Bool) : Expr → Bool
  | .atom t => holds t
  | .not e => !eval holds e
  | .and es => evalAll holds es
  | .or es => evalAny holds es

/-- Whether all operands are true. -/
def evalAll (holds : Term → Bool) : List Expr → Bool
  | [] => true
  | e :: es => eval holds e && evalAll holds es

/-- Whether some operand is true. -/
def evalAny (holds : Term → Bool) : List Expr → Bool
  | [] => false
  | e :: es => eval holds e || evalAny holds es

end

mutual

/-- The given terms, followed by the further terms of the expression in order of
appearance. -/
def collect (seen : List Term) : Expr → List Term
  | .atom t => if seen.contains t then seen else seen ++ [t]
  | .not e => collect seen e
  | .and es => collectAll seen es
  | .or es => collectAll seen es

/-- The given terms, followed by the further terms of the operands. -/
def collectAll (seen : List Term) : List Expr → List Term
  | [] => seen
  | e :: es => collectAll (collect seen e) es

end

def terms (e : Expr) : List Term :=
  collect [] e

mutual

/-- The text of an expression: every conjunction and disjunction in parentheses. -/
def render : Expr → String
  | .atom t => t.render
  | .not e => "NOT " ++ render e
  | .and es => "(" ++ " AND ".intercalate (renderAll es) ++ ")"
  | .or es => "(" ++ " OR ".intercalate (renderAll es) ++ ")"

def renderAll : List Expr → List String
  | [] => []
  | e :: es => render e :: renderAll es

end

/-- The conjunction of some operands; one operand stands for itself. -/
def conjunction : List Expr → Expr
  | [e] => e
  | es => .and es

/-- The disjunction of some operands; one operand stands for itself. -/
def disjunction : List Expr → Expr
  | [e] => e
  | es => .or es

end Expr

end PlaceSearch
