import PlaceSearch.Call.Descriptor
import PlaceSearch.Call.Popularity
import PlaceSearch.Decimal.Binary
import PlaceSearch.Query.Clause

/-!
# The calls that answer a disjunction of clauses

Every clause becomes one call.  Single categories come first, the most popular one at the
head, and each excludes the ones already called for; so do all later category calls, since a
place with one of these categories is fetched already.  A negated category is called for by
itself and excluded from no other call: a place that has it may still satisfy another clause.
Clauses with a phrase are searched as text, with all their terms.
-/

namespace PlaceSearch

namespace Optimize

def texts (ts : List Term) : List String :=
  ts.map (·.text)

/-- The excluded texts with the ones already called for, without repetition and without
anything that is included. -/
def exclude (excluded included called : List String) : List String :=
  called.foldl (fun acc t =>
    if acc.contains t || included.contains t then acc else acc ++ [t]) excluded

/-- The call for a clause alone, as a search of the given kind. -/
def plainCall (kind : SearchKind) (c : Clause) : CallDescriptor :=
  ⟨texts c.included, texts c.excluded, kind⟩

/-- Whether the clause is a single category. -/
def isPositive (c : Clause) : Bool :=
  c.kind == .category && c.isSimple && c.excluded.isEmpty

/-- Whether the clause is a single negated category. -/
def isNegative (c : Clause) : Bool :=
  c.kind == .category && c.isSimple && !c.excluded.isEmpty

/-- Whether the clause is over categories but no single literal. -/
def isCompound (c : Clause) : Bool :=
  c.kind == .category && !c.isSimple

def hasPhrase (c : Clause) : Bool :=
  c.kind != .category

/-- The density of the first included category. -/
def density (popularity : Option Popularity) (c : Clause) : Float :=
  match popularity, c.included with
  | some p, t :: _ => p.density t.text
  | _, _ => Popularity.defaultDensity

/-- Single categories by falling density; equally dense ones stay in order. -/
def byDensity (popularity : Option Popularity) (cs : List Clause) : List Clause :=
  cs.mergeSort fun a b =>
    decide (Decimal.rank (density popularity b) ≤ Decimal.rank (density popularity a))

/-- The calls for single categories, each excluding the texts called for before. -/
def positiveCalls (called : List String) : List Clause → List CallDescriptor
  | [] => []
  | c :: cs =>
    let included := texts c.included
    ⟨included, called, .category⟩ :: positiveCalls (called ++ included) cs

/-- The call for a single negated category. -/
def negativeCall (called : List String) (c : Clause) : CallDescriptor :=
  ⟨[], exclude (texts c.excluded) [] called, .category⟩

/-- The call for another clause over categories. -/
def compoundCall (called : List String) (c : Clause) : CallDescriptor :=
  let included := texts c.included
  ⟨included, exclude (texts c.excluded) included called, .category⟩

end Optimize

open Optimize in
/-- The calls for a disjunction of clauses. -/
def optimize (clauses : List Clause) (popularity : Option Popularity) :
    List CallDescriptor :=
  let positives := byDensity popularity (clauses.filter isPositive)
  let called := positives.flatMap fun c => texts c.included
  positiveCalls [] positives
    ++ (clauses.filter isNegative).map (negativeCall called)
    ++ (clauses.filter isCompound).map (compoundCall called)
    ++ (clauses.filter hasPhrase).map (plainCall .text)

/-- The calls for a disjunction of clauses over phrases, one for each clause. -/
def keywordCalls (clauses : List Clause) : List CallDescriptor :=
  clauses.map (Optimize.plainCall .text)

end PlaceSearch
