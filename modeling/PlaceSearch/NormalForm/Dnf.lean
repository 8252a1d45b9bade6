import PlaceSearch.NormalForm.SymbolTable

/-!
# Disjunctive normal form

An expression is brought into a disjunction of conjunctions over symbols.  Negations are
pushed inwards while descending; a conjunction of disjunctions is multiplied out, where
contradictions and repetitions are dropped at once and a cap on the number of conjunctions
is checked after every operand.  The result is then simplified by absorption
(`X | X & Y` becomes `X`) and merging (`X & v | X & ~v` becomes `X`) until neither applies.

## Main definitions

* `Dnf.distribute` — multiplying out.
* `Dnf.absorb`, `Dnf.mergeFirst`, `Dnf.simplify` — simplification.
* `Dnf.ofExpr` — the normal form of an expression.
-/

namespace PlaceSearch.Dnf

/-- The list with one more conjunction, unless it is there already. -/
def adjoin (cs : List Conjunction) (c : Conjunction) : List Conjunction :=
  if cs.contains c then cs else cs ++ [c]

/-- All conjunctions of one from each list that are no contradictions, without repetition in
order of first appearance. -/
def combine (product factor : List Conjunction) : List Conjunction :=
  product.foldl (fun acc c =>
    factor.foldl (fun acc d =>
      let both := c.meet d
      if both.isContradiction then acc else adjoin acc both) acc) []

mutual

/-- The disjunction of conjunctions that an expression, or its negation, multiplies out
to. -/
def distribute (table : SymbolTable) (cap : Nat) :
    Expr → Bool → Except Error (List Conjunction)
  | .atom t, negated =>
    match table.symbol? t with
    | some s => .ok [Conjunction.literal s negated]
    | none => .error (.query (.unmapped t))
  | .not e, negated => distribute table cap e (!negated)
  | .and es, negated =>
    if negated then sum table cap es negated [] else product table cap es negated [.top]
  | .or es, negated =>
    if negated then product table cap es negated [.top] else sum table cap es negated []

/-- The conjunction of `acc` with the operands, each of them negated or none. -/
def product (table : SymbolTable) (cap : Nat) :
    List Expr → Bool → List Conjunction → Except Error (List Conjunction)
  | [], _, acc => .ok acc
  | e :: es, negated, acc =>
    match distribute table cap e negated with
    | .error err => .error err
    | .ok factor =>
      let next := combine acc factor
      if next.length > cap then .error (.tooComplex cap)
      else if next.isEmpty then .ok []
      else product table cap es negated next

/-- The disjunction of `acc` with the operands, each of them negated or none. -/
def sum (table : SymbolTable) (cap : Nat) :
    List Expr → Bool → List Conjunction → Except Error (List Conjunction)
  | [], _, acc => .ok acc
  | e :: es, negated, acc =>
    match distribute table cap e negated with
    | .error err => .error err
    | .ok cs =>
      let next := cs.foldl adjoin acc
      if next.length > cap then .error (.tooComplex cap)
      else sum table cap es negated next

end

/-- The conjunctions that no other one absorbs; of two equal ones the first stays.  `before`
holds the conjunctions in front. -/
def absorb (before : List Conjunction) : List Conjunction → List Conjunction
  | [] => []
  | c :: cs =>
    let absorbed := before.any (·.subsumes c) || cs.any fun d => d.subsumes c && d != c
    if absorbed then absorb (c :: before) cs else c :: absorb (c :: before) cs

/-- The conjunction merged with the first possible one of a list, and the list without
it. -/
def mergeInto (c : Conjunction) : List Conjunction → Option (Conjunction × List Conjunction)
  | [] => none
  | d :: ds =>
    match c.merge? d with
    | some m => some (m, ds)
    | none => (mergeInto c ds).map fun (m, rest) => (m, d :: rest)

/-- The list after merging the first pair that can be merged, at the place of its first
member. -/
def mergeFirst : List Conjunction → Option (List Conjunction)
  | [] => none
  | c :: cs =>
    match mergeInto c cs with
    | some (m, rest) => some (m :: rest)
    | none => (mergeFirst cs).map (c :: ·)

/-- Rounds of absorption and one merge, up to `fuel` of them, until a round changes
nothing. -/
def simplifyWithin : Nat → List Conjunction → List Conjunction
  | 0, cs => cs
  | fuel + 1, cs =>
    let kept := absorb [] cs
    match mergeFirst kept with
    | some merged => simplifyWithin fuel merged
    | none => if kept.length < cs.length then simplifyWithin fuel kept else kept

/-- Absorption and merging until neither applies; every round but the last takes out at
least one conjunction. -/
def simplify (cs : List Conjunction) : List Conjunction :=
  simplifyWithin (cs.length + 1) cs

/-- The normal form of an expression over the symbols of a table. -/
def ofExpr (e : Expr) (table : SymbolTable) (cap : Nat) : Except Error (List Conjunction) :=
  (distribute table cap e false).map simplify

end PlaceSearch.Dnf
