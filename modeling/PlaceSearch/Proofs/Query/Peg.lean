import PlaceSearch.Proofs.Peg
import PlaceSearch.Query.Expr
import PlaceSearch.Text.Blank
import PlaceSearch.Text.Lower

/-!
# The grammar of queries on characters

Queries are defined by a grammar of parsing expressions on their characters: operators are words in
any letter case or symbols, a category is a word that is no operator, and a phrase is whatever
stands between two `@`.  A word is an operator only if it ends there, so that `order` is a category.

The expression of a query is built from the pairs that the grammar makes.  Of the negations in front
of an operand only the parity counts, a single operand stands for itself, and a phrase of blanks
only is refused.
-/

namespace PlaceSearch.Query

open Peg

inductive Rule where
  | whitespace
  | expression
  | disjunction
  | conjunction
  | negation
  | primary
  | orOp
  | andOp
  | notOp
  | keyword
  | termChar
  | category
  | phrase
  | phraseText
  | endOfInput
deriving DecidableEq

namespace Rule

def name : Rule → String
  | .whitespace => "WHITESPACE"
  | .expression => "expression"
  | .disjunction => "disjunction"
  | .conjunction => "conjunction"
  | .negation => "negation"
  | .primary => "primary"
  | .orOp => "or_op"
  | .andOp => "and_op"
  | .notOp => "not_op"
  | .keyword => "keyword"
  | .termChar => "term_char"
  | .category => "category"
  | .phrase => "phrase"
  | .phraseText => "phrase_text"
  | .endOfInput => "EOI"

def kind : Rule → Kind
  | .whitespace | .primary | .termChar => .silent
  | .orOp | .andOp | .notOp | .keyword | .category | .phraseText => .atomic
  | .phrase => .compound
  | .expression | .disjunction | .conjunction | .negation | .endOfInput => .plain

/-- An operator: a word that ends where it stands, or a symbol. -/
def operator (word : String) (symbol : Char) : Exp Rule :=
  .choice (.seq (.word word.toList) (.not (.rule .termChar))) (.char symbol)

/-- Some operands, with an operator between each two. -/
def operands (operator operand : Rule) : Exp Rule :=
  .seq (.rule operand) (.star (.seq (.rule operator) (.rule operand)))

def body : Rule → Exp Rule
  | .whitespace =>
    .choice (.char ' ') (.choice (.char '\t') (.choice (.char '\r') (.char '\n')))
  | .expression => .seq .start (.seq (.rule .disjunction) (.rule .endOfInput))
  | .disjunction => operands .orOp .conjunction
  | .conjunction => operands .andOp .negation
  | .negation => .seq (.star (.rule .notOp)) (.rule .primary)
  | .primary =>
    .choice (.rule .phrase) <| .choice (.rule .category) <|
      .seq (.char '(') (.seq (.rule .disjunction) (.char ')'))
  | .orOp => operator "or" '|'
  | .andOp => operator "and" '&'
  | .notOp => operator "not" '~'
  | .keyword =>
    .seq (.choice (.word "and".toList) (.choice (.word "or".toList) (.word "not".toList)))
      (.not (.rule .termChar))
  | .termChar => .choice (.one Char.isAlphanum) (.choice (.char '_') (.char '-'))
  | .category => .seq (.not (.rule .keyword)) (.plus (.rule .termChar))
  | .phrase => .seq (.char '@') (.seq (.rule .phraseText) (.char '@'))
  | .phraseText => .plus (.seq (.not (.char '@')) (.one fun _ => true))
  | .endOfInput => .finish

end Rule

/-- The grammar of queries. -/
def grammar : Grammar Rule where
  kind := Rule.kind
  body := Rule.body
  blank := .whitespace

/-! ## Expressions from pairs -/

def ruleOf : Pair Rule → Rule
  | .mk r _ _ => r

def textOf : Pair Rule → List Char
  | .mk _ text _ => text

mutual

/-- The expression that a pair stands for. -/
def build : Pair Rule → Except String Expr
  | .mk .disjunction _ inner => do
    match ← buildOperands inner with
    | [e] => return e
    | es => return .or es
  | .mk .conjunction _ inner => do
    match ← buildOperands inner with
    | [e] => return e
    | es => return .and es
  | .mk .negation _ inner => do
    match ← buildOperand 0 none inner with
    | (_, none) => .error "NOT without operand"
    | (count, some e) => return if count % 2 = 1 then .not e else e
  | .mk .category text _ => .ok (.atom (.category (Text.lower (String.ofList text))))
  | .mk .phrase _ inner =>
    let text := Text.trim (String.ofList ((inner.head?.map textOf).getD []))
    if text.isEmpty then .error "empty phrase" else .ok (.atom (.phrase (Text.lower text)))
  | .mk r _ _ => .error ("unexpected " ++ r.name)

/-- The expressions of the operands among some pairs. -/
def buildOperands : List (Pair Rule) → Except String (List Expr)
  | [] => .ok []
  | p :: ps =>
    if ruleOf p = .orOp ∨ ruleOf p = .andOp then buildOperands ps
    else do
      let e ← build p
      let es ← buildOperands ps
      return e :: es

/-- The number of negations among some pairs, and the last operand there. -/
def buildOperand (count : Nat) (found : Option Expr) :
    List (Pair Rule) → Except String (Nat × Option Expr)
  | [] => .ok (count, found)
  | p :: ps =>
    if ruleOf p = .notOp then buildOperand (count + 1) found ps
    else do
      let e ← build p
      buildOperand count (some e) ps

end

/-- The expression of a query, from the pairs of the whole. -/
def buildQuery (ps : List (Pair Rule)) : Except String Expr :=
  match ps with
  | .mk _ _ inner :: _ =>
    match inner.find? (ruleOf · = .disjunction) with
    | some p => build p
    | none => .error "empty expression"
  | [] => .error "empty expression"

/-- The grammar takes the text from its beginning to its end, and makes these pairs. -/
def Matches (s : String) (ps : List (Pair Rule)) : Prop :=
  ∃ rest, Yields grammar s.toList .plain (.rule .expression) s.toList (some (ps, rest))

end PlaceSearch.Query
