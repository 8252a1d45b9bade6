import PlaceSearch.Json.Parse

/-!
# Decoding documents into records

A document as written is decoded into a record field by field, in the order of writing.  The
first thing met that does not fit decides the fault: the text may stop being a document, or
a value may be of the wrong shape.

A record is written as an object with its fields in any order, or as an array of its fields
in their order.
-/

namespace PlaceSearch.Json

/-- Why a text is not a record: it is no document, or a document of another shape. -/
inductive Fault where
  | malformed
  | mismatched
deriving DecidableEq, Repr

/-- A function from documents to values or faults. -/
abbrev Decoder (α : Type) := Source → Except Fault α

namespace Decode

/-- The fault of a value of another kind than the one asked for. -/
def refuse {α : Type} : Source → Except Fault α
  | .broken => .error .malformed
  | .num none => .error .malformed
  | .str none => .error .malformed
  | _ => .error .mismatched

def text : Decoder String
  | .str (some s) => .ok s
  | x => refuse x

def bool : Decoder Bool
  | .bool b => .ok b
  | x => refuse x

def float : Decoder Float
  | .num (some n) => .ok n.float
  | x => refuse x

/-- A whole number from zero to `top`. -/
def natUpTo (top : Nat) : Decoder Nat
  | .num (some (.whole n)) =>
    if 0 ≤ n ∧ n ≤ top then .ok n.toNat else .error .mismatched
  | x => refuse x

/-- A value, or `null` for none. -/
def optional {α : Type} (d : Decoder α) : Decoder (Option α)
  | .null => .ok none
  | x => (d x).map some

def items {α : Type} (d : Decoder α) : List Source → Except Fault (List α)
  | [] => .ok []
  | x :: xs =>
    match d x with
    | .ok v => (items d xs).map (v :: ·)
    | .error e => .error e

def list {α : Type} (d : Decoder α) : Decoder (List α)
  | .arr xs closed => do
    let vs ← items d xs
    if closed then return vs else .error .malformed
  | x => refuse x

/-- A value that is passed over. -/
def skipped : Decoder Unit := fun x =>
  if x.sound then .ok () else .error .malformed

/-- The name of one of some plain alternatives, as a text or as an object whose only member is
named so and holds `null`. -/
def choice {α : Type} (names : List (String × α)) : Decoder α
  | .str (some s) => (names.lookup s).elim (.error .mismatched) .ok
  | .obj ((.str (some s), x) :: ms) closed =>
    match names.lookup s, x with
    | none, _ => .error .mismatched
    | some v, .null => if ms.isEmpty && closed then .ok v else .error .malformed
    | some _, x => refuse x
  | .obj ((k, _) :: _) _ => refuse k
  | _ => .error .malformed

end Decode

/-- A field of a record under construction: its name, what its value does to the record, and
what its absence does. -/
structure Field (σ : Type) where
  name : String
  put : Source → σ → Except Fault σ
  absent : σ → Except Fault σ

namespace Field

/-- A field that must be present. -/
def required {σ α : Type} (name : String) (d : Decoder α) (set : α → σ → σ) : Field σ where
  name := name
  put := fun x s => (d x).map (set · s)
  absent := fun _ => .error .mismatched

/-- A field that may be absent and then keeps the value the record begins with. -/
def defaulted {σ α : Type} (name : String) (d : Decoder α) (set : α → σ → σ) : Field σ where
  name := name
  put := fun x s => (d x).map (set · s)
  absent := .ok

end Field

namespace Decode

/-- The record after the members of an object, with the names of the fields already met. -/
def fromMembers {σ : Type} (fields : List (Field σ)) :
    List (Source × Source) → List String → σ → Except Fault (σ × List String)
  | [], seen, s => .ok (s, seen)
  | (.str (some k), x) :: ms, seen, s =>
    match fields.find? (·.name == k) with
    | none =>
      match skipped x with
      | .ok _ => fromMembers fields ms seen s
      | .error e => .error e
    | some f =>
      if seen.contains k then .error .mismatched
      else match f.put x s with
        | .ok s => fromMembers fields ms (k :: seen) s
        | .error e => .error e
  | _ :: _, _, _ => .error .malformed

/-- The record after its fields were taken from items in their order. -/
def fromItems {σ : Type} : List (Field σ) → List Source → Bool → σ → Except Fault σ
  | [], [], closed, s => if closed then .ok s else .error .malformed
  | [], _ :: _, _, _ => .error .malformed
  | f :: fs, [], closed, s =>
    if closed then (f.absent s).bind (fromItems fs [] closed) else .error .malformed
  | f :: fs, x :: xs, closed, s => (f.put x s).bind (fromItems fs xs closed)

/-- The decoder of a record that begins as `start`. -/
def record {σ : Type} (fields : List (Field σ)) (start : σ) : Decoder σ
  | .obj ms closed => do
    let (s, seen) ← fromMembers fields ms [] start
    if !closed then .error .malformed
    else (fields.filter fun f => !seen.contains f.name).foldlM (fun s f => f.absent s) s
  | .arr xs closed => fromItems fields xs closed start
  | x => refuse x

end Decode

end PlaceSearch.Json
