import PlaceSearch.Decimal.Fixed
import PlaceSearch.Decimal.Parse
import PlaceSearch.Error
import PlaceSearch.Geo
import PlaceSearch.Text.Digit
import PlaceSearch.Text.Find

/-!
# Rows of a plan

A plan is a list of rows such as `24.713600_46.675300_30000.0_circle=1.3`: latitude,
longitude, radius in metres, and a level whose dotted numbers lead from the whole area down to
this circle.  The row `end of search plan` closes a plan, and a row that holds the word `skip`
is passed over.
-/

namespace PlaceSearch

/-- What a row says: search this circle, pass it over, or stop. -/
inductive PlanEntry where
  | circle (level : String) (circle : Circle)
  | skip (level : String)
  | finish

namespace PlanEntry

def endMarker : String := "end of search plan"

/-- The text that marks a row as passed over. -/
def skipMarker : String := "skip"

def level : PlanEntry → String
  | .circle level _ => level
  | .skip level => level
  | .finish => ""

/-- The circle of an entry that is to be searched. -/
def circle? : PlanEntry → Option Circle
  | .circle _ c => some c
  | _ => none

def isNormal (e : PlanEntry) : Bool :=
  e.circle?.isSome

def depth (e : PlanEntry) : Nat :=
  if e.level.isEmpty then 0 else e.level.toList.count '.' + 1

/-- Whether a level lies below another one: it continues it with a dot. -/
def levelBelow (lower upper : String) : Bool :=
  !upper.isEmpty &&
    match Text.startsWith? upper.toList lower.toList with
    | some ('.' :: _) => true
    | _ => false

/-- Whether the entry lies below a level. -/
def isBelow (e : PlanEntry) (level : String) : Bool :=
  levelBelow e.level level

def isLevelChar (c : Char) : Bool :=
  Text.isDecimalDigit c || c == '.'

/-- The longest run of level characters after the first `circle=` that is followed by
one. -/
def levelRun? : List Char → Option (List Char)
  | [] => none
  | c :: cs =>
    match Text.startsWith? "circle=".toList (c :: cs) with
    | some (d :: ds) =>
      if isLevelChar d then some (d :: ds.takeWhile isLevelChar) else levelRun? cs
    | _ => levelRun? cs

/-- The level a row names, without dots at its end. -/
def levelOf? (row : String) : Option String :=
  match levelRun? row.toList with
  | none => none
  | some run =>
    let level := (run.reverse.dropWhile (· == '.')).reverse
    if level.isEmpty then none else some (String.ofList level)

/-- Digits, and more digits after a point if one follows, and the rest of the text. -/
def unsignedNumber? (cs : List Char) : Option (List Char × List Char) :=
  let whole := cs.takeWhile Text.isDecimalDigit
  let rest := cs.dropWhile Text.isDecimalDigit
  if whole.isEmpty then none
  else match rest with
    | '.' :: r =>
      let places := r.takeWhile Text.isDecimalDigit
      if places.isEmpty then some (whole, rest)
      else some (whole ++ '.' :: places, r.dropWhile Text.isDecimalDigit)
    | _ => some (whole, rest)

/-- A number that may have a minus sign, and the rest of the text. -/
def signedNumber? (cs : List Char) : Option (List Char × List Char) :=
  match cs with
  | '-' :: cs => (unsignedNumber? cs).map fun (ds, r) => ('-' :: ds, r)
  | cs => unsignedNumber? cs

/-- What follows an underscore. -/
def afterBar? : List Char → Option (List Char)
  | '_' :: r => some r
  | _ => none

/-- The texts of latitude, longitude and radius at the beginning of a row. -/
def numbers? (row : List Char) : Option (List Char × List Char × List Char) := do
  let (lat, r) ← signedNumber? row
  let r ← afterBar? r
  let (lng, r) ← signedNumber? r
  let r ← afterBar? r
  let (radius, r) ← unsignedNumber? r
  let _ ← afterBar? r
  return (lat, lng, radius)

/-- Reading a row.  The two markers are looked for anywhere in it, the closing one first. -/
def ofRow (row : String) : Except Error PlanEntry :=
  if Text.occurs endMarker.toList row.toList then .ok .finish
  else if Text.occurs skipMarker.toList row.toList then .ok (.skip ((levelOf? row).getD ""))
  else match levelOf? row with
    | none => .error (.plan (.noLevel row))
    | some level =>
      match numbers? row.toList with
      | none => .error (.plan (.noCircle row))
      | some (lat, lng, radius) =>
        match Decimal.parse? lat, Decimal.parse? lng, Decimal.parse? radius with
        | some lat, some lng, some radius => .ok (.circle level ⟨⟨lat, lng⟩, radius⟩)
        | _, _, _ => .error (.plan (.badNumber row))

end PlanEntry

/-- Writing the row of a circle: six decimals for its centre, one for its radius. -/
def renderRow (c : Circle) (level : String) : String :=
  Decimal.fixed 6 c.center.lat ++ "_" ++ Decimal.fixed 6 c.center.lng ++ "_"
    ++ Decimal.fixed 1 c.radius ++ "_circle=" ++ level

end PlaceSearch
