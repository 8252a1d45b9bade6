import PlaceSearch.Plan.Row

/-!
# Plans

A plan keeps its rows beside what they say.  Rows are only ever changed by marking circles as
passed over, which is done in both.

## Main definitions

* `Plan` — a name and lines, each a row with its entry.
* `Plan.ofRows` — reading a plan; the first row that cannot be read decides.
* `Plan.nextCircle`, `Plan.nextRunnable` — the first row to search from a place on.
* `Plan.progressAt` — how much of the plan lies behind a place.
* `Plan.skipBelow` — marking all circles below a level as passed over.
* `planName` — the name of the plan of a query in a city.
-/

namespace PlaceSearch

/-- A row of a plan with what it says. -/
structure PlanLine where
  row : String
  entry : PlanEntry

/-- A plan. -/
structure Plan where
  name : String
  lines : List PlanLine

/-- The name of the plan of a query in a city. -/
def planName (query country city : String) : String :=
  "plan_" ++ query ++ "_" ++ country ++ "_" ++ city

namespace Plan

/-- The lines that some rows read. -/
def readLines : List String → Except Error (List PlanLine)
  | [] => .ok []
  | row :: rows =>
    match PlanEntry.ofRow row with
    | .error e => .error e
    | .ok entry => (readLines rows).map (⟨row, entry⟩ :: ·)

/-- The plan that some rows read. -/
def ofRows (name : String) (rows : List String) : Except Error Plan :=
  (readLines rows).map (⟨name, ·⟩)

/-- The rows. -/
def rows (p : Plan) : List String :=
  p.lines.map (·.row)

/-- What the rows say. -/
def entries (p : Plan) : List PlanEntry :=
  p.lines.map (·.entry)

def size (p : Plan) : Nat :=
  p.lines.length

def entry? (p : Plan) (index : Nat) : Option PlanEntry :=
  (p.lines[index]?).map (·.entry)

def length (p : Plan) : Nat :=
  p.size - 1

/-- The percentage of the plan that lies before a row, rounded; less than 100, unless there
is no row to search. -/
def progressAt (p : Plan) (index : Nat) : Nat :=
  if p.length = 0 then 100
  else min ((index * 100 + p.length / 2) / p.length) 99

/-- The place, level and circle of the first entry to search, if none closes the plan before
it; the first entry of the list has the place `index`. -/
def firstCircle (index : Nat) : List PlanEntry → Option (Nat × String × Circle)
  | [] => none
  | .circle level c :: _ => some (index, level, c)
  | .skip _ :: es => firstCircle (index + 1) es
  | .finish :: _ => none

/-- The first row to search from a place on, with its level and circle; none once the closing
row or the last row is passed. -/
def nextCircle (p : Plan) (start : Nat) : Option (Nat × String × Circle) :=
  firstCircle start (p.entries.drop start)

/-- The first row to search from a place on. -/
def nextRunnable (p : Plan) (start : Nat) : Option Nat :=
  (p.nextCircle start).map (·.1)

/-- The line, marked as passed over. -/
def skipLine (l : PlanLine) : PlanLine :=
  ⟨l.row ++ "_" ++ PlanEntry.skipMarker, .skip l.entry.level⟩

/-- Whether marking a level changes the line: a circle to search that lies below it. -/
def isSkippedBy (level : String) (l : PlanLine) : Bool :=
  l.entry.isNormal && l.entry.isBelow level

/-- The plan with all circles below a level marked as passed over. -/
def skipBelow (p : Plan) (level : String) : Plan :=
  { p with lines := p.lines.map fun l => if isSkippedBy level l then skipLine l else l }

/-- How many circles marking a level changes. -/
def countBelow (p : Plan) (level : String) : Nat :=
  p.lines.countP (isSkippedBy level)

end Plan

end PlaceSearch
