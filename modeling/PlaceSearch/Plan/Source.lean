import PlaceSearch.Json.TextList
import PlaceSearch.Plan.Basic
import PlaceSearch.Table
import PlaceSearch.Text.Alphanumeric
import PlaceSearch.Text.Digest

/-!
# Sources of plans

The rows of plans are kept by name, in memory or in files.  Some sources cannot be written to.

In a directory a plan is kept in a file named after it.  Characters other than letters, numbers, `_`
and `-` are replaced, so that names that differ only in these get files that differ in the digest of
the name.
-/

namespace PlaceSearch

/-- A source of plans by name.  A write that fails leaves all plans as they were. -/
structure PlanSource (π : Type) where
  read : String → π → Except Error (List String)
  write : String → List String → StateM π (Except Error Unit)

/-- The character as it may stand in the name of a file. -/
def fileChar (c : Char) : Char :=
  if Text.isAlphanumeric c || c == '_' || c == '-' then c else '_'

/-- The name of the file of a plan: at most 96 characters of its name and sixteen digits of
its digest. -/
def planFile (name : String) : String :=
  String.ofList ((name.toList.map fileChar).take 96 ++ '_' ::
    (Text.digest name).toList.take 16) ++ ".json"

namespace PlanSource

/-- The rows that a table has for a name. -/
def readTable (name : String) (t : Table (List String)) : Except Error (List String) :=
  match t.get? name with
  | some rows => .ok rows
  | none => .error (.planNotFound name)

/-- A source that keeps what is written. -/
def inMemory : PlanSource (Table (List String)) where
  read := readTable
  write := fun name rows t => (.ok (), t.put name rows)

/-- A source whose plans stay as they are; writes are ignored. -/
def fixed : PlanSource (Table (List String)) where
  read := readTable
  write := fun _ _ t => (.ok (), t)

/-- A source whose plans stay as they are; writes fail. -/
def refusing (reason : String) : PlanSource (Table (List String)) where
  read := readTable
  write := fun _ _ t => (.error (.plan (.refused reason)), t)

def maxFileName : Nat := 255

/-- The file of a plan, if its name is not too long for one. -/
def fileOf (name : String) : Except Error String :=
  let file := planFile name
  if file.utf8ByteSize ≤ maxFileName then .ok file
  else .error (.plan (.refused "File name too long (os error 36)"))

/-- The rows that the text of a file lists. -/
def rowsOfText (text : String) : Except Error (List String) :=
  (Json.readTexts text).mapError fun c => .plan (.unreadable (c.message text))

/-- Plans in the files of a directory, by the names of the files.  The directory is made by
the first write, also if that write fails; before, there is no plan of any name. -/
def directory : PlanSource (Option (Table String)) where
  read := fun name files => do
    let some files := files | .error (.planNotFound name)
    match files.get? (← fileOf name) with
    | some text => rowsOfText text
    | none => .error (.planNotFound name)
  write := fun name rows files =>
    let files := files.getD []
    match fileOf name with
    | .ok file => (.ok (), some (files.put file (Json.ofTexts rows).print))
    | .error e => (.error e, some files)

end PlanSource

end PlaceSearch
