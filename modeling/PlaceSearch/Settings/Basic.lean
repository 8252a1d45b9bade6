import PlaceSearch.Json.Parse
import PlaceSearch.NormalForm.Compile
import PlaceSearch.Provider.Execute
import PlaceSearch.Provider.Wire
import PlaceSearch.Settings.Layer
import PlaceSearch.Settings.Value
import PlaceSearch.Walk.Walker

/-!
# Settings

All settings have a default.  A file may change them, and the environment wins over the file.
Settings that do not exist are passed over.

## Main definitions

* `Settings` — everything that can be set.
* `Settings.ofTree?` — the settings that a tree of values sets.
* `Settings.load` — the settings of a file and the environment.
-/

namespace PlaceSearch

open Setting (Item item group? text? nat? nat32? int? float? optional?)

/-- Everything that can be set: where the service listens, the file of its database, the
provider, repetitions, limits, walks, the file of the popularity table and the directory of
plans. -/
structure Settings where
  bind : String := "127.0.0.1:8080"
  database : Option String := none
  provider : ProviderSettings := {}
  retry : RetryPolicy := {}
  limits : Limits := {}
  walker : WalkerSettings := {}
  popularityFile : Option String := none
  planDirectory : Option String := none

/-- The settings of walks as they are written. -/
structure WalkSection where
  byMinimum : Bool := false
  minFeatures : Nat := 20
  maxEmptySteps : Nat := 30
  inProgressSeconds : Int := 30
  completedDays : Int := 90
  minRadius : Float := 2000.0

/-- The settings of walks. -/
def WalkSection.settings (w : WalkSection) : WalkerSettings where
  rectify := if w.byMinimum then .below w.minFeatures else .whenEmpty
  maxEmptySteps := w.maxEmptySteps
  inProgressWindow := secondsApart w.inProgressSeconds
  completedWindow := secondsApart (w.completedDays * secondsPerDay)
  minRadius := w.minRadius

namespace Settings

/-- Whether circles with fewer places than a minimum are rectified, by the name of the rule;
the name may stand for itself or be the only one of a group. -/
def byMinimum? (v : Json) : Option Bool :=
  let name? : Option String := match v with
    | .str s => some s
    | .obj [(k, _)] => some k
    | _ => none
  match name? with
  | some "non_empty" => some false
  | some "minimum" => some true
  | _ => none

def serverItems : List (Item Settings) :=
  [item "bind" text? fun bind s => { s with bind }]

def databaseItems : List (Item Settings) :=
  [item "path" (optional? text?) fun database s => { s with database }]

def providerItems : List (Item ProviderSettings) :=
  [item "api_key" text? fun apiKey p => { p with apiKey },
    item "nearby_url" text? fun nearbyUrl p => { p with nearbyUrl },
    item "text_url" text? fun textUrl p => { p with textUrl },
    item "details_url" text? fun detailsUrl p => { p with detailsUrl },
    item "legacy_nearby_url" text? fun legacyNearbyUrl p => { p with legacyNearbyUrl },
    item "legacy_text_url" text? fun legacyTextUrl p => { p with legacyTextUrl },
    item "legacy_details_url" text? fun legacyDetailsUrl p => { p with legacyDetailsUrl },
    item "field_mask" text? fun fieldMask p => { p with fieldMask },
    item "timeout_ms" nat? fun timeoutMillis p => { p with timeoutMillis }]

def retryItems : List (Item RetryPolicy) :=
  [item "max_retries" nat32? fun maxRetries r => { r with maxRetries },
    item "base_delay_ms" nat? fun ms r => { r with baseDelay := .ofMillis ms }]

def limitItems : List (Item Limits) :=
  [item "max_terms" nat? fun maxTerms l => { l with maxTerms },
    item "max_clauses" nat? fun maxClauses l => { l with maxClauses }]

def walkItems : List (Item WalkSection) :=
  [item "rectify" byMinimum? fun byMinimum w => { w with byMinimum },
    item "min_features" nat? fun minFeatures w => { w with minFeatures },
    item "max_empty_steps" nat? fun maxEmptySteps w => { w with maxEmptySteps },
    item "in_progress_secs" int? fun inProgressSeconds w => { w with inProgressSeconds },
    item "completed_days" int? fun completedDays w => { w with completedDays },
    item "min_radius_m" float? fun minRadius w => { w with minRadius }]

def items : List (Item Settings) :=
  [⟨"server", fun v s => group? serverItems s v⟩,
    ⟨"database", fun v s => group? databaseItems s v⟩,
    item "provider" (group? providerItems {}) fun provider s => { s with provider },
    item "retry" (group? retryItems {}) fun retry s => { s with retry },
    item "compiler" (group? limitItems {}) fun limits s => { s with limits },
    item "walker" (group? walkItems {}) fun w s => { s with walker := w.settings },
    item "popularity_path" (optional? text?) fun popularityFile s => { s with popularityFile },
    item "plan_dir" (optional? text?) fun planDirectory s => { s with planDirectory }]

/-- The settings that a tree of values sets. -/
def ofTree? (tree : Json) : Option Settings :=
  group? items {} tree

/-- The settings, unless one of them is out of bounds. -/
def validate (s : Settings) : Except Error Settings :=
  if s.limits.maxTerms > symbolSpace then .error (.config (.termCap symbolSpace))
  else if s.walker.maxEmptySteps = 0 then .error (.config .emptySteps)
  else .ok s

/-- The layer of a file, which may begin with a byte order mark. -/
def ofFile? (text : String) : Option (List (String × Json)) :=
  let text := match text.toList with
    | '\ufeff' :: rest => String.ofList rest
    | _ => text
  (Json.parse? text).bind Json.members?

/-- The settings of a file, if there is one, and of the variables of the environment that
begin with the name of the program. -/
def load (program : String) (file : Option String) (environment : List (String × String)) :
    Except Error Settings :=
  match (file.map ofFile?).getD (some []) with
  | none => .error (.config .unreadable)
  | some layer =>
    let tree := Layer.add (Layer.add (.obj []) layer) (Layer.ofEnvironment program environment)
    match ofTree? tree with
    | none => .error (.config .unreadable)
    | some s => s.validate

end Settings

end PlaceSearch
