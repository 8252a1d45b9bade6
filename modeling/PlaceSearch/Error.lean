import PlaceSearch.Query.Fault

/-!
# Errors

Everything that can go wrong has a cause: a query that makes no sense, settings or a plan that are
wrong, a provider that does not answer.  The wording of an error is made from its cause, and the
cause tells whether the caller's request is to blame.
-/

namespace PlaceSearch

/-- What can be wrong with the settings and the tables they name. -/
inductive ConfigFault where
  | popularityNotObject
  | popularityValue (key : String)
  | termCap (cap : Nat)
  | emptySteps
  | unreadable
deriving DecidableEq, Repr

def ConfigFault.message : ConfigFault → String
  | .popularityNotObject => "popularity table must be a JSON object"
  | .popularityValue key =>
    "popularity of '" ++ key ++ "' is neither a number nor a group"
  | .termCap cap => "compiler.max_terms cannot exceed " ++ toString cap
  | .emptySteps => "walker.max_empty_steps must be positive"
  | .unreadable => "the settings cannot be read"

/-- What can be wrong with a plan. -/
inductive PlanFault where
  | noLevel (row : String)
  | noCircle (row : String)
  | badNumber (row : String)
  | refused (reason : String)
  | unreadable (complaint : String)
deriving DecidableEq, Repr

def PlanFault.message : PlanFault → String
  | .noLevel row => "row without circle level: " ++ row
  | .noCircle row => "row without center and radius: " ++ row
  | .badNumber row => "invalid float literal in row " ++ row
  | .refused reason => reason
  | .unreadable complaint => complaint

/-- Everything that can go wrong. -/
inductive Error where
  | config (fault : ConfigFault)
  | persistence (reason : String)
  | query (fault : QueryFault)
  | tooManyTerms (found cap : Nat)
  | tooComplex (cap : Nat)
  | provider (reason : String)
  | cacheUnavailable (reason : String)
  | token (index : String)
  | plan (fault : PlanFault)
  | planNotFound (name : String)
deriving DecidableEq, Repr

namespace Error

def message : Error → String
  | .config fault => "Config error: " ++ fault.message
  | .persistence reason => "Persistence error: " ++ reason
  | .query fault => "Parse error: " ++ fault.message
  | .tooManyTerms found cap =>
    "Query contains " ++ toString found ++ " distinct terms, more than the " ++ toString cap
      ++ " allowed"
  | .tooComplex cap => "Query expands to more than " ++ toString cap ++ " clauses"
  | .provider reason => "Provider error: " ++ reason
  | .cacheUnavailable reason => "Cache unavailable: " ++ reason
  | .token index => "Invalid resume token: bad plan index '" ++ index ++ "'"
  | .plan fault => "Plan error: " ++ fault.message
  | .planNotFound name => "No plan named " ++ name

/-- Whether the caller's request is to blame: its query or its resume token. -/
def isCallers : Error → Bool
  | .query _ | .tooManyTerms _ _ | .tooComplex _ | .token _ => true
  | _ => false

end Error

end PlaceSearch
