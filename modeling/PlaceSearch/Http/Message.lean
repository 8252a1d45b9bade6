import PlaceSearch.Json.Value

/-!
# Requests and responses of the service

A request is a method, a target and some content, a response a status and a document.
-/

namespace PlaceSearch

/-- The methods that are told apart. -/
inductive Method where
  | get
  | head
  | post
  | options
  | other
deriving DecidableEq, Repr

def Method.ofName : String → Method
  | "GET" => .get
  | "HEAD" => .head
  | "POST" => .post
  | "OPTIONS" => .options
  | _ => .other

/-- A request: its method, its target (a path or a whole URI), the type of its content if it is
told, and the content. -/
structure HttpRequest where
  method : Method
  target : String
  contentType : Option String
  content : String

/-- A response: its status and the document it carries, if any. -/
structure HttpResponse where
  status : Nat
  body : Option Json := none

end PlaceSearch
