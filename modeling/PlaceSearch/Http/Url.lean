import PlaceSearch.Http.Percent

/-!
# Targets of addresses

An address names a server and what is asked of it: a path and a query.  The path is sent
without steps back and forth, and both with all characters escaped that may not stand for
themselves.
-/

namespace PlaceSearch.Url

def endsPath (c : Char) : Bool := c == '?' || c == '#'

/-- Whether the character separates the parts of a path. -/
def isSlash (c : Char) : Bool := c == '/' || c == '\\'

/-- An address without line breaks and tabs, and without control characters and blanks at its
ends. -/
def clean (url : String) : List Char :=
  let outer (c : Char) : Bool := c.toNat ≤ 32
  let cs := ((url.toList.dropWhile outer).reverse.dropWhile outer).reverse
  cs.filter fun c => c != '\t' && c != '\n' && c != '\r'

/-- What follows the server of an address. -/
def afterServer (cs : List Char) : List Char :=
  match cs.dropWhile (· != ':') with
  | ':' :: r => (r.dropWhile isSlash).dropWhile fun c => !isSlash c && !endsPath c
  | _ => []

def isPathChar (c : Char) : Bool :=
  c.toNat > 32 && c.toNat < 127 && !"\"#<>?`\x7b\x7d".toList.contains c

def isQueryChar (c : Char) : Bool :=
  c.toNat > 32 && c.toNat < 127 && !"\"#<>'".toList.contains c

/-- The steps of a path, split at slashes. -/
def splitPath : List Char → List (List Char)
  | [] => [[]]
  | c :: cs =>
    match splitPath cs with
    | [] => [[]]
    | part :: parts => if isSlash c then [] :: part :: parts else (c :: part) :: parts

/-- How many dots a part of a path stands for, if it stands for nothing but dots; a dot may be
escaped. -/
def dots : List Char → Option Nat
  | [] => some 0
  | '.' :: r => (dots r).map (· + 1)
  | '%' :: '2' :: 'e' :: r => (dots r).map (· + 1)
  | '%' :: '2' :: 'E' :: r => (dots r).map (· + 1)
  | _ => none

/-- The parts of a path after steps were taken: one dot stays where it is, two dots go back.
`taken` holds the parts so far, latest first. -/
def walkPath (taken : List (List Char)) : List (List Char) → List (List Char)
  | [] => taken.reverse
  | part :: parts =>
    let taken := match dots part with
      | some 2 => if parts.isEmpty then [] :: taken.tail else taken.tail
      | some 1 => if parts.isEmpty then [] :: taken else taken
      | _ => part :: taken
    walkPath taken parts

/-- The path of an address as it is sent. -/
def sentPath (path : List Char) : String :=
  let parts := splitPath (match path with
    | c :: r => if isSlash c then r else path
    | [] => [])
  "/" ++ Percent.encode isPathChar
    (String.ofList (List.intercalate ['/'] (walkPath [] parts)))

/-- The path and query of an address as they are sent. -/
def target (url : String) : String :=
  let cs := afterServer (clean url)
  let path := sentPath (cs.takeWhile (!endsPath ·))
  match cs.dropWhile (!endsPath ·) with
  | '?' :: r =>
    path ++ "?" ++ Percent.encode isQueryChar (String.ofList (r.takeWhile (· != '#')))
  | _ => path

/-- A target with parameters added to its query. -/
def withQuery (target : String) (parameters : List (String × String)) : String :=
  let before := if target.toList.contains '?' then (if target.endsWith "?" then "" else "&") else "?"
  target ++ before ++ Percent.encodePairs parameters

end PlaceSearch.Url
