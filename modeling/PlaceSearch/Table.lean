/-!
# Tables

A finite map from texts to values, kept as a list of pairs with one pair per key, oldest key
first.

## Main definitions

* `Table α` — a map from texts to values.
* `Table.get? k t` — the value of a key.
* `Table.put k v t` — the table with a value set; the last one set wins.
-/

namespace PlaceSearch

/-- A finite map from texts to values. -/
abbrev Table (α : Type) := List (String × α)

namespace Table

variable {α : Type}

def get? (k : String) (t : Table α) : Option α :=
  t.lookup k

def put (k : String) (v : α) : Table α → Table α
  | [] => [(k, v)]
  | (k', v') :: t => if k' = k then (k, v) :: t else (k', v') :: put k v t

/-- The table that results from setting values one after the other. -/
def ofPairs (ps : List (String × α)) : Table α :=
  ps.foldl (fun t p => put p.1 p.2 t) []

@[simp] theorem get?_nil (k : String) : get? k ([] : Table α) = none := rfl

theorem get?_cons (k : String) (p : String × α) (t : Table α) :
    get? k (p :: t) = if k = p.1 then some p.2 else get? k t := by
  obtain ⟨k', v⟩ := p
  by_cases h : k = k'
  · simp [get?, h]
  · have h' : (k == k') = false := by simpa using h
    simp [get?, List.lookup_cons, h, h']

@[simp] theorem get?_put_self (k : String) (v : α) (t : Table α) :
    get? k (put k v t) = some v := by
  induction t with
  | nil => simp [put, get?_cons]
  | cons p t ih =>
    by_cases h : p.1 = k
    · simp [put, h, get?_cons]
    · simpa [put, h, get?_cons, Ne.symm h] using ih

theorem get?_put_of_ne {k k' : String} (h : k ≠ k') (v : α) (t : Table α) :
    get? k (put k' v t) = get? k t := by
  induction t with
  | nil => simp [put, get?_cons, h]
  | cons p t ih =>
    by_cases e : p.1 = k'
    · simp [put, e, get?_cons, h]
    · simp [put, e, get?_cons, ih]

end Table

end PlaceSearch
