import PlaceSearch.Decimal.Binary

/-!
# Durations

Durations are counted in nanoseconds.  A duration has at most `2 ^ 64 - 1` whole seconds;
longer ones stop at the last nanosecond of that second.
-/

namespace PlaceSearch

def nanosPerSecond : Nat := 1000000000

def secondsPerDay : Nat := 86400

/-- A length of time in nanoseconds. -/
structure Duration where
  nanos : Nat
deriving DecidableEq, Repr

namespace Duration

/-- The longest duration. -/
def top : Duration := ⟨twoPow 64 * nanosPerSecond - 1⟩

def zero : Duration := ⟨0⟩

/-- One duration after another. -/
def plus (d e : Duration) : Duration := ⟨d.nanos + e.nanos⟩

def ofMillis (ms : Nat) : Duration := ⟨ms * 1000000⟩

/-- A multiple of a duration, at most the longest one. -/
def times (d : Duration) (n : Nat) : Duration := ⟨min (d.nanos * n) top.nanos⟩

def seconds (d : Duration) : Nat := d.nanos / nanosPerSecond

/-- The nanoseconds beyond the whole seconds. -/
def rest (d : Duration) : Nat := d.nanos % nanosPerSecond

end Duration

end PlaceSearch
