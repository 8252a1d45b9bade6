import PlaceSearch.Duration

/-!
# Times

A time is told by the seconds since the epoch, counted as if every day had the same number of
them, and the nanoseconds since that second began.  A leap second has no number of its own: it
is the second one within the last second of its minute.
-/

namespace PlaceSearch

/-- A point in time, by the seconds since the epoch and the nanoseconds since that second
began; in a leap second these go on beyond one second. -/
structure Time where
  seconds : Int
  nanos : Nat
  nanos_lt : nanos < nanosPerSecond ∨ seconds % 60 = 59 ∧ nanos < 2 * nanosPerSecond
deriving DecidableEq, Repr

namespace Time

/-- The first second of the calendar, at the beginning of the year -262143. -/
def firstSecond : Int := -8334601228800

/-- The last second of the calendar, at the end of the year 262142. -/
def lastSecond : Int := 8210266876799

/-- The time of some seconds and nanoseconds, if it lies in the calendar and the nanoseconds
are those of one second or of a leap second. -/
def of? (seconds : Int) (nanos : Nat) : Option Time :=
  if h : nanos < nanosPerSecond ∨ seconds % 60 = 59 ∧ nanos < 2 * nanosPerSecond then
    if firstSecond ≤ seconds ∧ seconds ≤ lastSecond then some ⟨seconds, nanos, h⟩ else none
  else none

/-- The time at the beginning of a second. -/
def ofSeconds (seconds : Int) : Time := ⟨seconds, 0, .inl (by decide)⟩

def ofDay (t : Time) : Int := t.seconds % secondsPerDay

/-- Whether the time lies in a leap second. -/
def isLeap (t : Time) : Bool := nanosPerSecond ≤ t.nanos

/-- The leap seconds that count between two times: one that the later time of day has behind
it, if the other is that very second.  Leap seconds of other days are not known here. -/
def leapSeconds (later earlier : Time) : Int :=
  if earlier.ofDay < later.ofDay ∧ earlier.isLeap then 1
  else if later.ofDay < earlier.ofDay ∧ later.isLeap then -1
  else 0

/-- The nanoseconds from one time to a later one; negative if it is earlier. -/
def since (later earlier : Time) : Int :=
  (later.seconds - earlier.seconds + leapSeconds later earlier) * nanosPerSecond
    + (later.nanos - earlier.nanos)

end Time

/-- A number of seconds as a difference of times. -/
def secondsApart (n : Int) : Int := n * nanosPerSecond

end PlaceSearch
