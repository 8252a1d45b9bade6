import PlaceSearch.Dataset.Basic
import PlaceSearch.Decimal.Binary
import PlaceSearch.Process
import PlaceSearch.Provider.Record
import PlaceSearch.Provider.Request

/-!
# One call to the provider

What the provider answers may depend on everything it was asked before, so a transport is a
function of the requests sent so far and the one sent now.

A call never fails outright.  The request is repeated after growing pauses until it succeeds
or its repetitions are used up, then sent once in its older shape, and if that is of no use
either, the answer is a single stand-in.  The call is a loop over the states it may be in, and keeps
a record of what it did; while it pauses, other calls may go on.

The older shape cannot exclude types, so places of an excluded type are taken out of its
answer; it cannot include more than one type either, and then the answer is not complete.
-/

namespace PlaceSearch

/-- What comes back for a request: nothing, for a reason, or a status and a document. -/
inductive Reply where
  | lost (reason : String)
  | answered (status : Nat) (body : Json)

def Reply.body? : Reply → Option Json
  | .answered status body => if status = 200 then some body else none
  | .lost _ => none

/-- How requests are answered, given the ones sent before, latest first. -/
abbrev Transport := List Request → Request → Reply

/-- One request: the body of its answer, if it tells of success.  The request joins the ones
sent. -/
def Transport.ask (t : Transport) (r : Request) : StateM (List Request) (Option Json) :=
  fun sent => ((t sent r).body?, r :: sent)

/-- How often a request is repeated, and the pause before the first repetition. -/
structure RetryPolicy where
  maxRetries : Nat := 3
  baseDelay : Duration := .ofMillis 500
deriving DecidableEq, Repr

/-- The pause after the given number of repetitions: it doubles every time, up to a factor of
`2 ^ 32 - 1`. -/
def RetryPolicy.delay (p : RetryPolicy) (retry : Nat) : Duration :=
  p.baseDelay.times (if retry < 32 then twoPow retry else twoPow 32 - 1)

/-- Where a call stands: about to make an attempt after some repetitions, about to pause, about to
fall back to the older shape, or at its end. -/
inductive CallState where
  | attempt (retry : Nat)
  | backoff (retry : Nat) (delay : Duration)
  | legacyRetry
  | success
  | failed
deriving DecidableEq, Repr

/-- How many turns a call takes at most from a state on, if it makes so many repetitions. -/
def CallState.turnsLeft (maxRetries : Nat) : CallState → Nat
  | attempt retry => 2 * (maxRetries + 1 - retry) + 2
  | backoff retry _ => 2 * (maxRetries - retry) + 3
  | legacyRetry => 1
  | success | failed => 0

/-- What a call did so far: the requests it sent, the pauses it made, whether the older shape was
among them, and the body it got. -/
structure CallRecord where
  attempts : Nat := 0
  backoffs : List Duration := []
  usedLegacy : Bool := false
  body : Option Json := none

/-- One more request was sent. -/
def CallRecord.count (c : CallRecord) : CallRecord :=
  { c with attempts := c.attempts + 1 }

/-- The loop of a call, from a state on to its end. -/
def callLoop (t : Transport) (policy : RetryPolicy) (r : Request) :
    CallState → CallRecord → Process (List Request) (CallState × CallRecord)
  | .attempt retry, c => do
    match ← t.ask r with
    | some body => callLoop t policy r .success { c.count with body := some body }
    | none =>
      if retry < policy.maxRetries then
        callLoop t policy r (.backoff retry (policy.delay retry)) c.count
      else callLoop t policy r .legacyRetry c.count
  | .backoff retry delay, c => do
    Process.sleep delay
    callLoop t policy r (.attempt (retry + 1)) { c with backoffs := c.backoffs ++ [delay] }
  | .legacyRetry, c => do
    match ← t.ask r.toLegacy with
    | some body =>
      callLoop t policy r .success { c.count with usedLegacy := true, body := some body }
    | none => callLoop t policy r .failed { c.count with usedLegacy := true }
  | .success, c => return (.success, c)
  | .failed, c => return (.failed, c)
termination_by state => state.turnsLeft policy.maxRetries
decreasing_by all_goals simp only [CallState.turnsLeft]; omega

/-- What a call gave, and how: the requests sent, the pauses between them, whether the older
shape was used, whether its answer is complete, and the state in which it ended. -/
structure Outcome where
  dataset : Dataset
  nextCursor : Option String
  attempts : Nat
  backoffs : List Duration
  usedLegacy : Bool
  complete : Bool
  state : CallState

/-- Whether nothing was of use. -/
def Outcome.failed (o : Outcome) : Bool :=
  match o.state with
  | .failed => true
  | _ => false

/-- The features of an answer in the older shape: without the places of a type that the
request excludes. -/
def legacyFeatures (r : Request) (body : Json) : List Feature :=
  (Record.features body).filter fun f => !f.properties.types.any r.excludes

/-- The dataset and the cursor that a call got for a request, or a stand-in. -/
def CallRecord.answer (r : Request) (c : CallRecord) : Dataset × Option String :=
  match c.body with
  | some body =>
    let features := if c.usedLegacy then legacyFeatures r body else Record.features body
    let cursor := Record.nextPage body
    ((Dataset.ofFeatures features).withNextCursor cursor, cursor)
  | none => (Dataset.ofFeatures [Feature.failed], none)

/-- The outcome of a call for a request, from where it ended and what it did. -/
def Outcome.ofRecord (r : Request) (state : CallState) (c : CallRecord) : Outcome where
  dataset := (c.answer r).1
  nextCursor := (c.answer r).2
  attempts := c.attempts
  backoffs := c.backoffs
  usedLegacy := c.usedLegacy
  complete := !(c.usedLegacy && r.legacyDropsIncluded)
  state := state

/-- The call for a request. -/
def execute (t : Transport) (policy : RetryPolicy) (r : Request) :
    Process (List Request) Outcome := do
  let (state, c) ← callLoop t policy r (.attempt 0) {}
  return .ofRecord r state c

end PlaceSearch
