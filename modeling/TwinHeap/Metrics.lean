import TwinHeap.Double
import TwinHeap.Overflow
import TwinHeap.Table

/-!
Counters and timings.

A counter is a 64-bit sum under a name. A timing keeps the last 1024 durations recorded under its
name; `Timing.ofSamples` describes such a window by its count, total, mean, extremes and two ranks.
-/

namespace TwinHeap

/-- A span of time, in nanoseconds. -/
abbrev Duration := Nat

namespace Duration

def nanosPerSecond : Nat := 1000000000

/-- One more than the longest duration: the seconds are a 64-bit count. -/
def bound : Nat := wordModulus * nanosPerSecond

def seconds (d : Duration) : Nat := d / nanosPerSecond

/-- The nanoseconds beyond the last whole second. -/
def subsecond (d : Duration) : Nat := d % nanosPerSecond

def ofParts (seconds nanos : Nat) : Duration := seconds * nanosPerSecond + nanos

/-- A sum that is not done: its seconds and its nanoseconds, each a 64-bit count. -/
structure Partial where
  seconds : Nat
  nanos : Nat
deriving DecidableEq, Repr

namespace Partial

/-- More seconds, if they fit. -/
def addSeconds (t : Partial) (n : Nat) : Except Overflow Partial :=
  if t.seconds + n < wordModulus then .ok { t with seconds := t.seconds + n }
  else .error .durationSum

/-- Turns the nanoseconds into as many seconds as they make. -/
def carry (t : Partial) : Except Overflow Partial :=
  { t with nanos := t.nanos % nanosPerSecond }.addSeconds (t.nanos / nanosPerSecond)

/-- Carries unless that many more nanoseconds fit. -/
def makeRoom (t : Partial) (n : Nat) : Except Overflow Partial :=
  if t.nanos + n < wordModulus then .ok t else t.carry

def add (t : Partial) (d : Duration) : Except Overflow Partial := do
  let t ← t.addSeconds d.seconds
  let t ← t.makeRoom d.subsecond
  return { t with nanos := t.nanos + d.subsecond }

end Partial

/-- The sum, if it is a duration. -/
def sum (ds : List Duration) : Except Overflow Duration := do
  let t ← ds.foldlM Partial.add ⟨0, 0⟩
  let t ← t.carry
  return ofParts t.seconds t.nanos

/-- The duration divided by a count. What is left over of the seconds is divided together with what is
left over of the nanoseconds. -/
def divide (d : Duration) (n : Nat) : Duration :=
  ofParts (d.seconds / n)
    (d.subsecond / n + (d.seconds % n * nanosPerSecond + d.subsecond % n) / n)

end Duration

/-- How many durations a timing keeps. -/
def windowSize : Nat := 1024

/-- What a window of durations looks like. -/
structure Timing where
  count : Nat
  total : Duration
  mean : Duration
  min : Duration
  max : Duration
  p50 : Duration
  p95 : Duration
deriving DecidableEq, Repr

namespace Timing

/-- The element of a sorted window behind so large a part of it, or the last one. -/
def rank (sorted : List Duration) (num den : Nat) : Duration :=
  let index := Double.portion sorted.length (Double.ofFraction num den)
  sorted.getD (Nat.min index (sorted.length - 1)) 0

/-- Describes a window; no window is described by zeros. -/
def ofSamples (samples : List Duration) : Except Overflow Timing :=
  if samples.isEmpty then .ok ⟨0, 0, 0, 0, 0, 0, 0⟩
  else do
    let sorted := samples.mergeSort
    let total ← Duration.sum sorted
    return {
      count := sorted.length
      total := total
      mean := total.divide sorted.length
      min := sorted.headD 0
      max := sorted.getLastD 0
      p50 := rank sorted 50 100
      p95 := rank sorted 95 100
    }

end Timing

/-- The counters and timings of one bridge. -/
structure Metrics where
  counters : Table String Nat
  timings : Table String (List Duration)
deriving DecidableEq, Repr

namespace Metrics

def empty : Metrics := ⟨.empty, .empty⟩

/-- The counter called `name`, zero if nothing was counted. -/
def counter (m : Metrics) (name : String) : Nat := (m.counters.get? name).getD 0

/-- Adds to a counter, which exists from then on; a sum that does not fit leaves it as it was. -/
def add (m : Metrics) (name : String) (n : Nat) : Except Overflow Metrics := do
  let sum ← checkedAdd (m.counter name) n
  return { m with counters := m.counters.insert name sum }

/-- The window after one more sample: the oldest one gives way in a full window. -/
def push (window : List Duration) (d : Duration) : List Duration :=
  if window.length = windowSize then window.drop 1 ++ [d] else window ++ [d]

def record (m : Metrics) (name : String) (d : Duration) : Metrics :=
  { m with timings := m.timings.insert name (push ((m.timings.get? name).getD []) d) }

/-- Nothing was counted and nothing timed. -/
def reset (m : Metrics) : Metrics := { m with counters := .empty, timings := .empty }

/-- The timing called `name`, if anything was recorded for it. -/
def timing (m : Metrics) (name : String) : Option (Except Overflow Timing) :=
  (m.timings.get? name).map Timing.ofSamples

/-- How many samples the window called `name` holds. -/
def sampleCount (m : Metrics) (name : String) : Nat :=
  ((m.timings.get? name).getD []).length

/-- All counters and all timings. -/
structure Summary where
  counters : Table String Nat
  timings : Table String Timing

def summary (m : Metrics) : Except Overflow Summary := do
  let timings ← m.timings.entries.mapM fun (name, window) => do
    return (name, ← Timing.ofSamples window)
  return ⟨m.counters, ⟨timings⟩⟩

end Metrics

end TwinHeap
