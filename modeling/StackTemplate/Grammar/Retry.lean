/-!
How often a load is tried, and how long the pauses between attempts are.
-/

namespace StackTemplate

/-- A span of time. -/
structure Duration where
  nanos : Nat
deriving DecidableEq, Repr

namespace Duration

def ofMillis (n : Nat) : Duration :=
  ⟨n * 1000000⟩

/-- Whole milliseconds. -/
def millis (d : Duration) : Nat :=
  d.nanos / 1000000

def times (d : Duration) (n : Nat) : Duration :=
  ⟨d.nanos * n⟩

/-- Seconds are counted in 64 bits, so there is no span of this length or more. -/
def overflow : Nat :=
  Nat.pow 2 64 * 1000000000

end Duration

structure RetryPolicy where
  attempts : Nat
  backoff : Duration
  attempts_pos : 0 < attempts := by decide
deriving DecidableEq, Repr

namespace RetryPolicy

/-- There is always one attempt. -/
def ofBackoff (attempts : Nat) (backoff : Duration) : RetryPolicy where
  attempts := max attempts 1
  backoff := backoff
  attempts_pos := Nat.le_max_right attempts 1

def ofLimits (attempts backoffMs : Nat) : RetryPolicy :=
  ofBackoff attempts (.ofMillis backoffMs)

def backoffMs (policy : RetryPolicy) : Nat :=
  policy.backoff.millis

/-- The pause after a failed attempt; attempts count from one. -/
def pauseAfter (policy : RetryPolicy) (attempt : Nat) : Duration :=
  policy.backoff.times attempt

/-- The same in whole milliseconds. -/
def delayAfter (policy : RetryPolicy) (attempt : Nat) : Nat :=
  (policy.pauseAfter attempt).millis

end RetryPolicy

end StackTemplate
