import PeerClaw.Lib.Word

/-!
# Instants and durations

The code reads the wall clock through `chrono`.  A `DateTime<Utc>` is an
instant, to the nanosecond, inside the range of years the library supports; a
duration is a signed number of nanoseconds.  Building a duration from a number
of seconds and adding one to an instant both **panic** when the result is out
of range, so both return an `Option` here, `none` being the panic.

The `u64` arguments of the code reach these functions through `as i64`, which
reinterprets the sixty-four bits: that is `UInt64.toInt64`.
-/

namespace PeerClaw

/-- Nanoseconds in a second. -/
def nanosPerSec : Int := 1000000000

/-- The first instant `chrono` can represent. -/
def minNanos : Int := -8334601228800 * nanosPerSec

/-- The last instant `chrono` can represent. -/
def maxNanos : Int := 8210266876799 * nanosPerSec + 999999999

/-- An instant: nanoseconds since 1970, inside the supported range. -/
structure DateTime where
  /-- Nanoseconds since the epoch. -/
  nanos : Int
  /-- The instant is representable. -/
  inRange : minNanos ≤ nanos ∧ nanos ≤ maxNanos
  deriving DecidableEq

namespace DateTime

instance : LT DateTime := ⟨fun s t => s.nanos < t.nanos⟩
instance : LE DateTime := ⟨fun s t => s.nanos ≤ t.nanos⟩

instance (s t : DateTime) : Decidable (s < t) := inferInstanceAs (Decidable (s.nanos < t.nanos))
instance (s t : DateTime) : Decidable (s ≤ t) := inferInstanceAs (Decidable (s.nanos ≤ t.nanos))

/-- `timestamp()`: whole seconds since the epoch, rounded down. -/
def timestamp (t : DateTime) : Int := t.nanos / nanosPerSec

/-- `timestamp() as u64`. -/
def unixSecs (t : DateTime) : UInt64 := UInt64.ofInt t.timestamp

/-- The instant a whole number of seconds after the epoch. -/
def ofSecs (s : Int) (h : minNanos ≤ s * nanosPerSec ∧ s * nanosPerSec ≤ maxNanos) : DateTime :=
  ⟨s * nanosPerSec, h⟩

theorem hour_inRange : minNanos ≤ 3600 * nanosPerSec ∧ 3600 * nanosPerSec ≤ maxNanos := by
  decide

theorem twoHours_inRange : minNanos ≤ 7200 * nanosPerSec ∧ 7200 * nanosPerSec ≤ maxNanos := by
  decide

/-- The first instant of 1970. -/
def epoch : DateTime := .ofSecs 0 (by decide)

/-- `DateTime + Duration`, which panics outside the supported range. -/
def plus (t : DateTime) (d : Int) : Option DateTime :=
  if h : minNanos ≤ t.nanos + d ∧ t.nanos + d ≤ maxNanos then some ⟨t.nanos + d, h⟩ else none

end DateTime

/-- The largest whole number of seconds a duration may have, `i64::MAX / 1000`. -/
def maxDurationSecs : Int := 9223372036854775

/-- `Duration::seconds`, in nanoseconds: panics outside the range of a duration. -/
def durationSeconds (s : Int64) : Option Int :=
  if -maxDurationSecs ≤ s.toInt ∧ s.toInt ≤ maxDurationSecs then some (s.toInt * nanosPerSec)
  else none

/-- `Duration::hours`, in nanoseconds: panics when the seconds overflow an `i64`
or leave the range of a duration. -/
def durationHours (h : Int64) : Option Int :=
  if -maxDurationSecs ≤ h.toInt * 3600 ∧ h.toInt * 3600 ≤ maxDurationSecs then
    some (h.toInt * 3600 * nanosPerSec)
  else none

end PeerClaw
