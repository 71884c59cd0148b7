import Mathlib.Algebra.Group.Int.Defs
import Mathlib.Algebra.Group.Nat.Defs
import Raidex.Lib.Outcome

/-!
# Raidex.Basic

Exceptions, binary data and timestamps shared by the commitment service and the nodes.

Binary strings of a fixed length are bit vectors: addresses have 20 bytes, hashes and secrets
32, signatures 65. Timestamps are milliseconds since the epoch.
-/

namespace Raidex

inductive PyError where
  | machineError
  | signatureMissing
  | badSignature
  | overflowError
  | keyError
  | valueError
  | typeError
  | attributeError
  | zeroDivisionError
  | alreadyTimedOut
  | offerTimedOut
  | offerNotFound
  | assertionError
  | invalidOperation
  deriving DecidableEq, Repr

abbrev Bytes := List UInt8

abbrev Address := BitVec 160

abbrev Hash := BitVec 256

abbrev Signature := BitVec 520

/-- The last millisecond a `datetime` can hold, the end of the year 9999. -/
def maxTimestamp : Nat := 253402300799999

/-- `seconds_to_timeout`, in milliseconds: the conversion to `datetime` raises on dates it
cannot hold, whatever the time is now. -/
def secondsToTimeout (now timeout : Nat) : Except PyError Int :=
  if maxTimestamp < timeout then .error .overflowError else .ok (timeout - now)

/-- `time_plus`: `seconds` after `now`. -/
def timePlus (now seconds : Nat) : Except PyError Nat :=
  if maxTimestamp < now + 1000 * seconds then .error .overflowError else .ok (now + 1000 * seconds)

theorem secondsToTimeout_ok {now timeout : Nat} (h : timeout ≤ maxTimestamp) :
    secondsToTimeout now timeout = .ok (timeout - now : Int) := by
  rw [secondsToTimeout, if_neg (by omega)]

theorem secondsToTimeout_error {now timeout : Nat} (h : ¬ timeout ≤ maxTimestamp) :
    secondsToTimeout now timeout = .error .overflowError := by
  rw [secondsToTimeout, if_pos (by omega)]

end Raidex
