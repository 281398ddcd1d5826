import Mathlib.Algebra.Group.Nat.Defs
import Mathlib.Algebra.Order.Group.Int

namespace SingBox.Values

/-- Nanoseconds since the zero value of `time.Time`, which is therefore `0`. -/
abbrev Time := Int

abbrev Duration := Int

def second : Duration := 1000000000

def isZero (t : Time) : Bool := t == 0

def maxDuration : Duration := 2 ^ 63 - 1

def minDuration : Duration := -2 ^ 63

/-- `Time.Sub`: a difference outside the range of `Duration` is clamped to it. -/
def sub (t u : Time) : Duration := max minDuration (min maxDuration (t - u))

/-- `x + 1` on `uint64`. -/
def succ64 (n : Nat) : Nat := (n + 1) % 2 ^ 64

theorem succ64_of_lt {n} (h : n + 1 < 2 ^ 64) : succ64 n = n + 1 := Nat.mod_eq_of_lt h

/-- `[16]byte`, read as one big-endian number, so that `bytes.Compare` is the
order of the numbers. -/
abbrev NodeID := BitVec 128

instance : LawfulBEq NodeID := inferInstanceAs (LawfulBEq (BitVec 128))

structure NodeHandle where
  nodeID : NodeID
  slot : Nat
  version : Nat
  bornRevision : Nat
  deriving DecidableEq

/-- The names of networks are compared by `N.NetworkName`, of which nothing is assumed. -/
class NetworkNames where
  networkName : String → String

/-- Names compared as they are, to run examples with. -/
instance : NetworkNames := ⟨id⟩

inductive PolicyMode
  | unset
  | strictAffinity
  | adaptive
  | latency
  | bulk
  | manual
  deriving DecidableEq

end SingBox.Values
