import Mathlib.Algebra.Order.Group.Nat

/-! Durations and instants as nanosecond counts. Subtracting a later instant
from an earlier one gives zero, as the saturating operations of the standard
library do. -/
namespace Srh.Lib

def nanosPerSec : Nat := 1000000000

namespace Duration

def fromSecs (secs : Nat) : Nat := secs * nanosPerSec

def fromMillis (millis : Nat) : Nat := millis * 1000000

def asSecs (duration : Nat) : Nat := duration / nanosPerSec

def subsecNanos (duration : Nat) : Nat := duration % nanosPerSec

end Duration
end Srh.Lib
