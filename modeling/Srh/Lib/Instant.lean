import Srh.Lib.Duration
import Srh.Lib.Guards

/-! The arithmetic of instants and durations with its overflows. The seconds of an
instant are a signed 64-bit integer and those of a duration an unsigned one; an
operation that panics has no result. -/
namespace Srh.Lib

namespace Instant

def limit : Nat := 2 ^ 63 * nanosPerSec

/-- Adding a duration panics when the sum is no instant. -/
def add (instant duration : Nat) : Option Nat := if instant + duration < limit then some (instant + duration) else none

def since (now earlier : Nat) : Option Nat := if now - earlier < 2 ^ 64 * nanosPerSec then some (now - earlier) else none

theorem since_eq {now : Nat} (h : now < limit) (earlier : Nat) : since now earlier = some (now - earlier) := by
  refine if_pos ?_
  rw [limit] at h
  omega

end Instant

def Duration.sub (duration other : Nat) : Option Nat := if other ≤ duration then some (duration - other) else none

theorem foldlM_some {α β : Type} {f : β → α → Option β} {g : β → α → β} (h : ∀ b a, f b a = some (g b a)) (l : List α) (b : β) :
    l.foldlM f b = some (l.foldl g b) := by
  induction l generalizing b with
  | nil => rfl
  | cons a l ih =>
    rw [List.foldlM_cons, h]
    exact ih (g b a)

end Srh.Lib
