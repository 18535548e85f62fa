/-!
# Usage policies

What limits the use of a key. The agent asks a policy before it signs, and tells it of every use.
The built-in policy limits the number of uses, the time since the key was added, or both.
-/

namespace SecureShell

/-- Policies of the use of a key. Times are readings of a clock that does not go back. -/
class Policy (π : Type) where
  /-- Whether there is a use left. -/
  canUse : π → Bool
  /-- Whether the time of the key is over, at a reading of the clock. -/
  hasTimedOut : π → Nat → Bool
  /-- The policy after one more use. -/
  consume : π → π

/-- A limit on the number of uses and on the time of use. -/
structure UsageLimits where
  /-- How many uses are allowed, if that is limited. -/
  maxUses : Option UInt64
  /-- For how long the key may be used, if that is limited. -/
  lifetime : Option Nat
  /-- The reading of the clock when the limits were set. -/
  created : Nat
  /-- How many uses there have been. -/
  uses : UInt64
  deriving DecidableEq, Repr

namespace UsageLimits

/-- No limits, set at a reading of the clock. -/
def unlimited (now : Nat) : UsageLimits := ⟨none, none, now, 0⟩

/-- How many uses are left, if their number is limited. -/
def remainingUses (l : UsageLimits) : Option UInt64 :=
  l.maxUses.map fun m ↦ if l.uses < m then m - l.uses else 0

instance : Policy UsageLimits where
  canUse l := match l.maxUses with
    | none => true
    | some m => l.uses < m
  hasTimedOut l now := match l.lifetime with
    | none => false
    | some t => t ≤ now - l.created
  consume l := { l with uses := l.uses + 1 }

end UsageLimits

end SecureShell
