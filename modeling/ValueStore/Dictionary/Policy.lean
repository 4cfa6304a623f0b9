/-!
# When a dictionary is rebuilt

Deleting leaves tombstones behind. Once more deletions have been counted than the
threshold allows, the tombstones are looked at, and the dictionary is rebuilt if
there are at least as many as the minimum.
-/

namespace ValueStore

structure Policy where
  threshold : Nat
  minimum : Nat
  deriving DecidableEq

namespace Policy

def standardThreshold : Nat := 1000

def standard : Policy :=
  { threshold := standardThreshold, minimum := standardThreshold / 2 }

/-- Sets the threshold, and the minimum to half of it. -/
def withThreshold (_ : Policy) (threshold : Nat) : Policy :=
  { threshold := threshold, minimum := threshold / 2 }

def withMinimum (policy : Policy) (minimum : Nat) : Policy :=
  { policy with minimum := minimum }

def debug (policy : Policy) : String :=
  "HashedMapConfig \x7b compaction_threshold: " ++ toString policy.threshold ++
    ", min_tombstones_to_rebuild: " ++ toString policy.minimum ++ " \x7d"

end Policy

end ValueStore
