/-!
The gas meter of one execution. A charge that the remaining gas does not cover is refused and
changes nothing.
-/
namespace SubroutineVM

structure GasMeter where
  limit : Nat
  remaining : Nat
  deriving DecidableEq

namespace GasMeter

def full (limit : Nat) : GasMeter := ⟨limit, limit⟩

def used (meter : GasMeter) : Nat := meter.limit - meter.remaining

def charge? (meter : GasMeter) (cost : Nat) : Option GasMeter :=
  if cost ≤ meter.remaining then some { meter with remaining := meter.remaining - cost } else none

def exhaust (meter : GasMeter) : GasMeter := { meter with remaining := 0 }

theorem charge?_eq_some_iff {meter left : GasMeter} {cost : Nat} :
    meter.charge? cost = some left ↔
      cost ≤ meter.remaining ∧ left = ⟨meter.limit, meter.remaining - cost⟩ := by
  by_cases enough : cost ≤ meter.remaining
  · simp [charge?, enough, eq_comm]
  · simp [charge?, enough]

theorem charge?_eq_none_iff {meter : GasMeter} {cost : Nat} :
    meter.charge? cost = none ↔ meter.remaining < cost := by
  simp [charge?]

end GasMeter

end SubroutineVM
