import NetSiege.Lib.Rounding

/-!
# Time spans and timeouts (`network.h`)

Time points are counted in nanoseconds. For the comparison with a timeout a difference is cast to
`duration<float>`: the count is made a `float` and divided by 10⁹, and both round. A timeout is
therefore noticed some nanoseconds late, and never early (`packageLossTimeout_lt_iff`,
`connectionTimeout_lt_iff`).
-/

namespace NetSiege

open Lib

/-- `steady_time_point_t`, in nanoseconds from the epoch of the clock. -/
abbrev Time := Nat

/-- The readings of `steady_clock::now()` while one input is handled, in the order they are
taken. -/
structure SteadyClock where
  read : Nat → Time
  mono : ∀ {m n}, m ≤ n → read m ≤ read n

/-- A clock that stands still. -/
def SteadyClock.still (t : Time) : SteadyClock := ⟨fun _ => t, fun _ => Nat.le_refl t⟩

/-- The number of smallest `float`s that make up 1. -/
def floatUnits : Nat := 2 ^ 149

/-- The `float` nearest to `n / d`, as the number of smallest ones. -/
def toFloat (n d : Nat) : Nat := roundFloat 24 (n * floatUnits) d

/-- `PACKAGE_LOSS_TIMEOUT`, in seconds. -/
def packageLossTimeout : Nat := toFloat 3 10

/-- `CONNECTION_TIMEOUT`, in seconds. -/
def connectionTimeout : Nat := toFloat 10 1

/-- `duration_cast<duration<float>>` of a difference in nanoseconds. -/
def floatSeconds (ns : Nat) : Nat := roundFloat 24 (toFloat ns 1) (10 ^ 9)

/-- The difference is more than `timeout` seconds. -/
def ExceedsTimeout (timeout ns : Nat) : Prop := timeout * 10 ^ 9 < ns * floatUnits

instance (timeout ns : Nat) : Decidable (ExceedsTimeout timeout ns) :=
  inferInstanceAs (Decidable (_ < _))

theorem floatSeconds_mono {m n : Nat} (h : m ≤ n) : floatSeconds m ≤ floatSeconds n := by
  have hcount : toFloat m 1 ≤ toFloat n 1 :=
    roundFloat_mono (by decide) (by decide) (Nat.mul_le_mul_right _ h)
  exact roundFloat_mono (by decide) (by decide) hcount

/-- A timeout that lies between the spans of two neighbouring counts is exceeded from the second
one on. -/
theorem lt_floatSeconds_iff {timeout last ns : Nat} (hle : floatSeconds last ≤ timeout)
    (hlt : timeout < floatSeconds (last + 1)) : timeout < floatSeconds ns ↔ last < ns := by
  refine ⟨fun h => Nat.lt_of_not_le fun hns => ?_, fun h => ?_⟩
  · exact Nat.not_lt.2 (Nat.le_trans (floatSeconds_mono hns) hle) h
  · exact Nat.lt_of_lt_of_le hlt (floatSeconds_mono h)

theorem packageLossTimeout_lt_iff {ns : Nat} :
    packageLossTimeout < floatSeconds ns ↔ 300000016 < ns :=
  lt_floatSeconds_iff (by decide) (by decide)

theorem connectionTimeout_lt_iff {ns : Nat} :
    connectionTimeout < floatSeconds ns ↔ 10000000511 < ns :=
  lt_floatSeconds_iff (by decide) (by decide)

theorem exceedsTimeout_packageLoss_iff {ns : Nat} :
    ExceedsTimeout packageLossTimeout ns ↔ 300000011 < ns := by
  have htimeout : packageLossTimeout = 10066330 * 2 ^ 124 := by decide
  rw [ExceedsTimeout, htimeout, floatUnits]
  omega

theorem exceedsTimeout_connection_iff {ns : Nat} :
    ExceedsTimeout connectionTimeout ns ↔ 10000000000 < ns := by
  have htimeout : connectionTimeout = 10 * 2 ^ 149 := by decide
  rw [ExceedsTimeout, htimeout, floatUnits]
  omega

end NetSiege
