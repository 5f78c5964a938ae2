import Mathlib.Algebra.GroupWithZero.Nat

/-!
# Counters that hold a `float64`

A `float64` keeps 53 significant bits, so every whole number up to two to the 53 is
one, and larger ones are rounded to the nearest, of two equally near to the one
with the even significand. What a counter is relied on for is a pair of laws: up
to that bound it adds exactly, and it shows every addition.
-/

namespace KoAgent.FloatCounters

set_option autoImplicit false

def exactBound : Nat := 2 ^ 53

/-- The distance between the 53-bit numbers next to a whole number. -/
def spacing (n : Nat) : Nat := 2 ^ (n.log2 - 52)

/-- A whole number as a `float64`. -/
def toFloat64 (n : Nat) : Nat :=
  let kept := n / spacing n
  let rest := n % spacing n
  if 2 * rest < spacing n ∨ 2 * rest = spacing n ∧ kept % 2 = 0 then kept * spacing n
  else (kept + 1) * spacing n

example : toFloat64 (2 ^ 53 + 1) = 2 ^ 53 ∧ toFloat64 (2 ^ 53 + 3) = 2 ^ 53 + 4 := by decide +kernel

theorem spacing_pos (n : Nat) : 0 < spacing n := Nat.two_pow_pos _

theorem log_exact (n : Nat) (small : n < exactBound) : n.log2 ≤ 52 := by
  by_cases zero : n = 0
  · rw [zero, Nat.log2_zero]
    omega
  · exact Nat.le_of_lt_succ ((Nat.log2_lt zero).mpr small)

theorem spacing_exact (n : Nat) (small : n < exactBound) : spacing n = 1 := by
  rw [spacing, Nat.sub_eq_zero_of_le (log_exact n small), Nat.pow_zero]

/-- Rounding never goes below a multiple of the spacing. -/
theorem float64_lower (n bound : Nat) (below : bound ≤ n) (multiple : spacing n ∣ bound) :
    bound ≤ toFloat64 n := by
  obtain ⟨count, rfl⟩ := multiple
  have kept : count ≤ n / spacing n := by
    rw [Nat.le_div_iff_mul_le (spacing_pos n), Nat.mul_comm]
    exact below
  rw [toFloat64, Nat.mul_comm (spacing n) count]
  split
  · exact Nat.mul_le_mul_right _ kept
  · exact Nat.mul_le_mul_right _ (Nat.le_succ_of_le kept)

theorem float64_below (n : Nat) (small : n < exactBound) : toFloat64 n = n := by
  rw [toFloat64, spacing_exact n small]
  simp [Nat.mod_one]

theorem float64_exact (n : Nat) (small : n ≤ exactBound) : toFloat64 n = n := by
  rcases Nat.lt_or_eq_of_le small with less | rfl
  · exact float64_below n less
  · decide +kernel

/-- The leading power of two is a multiple of the spacing, so it bounds what is rounded. -/
theorem float64_beyond (n : Nat) (large : exactBound ≤ n) : exactBound ≤ toFloat64 n := by
  have filled : n ≠ 0 := by
    have positive : 0 < exactBound := Nat.two_pow_pos 53
    omega
  have leading : exactBound ≤ 2 ^ n.log2 :=
    Nat.pow_le_pow_right Nat.two_pos ((Nat.le_log2 filled).mpr large)
  have multiple : spacing n ∣ 2 ^ n.log2 := Nat.pow_dvd_pow 2 (Nat.sub_le _ _)
  exact Nat.le_trans leading (float64_lower n _ (Nat.log2_self_le filled) multiple)

theorem float64_positive (amount : Nat) (positive : 0 < amount) : 0 < toFloat64 amount := by
  rcases Nat.le_total amount exactBound with fits | beyond
  · rw [float64_exact amount fits]
    exact positive
  · have reached := float64_beyond amount beyond
    have bound : 0 < exactBound := Nat.two_pow_pos 53
    omega

/-- A counter with states of any kind, to which whole numbers are added. -/
structure Counter (State : Type) where
  start : State
  add : State → Nat → State
  value : State → Nat

/-- What a counter is relied on for. -/
structure Counter.Lawful {State : Type} (counter : Counter State) : Prop where
  start_value : counter.value counter.start = 0
  add_value : ∀ state amount, counter.value state + amount ≤ exactBound →
    counter.value (counter.add state amount) = counter.value state + amount
  add_shown : ∀ state amount, counter.value state < exactBound → 0 < amount →
    counter.value (counter.add state amount) ≠ counter.value state

def float64Counter : Counter Nat where
  start := 0
  add := fun value amount => toFloat64 (value + amount)
  value := id

theorem float64_counter_lawful : float64Counter.Lawful := by
  constructor
  · rfl
  · intro value amount small
    exact float64_exact _ small
  · intro value amount small positive
    change value < exactBound at small
    change toFloat64 (value + amount) ≠ value
    rcases Nat.le_total (value + amount) exactBound with fits | beyond
    · rw [float64_exact _ fits]
      omega
    · have reached := float64_beyond _ beyond
      omega

/-- A converted number that fits is added as it is. -/
theorem add_float64 {State : Type} {counter : Counter State} (lawful : counter.Lawful)
    (state : State) (amount : Nat) (fits : counter.value state + amount ≤ exactBound) :
    counter.value (counter.add state (toFloat64 amount)) = counter.value state + amount := by
  have small : amount ≤ exactBound := by omega
  rw [float64_exact amount small, lawful.add_value state amount fits]

end KoAgent.FloatCounters
