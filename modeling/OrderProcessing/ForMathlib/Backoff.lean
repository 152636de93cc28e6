import Mathlib.Algebra.BigOperators.Group.Finset.Basic
import Mathlib.Algebra.Order.BigOperators.Group.Finset
import Mathlib.Algebra.Order.Field.Basic
import Mathlib.Tactic.Linarith
import Mathlib.Tactic.Ring

/-!
# Exponential backoff with jitter and a cap

Delay number `n` is `base * 2 ^ n`, a random part of one more `base`, and at most `cap`. The random
factors are independent of each other, and a statement about delays is about every choice of them.

Each delay is as long as the one before even if the jitter is all in the earlier one: doubling adds
at least `base`, and the jitter takes away less. The cap keeps that order.

## Main results

* `Backoff.min_le_delay`, `Backoff.delay_le_longest` — between two consecutive exponentials
* `Backoff.delay_le_delay_succ`
* `Backoff.sum_delay_le`, `Backoff.sum_longest_le` — the total, and that its bound is sharp
-/

namespace Backoff

variable {K : Type*} [Field K] [LinearOrder K]

/-- Delay number `n`, with the random factor `r`. -/
def delay (cap base : K) (n : ℕ) (r : K) : K := min cap (base * 2 ^ n + r * base)

/-- What delay number `n` comes near to for factors near to one. -/
def longest (cap base : K) (n : ℕ) : K := min cap (base * (2 ^ n + 1))

variable {cap base c r r' : K} {k n : ℕ}

/-! ### Single delays -/

theorem delay_le_cap : delay cap base n r ≤ cap := min_le_left ..

theorem longest_le_cap : longest cap base n ≤ cap := min_le_left ..

variable [IsStrictOrderedRing K]

theorem min_le_delay (hbase : 0 ≤ base) (hr : 0 ≤ r) :
    min cap (base * 2 ^ n) ≤ delay cap base n r :=
  min_le_min_left cap (le_add_of_nonneg_right (mul_nonneg hr hbase))

theorem delay_le_longest (hbase : 0 ≤ base) (hr : r ≤ 1) :
    delay cap base n r ≤ longest cap base n := by
  refine min_le_min_left cap ?_
  calc base * 2 ^ n + r * base
      ≤ base * 2 ^ n + 1 * base := by gcongr
    _ = base * (2 ^ n + 1) := by ring

/-- A delay misses its bound by what is left of the jitter. -/
theorem longest_le_delay_add (hbase : 0 ≤ base) (hr : r ≤ 1) :
    longest cap base n ≤ delay cap base n r + (1 - r) * base := by
  have hrest : 0 ≤ (1 - r) * base := mul_nonneg (sub_nonneg.mpr hr) hbase
  rw [longest, delay, ← min_add_add_right]
  refine min_le_min (le_add_of_nonneg_right hrest) (le_of_eq ?_)
  ring

theorem longest_nonneg (hcap : 0 ≤ cap) (hbase : 0 ≤ base) : 0 ≤ longest cap base n :=
  le_min hcap (mul_nonneg hbase (by positivity))

/-- **Delays do not shrink**, whatever the two random factors are. -/
theorem delay_le_delay_succ (hbase : 0 ≤ base) (hr : r ≤ 1) (hr' : 0 ≤ r') :
    delay cap base n r ≤ delay cap base (n + 1) r' := by
  refine (delay_le_longest hbase hr).trans (le_trans ?_ (min_le_delay hbase hr'))
  refine min_le_min_left cap (mul_le_mul_of_nonneg_left ?_ hbase)
  calc (2 : K) ^ n + 1
      ≤ 2 ^ n + 2 ^ n := by gcongr; exact one_le_pow₀ one_le_two
    _ = 2 ^ (n + 1) := by ring

/-! ### Totals -/

theorem sum_longest_le_mul (cap base : K) (n : ℕ) :
    ∑ i ∈ Finset.range n, longest cap base i ≤ n * cap := by
  have hsum := Finset.sum_le_card_nsmul (Finset.range n) (longest cap base) cap
    fun _ _ => longest_le_cap
  rwa [Finset.card_range, nsmul_eq_mul] at hsum

/-- The first `k` of at most `n` delays together. -/
theorem sum_delay_le {random : ℕ → K} (hbase : 0 ≤ base) (hrandom : ∀ i, random i ≤ 1)
    (hc : 0 ≤ c) (hsum : ∑ i ∈ Finset.range n, longest cap base i ≤ c) (hk : k ≤ n) :
    ∑ i ∈ Finset.range k, delay cap base i (random i) ≤ c := by
  rcases le_or_gt 0 cap with hcap | hcap
  · calc ∑ i ∈ Finset.range k, delay cap base i (random i)
        ≤ ∑ i ∈ Finset.range k, longest cap base i :=
          Finset.sum_le_sum fun i _ => delay_le_longest hbase (hrandom i)
      _ ≤ ∑ i ∈ Finset.range n, longest cap base i :=
          Finset.sum_le_sum_of_subset_of_nonneg (Finset.range_mono hk)
            fun i _ _ => longest_nonneg hcap hbase
      _ ≤ c := hsum
  · exact (Finset.sum_nonpos fun i _ => delay_le_cap.trans hcap.le).trans hc

/-- The bound is sharp: what all totals with equal factors below one respect, the bound respects. -/
theorem sum_longest_le (hbase : 0 ≤ base)
    (h : ∀ r, 0 ≤ r → r < 1 → ∑ i ∈ Finset.range n, delay cap base i r ≤ c) :
    ∑ i ∈ Finset.range n, longest cap base i ≤ c := by
  have hmargin : ∀ r, 0 ≤ r → r < 1 →
      ∑ i ∈ Finset.range n, longest cap base i ≤ c + n * ((1 - r) * base) := by
    intro r hr hr1
    calc ∑ i ∈ Finset.range n, longest cap base i
        ≤ ∑ i ∈ Finset.range n, (delay cap base i r + (1 - r) * base) :=
          Finset.sum_le_sum fun i _ => longest_le_delay_add hbase hr1.le
      _ = ∑ i ∈ Finset.range n, delay cap base i r + n * ((1 - r) * base) := by
          rw [Finset.sum_add_distrib, Finset.sum_const, Finset.card_range, nsmul_eq_mul]
      _ ≤ c + n * ((1 - r) * base) := by gcongr; exact h r hr hr1
  -- for some `r` below one the margin is narrower than any gap between the two sides
  refine le_of_forall_pos_le_add fun ε hε => ?_
  have hwidth : 0 ≤ n * base := mul_nonneg n.cast_nonneg hbase
  have hd : 0 < n * base + ε := add_pos_of_nonneg_of_pos hwidth hε
  have hle : ε / (n * base + ε) ≤ 1 := (div_le_one hd).mpr (le_add_of_nonneg_left hwidth)
  have hpos : 0 < ε / (n * base + ε) := div_pos hε hd
  refine (hmargin (1 - ε / (n * base + ε)) (sub_nonneg.mpr hle) (sub_lt_self 1 hpos)).trans ?_
  rw [add_le_add_iff_left]
  calc n * ((1 - (1 - ε / (n * base + ε))) * base)
      = n * base * (ε / (n * base + ε)) := by ring
    _ ≤ (n * base + ε) * (ε / (n * base + ε)) := by gcongr; exact le_add_of_nonneg_right hε.le
    _ = ε := mul_div_cancel₀ ε hd.ne'

end Backoff
