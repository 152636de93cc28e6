import Mathlib.Data.Rat.Init
import Mathlib.Algebra.Order.Ring.Unbundled.Rat

/-!
# One pass of the retry loop

`src/utils/retry.ts`. The body of the loop in `executeWithRetry`, as a function of the attempt
number and the outcome of the task: what a caller that is suspended between two attempts needs to
know.

`maxRetries` is any finite number, because the configuration schema asks for no more than that. The
loop runs on `attempt <= maxRetries` and stops on `attempt === maxRetries`; for a fractional or
negative bound these two do not fit together, and both are kept as the source has them.
-/

namespace OrderProcessing

/-- What the loop does after one attempt. -/
inductive RetryStep (ε α : Type)
  | returned (value : α)
  | thrown (error : ε)
  | again (attempt : ℕ)

/-- The loop head: whether another attempt is made at all. -/
def retryAllowed (maxRetries : ℚ) (attempt : ℕ) : Bool := (attempt : ℚ) ≤ maxRetries

/-- The loop body, given the outcome of the task. -/
def retryStep {ε α : Type} (maxRetries : ℚ) (shouldRetry : ε → Bool) (attempt : ℕ) :
    Except ε α → RetryStep ε α
  | .ok value => .returned value
  | .error error =>
    if (attempt : ℚ) = maxRetries || !shouldRetry error then .thrown error
    else .again (attempt + 1)

end OrderProcessing
