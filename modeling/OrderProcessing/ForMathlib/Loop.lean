import Mathlib.Data.Nat.Notation
import Mathlib.Order.Basic

/-!
# Loops

A loop is a function that says of a state whether to go on, and from where, or what the result is.
It need not end, so running it takes fuel; a claim that a loop ends is a claim that it has a result
when there is fuel enough.

## Main results

* `Loop.run_succ_of_again`, `Loop.run_succ_of_done` — one pass
* `Loop.run_add_of_again` — a loop that goes on for a while
-/

namespace Loop

variable {σ τ : Type*}

/-- What one pass through the body of a loop comes to. -/
inductive Next (σ τ : Type*)
  /-- Go on from here. -/
  | again (state : σ)
  /-- Leave the loop. -/
  | done (result : τ)

/-- The result of a loop, if it is found in at most this many passes. -/
def run (body : σ → Next σ τ) : ℕ → σ → Option τ
  | 0, _ => none
  | fuel + 1, s =>
    match body s with
    | .again s' => run body fuel s'
    | .done t => some t

variable {body : σ → Next σ τ} {s s' : σ} {t : τ} {fuel : ℕ}

theorem run_succ_of_again (h : body s = .again s') :
    run body (fuel + 1) s = run body fuel s' := by
  rw [run, h]

theorem run_succ_of_done (h : body s = .done t) : run body (fuel + 1) s = some t := by
  rw [run, h]

/-- Passes that go on along a sequence of states. -/
theorem run_add_of_again {states : ℕ → σ} {k : ℕ}
    (h : ∀ i < k, body (states i) = .again (states (i + 1))) (fuel : ℕ) :
    run body (k + fuel) (states 0) = run body fuel (states k) := by
  induction k generalizing fuel with
  | zero => rw [Nat.zero_add]
  | succ k ih =>
    have hprefix := ih (fun i hi => h i (by omega)) (fuel + 1)
    rw [Nat.add_right_comm, Nat.add_assoc, hprefix, run_succ_of_again (h k (by omega))]

end Loop
