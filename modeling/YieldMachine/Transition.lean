/-!
Machines given by a step function: running one for a number of steps, and the states it reaches.
-/

namespace YieldMachine

inductive Transition (σ ρ : Type) where
  | next (s : σ)
  | halt (r : ρ)

/-- Runs at most `n` steps; none if the machine has not halted by then. -/
def run {σ ρ : Type} (step : σ → Transition σ ρ) : Nat → σ → Option ρ
  | 0, _ => none
  | n + 1, s =>
    match step s with
    | .next t => run step n t
    | .halt r => some r

/-- From the first state, `n` steps lead to the second. -/
inductive Reaches {σ ρ : Type} (step : σ → Transition σ ρ) : σ → Nat → σ → Prop where
  | refl (s : σ) : Reaches step s 0 s
  | next {s t u : σ} {n : Nat} (h : step s = .next t) (r : Reaches step t n u) :
      Reaches step s (n + 1) u

end YieldMachine
