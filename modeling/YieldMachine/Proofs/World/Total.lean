import Mathlib.Algebra.Order.BigOperators.Group.List
import Mathlib.Algebra.Order.Ring.Nat
import YieldMachine.Proofs.Drive.Embedding

/-!
Sums over all generators of a world, and how each change of a generator changes them.
-/

namespace YieldMachine.World

variable {H F S : Type}

/-- The sum of `f` over all generators. -/
def total (f : Generator H F → Nat) (w : World H F S) : Nat := (w.generators.toList.map f).sum

variable {f : Generator H F → Nat} {w : World H F S} {g : GeneratorId} {x : Generator H F}

theorem sum_map_modify {α : Type} (f : α → Nat) {xs : List α} {i : Nat} {a : α}
    (h : xs[i]? = some a) (b : α) :
    ((xs.modify i fun _ => b).map f).sum + f a = (xs.map f).sum + f b := by
  induction xs generalizing i with
  | nil => cases h
  | cons y ys ih =>
    cases i with
    | zero =>
      obtain rfl : y = a := by simpa using h
      simp only [List.modify_zero_cons, List.map_cons, List.sum_cons]
      omega
    | succ i =>
      have hrest := ih (i := i) (by simpa using h)
      simp only [List.modify_succ_cons, List.map_cons, List.sum_cons]
      omega

theorem total_replace (hx : w.generator? g = some x) (y : Generator H F) :
    total f (w.replace g y) + f x = total f w + f y := by
  have hx' : w.generators.toList[g]? = some x := by rwa [Array.getElem?_toList]
  have hsum := sum_map_modify f hx' y
  rwa [← Array.toList_modify] at hsum

/-- A change that `f` does not see. -/
theorem total_modify {h : Generator H F → Generator H F} (hf : ∀ x, f (h x) = f x)
    (w : World H F S) (g : GeneratorId) : total f (w.modify g h) = total f w := by
  have hmap : (w.generators.toList.modify g h).map f = w.generators.toList.map f := by
    apply List.ext_getElem?
    intro i
    simp only [List.getElem?_map, List.getElem?_modify]
    split
    · simp [Option.map_map, Function.comp_def, hf]
    · simp
  rw [total, total, modify, Array.toList_modify, hmap]

theorem total_create (w : World H F S) (h : H) (function : Function) (args : List Value) :
    total f (w.create h function args).2 = total f w + f (.fresh h function args) := by
  simp [total, create]

theorem total_le {n : Nat} (h : ∀ g x, w.generator? g = some x → f x ≤ n) :
    total f w ≤ w.generators.size * n := by
  have hall : ∀ k ∈ w.generators.toList.map f, k ≤ n := by
    intro k hk
    obtain ⟨x, hx, rfl⟩ := List.mem_map.mp hk
    obtain ⟨g, hg⟩ := List.mem_iff_getElem?.mp hx
    exact h g x (by rwa [Array.getElem?_toList] at hg)
  simpa [total] using List.sum_le_card_nsmul _ n hall

end YieldMachine.World
