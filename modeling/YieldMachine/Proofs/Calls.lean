import YieldMachine.Proofs.Operation

/-!
Sequences of calls, on one generator or on several in turn, and what the caller sees of them. A call returns just
when its drive ends (`advance_iff`).
-/

namespace YieldMachine

variable {H F S : Type}

/-- What a caller sees of one call: whether it produced a pair, and the generator's pair afterwards. -/
structure Report where
  produced : Bool
  key : Value
  value : Value

/-- The pair of a call that produced one. -/
def Report.pair? (r : Report) : Option (Value × Value) :=
  if r.produced then some (r.key, r.value) else none

namespace World

/-- Calls on `g` with these inputs, one after the other, give these reports and lead from the first world
to the second. -/
inductive Called (E : Engine H F S) (g : GeneratorId) :
    World H F S → List Input → List Report → World H F S → Prop where
  | nil (w : World H F S) : Called E g w [] [] w
  | cons {w w₁ w₂ : World H F S} {i : Input} {is : List Input} {rs : List Report} {fuel : Nat}
      {r : Except GeneratorError Bool} {x : Generator H F}
      (h : w.advance E fuel g i = some (w₁, r)) (hx : w₁.generator? g = some x)
      (rest : Called E g w₁ is rs w₂) :
      Called E g w (i :: is) (⟨produced r, x.key, x.value⟩ :: rs) w₂

/-- Calls of `next` on these generators, one after the other, give these reports and lead from the first
world to the second. -/
inductive Polled (E : Engine H F S) :
    World H F S → List GeneratorId → List Report → World H F S → Prop where
  | nil (w : World H F S) : Polled E w [] [] w
  | cons {w w₁ w₂ : World H F S} {g : GeneratorId} {gs : List GeneratorId} {rs : List Report}
      {fuel : Nat} {r : Except GeneratorError Bool} {x : Generator H F}
      (h : w.advance E fuel g .next = some (w₁, r)) (hx : w₁.generator? g = some x)
      (rest : Polled E w₁ gs rs w₂) :
      Polled E w (g :: gs) (⟨produced r, x.key, x.value⟩ :: rs) w₂

/-- The calls of `next` on these generators, each within `fuel` steps. -/
def poll (E : Engine H F S) (fuel : Nat) (w : World H F S) :
    List GeneratorId → Option (List Report × World H F S)
  | [] => some ([], w)
  | g :: gs =>
    (w.advance E fuel g .next).bind fun (w, r) =>
      (w.generator? g).bind fun x =>
        (poll E fuel w gs).map fun (rs, w) => (⟨produced r, x.key, x.value⟩ :: rs, w)

variable {E : Engine H F S} {w w' : World H F S} {g : GeneratorId} {i : Input}
  {x : Generator H F}

theorem open_eq (hx : w.generator? g = some x) (hl : x.locked = false) :
    w.open? g i = some (w.lock g, Drive.turnTo x g i.sent? []) := by
  rw [open?, hx]
  simp [hl]

theorem eq_of_produced {r : Except GeneratorError Bool} (h : produced r = true) : r = .ok true := by
  match r, h with
  | .ok true, _ => rfl

/-- A call returns just when its drive ends. -/
theorem advance_iff {s : Drive.State H F S} {r : Drive.Result H F S} (hs : w.open? g i = some s) :
    (∃ fuel, w.advance E fuel g i = some r) ↔ Ends (Drive.step E) s r := by
  simp only [advance, hs, Option.bind_some]
  exact ends_iff_run.symm

/-- What a call gives does not depend on the fuel. -/
theorem advance_unique {n k : Nat} {r r' : Drive.Result H F S} (h : w.advance E n g i = some r)
    (h' : w.advance E k g i = some r') : r = r' := by
  obtain ⟨s, hs, hrun⟩ := Option.bind_eq_some_iff.mp h
  obtain ⟨s', hs', hrun'⟩ := Option.bind_eq_some_iff.mp h'
  obtain rfl := Option.some.inj (hs.symm.trans hs')
  exact (ends_of_run hrun).unique (ends_of_run hrun')

theorem Called.unique {is : List Input} {rs rs' : List Report} {v v' : World H F S} (h : w.Called E g is rs v)
    (h' : w.Called E g is rs' v') : rs = rs' ∧ v = v' := by
  induction h generalizing rs' v' with
  | nil =>
    cases h'
    exact ⟨rfl, rfl⟩
  | cons ha hx _ ih =>
    cases h' with
    | cons ha' hx' hrest' =>
      obtain ⟨rfl, rfl⟩ := Prod.mk.inj (advance_unique ha ha')
      obtain rfl := Option.some.inj (hx.symm.trans hx')
      obtain ⟨rfl, rfl⟩ := ih hrest'
      exact ⟨rfl, rfl⟩

theorem polled_of_poll {fuel : Nat} {gs : List GeneratorId} {rs : List Report}
    (h : w.poll E fuel gs = some (rs, w')) : w.Polled E gs rs w' := by
  induction gs generalizing w rs with
  | nil =>
    obtain ⟨rfl, rfl⟩ := Prod.mk.inj (Option.some.inj h)
    exact .nil w
  | cons g gs ih =>
    obtain ⟨⟨w₁, r⟩, ha, h⟩ := Option.bind_eq_some_iff.mp h
    obtain ⟨x, hx, h⟩ := Option.bind_eq_some_iff.mp h
    obtain ⟨⟨rs, w₂⟩, hrest, heq⟩ := Option.map_eq_some_iff.mp h
    obtain ⟨rfl, rfl⟩ := Prod.mk.inj heq
    exact .cons ha hx (ih hrest)

/-- Polling one generator calls it again and again. -/
theorem Polled.called {n : Nat} {rs : List Report} (h : w.Polled E (List.replicate n g) rs w') :
    w.Called E g (List.replicate n .next) rs w' := by
  induction n generalizing w rs with
  | zero =>
    cases h
    exact .nil _
  | succ n ih =>
    rw [List.replicate_succ] at h
    cases h with
    | cons ha hx hrest => exact .cons ha hx (ih hrest)

end World

end YieldMachine
