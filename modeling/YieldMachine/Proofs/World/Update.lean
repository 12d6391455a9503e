import YieldMachine.World.Basic

/-!
What is read back after the world changes: each update of one generator is seen there and nowhere else.
-/

namespace YieldMachine.World

variable {H F S : Type} {w : World H F S} {g g' : GeneratorId}

@[simp] theorem generator?_modify_self (w : World H F S) (g : GeneratorId)
    (f : Generator H F → Generator H F) :
    (w.modify g f).generator? g = (w.generator? g).map f := by
  simp [generator?, modify, Array.getElem?_modify]

theorem generator?_modify_of_ne (h : g' ≠ g) (f : Generator H F → Generator H F) :
    (w.modify g f).generator? g' = w.generator? g' := by
  simp [generator?, modify, Array.getElem?_modify, h.symm]

@[simp] theorem generator?_with_state (w : World H F S) (s : S) (g : GeneratorId) :
    ({ w with state := s } : World H F S).generator? g = w.generator? g := rfl

theorem generator?_create (w : World H F S) (h : H) (f : Function) (args : List Value)
    (g : GeneratorId) :
    (w.create h f args).2.generator? g =
      if g = w.generators.size then some (.fresh h f args) else w.generator? g := by
  simp [generator?, create, Array.getElem?_push]

theorem generator?_size (w : World H F S) : w.generator? w.generators.size = none := by
  simp [generator?]

@[simp] theorem generator?_lock_self (w : World H F S) (g : GeneratorId) :
    (w.lock g).generator? g = (w.generator? g).map (·.setLock true) := generator?_modify_self ..

theorem generator?_lock_of_ne (h : g' ≠ g) : (w.lock g).generator? g' = w.generator? g' :=
  generator?_modify_of_ne h _

@[simp] theorem generator?_unlock_self (w : World H F S) (g : GeneratorId) :
    (w.unlock g).generator? g = (w.generator? g).map (·.setLock false) := generator?_modify_self ..

theorem generator?_unlock_of_ne (h : g' ≠ g) : (w.unlock g).generator? g' = w.generator? g' :=
  generator?_modify_of_ne h _

@[simp] theorem generator?_finish_self (w : World H F S) (E : Engine H F S) (g : GeneratorId) :
    (w.finish E g).generator? g = (w.generator? g).map (·.terminate) := by
  rw [finish]
  split <;> simp

theorem generator?_finish_of_ne (E : Engine H F S) (h : g' ≠ g) :
    (w.finish E g).generator? g' = w.generator? g' := by
  rw [finish]
  split <;> simp [generator?_modify_of_ne h]

@[simp] theorem generator?_fail_self (w : World H F S) (E : Engine H F S) (g : GeneratorId)
    (e : GeneratorError) :
    (w.fail E g e).generator? g = (w.generator? g).map fun x => x.terminate.setError e := by
  simp only [fail, generator?_modify_self, generator?_finish_self, Option.map_map]
  rfl

theorem generator?_fail_of_ne (E : Engine H F S) (e : GeneratorError) (h : g' ≠ g) :
    (w.fail E g e).generator? g' = w.generator? g' := by
  rw [fail, generator?_modify_of_ne h, generator?_finish_of_ne E h]

@[simp] theorem generator?_complete_self (w : World H F S) (E : Engine H F S) (g : GeneratorId)
    (v : Value) :
    (w.complete E g v).generator? g = (w.generator? g).map fun x => (x.setReturn v).terminate := by
  simp only [complete, generator?_finish_self, generator?_modify_self, Option.map_map]
  rfl

theorem generator?_complete_of_ne (E : Engine H F S) (v : Value) (h : g' ≠ g) :
    (w.complete E g v).generator? g' = w.generator? g' := by
  rw [complete, generator?_finish_of_ne E h, generator?_modify_of_ne h]

/-! ### Changes of different generators commute -/

@[simp] theorem generators_size_modify (w : World H F S) (g : GeneratorId)
    (f : Generator H F → Generator H F) :
    (w.modify g f).generators.size = w.generators.size := by
  simp [modify]

theorem ext_generator? {w w' : World H F S} (hheap : w.heap = w'.heap) (hstate : w.state = w'.state)
    (hall : ∀ g, w.generator? g = w'.generator? g) : w = w' := by
  obtain ⟨heap, state, xs⟩ := w
  obtain ⟨heap', state', ys⟩ := w'
  obtain rfl : xs = ys := Array.ext_getElem? hall
  simp only at hheap hstate
  rw [hheap, hstate]

theorem modify_comm (h : g ≠ g') (f f' : Generator H F → Generator H F) :
    (w.modify g f).modify g' f' = (w.modify g' f').modify g f := by
  refine ext_generator? rfl rfl fun i => ?_
  by_cases hg : i = g
  · subst hg
    rw [generator?_modify_of_ne h, generator?_modify_self, generator?_modify_self,
      generator?_modify_of_ne h]
  · rw [generator?_modify_of_ne hg]
    by_cases hg' : i = g'
    · subst hg'
      rw [generator?_modify_self, generator?_modify_self, generator?_modify_of_ne hg]
    · rw [generator?_modify_of_ne hg', generator?_modify_of_ne hg', generator?_modify_of_ne hg]

theorem modify_modify (w : World H F S) (g : GeneratorId) (f f' : Generator H F → Generator H F) :
    (w.modify g f).modify g f' = w.modify g fun x => f' (f x) := by
  refine ext_generator? rfl rfl fun i => ?_
  by_cases hg : i = g
  · subst hg
    simp [Function.comp_def]
  · rw [generator?_modify_of_ne hg, generator?_modify_of_ne hg, generator?_modify_of_ne hg]

theorem modify_eq_self {x : Generator H F} {f : Generator H F → Generator H F}
    (hx : w.generator? g = some x) (hf : f x = x) : w.modify g f = w := by
  refine ext_generator? rfl rfl fun i => ?_
  by_cases hg : i = g
  · subst hg
    simp [hx, hf]
  · exact generator?_modify_of_ne hg f

/-- A lock is put back as it was. -/
theorem setLock_setLock {x : Generator H F} {b : Bool} (hx : w.generator? g = some x)
    (hl : x.locked = b) (b' : Bool) :
    (w.modify g (·.setLock b')).modify g (·.setLock b) = w := by
  rw [modify_modify]
  refine modify_eq_self hx ?_
  obtain ⟨⟩ := x
  simp only at hl
  rw [hl]
  rfl

end YieldMachine.World
