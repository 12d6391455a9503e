import YieldMachine.Proofs.Machine.Nesting

/-!
Well-formed executions. A body that begins with a call of a function comes, by any number of steps and pauses,
only to executions of which every frame is well formed: the counter is within its function's body, the locals are
as many as the function declares, and only a frame that is paused awaits something, namely what the yield that it
has just run gives back (`Machine.Conducted.formed`). The activation at the bottom is that of the call, and while a
frame is open the activations from it down stay as they are (`Machine.Within.activations`).
-/

namespace YieldMachine

variable {H F : Type}

namespace Frame

variable {x y : Frame} {a : Awaiting} {i : Instruction}

structure Placed (x : Frame) : Prop where
  pc : x.pc ≤ x.function.body.size
  locals : x.locals.size = x.function.locals

/-- The instruction before the counter. -/
def last? (x : Frame) : Option Instruction :=
  match x.pc with
  | 0 => none
  | n + 1 => x.function.body[n]?

/-- The frame has come to a yield at which a body awaits `a`. -/
def At (x : Frame) (a : Awaiting) : Prop := ∃ i, x.last? = some i ∧ i.awaits = a

/-- The frame awaits what the yield before its counter gives back. -/
structure Paused (x : Frame) : Prop where
  waits : x.awaiting ≠ .nothing
  sent : x.awaiting = .sent ↔ x.last? = some .yield ∨ x.last? = some .yieldPair
  result : x.awaiting = .delegationResult ↔ x.last? = some .yieldFrom

theorem awaits_eq_sent : i.awaits = .sent ↔ i = .yield ∨ i = .yieldPair := by
  cases i <;> simp [Instruction.awaits]

theorem awaits_eq_delegationResult : i.awaits = .delegationResult ↔ i = .yieldFrom := by
  cases i <;> simp [Instruction.awaits]

theorem At.paused (h : x.At x.awaiting) (hne : x.awaiting ≠ .nothing) : x.Paused := by
  obtain ⟨i, hi, ha⟩ := h
  refine ⟨hne, ?_, ?_⟩
  · rw [hi, ← ha, Option.some.injEq, Option.some.injEq]
    exact awaits_eq_sent
  · rw [hi, ← ha, Option.some.injEq]
    exact awaits_eq_delegationResult

/-- A frame that has moved past a yield is at it. -/
theorem at_of_instruction (hi : x.instruction? = some i) (hf : y.function = x.function) (hpc : y.pc = x.pc + 1) :
    y.At i.awaits := by
  refine ⟨i, ?_, rfl⟩
  unfold last?
  rw [hpc, hf]
  exact hi

/-- The same activation, still within its body. -/
structure Moves (x y : Frame) : Prop where
  function : y.function = x.function
  arguments : y.arguments = x.arguments
  locals : y.locals.size = x.locals.size
  pc : x.pc ≤ x.function.body.size → y.pc ≤ x.function.body.size

theorem moves_refl (x : Frame) : x.Moves x := ⟨rfl, rfl, rfl, id⟩

theorem Moves.trans {z : Frame} (h : x.Moves y) (h' : y.Moves z) : x.Moves z := by
  refine ⟨h'.function.trans h.function, h'.arguments.trans h.arguments, h'.locals.trans h.locals, ?_⟩
  intro hle
  have hpc := h'.pc
  rw [h.function] at hpc
  exact hpc (h.pc hle)

theorem Moves.placed (h : x.Moves y) (hx : x.Placed) : y.Placed := by
  refine ⟨?_, ?_⟩
  · rw [h.function]
    exact h.pc hx.pc
  · rw [h.locals, h.function]
    exact hx.locals

theorem ofCall_placed (f : Function) (args : List Value) : (ofCall f args).Placed :=
  ⟨Nat.zero_le _, Array.size_replicate⟩

/-- The frame after an instruction. -/
theorem Follows.moves {e : Effect} (h : ({ x with pc := x.pc + 1 } : Frame).Follows i e)
    (hi : x.instruction? = some i) (he : e.frame? = some y) : x.Moves y := by
  have hstays := h.stays y he
  obtain ⟨hwithin, -⟩ := Array.getElem?_eq_some_iff.mp hi
  refine ⟨hstays.function, hstays.arguments, hstays.locals, ?_⟩
  intro _
  rcases h.pc y he with hpc | ⟨-, hle⟩
  · rw [hpc]
    exact hwithin
  · exact hle

/-- After a yield the frame is at it, and its function is a generator's. -/
theorem Follows.at_yield {e : Effect} (h : ({ x with pc := x.pc + 1 } : Frame).Follows i e)
    (hi : x.instruction? = some i) (he : e.frame? = some y) (hne : e.awaits ≠ .nothing) :
    x.function.isGenerator = true ∧ y.At e.awaits := by
  have hyield : i.isYield = true := by
    rw [Instruction.isYield_iff, ← h.awaits]
    exact hne
  refine ⟨Machine.isGenerator_of_isYield hi hyield, ?_⟩
  rw [h.awaits]
  apply at_of_instruction hi (h.moves hi he).function
  rcases h.pc y he with hpc | ⟨rfl, -⟩
  · exact hpc
  · exact absurd rfl hne

end Frame

namespace Execution

variable {x y : Execution} {f : Function} {args : List Value} {reply : Reply} {v : Value}

/-- The functions that are under way and what they were called with, innermost first. -/
def activations (x : Execution) : List (Function × List Value) :=
  (x.frame :: x.callers).map fun z => (z.function, z.arguments)

/-- The execution is well formed, and began as a call of `f`. All functions but this one are plain. -/
structure Formed (f : Function) (args : List Value) (x : Execution) : Prop where
  placed : ∀ z ∈ x.frame :: x.callers, z.Placed
  quiet : ∀ z ∈ x.callers, z.awaiting = .nothing
  plain : ∀ c ∈ x.activations.dropLast, c.1.isGenerator = false
  origin : [(f, args)] <:+ x.activations

/-- What the innermost frame awaits, and where it has come to, when the body has this reply. -/
def Ready (x : Execution) : Reply → Prop
  | .resume => x.callers = [] ∧ x.frame.Paused
  | .reported => x.callers = [] ∧ x.frame.awaiting = .nothing ∧ x.frame.At .sent
  | .accepted | .refused _ | .delegating _ =>
    x.callers = [] ∧ x.frame.awaiting = .nothing ∧ x.frame.At .delegationResult
  | .proceed | .value _ => x.frame.awaiting = .nothing

/-- The frames before and after a step: they are the same activations, or a plain call has begun, or one has
returned. -/
inductive Shifts (x y : Execution) : Prop where
  | stays (hf : x.frame.Moves y.frame) (hc : y.callers = x.callers)
  | opens {g : Function} {args : List Value} {caller : Frame} (hg : g.isGenerator = false)
      (hf : y.frame = .ofCall g args) (hc : y.callers = caller :: x.callers) (hm : x.frame.Moves caller)
      (ha : caller.awaiting = x.frame.awaiting)
  | returns {caller : Frame} {v : Value} (hf : y.frame = caller.push v) (hc : x.callers = caller :: y.callers)

theorem Shifts.activations (h : x.Shifts y) :
    y.activations = x.activations ∨ (∃ c, c.1.isGenerator = false ∧ y.activations = c :: x.activations) ∨
      ∃ c, x.activations = c :: y.activations := by
  unfold Execution.activations
  cases h with
  | stays hf hc =>
    left
    rw [hc, List.map_cons, List.map_cons, hf.function, hf.arguments]
  | @opens g args caller hg hf hc hm ha =>
    right
    left
    refine ⟨(g, args), hg, ?_⟩
    rw [hf, hc, List.map_cons, List.map_cons, List.map_cons, hm.function, hm.arguments]
    rfl
  | returns hf hc =>
    right
    right
    refine ⟨(x.frame.function, x.frame.arguments), ?_⟩
    rw [hf, hc, List.map_cons, List.map_cons, List.map_cons]
    rfl

theorem activations_ne_nil (x : Execution) : x.activations ≠ [] := List.cons_ne_nil _ _

/-- Frames stay well formed in a step from an execution that awaits nothing, and in any that opens no call. -/
theorem Shifts.formed (h : x.Shifts y) (hx : x.Formed f args)
    (ha : x.frame.awaiting = .nothing ∨ y.callers = x.callers) : y.Formed f args := by
  obtain ⟨hframe, hcallers⟩ := List.forall_mem_cons.mp hx.placed
  have hlist : (∀ c ∈ y.activations.dropLast, c.1.isGenerator = false) ∧ [(f, args)] <:+ y.activations := by
    rcases h.activations with hsame | ⟨c, hc, hmore⟩ | ⟨c, hless⟩
    · rw [hsame]
      exact ⟨hx.plain, hx.origin⟩
    · rw [hmore, List.dropLast_cons_of_ne_nil x.activations_ne_nil]
      refine ⟨List.forall_mem_cons.mpr ⟨hc, hx.plain⟩, ?_⟩
      exact hx.origin.trans (List.suffix_cons ..)
    · have hplain := hx.plain
      have horigin := hx.origin
      rw [hless, List.dropLast_cons_of_ne_nil y.activations_ne_nil] at hplain
      rw [hless, List.suffix_cons_iff] at horigin
      refine ⟨(List.forall_mem_cons.mp hplain).2, ?_⟩
      rcases horigin with hall | hrest
      · exact absurd (List.cons.inj hall).2.symm y.activations_ne_nil
      · exact hrest
  cases h with
  | stays hf hc =>
    refine ⟨?_, ?_, hlist.1, hlist.2⟩
    · rw [hc]
      exact List.forall_mem_cons.mpr ⟨hf.placed hframe, hcallers⟩
    · rw [hc]
      exact hx.quiet
  | @opens g args caller hg hf hc hm hawait =>
    have hnothing : x.frame.awaiting = .nothing := by
      rcases ha with ha | ha
      · exact ha
      · rw [hc] at ha
        exact (List.cons_ne_self _ _ ha).elim
    refine ⟨?_, ?_, hlist.1, hlist.2⟩
    · rw [hf, hc]
      exact List.forall_mem_cons.mpr
        ⟨Frame.ofCall_placed g args, List.forall_mem_cons.mpr ⟨hm.placed hframe, hcallers⟩⟩
    · rw [hc]
      exact List.forall_mem_cons.mpr ⟨hawait.trans hnothing, hx.quiet⟩
  | @returns caller v hf hc =>
    have hquiet := hx.quiet
    rw [hc] at hcallers hquiet
    obtain ⟨hcaller, hrest⟩ := List.forall_mem_cons.mp hcallers
    refine ⟨?_, (List.forall_mem_cons.mp hquiet).2, hlist.1, hlist.2⟩
    rw [hf]
    exact List.forall_mem_cons.mpr ⟨⟨hcaller.pc, hcaller.locals⟩, hrest⟩

/-- A step after a change of the innermost frame alone. -/
theorem Shifts.after {z : Execution} (h : z.Shifts y) (hc : z.callers = x.callers) (hm : x.frame.Moves z.frame)
    (ha : z.frame.awaiting = x.frame.awaiting) : x.Shifts y := by
  cases h with
  | stays hf hc' => exact .stays (hm.trans hf) (hc'.trans hc)
  | opens hg hf hc' hm' ha' => exact .opens hg hf (hc ▸ hc') (hm.trans hm') (ha'.trans ha)
  | returns hf hc' => exact .returns hf (hc ▸ hc')

theorem await_shifts (x : Execution) (a : Awaiting) : x.Shifts (x.await a) := .stays ⟨rfl, rfl, rfl, id⟩ rfl

/-- A frame that can pause is the outermost one. -/
theorem Formed.outermost (h : x.Formed f args) (hg : x.frame.function.isGenerator = true) : x.callers = [] := by
  cases hc : x.callers with
  | nil => rfl
  | cons caller rest =>
    have hplain := h.plain (x.frame.function, x.frame.arguments) (by simp [activations, hc])
    rw [hg] at hplain
    cases hplain

end Execution

/-- After the action the body goes on from this frame with this reply, at once or when it is taken up again. -/
inductive Action.Continues : Action H F → F → Reply → Prop where
  | leads {action : Action H F} {frame : F} {reply : Reply} (h : action.Leads frame reply) :
      Continues action frame reply
  | pause (frame : F) : Continues (.suspend frame) frame .resume

namespace Machine

variable {m : Machine} {x y : Execution} {f : Function} {args : List Value} {heap : Heap} {out : Output}
  {reply reply' : Reply}

/-- A body that was called as `f` comes to this execution with this reply, whatever it is answered on the way and
however often it pauses. -/
inductive Conducted (m : Machine) (f : Function) (args : List Value) : Execution → Reply → Prop where
  | start (depth : Nat) : Conducted m f args (execution depth f args) .proceed
  | next {x y : Execution} {reply reply' : Reply} (h : Conducted m f args x reply) (heap : Heap) (out : Output)
      (hy : (m.step heap out x reply).2.2.Continues y reply') : Conducted m f args y reply'

/-! ### One step -/

theorem ret_shifts {v : Value} (h : (x.ret v).Continues y reply) :
    x.Shifts y ∧ ∀ f args, x.Formed f args → y.Ready reply := by
  unfold Execution.ret at h
  split at h
  · cases h with
    | leads h => cases h
  · next caller rest hc =>
    cases h with
    | leads h =>
      cases h
      refine ⟨.returns rfl hc, ?_⟩
      intro f args hx
      have hquiet := hx.quiet
      rw [hc] at hquiet
      exact (List.forall_mem_cons.mp hquiet).1

theorem call_shifts {id : FunctionId} {args' : List Value} (h : (m.call x id args').Continues y reply) :
    x.Shifts y ∧ (x.frame.awaiting = .nothing → y.Ready reply) := by
  unfold call at h
  split at h
  · cases h with
    | leads h => cases h
  · split at h
    · cases h with
      | leads h => cases h
    · split at h
      · cases h with
        | leads h =>
          cases h
          exact ⟨.stays x.frame.moves_refl rfl, fun hnothing => hnothing⟩
      · next hplain =>
        cases h with
        | leads h =>
          cases h
          exact ⟨.opens (Bool.eq_false_iff.mpr hplain) rfl rfl x.frame.moves_refl rfl, fun _ => rfl⟩

/-- The effect of an instruction keeps the activations or opens or ends a call; and where it pauses the body, the
frame is at the yield. -/
theorem apply_shifts {i : Instruction} {e : Effect} (hi : x.frame.instruction? = some i)
    (he : ({ x.frame with pc := x.frame.pc + 1 } : Frame).Follows i e)
    (h : (m.apply out x.tick e).2.Continues y reply) :
    x.Shifts y ∧ ∀ f args, x.Formed f args → x.frame.awaiting = .nothing → y.Ready reply := by
  have hmoves {z : Frame} (hz : e.frame? = some z) : x.frame.Moves z := he.moves hi hz
  have hawait {z : Frame} (hz : e.frame? = some z) : z.awaiting = x.frame.awaiting := (he.stays z hz).awaiting
  -- A yield stands in the outermost frame, which has just passed it.
  have hyield {z : Frame} {f : Function} {args : List Value} (hz : e.frame? = some z) (hne : e.awaits ≠ .nothing)
      (hx : x.Formed f args) : x.callers = [] ∧ z.At e.awaits := by
    obtain ⟨hgenerator, hat⟩ := he.at_yield hi hz hne
    exact ⟨hx.outermost hgenerator, hat⟩
  cases e with
  | go z | echo text z =>
    cases h with
    | leads h =>
      cases h
      exact ⟨.stays (hmoves rfl) rfl, fun _ _ _ hnothing => (hawait rfl).trans hnothing⟩
  | yieldValue v z | yieldPair k v z =>
    cases h with
    | leads h =>
      cases h
      refine ⟨.stays (hmoves rfl) rfl, ?_⟩
      intro f args hx hnothing
      obtain ⟨hcallers, hat⟩ := hyield rfl (by simp [Effect.awaits]) hx
      exact ⟨hcallers, (hawait rfl).trans hnothing, hat⟩
  | yieldFrom source z =>
    cases h with
    | leads h =>
      cases h with
      | delegate _ _ hreply =>
        refine ⟨.stays (hmoves rfl) rfl, ?_⟩
        intro f args hx hnothing
        obtain ⟨hcallers, hat⟩ := hyield rfl (by simp [Effect.awaits]) hx
        cases hreply <;> exact ⟨hcallers, (hawait rfl).trans hnothing, hat⟩
  | call id args' z =>
    obtain ⟨hshifts, hready⟩ := call_shifts h
    refine ⟨hshifts.after rfl (hmoves rfl) (hawait rfl), ?_⟩
    intro f args _ hnothing
    exact hready ((hawait rfl).trans hnothing)
  | ret v =>
    obtain ⟨hshifts, hready⟩ := ret_shifts (x := x.tick) h
    refine ⟨hshifts.after rfl x.frame.moves_refl rfl, ?_⟩
    intro f args hx _
    exact hready f args ⟨hx.placed, hx.quiet, hx.plain, hx.origin⟩

theorem advance_shifts (h : (m.advance heap out x).2.2.Continues y reply) :
    x.Shifts y ∧ ∀ f args, x.Formed f args → x.frame.awaiting = .nothing → y.Ready reply := by
  have hcases := m.advances heap out x
  generalize m.advance heap out x = result at hcases h
  cases hcases with
  | ends hi =>
    obtain ⟨hshifts, hready⟩ := ret_shifts h
    exact ⟨hshifts, fun f args hx _ => hready f args hx⟩
  | exceeds hi hb | faults hi hb he hf =>
    cases h with
    | leads h => cases h
  | @executes i heap' e hi hb he hk =>
    have hfollows := Frame.execute_settles { x.frame with pc := x.frame.pc + 1 } heap i
    rw [he] at hfollows
    exact apply_shifts hi hfollows h

/-- A step keeps the frames well formed, and finds the innermost one ready for the next reply. -/
theorem step_shifts (h : (m.step heap out x reply).2.2.Continues y reply') :
    x.Shifts y ∧ ∀ f args, x.Formed f args → x.Ready reply → y.Formed f args ∧ y.Ready reply' := by
  have hawaits {f : Function} {args : List Value} (a : Awaiting) (hx : x.Formed f args) : (x.await a).Formed f args :=
    (x.await_shifts a).formed hx (.inr rfl)
  cases reply with
  | proceed =>
    obtain ⟨hshifts, hready⟩ := advance_shifts h
    refine ⟨hshifts, ?_⟩
    intro f args hx hnothing
    exact ⟨hshifts.formed hx (.inl hnothing), hready f args hx hnothing⟩
  | resume =>
    simp only [step, wake] at h
    split at h
    · next hnothing =>
      cases h with
      | leads h =>
        cases h
        exact ⟨.stays x.frame.moves_refl rfl, fun _ _ hx _ => ⟨hx, hnothing⟩⟩
    all_goals
      cases h with
      | leads h =>
        cases h
        exact ⟨x.await_shifts .nothing, fun _ _ hx _ => ⟨hawaits .nothing hx, rfl⟩⟩
  | reported =>
    cases h with
    | leads h => cases h
    | pause =>
      refine ⟨x.await_shifts .sent, ?_⟩
      rintro f args hx ⟨hcallers, -, hat⟩
      exact ⟨hawaits .sent hx, hcallers, Frame.At.paused (x := (x.await .sent).frame) hat (by simp [Execution.await])⟩
  | accepted =>
    cases h with
    | leads h =>
      cases h
      exact ⟨.stays x.frame.moves_refl rfl, fun _ _ hx hr => ⟨hx, hr⟩⟩
  | refused e =>
    cases h with
    | leads h => cases h
  | delegating active =>
    cases active with
    | true =>
      cases h with
      | leads h => cases h
      | pause =>
        refine ⟨x.await_shifts .delegationResult, ?_⟩
        rintro f args hx ⟨hcallers, -, hat⟩
        refine ⟨hawaits .delegationResult hx, hcallers, ?_⟩
        exact Frame.At.paused (x := (x.await .delegationResult).frame) hat (by simp [Execution.await])
    | false =>
      cases h with
      | leads h =>
        cases h
        exact ⟨.stays x.frame.moves_refl rfl, fun _ _ hx hr => ⟨hx, hr.2.1⟩⟩
  | value v =>
    cases h with
    | leads h =>
      cases h
      have hshifts : x.Shifts (x.push v) := .stays ⟨rfl, rfl, rfl, id⟩ rfl
      exact ⟨hshifts, fun _ _ hx hr => ⟨hshifts.formed hx (.inr rfl), hr⟩⟩

/-! ### Whole runs -/

theorem execution_formed (depth : Nat) (f : Function) (args : List Value) : (execution depth f args).Formed f args := by
  refine ⟨?_, List.forall_mem_nil _, List.forall_mem_nil _, List.suffix_refl _⟩
  intro z hz
  obtain rfl := List.mem_singleton.mp hz
  exact Frame.ofCall_placed f args

/-- Every execution that a body comes to is well formed, and ready for its reply. -/
theorem Conducted.formed (h : m.Conducted f args x reply) : x.Formed f args ∧ x.Ready reply := by
  induction h with
  | start depth => exact ⟨execution_formed depth f args, rfl⟩
  | next h heap out hy ih =>
    obtain ⟨-, hkeeps⟩ := step_shifts hy
    exact hkeeps _ _ ih.1 ih.2

/-- While a frame is open, its function and arguments and those below it stay what they were. -/
theorem Within.activations {z u : Execution} (h : m.Within z u) : z.activations <:+ u.activations := by
  induction h with
  | refl => exact List.suffix_refl _
  | @next u u' h hg hd ih =>
    obtain ⟨heap, out, reply, reply', hleads⟩ := hg
    obtain ⟨hshifts, -⟩ := step_shifts (.leads hleads)
    rcases hshifts.activations with hsame | ⟨c, -, hmore⟩ | ⟨c, hless⟩
    · rw [hsame]
      exact ih
    · rw [hmore]
      exact ih.trans (List.suffix_cons ..)
    · rw [hless, List.suffix_cons_iff] at ih
      rcases ih with hall | hrest
      · -- The frame of `z` would have returned.
        have hlength := congrArg List.length hall
        simp only [Execution.activations, List.length_map, List.length_cons] at hlength
        omega
      · exact hrest

end Machine

end YieldMachine
