import YieldMachine.Proofs.Drive.Discipline
import YieldMachine.Proofs.Machine.Instruction

/-!
The depth of an execution: its base depth plus the number of its open calls, never past the limit. An instruction
keeps this (`Machine.step_nested`), so it is a discipline of the machine's bodies (`Machine.nesting`). A call that is
open, however far it has come, gives back on its end the depth that it found (`Machine.call_restores`).
-/

namespace YieldMachine

namespace Execution

variable {x y z : Execution} {v : Value}

/-- The execution `x` has begun at depth `base`, each open call has gone one deeper, and none was one too many.
All frames but the outermost are of plain functions. -/
structure Nested (m : Machine) (base : Nat) (x : Execution) : Prop where
  depth : x.depth = base + x.callers.length
  limit : x.depth ≤ m.config.maxCallDepth
  plain : ∀ f ∈ ((x.frame :: x.callers).map Frame.function).dropLast, f.isGenerator = false

/-- What is left of an execution when its innermost `n` calls are over, by returning or by a fault: each of
them goes back one level. For a return the machine does this itself (`Execution.ret`), while a fault drops the
execution with all its open calls at once. There `unwind` writes out the decrement of the depth that each open call
makes when it ends, on the error path as well, before it passes the fault on. -/
def unwind (x : Execution) : Nat → Execution
  | 0 => x
  | n + 1 =>
    match x.callers with
    | [] => x
    | caller :: rest => unwind { x with depth := x.depth - 1, frame := caller, callers := rest } n

theorem Nested.withFrame {m : Machine} {base : Nat} (h : x.Nested m base) {frame : Frame}
    (hf : frame.function = x.frame.function) : Nested m base { x with frame := frame } := by
  refine ⟨h.depth, h.limit, ?_⟩
  rw [List.map_cons, hf]
  exact h.plain

/-- A frame that can pause is the outermost one. -/
theorem Nested.outermost {m : Machine} {base : Nat} (h : x.Nested m base)
    (hg : x.frame.function.isGenerator = true) : x.callers = [] := by
  cases hc : x.callers with
  | nil => rfl
  | cons caller rest =>
    have hplain := h.plain x.frame.function (by simp [hc])
    rw [hg] at hplain
    cases hplain

end Execution

/-- Replies to a body that is at a yield. -/
def Reply.atYield : Reply → Bool
  | .resume | .reported | .accepted | .refused _ | .delegating _ => true
  | .proceed | .value _ => false

namespace Machine

variable {m : Machine} {base : Nat} {x y : Execution}

/-- An execution that an action goes on with is nested, outermost if it pauses there, and a new generator is
within the limit. -/
def NestedAction (m : Machine) (base : Nat) : Action Nat Execution → Prop
  | .silent y => y.Nested m base
  | .yieldPair _ _ y | .yieldValue _ y | .delegate _ y | .askDelegating y => y.Nested m base ∧ y.callers = []
  | .takeSent y | .takeResult y | .suspend y => y.Nested m base ∧ y.callers = []
  | .create h _ _ y => y.Nested m base ∧ h ≤ m.config.maxCallDepth
  | .finish _ | .fail _ => True

theorem ret_nested (h : x.Nested m base) (v : Value) : m.NestedAction base (x.ret v) := by
  rw [Execution.ret]
  cases hc : x.callers with
  | nil => trivial
  | cons caller rest =>
    have hdepth := h.depth
    have hlimit := h.limit
    rw [hc, List.length_cons] at hdepth
    refine ⟨?_, Nat.le_trans (Nat.sub_le ..) hlimit, fun f hf => h.plain f ?_⟩
    · simp only
      omega
    · rw [hc, List.map_cons, List.map_cons, List.dropLast_cons_cons]
      exact List.mem_cons_of_mem _ hf

theorem call_nested (h : x.Nested m base) (id : FunctionId) (args : List Value) :
    m.NestedAction base (m.call x id args) := by
  rw [call]
  split
  · trivial
  · next f hf =>
    split
    · trivial
    · next hdepth =>
      split
      · exact ⟨h, by omega⟩
      · next hplain =>
        have hbase := h.depth
        refine ⟨?_, by simp only; omega, ?_⟩
        · simp only [List.length_cons]
          omega
        · intro f' hf'
          rw [List.map_cons, List.map_cons, List.dropLast_cons_cons] at hf'
          rcases List.mem_cons.mp hf' with rfl | hf'
          · exact Bool.eq_false_iff.mpr hplain
          · exact h.plain f' (by rwa [List.map_cons])

theorem isGenerator_of_isYield {z : Frame} {i : Instruction} (hi : z.instruction? = some i)
    (hy : i.isYield = true) : z.function.isGenerator = true := by
  rw [Function.isGenerator, Array.any_eq_true']
  exact ⟨i, Array.mem_of_getElem? hi, hy⟩

theorem advance_nested (h : x.Nested m base) (heap : Heap) (out : Output) :
    m.NestedAction base (m.advance heap out x).2.2 := by
  have hcases := m.advances heap out x
  generalize m.advance heap out x = result at hcases
  cases hcases with
  | ends hi => exact ret_nested h .null
  | exceeds hi hb => trivial
  | faults hi hb he hf => trivial
  | @executes i heap' e hi hb he hk =>
    have htick : x.tick.Nested m base := ⟨h.depth, h.limit, h.plain⟩
    have hframe {y : Frame} (hy : e.frame? = some y) :
        Execution.Nested m base { x.tick with frame := y } := htick.withFrame (hk.function y hy)
    -- A yield stands in the outermost frame.
    have hyield (hy : e.isYield = true) : x.callers = [] :=
      h.outermost (isGenerator_of_isYield hi (hk.isYield ▸ hy))
    cases e with
    | go y => exact hframe rfl
    | echo text y => exact hframe rfl
    | yieldValue v y => exact ⟨hframe rfl, hyield rfl⟩
    | yieldPair k v y => exact ⟨hframe rfl, hyield rfl⟩
    | yieldFrom source y => exact ⟨hframe rfl, hyield rfl⟩
    | call f args y => exact call_nested (hframe rfl) f args
    | ret v => exact ret_nested htick v

theorem step_nested {reply : Reply} (h : x.Nested m base) (hr : reply.atYield = true → x.callers = [])
    (heap : Heap) (out : Output) : m.NestedAction base (m.step heap out x reply).2.2 := by
  have hawait (a : Awaiting) : (x.await a).Nested m base := h.withFrame rfl
  cases reply with
  | proceed => exact advance_nested h heap out
  | resume =>
    simp only [step, wake]
    split
    · exact h
    · exact ⟨hawait .nothing, hr rfl⟩
    · exact ⟨hawait .nothing, hr rfl⟩
  | reported => exact ⟨hawait .sent, hr rfl⟩
  | accepted => exact ⟨h, hr rfl⟩
  | refused e => trivial
  | delegating active =>
    cases active with
    | true => exact ⟨hawait .delegationResult, hr rfl⟩
    | false => exact ⟨h, hr rfl⟩
  | value v => exact h.withFrame rfl

/-- The depth of calls as a discipline: a handle is a base depth, and what is held has no open call. -/
def nesting (m : Machine) : m.engine.Discipline where
  born base := base ≤ m.config.maxCallDepth
  running base x reply := x.Nested m base ∧ (reply.atYield = true → x.callers = [])
  held base x := x.Nested m base ∧ x.callers = []
  start {base} f args out hbase := ⟨⟨rfl, hbase, nofun⟩, nofun⟩
  resume hheld := ⟨hheld.1, fun _ => hheld.2⟩
  goOn heap out {base x r y r'} hrunning hleads := by
    have hnested := step_nested hrunning.1 hrunning.2 heap out
    change (m.step heap out x r).2.2.Leads y r' at hleads
    generalize (m.step heap out x r).2.2 = action at hnested hleads
    cases hleads with
    | silent => exact ⟨hnested, nofun⟩
    | yieldPair | yieldValue | askDelegating => exact ⟨hnested.1, fun _ => hnested.2⟩
    | delegate _ _ hreply => exact ⟨hnested.1, fun _ => hnested.2⟩
    | takeSent | takeResult | create => exact ⟨hnested.1, nofun⟩
  create heap out {base x r h f args y} hrunning hcreate := by
    have hnested := step_nested hrunning.1 hrunning.2 heap out
    change (m.step heap out x r).2.2 = _ at hcreate
    rw [hcreate] at hnested
    exact hnested.2
  suspend heap out {base x r y} hrunning hsuspend := by
    have hnested := step_nested hrunning.1 hrunning.2 heap out
    change (m.step heap out x r).2.2 = _ at hsuspend
    rw [hsuspend] at hnested
    exact hnested

/-! ### Calls that are refused, and generators that are made -/

/-- The next instruction calls the registered function `f`. -/
def Asks (m : Machine) (heap : Heap) (x : Execution) (f : Function) (args : List Value) : Prop :=
  ∃ i id heap' frame, x.frame.instruction? = some i ∧ m.exceeded? x.tick = none ∧
    ({ x.frame with pc := x.frame.pc + 1 } : Frame).execute heap i = .ok (heap', .call id args frame) ∧
    m.registry.get? id = some f

theorem advance_of_asks {heap : Heap} {f : Function} {args : List Value} (out : Output)
    (h : m.Asks heap x f args) :
    ∃ id frame, m.registry.get? id = some f ∧
      (m.advance heap out x).2.2 = m.call { x.tick with frame := frame } id args := by
  obtain ⟨i, id, heap', frame, hi, hb, he, hf⟩ := h
  refine ⟨id, frame, hf, ?_⟩
  have hcases := m.advances heap out x
  generalize m.advance heap out x = result at hcases
  cases hcases with
  | ends hi' => rw [hi] at hi'; cases hi'
  | exceeds hi' hb' => rw [hb] at hb'; cases hb'
  | faults hi' hb' he' hf' =>
    obtain rfl := Option.some.inj (hi'.symm.trans hi)
    rw [he] at he'
    cases he'
  | executes hi' hb' he' hk =>
    obtain rfl := Option.some.inj (hi'.symm.trans hi)
    rw [he] at he'
    cases he'
    rfl

/-- What makes a step ask for something else than a change of the execution: a call. -/
theorem asks_of_advance {heap : Heap} {out : Output} {l : Nat}
    (h : (m.advance heap out x).2.2 = .fail (.fault (.callDepthExceeded l))) :
    l = m.config.maxCallDepth ∧ m.config.maxCallDepth ≤ x.depth ∧ ∃ f args, m.Asks heap x f args := by
  have hcases := m.advances heap out x
  generalize m.advance heap out x = result at hcases h
  cases hcases with
  | ends hi =>
    simp only [Execution.ret] at h
    split at h <;> cases h
  | exceeds hi hb => cases h
  | faults hi hb he hf => cases h; cases hf
  | @executes i heap' e hi hb he hk =>
    cases e with
    | ret v =>
      simp only [apply, Execution.ret] at h
      split at h <;> cases h
    | call id args frame =>
      simp only [apply, call] at h
      split at h
      · cases h
      · next f hf =>
        split at h
        · next hdepth =>
          cases h
          exact ⟨rfl, hdepth, f, args, i, id, heap', frame, hi, hb, he, hf⟩
        · split at h <;> cases h
    | go | echo | yieldValue | yieldPair | yieldFrom => cases h

/-- A call is refused for its depth just when the depth has reached the limit. -/
theorem refused_iff (h : x.Nested m base) (heap : Heap) (out : Output) (l : Nat) :
    (m.advance heap out x).2.2 = .fail (.fault (.callDepthExceeded l)) ↔
      l = m.config.maxCallDepth ∧ x.depth = m.config.maxCallDepth ∧ ∃ f args, m.Asks heap x f args := by
  constructor
  · intro hfail
    obtain ⟨hl, hdepth, hasks⟩ := asks_of_advance hfail
    exact ⟨hl, Nat.le_antisymm h.limit hdepth, hasks⟩
  · rintro ⟨rfl, hdepth, f, args, hasks⟩
    obtain ⟨id, frame, hf, hadvance⟩ := advance_of_asks out hasks
    rw [hadvance, call]
    simp only [hf]
    exact if_pos (Nat.le_of_eq hdepth.symm)

/-- A new generator's base depth is one past the depth of the execution that makes it. -/
theorem create_depth {heap : Heap} {out : Output} {reply : Reply} {b : Nat} {f : Function}
    {args : List Value} (h : (m.step heap out x reply).2.2 = .create b f args y) :
    b = x.depth + 1 ∧ b ≤ m.config.maxCallDepth := by
  cases reply with
  | proceed =>
    have hcases := m.advances heap out x
    change (m.advance heap out x).2.2 = _ at h
    generalize m.advance heap out x = result at hcases h
    cases hcases with
    | ends hi =>
      simp only [Execution.ret] at h
      split at h <;> cases h
    | exceeds hi hb => cases h
    | faults hi hb he hf => cases h
    | @executes i heap' e hi hb he hk =>
      cases e with
      | ret v =>
        simp only [apply, Execution.ret] at h
        split at h <;> cases h
      | call id args frame =>
        simp only [apply, call] at h
        split at h
        · cases h
        · split at h
          · cases h
          · next hdepth =>
            split at h
            · cases h
              exact ⟨rfl, Nat.not_le.mp hdepth⟩
            · cases h
      | go | echo | yieldValue | yieldPair | yieldFrom => cases h
  | resume =>
    simp only [step, wake] at h
    split at h <;> cases h
  | delegating active => cases active <;> cases h
  | reported | accepted | refused e | value v => cases h

/-! ### An open call -/

/-- One step of a body leads from the first execution to the second. -/
def Goes (m : Machine) (x y : Execution) : Prop :=
  ∃ heap out reply reply', (m.step heap out x reply).2.2.Leads y reply'

/-- The body goes from `z` to the second execution without returning from the frame of `z`. -/
inductive Within (m : Machine) (z : Execution) : Execution → Prop where
  | refl : Within m z z
  | next {u u' : Execution} (h : Within m z u) (hg : m.Goes u u')
      (hd : z.callers.length ≤ u'.callers.length) : Within m z u'

variable {z u : Execution} {id : FunctionId} {args : List Value}

/-- From depth `d` with the callers `cs`, a step stays in its frame, opens a call or returns from one. -/
inductive Shift (d : Nat) (cs : List Frame) (y : Execution) : Prop where
  | stays (hd : y.depth = d) (hc : y.callers = cs)
  | opens (frame : Frame) (hd : y.depth = d + 1) (hc : y.callers = frame :: cs)
  | returns (frame : Frame) (hd : y.depth = d - 1) (hc : cs = frame :: y.callers)

theorem ret_shift {v : Value} {reply : Reply} (h : (x.ret v).Leads y reply) :
    Shift x.depth x.callers y := by
  rw [Execution.ret] at h
  split at h
  · cases h
  · next caller rest hc =>
    cases h
    exact .returns caller rfl hc

theorem call_shift {reply : Reply} (h : (m.call x id args).Leads y reply) :
    Shift x.depth x.callers y := by
  rw [call] at h
  split at h
  · cases h
  · split at h
    · cases h
    · split at h
      · cases h
        exact .stays rfl rfl
      · cases h
        exact .opens x.frame rfl rfl

theorem Goes.shift (h : m.Goes x y) : Shift x.depth x.callers y := by
  obtain ⟨heap, out, reply, reply', hleads⟩ := h
  cases reply with
  | proceed =>
    have hcases := m.advances heap out x
    change (m.advance heap out x).2.2.Leads y reply' at hleads
    generalize m.advance heap out x = result at hcases hleads
    cases hcases with
    | ends hi => exact ret_shift hleads
    | exceeds hi hb => cases hleads
    | faults hi hb he hf => cases hleads
    | @executes i heap' e hi hb he hk =>
      cases e with
      | call f args frame => exact call_shift (x := { x.tick with frame := frame }) hleads
      | ret v => exact ret_shift (x := x.tick) hleads
      | go | echo | yieldValue | yieldPair | yieldFrom => cases hleads; exact .stays rfl rfl
  | resume =>
    simp only [step, wake] at hleads
    split at hleads <;> cases hleads <;> exact .stays rfl rfl
  | delegating active =>
    cases active with
    | true => cases hleads
    | false => cases hleads; exact .stays rfl rfl
  | reported | refused e => cases hleads
  | accepted | value v => cases hleads; exact .stays rfl rfl

/-- While a frame is open, the depth counts the calls above it. -/
theorem Within.above (h : m.Within z u) :
    ∃ frames, u.callers = frames ++ z.callers ∧ u.depth = z.depth + frames.length := by
  induction h with
  | refl => exact ⟨[], rfl, rfl⟩
  | @next u u' _ hg hd ih =>
    obtain ⟨frames, hcallers, hdepth⟩ := ih
    cases hg.shift with
    | stays hdepth' hsame => exact ⟨frames, hsame.trans hcallers, hdepth'.trans hdepth⟩
    | opens frame hdepth' hopened =>
      refine ⟨frame :: frames, by rw [hopened, hcallers]; rfl, ?_⟩
      rw [hdepth', hdepth, List.length_cons]
      omega
    | returns frame hdepth' hclosed =>
      cases frames with
      | nil =>
        rw [hcallers, List.nil_append] at hclosed
        rw [hclosed, List.length_cons] at hd
        omega
      | cons top frames =>
        rw [hcallers, List.cons_append] at hclosed
        refine ⟨frames, (List.cons.inj hclosed).2.symm, ?_⟩
        rw [hdepth', hdepth, List.length_cons]
        omega

theorem unwind_append {frames rest : List Frame} {frame : Frame} (h : u.callers = frames ++ frame :: rest) :
    u.unwind (frames.length + 1) =
      { u with depth := u.depth - (frames.length + 1), frame := frame, callers := rest } := by
  induction frames generalizing u with
  | nil =>
    rw [List.nil_append] at h
    simp only [List.length_nil, Execution.unwind, h]
  | cons top frames ih =>
    rw [List.cons_append] at h
    rw [List.length_cons, Execution.unwind, h]
    simp only
    rw [ih rfl]
    simp only [Nat.sub_sub, Nat.add_comm 1]

/-- A plain call adds a frame at the next depth. -/
theorem call_silent (h : m.call x id args = .silent z) :
    x.depth < m.config.maxCallDepth ∧ z.depth = x.depth + 1 ∧ z.callers = x.frame :: x.callers := by
  rw [call] at h
  split at h
  · cases h
  · split at h
    · cases h
    · next hdepth =>
      split at h
      · cases h
      · cases h
        exact ⟨by omega, rfl, rfl⟩

/-- Wherever a call has come to, its end gives back the depth and the frames that it found. -/
theorem call_restores (hcall : m.call x id args = .silent z) (hu : m.Within z u) :
    u.unwind (u.callers.length - x.callers.length) =
      { u with depth := x.depth, frame := x.frame, callers := x.callers } := by
  obtain ⟨-, hz, hcallers⟩ := call_silent hcall
  obtain ⟨frames, habove, hdepth⟩ := hu.above
  rw [hcallers] at habove
  have hcount : u.callers.length - x.callers.length = frames.length + 1 := by
    rw [habove, List.length_append, List.length_cons]
    omega
  have hback : u.depth - (frames.length + 1) = x.depth := by omega
  rw [hcount, unwind_append habove, hback]

/-- A call that returns gives them back with its result. -/
theorem call_returns (hcall : m.call x id args = .silent z) (hu : m.Within z u)
    (hsame : u.callers = z.callers) (v : Value) :
    u.ret v = .silent { u with depth := x.depth, frame := x.frame.push v, callers := x.callers } := by
  obtain ⟨-, hz, hcallers⟩ := call_silent hcall
  obtain ⟨frames, habove, hdepth⟩ := hu.above
  have hnone : frames = [] := List.append_left_eq_self.mp (habove.symm.trans hsame)
  have hback : u.depth - 1 = x.depth := by
    rw [hnone, List.length_nil] at hdepth
    omega
  rw [Execution.ret, hsame, hcallers]
  simp only [hback]

end Machine

end YieldMachine
