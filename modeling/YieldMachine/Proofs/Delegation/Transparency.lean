import YieldMachine.Proofs.Calls
import YieldMachine.Proofs.Delegation.Inner
import YieldMachine.Proofs.Machine.Body

/-!
Delegation to a generator is transparent: a generator that does nothing but delegate to another can be
called in its place (`delegation_transparent`). The first call starts the outer body, which turns to the
child (`first_call`); from then on the outer generator waits for the child or has ended with it (`Linked`),
and each later call keeps it so (`later_call`). Within a call the child's drive goes on below the outer
generator as it does alone. This asks that the child, when it is called itself, does not come to the outer generator
(`delegation_recalled`).
-/

namespace YieldMachine

variable {H F S : Type}

/-- The body that gives the pairs and then the result of its first argument. -/
def forwarding : Array Instruction := #[.loadArg 0, .yieldFrom, .ret]

/-- An execution that will return what is pushed next. -/
structure Execution.Returning (x : Execution) : Prop where
  instruction : x.frame.instruction? = some .ret
  stack : x.frame.stack = []
  callers : x.callers = []

namespace World

variable {E : Engine H F S} {w : World H F S} {o : GeneratorId} {y z : Generator H F}

/-- Calls on `c` with these inputs never come to `o`. -/
def Spares (E : Engine H F S) (o c : GeneratorId) : World H F S → List Input → Prop
  | _, [] => True
  | w, i :: is =>
    (∀ s n t, w.open? c i = some s → Reaches (Drive.step E) s n t → t.2.current ≠ o) ∧
      ∀ fuel w' r, w.advance E fuel c i = some (w', r) → Spares E o c w' is

end World

namespace Forwarding

open Drive

variable {m : Machine} {E : Engine H F S} {w : World (Nat ⊕ H) (Execution ⊕ F) (Output × S)}
  {o c : GeneratorId} {x y z : Generator (Nat ⊕ H) (Execution ⊕ F)} {sent : Option Value}
  {e : Execution}

/-! ### The steps of the outer body -/

/-- A step of the outer body that leaves the heap and the output alone. -/
theorem step_outer {reply : Reply} {action : Action Nat Execution}
    (h : m.step w.heap w.state.1 e reply = (w.heap, w.state.1, action)) :
    step (m.engine.sum E) (w.replace o y, ⟨o, sent, .body (.inl e) reply, []⟩) =
      .next (perform (m.engine.sum E) (w.replace o y) ⟨o, sent, .body (.inl e) reply, []⟩
        (action.map .inl .inl)) :=
  Machine.drive_step m E (w.replace o y) rfl h

/-- The result is pushed and returned. -/
theorem outer_returns (hm : m.config.mode = .unbounded) (hz : w.generator? o = some z)
    (he : e.Returning) (hframe : y.frame = none) (v : Value) :
    Reaches (step (m.engine.sum E)) (w.replace o y, ⟨o, sent, .body (.inl e) (.value v), []⟩) 2
      (w.replace o (y.setReturn v).terminate, ⟨o, sent, .settled (.ok false), []⟩) := by
  have hpush : m.step w.heap w.state.1 e (.value v) = (w.heap, w.state.1, .silent (e.push v)) := rfl
  have hret : m.step w.heap w.state.1 (e.push v) .proceed = (w.heap, w.state.1, .finish v) := by
    have hi : (e.push v).frame.instruction? = some .ret := he.instruction
    refine (Machine.advance_of_execute hm hi rfl w.state.1).trans ?_
    simp only [Machine.apply, Execution.ret, Execution.tick, Execution.push, he.callers]
    rfl
  refine .next (step_outer hpush) (.next (step_outer hret) ?_)
  have hcomplete := World.complete_replace_self (E := m.engine.sum E) hz hframe v
  simp only [Action.map, perform, hcomplete]
  exact .refl _

/-- A first pair was there: the outer generator pauses. -/
theorem outer_pauses {d : Delegation} (hz : w.generator? o = some z) (hd : y.delegation = some d) :
    Reaches (step (m.engine.sum E)) (w.replace o y, ⟨o, sent, .body (.inl e) .accepted, []⟩) 2
      (w.replace o (y.hold (.inl (e.await .delegationResult))),
        ⟨o, sent, .settled (.ok true), []⟩) := by
  refine .next (step_outer rfl) ?_
  have hask : ((w.replace o y).generator? o).any (·.isDelegating) = true := by
    simp [World.generator?_replace_self hz, Generator.isDelegating, hd]
  simp only [Action.map, perform, hask]
  refine .next (step_outer rfl) ?_
  simp only [Action.map, perform, World.modify_replace]
  exact .refl _

/-- There was no pair: the outer generator returns the result. -/
theorem outer_skips (hm : m.config.mode = .unbounded) (hz : w.generator? o = some z)
    (he : e.Returning) (hd : y.delegation = none) (hframe : y.frame = none) :
    Reaches (step (m.engine.sum E)) (w.replace o y, ⟨o, sent, .body (.inl e) .accepted, []⟩) 4
      (w.replace o (y.clearResult.setReturn y.delegationResult).terminate,
        ⟨o, sent, .settled (.ok false), []⟩) := by
  refine .next (step_outer rfl) ?_
  have hask : ((w.replace o y).generator? o).any (·.isDelegating) = false := by
    simp [World.generator?_replace_self hz, Generator.isDelegating, hd]
  simp only [Action.map, perform, hask]
  refine .next (step_outer rfl) ?_
  simp only [Action.map, perform, World.modify_replace, World.generator?_replace_self hz,
    Option.map_some, Option.getD_some]
  exact outer_returns (y := y.clearResult) hm hz he hframe _

/-- Taken up again after its child's last pair, the outer generator returns the result. -/
theorem outer_wakes (hm : m.config.mode = .unbounded) (hz : w.generator? o = some z)
    (he : e.Returning) (hwait : e.frame.awaiting = .delegationResult) (hframe : y.frame = none) :
    Reaches (step (m.engine.sum E)) (w.replace o y, ⟨o, sent, .body (.inl e) .resume, []⟩) 3
      (w.replace o (y.clearResult.setReturn y.delegationResult).terminate,
        ⟨o, sent, .settled (.ok false), []⟩) := by
  have hwake : m.step w.heap w.state.1 e .resume =
      (w.heap, w.state.1, .takeResult (e.await .nothing)) := by
    simp only [Machine.step, Machine.wake, hwait]
  refine .next (step_outer hwake) ?_
  simp only [Action.map, perform, World.modify_replace, World.generator?_replace_self hz,
    Option.map_some, Option.getD_some]
  exact outer_returns (y := y.clearResult) (e := e.await .nothing) hm hz
    ⟨he.instruction, he.stack, he.callers⟩ hframe _

/-- The outer generator starts, and its body turns to the child. -/
theorem outer_starts {f : Function} {depth : Nat} {arg : Value} {rest : List Value}
    (hm : m.config.mode = .unbounded) (hf : f.body = forwarding) (hz : w.generator? o = some z)
    (hne : c ≠ o) (harg : w.heap.deref arg = .generator c) (hx : w.generator? c = some x)
    (hl : x.locked = false) (hy : y = (Generator.fresh (.inl depth) f (arg :: rest)).setLock true)
    (sent : Option Value) :
    ∃ e : Execution, e.Returning ∧
      Reaches (step (m.engine.sum E)) (w.replace o y, ⟨o, sent, .enter none, []⟩) 3
        ((w.lock c).replace o y.begin, ⟨c, none, .enter none, [⟨o, sent, .inBody (.inl e)⟩]⟩) := by
  let e₀ := Machine.execution depth f (arg :: rest)
  let e₁ : Execution := { e₀.tick with frame := { e₀.frame with pc := 1, stack := [arg] } }
  let e₂ : Execution := { e₁.tick with frame := { e₀.frame with pc := 2, stack := [] } }
  have hi₀ : e₀.frame.instruction? = some (.loadArg 0) := by
    show f.body[0]? = _
    rw [hf]
    rfl
  have hi₁ : e₁.frame.instruction? = some .yieldFrom := by
    show f.body[1]? = _
    rw [hf]
    rfl
  have hi₂ : e₂.frame.instruction? = some .ret := by
    show f.body[2]? = _
    rw [hf]
    rfl
  have hstart : step (m.engine.sum E) (w.replace o y, ⟨o, sent, .enter none, []⟩) =
      .next (w.replace o y.begin, ⟨o, sent, .body (.inl e₀) .proceed, []⟩) := by
    rw [step_enter rfl (World.generator?_replace_self hz y), ← World.modify_replace, hy]
    rfl
  have hload : m.step w.heap w.state.1 e₀ .proceed = (w.heap, w.state.1, .silent e₁) :=
    Machine.advance_of_execute hm hi₀ rfl _
  have hyield : m.step w.heap w.state.1 e₁ .proceed = (w.heap, w.state.1, .delegate arg e₂) :=
    Machine.advance_of_execute hm hi₁ rfl _
  refine ⟨e₂, ⟨hi₂, rfl, rfl⟩, .next hstart (.next (step_outer hload) (.next (step_outer hyield) ?_))⟩
  have hsource : Delegation.ofValue (w.replace o y.begin).heap arg = .ok (.child c) := by
    simp only [Delegation.ofValue, World.replace_heap, harg]
  simp only [Action.map, perform, delegate, hsource, descend, World.generator?_replace_of_ne hne, hx,
    hl, World.lock_replace hne, turnTo, Bool.false_eq_true, if_false, ite_self]
  exact .refl _

/-! ### The outer generator and its child between calls -/

/-- A generator that waits for its child between two pairs and will return the child's result. -/
structure Waiting (c : GeneratorId) (y : Generator (Nat ⊕ H) (Execution ⊕ F)) : Prop where
  started : y.isStarted = true
  unfinished : y.isFinished = false
  delegation : y.delegation = some (.child c)
  frame : ∃ e : Execution, y.frame = some (.inl e) ∧ e.Returning ∧
    e.frame.awaiting = .delegationResult
  returnValue : y.returnValue = none
  lastError : y.lastError = none

/-- The error that a source `x` leaves to the generator that delegates to it, if `x` failed: in the body that
has just named it, or between two pairs. -/
inductive PassedOn (x : Generator H F) : Option GeneratorError → Prop where
  | unfailed (h : x.lastError = none) : PassedOn x none
  | inBody {e : GeneratorError} (h : x.lastError = some e) :
      PassedOn x (some (.executionFailed (.delegation (.sourceFailed x.function.name e.message))))
  | paused {e : GeneratorError} (h : x.lastError = some e) :
      PassedOn x (some (.delegation (.sourceFailed x.function.name e.message)))

theorem PassedOn.isSome {x : Generator H F} {e : Option GeneratorError} (h : PassedOn x e) :
    e.isSome = x.lastError.isSome := by
  cases h with
  | unfailed h | inBody h | paused h => simp [h]

/-- The outer generator `y` has ended with its child `x`. -/
structure Ended (y x : Generator H F) : Prop where
  outer : y.isFinished = true
  child : x.isFinished = true
  returned : ∀ v, x.returnValue = some v → y.returnValue = some v
  null : x.returnValue = none → x.lastError = none → y.returnValue = some .null
  error : PassedOn x y.lastError

/-- How the outer generator, the first one, stands to its child once it has been called. -/
inductive Linked (c : GeneratorId) : Generator (Nat ⊕ H) (Execution ⊕ F) →
    Generator (Nat ⊕ H) (Execution ⊕ F) → Prop where
  | delegating {y x : Generator (Nat ⊕ H) (Execution ⊕ F)} (hy : Waiting c y)
      (hx : x.In .suspended) : Linked c y x
  | spent {y x : Generator (Nat ⊕ H) (Execution ⊕ F)} (h : Ended y x) : Linked c y x

theorem Waiting.setLock (h : Waiting c y) (b : Bool) : Waiting c (y.setLock b) :=
  ⟨h.started, h.unfinished, h.delegation, h.frame, h.returnValue, h.lastError⟩

theorem PassedOn.setLock {x : Generator H F} {e : Option GeneratorError} (h : PassedOn x e) (b : Bool) :
    PassedOn (x.setLock b) e := by
  cases h with
  | unfailed h => exact .unfailed h
  | inBody h => exact .inBody (x := x.setLock b) h
  | paused h => exact .paused (x := x.setLock b) h

theorem Ended.setLock {y x : Generator H F} (h : Ended y x) (b b' : Bool) :
    Ended (y.setLock b) (x.setLock b') :=
  ⟨h.outer, h.child, h.returned, h.null, h.error.setLock b'⟩

/-- A call of the child, the first result, and the same call of the outer generator led to this. -/
def Followed (o c : GeneratorId)
    (q q' : Result (Nat ⊕ H) (Execution ⊕ F) (Output × S)) : Prop :=
  ∃ x y, q'.1 = q.1.replace o y ∧ q.1.generator? c = some x ∧ x.locked = false ∧
    y.locked = false ∧ Linked c y x ∧ World.produced q'.2 = World.produced q.2 ∧
    (World.produced q.2 = true → y.key = x.key ∧ y.value = x.value)

/-- What a child that produced no pair means to the outer generator: an error, or a result. -/
theorem outcome_cases {r : Except GeneratorError Bool} (h : x.FitsRole (.settled r))
    (hr : World.produced r = false) :
    x.isFinished = true ∧
      ((∃ e, x.outcome r = .failed (.sourceFailed x.function.name e.message) ∧
          x.returnValue = none ∧ x.lastError = some e) ∨
        (x.outcome r = .exhausted (x.returnValue.getD .null) ∧ x.lastError = none)) := by
  have hfinished (hin : x.In .finished) : x.isFinished = true := by simp [Generator.isFinished, hin.1]
  cases r with
  | ok b =>
    obtain rfl : b = false := hr
    obtain ⟨hin, hone⟩ := h
    refine ⟨hfinished hin, ?_⟩
    cases hret : x.returnValue with
    | some v =>
      have herr : x.lastError = none := hone.resolve_left (by simp [hret])
      exact .inr ⟨by simp [Generator.outcome, hret], herr⟩
    | none =>
      cases herr : x.lastError with
      | some e => exact .inl ⟨e, by simp only [Generator.outcome, hret, herr], rfl, rfl⟩
      | none => exact .inr ⟨by simp [Generator.outcome, hret, herr], rfl⟩
  | error e =>
    obtain ⟨hin, hret, herr⟩ := h
    exact ⟨hfinished hin, .inl ⟨e, by simp only [Generator.outcome, hret, herr], hret, herr⟩⟩

/-- An outer generator that its child's failure ended. -/
theorem ended_failed {e e' : GeneratorError} (hx : x.isFinished = true) (hret : x.returnValue = none)
    (herr : x.lastError = some e) (he' : PassedOn x (some e')) :
    Ended (y.terminate.setError e') x := by
  refine ⟨rfl, hx, ?_, ?_, he'⟩
  · intro v hv
    rw [hret] at hv
    cases hv
  · intro _ hnone
    rw [hnone] at herr
    cases herr

/-- An outer generator that has returned its child's result. -/
theorem ended_returned {v : Value} (hx : x.isFinished = true)
    (hv : v = x.returnValue.getD .null) (herr : x.lastError = none) (hy : y.lastError = none) :
    Ended (y.setReturn v).terminate x := by
  subst hv
  have hnone : (y.setReturn (x.returnValue.getD .null)).terminate.lastError = none := hy
  refine ⟨rfl, hx, ?_, ?_, hnone ▸ .unfailed herr⟩
  · intro v hret
    exact congrArg some (by rw [hret]; rfl)
  · intro hret _
    exact congrArg some (by rw [hret]; rfl)

/-! ### One call -/

/-- The child has settled without a pair, and the outer generator has finished: both calls end. -/
theorem endAlike_spent {r r' : Except GeneratorError Bool} {v v' : Option Value}
    (hz : w.generator? o = some z) (hx : w.generator? c = some x) (hne : c ≠ o)
    (hended : Ended y x) (hr : World.produced r = false) (hr' : World.produced r' = false) :
    EndAlike (step (m.engine.sum E)) (step (m.engine.sum E)) (Followed o c)
      (w, ⟨c, v, .settled r, []⟩) ((w.unlock c).replace o y, ⟨o, v', .settled r', []⟩) := by
  have hz' : (w.unlock c).generator? o = some z :=
    (World.generator?_unlock_of_ne (Ne.symm hne)).trans hz
  obtain ⟨n, t, q, hreach, hhalt, hq⟩ := ends_finished (E := m.engine.sum E) hx hended.child hr v
  obtain ⟨n', t', q', hreach', hhalt', hq'⟩ :=
    ends_finished (E := m.engine.sum E) (World.generator?_replace_self hz' y) hended.outer hr' v'
  refine .of_reaches hreach hreach' (.of_halt hhalt hhalt' ?_)
  refine ⟨x.setLock false, y.setLock false, World.modify_replace .., by simp [hx], rfl, rfl,
    .spent (hended.setLock false false), hq'.trans hq.symm, ?_⟩
  intro hpair
  rw [hq] at hpair
  cases hpair

/-- A settled child is unlocked and hands over to the outer generator. -/
theorem step_child {r : Except GeneratorError Bool} {wait : Wait (Execution ⊕ F)} {v : Option Value}
    (hx : w.generator? c = some x) (hne : c ≠ o) :
    step (m.engine.sum E) (w.replace o y, ⟨c, none, .settled r, [⟨o, v, wait⟩]⟩) =
      .next (match wait with
        | .paused => advanced (m.engine.sum E) ((w.unlock c).replace o y) ⟨o, v, .settled r, []⟩
            (x.outcome r)
        | .inBody frame => delegated ((w.unlock c).replace o y) ⟨o, v, .settled r, []⟩ frame
            (.child c) (x.outcome r)) := by
  have hhand : step (m.engine.sum E) (w.replace o y, ⟨c, none, .settled r, [⟨o, v, wait⟩]⟩) =
      .next (handOver (m.engine.sum E) (w.replace o y) c r ⟨o, v, wait⟩ []) :=
    step_handOver (.of_none rfl rfl) rfl
  rw [hhand]
  simp only [handOver, World.generator?_replace_of_ne hne, hx]
  rw [World.unlock_replace hne]
  cases wait <;> rfl

/-- The child, driven for the paused outer generator, has settled. -/
theorem endAlike_paused {r : Except GeneratorError Bool} (hm : m.config.mode = .unbounded)
    (hz : w.generator? o = some z) (hx : w.generator? c = some x) (hne : c ≠ o)
    (hrole : x.FitsRole (.settled r)) (hy : Waiting c y) :
    EndAlike (step (m.engine.sum E)) (step (m.engine.sum E)) (Followed o c)
      (w, ⟨c, none, .settled r, []⟩) (w.replace o y, ⟨c, none, .settled r, [⟨o, none, .paused⟩]⟩) := by
  obtain ⟨e, hframe, he, hwait⟩ := hy.frame
  have hz' : (w.unlock c).generator? o = some z :=
    (World.generator?_unlock_of_ne (Ne.symm hne)).trans hz
  refine .of_reaches (.refl _) (.single (step_child hx hne)) ?_
  cases hr : World.produced r with
  | true =>
    obtain rfl := World.eq_of_produced hr
    have hpaired : Waiting c ((y.setPair x.key x.value).setLock false) :=
      ⟨hy.started, hy.unfinished, hy.delegation, hy.frame, hy.returnValue, hy.lastError⟩
    refine .of_halt (step_halt (.of_none rfl rfl) rfl) (step_halt (.of_none rfl rfl) rfl) ?_
    refine ⟨x.setLock false, (y.setPair x.key x.value).setLock false, ?_, by simp [hx], rfl, rfl,
      .delegating hpaired hrole, rfl, fun _ => ⟨rfl, rfl⟩⟩
    simp only [World.modify_replace, World.unlock]
  | false =>
    obtain ⟨hfinished, ⟨e', hout, hnone, hsome⟩ | ⟨hout, hnone⟩⟩ := outcome_cases hrole hr
    · -- The child failed: so does the outer generator.
      simp only [hout, advanced, fail]
      rw [World.fail_replace_self hz']
      · exact endAlike_spent hz hx hne (ended_failed hfinished hnone hsome (.paused hsome)) hr rfl
      · intro frame hframe'
        rw [hframe] at hframe'
        cases hframe'
        rfl
    · -- The child is exhausted: the outer generator goes on and returns its result.
      simp only [hout, advanced, World.modify_replace]
      rw [resume_replace_self (y := y.endDelegation _) hz' hframe]
      refine .of_reaches (.refl _) (outer_wakes hm hz' he hwait rfl) ?_
      exact endAlike_spent hz hx hne (ended_returned hfinished rfl hnone hy.lastError) hr rfl

theorem endAlike_delegating {s : State (Nat ⊕ H) (Execution ⊕ F) (Output × S)}
    (hm : m.config.mode = .unbounded) (hne : c ≠ o) (hinner : Inner (m.engine.sum E) o c none s)
    (hy : Waiting c y) (hlock : y.locked = true) :
    EndAlike (step (m.engine.sum E)) (step (m.engine.sum E)) (Followed o c) s
      (embed o y none [⟨o, none, .paused⟩] s) := by
  refine hinner.endAlike hlock fun w r x' hbottom hx' _ hrole => ?_
  obtain ⟨z, hz, -⟩ := hbottom.apart.avoided
  exact endAlike_paused hm hz hx' hne hrole hy

/-- A call of the paused outer generator turns to the child. -/
theorem outer_turns (hz : w.generator? o = some z) (hne : c ≠ o) (hx : w.generator? c = some x)
    (hl : x.locked = false) (hs : x.isStarted = true) (hy : Waiting c y) (sent : Option Value) :
    step (m.engine.sum E) (w.replace o y, ⟨o, none, .enter sent, []⟩) =
      .next ((w.lock c).replace o y, ⟨c, none, .enter sent, [⟨o, none, .paused⟩]⟩) := by
  rw [step_enter rfl (World.generator?_replace_self hz y), enter, hy.unfinished, hy.delegation]
  simp only [Bool.false_eq_true, if_false, descend, World.generator?_replace_of_ne hne, hx, hl,
    World.lock_replace hne, turnTo, hs, if_true]

/-- After the first pair, the value kept back goes to the child, directly or through the outer generator. -/
theorem endAlike_kept {v : Value} (hm : m.config.mode = .unbounded)
    (hinner : Inner (m.engine.sum E) o c (some v) (w, ⟨c, some v, .settled (.ok true), []⟩))
    (hx : w.generator? c = some x) (hne : c ≠ o) (hlock : x.locked = true) (hy : Waiting c y)
    (hylock : y.locked = true) :
    EndAlike (step (m.engine.sum E)) (step (m.engine.sum E)) (Followed o c)
      (w, ⟨c, some v, .settled (.ok true), []⟩)
      ((w.unlock c).replace o y, ⟨o, some v, .settled (.ok true), []⟩) := by
  obtain ⟨z, hz, -⟩ := hinner.apart.avoided
  have hz' : (w.unlock c).generator? o = some z :=
    (World.generator?_unlock_of_ne (Ne.symm hne)).trans hz
  have hsuspended : x.In .suspended := by
    have hrole := hinner.driven.2 c x hx
    rwa [role_current (d := ⟨c, some v, .settled (.ok true), []⟩)] at hrole
  have hstarted : (x.setLock false).isStarted = true := by
    simp [Generator.isStarted, Generator.setLock, hsuspended.1]
  have hresend : step (m.engine.sum E) (w, ⟨c, some v, .settled (.ok true), []⟩) =
      .next (w, ⟨c, none, .enter (some v), []⟩) := step_resend rfl rfl
  have hresend' : step (m.engine.sum E)
      ((w.unlock c).replace o y, ⟨o, some v, .settled (.ok true), []⟩) =
      .next ((w.unlock c).replace o y, ⟨o, none, .enter (some v), []⟩) := step_resend rfl rfl
  have hturns := outer_turns (m := m) (E := E) (x := x.setLock false) hz' hne (by simp [hx]) rfl
    hstarted hy (some v)
  have hback : (w.unlock c).lock c = w := World.setLock_setLock hx hlock false
  rw [hback] at hturns
  refine .of_reaches (.single hresend) (.next hresend' (.single hturns)) ?_
  have hinner' : Inner (m.engine.sum E) o c none (w, ⟨c, none, .enter (some v), []⟩) :=
    ⟨hinner.apart.step hresend, Generator.fitsRole_invariant.step hinner.driven hresend,
      hinner.onCall.step hresend, rfl⟩
  exact endAlike_delegating hm hne hinner' hy hylock

/-- The child, driven for the outer body that has just named it, has settled. -/
theorem endAlike_first {r : Except GeneratorError Bool} (hm : m.config.mode = .unbounded)
    (hinner : Inner (m.engine.sum E) o c sent (w, ⟨c, sent, .settled r, []⟩))
    (hx : w.generator? c = some x) (hne : c ≠ o) (hlock : x.locked = true)
    (hrole : x.FitsRole (.settled r)) (he : e.Returning) (hy : y.Running)
    (hd : y.delegation = none) (hylock : y.locked = true) :
    EndAlike (step (m.engine.sum E)) (step (m.engine.sum E)) (Followed o c)
      (w, ⟨c, sent, .settled r, []⟩)
      (w.replace o y, ⟨c, none, .settled r, [⟨o, sent, .inBody (.inl e)⟩]⟩) := by
  obtain ⟨z, hz, -⟩ := hinner.apart.avoided
  have hz' : (w.unlock c).generator? o = some z :=
    (World.generator?_unlock_of_ne (Ne.symm hne)).trans hz
  refine .of_reaches (.refl _) (.single (step_child hx hne)) ?_
  cases hr : World.produced r with
  | true =>
    obtain rfl := World.eq_of_produced hr
    let y' := (y.beginDelegation (.child c) x.key x.value).hold (.inl (e.await .delegationResult))
    have hwaiting : Waiting c y' :=
      ⟨hy.started, hy.unfinished, rfl, ⟨_, rfl, ⟨he.instruction, he.stack, he.callers⟩, rfl⟩,
        hy.returnValue, hy.lastError⟩
    have hpauses : Reaches (step (m.engine.sum E))
        ((w.unlock c).replace o (y.beginDelegation (.child c) x.key x.value),
          ⟨o, sent, .body (.inl e) .accepted, []⟩) 2
        ((w.unlock c).replace o y', ⟨o, sent, .settled (.ok true), []⟩) := outer_pauses hz' rfl
    simp only [Generator.outcome, delegated, World.modify_replace]
    refine .of_reaches (.refl _) hpauses ?_
    cases sent with
    | none =>
      refine .of_halt (step_halt (.of_none rfl rfl) rfl) (step_halt (.of_none rfl rfl) rfl) ?_
      exact ⟨x.setLock false, y'.setLock false, World.modify_replace .., by simp [hx], rfl, rfl,
        .delegating (hwaiting.setLock false) hrole, rfl, fun _ => ⟨rfl, rfl⟩⟩
    | some v => exact endAlike_kept hm hinner hx hne hlock hwaiting hylock
  | false =>
    obtain ⟨hfinished, ⟨e', hout, hnone, hsome⟩ | ⟨hout, hnone⟩⟩ := outcome_cases hrole hr
    · simp only [hout, delegated]
      refine .of_reaches (.refl _) (.single (step_outer rfl)) ?_
      simp only [Action.map, perform, fail]
      rw [World.fail_replace_self hz']
      · exact endAlike_spent hz hx hne (ended_failed hfinished hnone hsome (.inBody hsome)) hr rfl
      · intro frame hframe
        rw [hy.frame] at hframe
        cases hframe
    · simp only [hout, delegated, World.modify_replace]
      refine .of_reaches (.refl _) (outer_skips hm hz' he hd hy.frame) ?_
      exact endAlike_spent hz hx hne (ended_returned hfinished rfl hnone hy.lastError) hr rfl

/-! ### Sequences of calls -/

/-- Calls on `c` never come to `o`: it is locked, or nothing leads there. -/
def Avoided (E : Engine H F S) (o c : GeneratorId) (w : World H F S) (is : List Input) : Prop :=
  ∃ z, w.generator? o = some z ∧ (z.locked = true ∨ w.Spares E o c is)

theorem Avoided.apart {E : Engine H F S} {w : World H F S} {i : Input} {is : List Input}
    {s : State H F S} (h : Avoided E o c w (i :: is)) (hne : c ≠ o) (hs : w.open? c i = some s) :
    Apart E o s := by
  obtain ⟨hc, hchain⟩ := World.open_chained hs
  obtain ⟨x, hx, -, rfl⟩ := World.open_cases hs
  obtain ⟨z, hz, havoided⟩ := h
  refine ⟨hc, by simpa [hchain] using Ne.symm hne, z, ?_, ?_⟩
  · exact (World.generator?_lock_of_ne (Ne.symm hne)).trans hz
  · exact havoided.imp id fun hspares n t hr => hspares.1 _ n t hs hr

/-- So it is after each call. -/
theorem Avoided.advance {E : Engine H F S} {w w' : World H F S} {i : Input} {is : List Input}
    {fuel : Nat} {r : Except GeneratorError Bool} (h : Avoided E o c w (i :: is)) (hne : c ≠ o)
    (ha : w.advance E fuel c i = some (w', r)) : Avoided E o c w' is := by
  obtain ⟨s, hs, hrun⟩ := Option.bind_eq_some_iff.mp ha
  have hapart := h.apart hne hs
  obtain ⟨n, t, hreach, ht⟩ := (ends_of_run hrun).reaches
  obtain ⟨-, -, -, rfl⟩ := ((World.open_onCall hs).reaches hreach).halt ht
  obtain ⟨z, hz, havoided⟩ := h
  obtain ⟨x, -, -, rfl⟩ := World.open_cases hs
  have hz' := hapart.kept_reaches ((World.generator?_lock_of_ne (Ne.symm hne)).trans hz) hreach
  exact ⟨z, (World.generator?_unlock_of_ne (Ne.symm hne)).trans hz',
    havoided.imp id fun hspares => hspares.2 _ _ _ ha⟩

/-- The drive of the child alone with which a call begins. -/
theorem inner_open {i : Input} {is : List Input} {v : Option Value}
    (hrest : LocalInvariant.Resting Generator.FitsRole w)
    (havoided : Avoided (m.engine.sum E) o c w (i :: is)) (hne : c ≠ o)
    (hx : w.generator? c = some x) (hl : x.locked = false)
    (hkeeps : (turnTo x c i.sent? []).rebase v [] = turnTo x c i.sent? []) :
    Inner (m.engine.sum E) o c v (w.lock c, turnTo x c i.sent? []) where
  apart := havoided.apart hne (World.open_eq hx hl)
  driven := Generator.fitsRole_invariant.opened hrest (World.open_eq hx hl)
  onCall := World.open_onCall (World.open_eq hx hl)
  keeps := hkeeps

/-- The first call. -/
theorem first_call {f : Function} {depth : Nat} {arg : Value} {rest : List Value} {i : Input}
    {is : List Input} (hm : m.config.mode = .unbounded) (hf : f.body = forwarding)
    (hrest : LocalInvariant.Resting Generator.FitsRole w)
    (havoided : Avoided (m.engine.sum E) o c w (i :: is)) (hne : c ≠ o)
    (harg : w.heap.deref arg = .generator c) (hx : w.generator? c = some x) (hl : x.locked = false)
    (hi : i = .next ∨ x.isStarted = false)
    (hy : y = (Generator.fresh (.inl depth) f (arg :: rest)).setLock true) :
    EndAlike (step (m.engine.sum E)) (step (m.engine.sum E)) (Followed o c)
      (w.lock c, turnTo x c i.sent? []) (w.replace o y, turnTo y o i.sent? []) := by
  have hturn : turnTo x c i.sent? [] = ⟨c, i.sent?, .enter none, []⟩ := by
    rcases hi with rfl | hs
    · rw [turnTo]
      split <;> rfl
    · rw [turnTo, if_neg (by simp [hs])]
  have hinner : Inner (m.engine.sum E) o c i.sent? (w.lock c, turnTo x c i.sent? []) :=
    inner_open hrest havoided hne hx hl (by rw [hturn]; rfl)
  have hrunning : y.begin.Running := by
    rw [hy]
    exact ⟨rfl, rfl, rfl, rfl, rfl⟩
  obtain ⟨z, hz, -⟩ := havoided
  obtain ⟨e, he, hstarts⟩ := outer_starts (E := E) hm hf hz hne harg hx hl hy i.sent?
  have hfirst : turnTo y o i.sent? [] = ⟨o, i.sent?, .enter none, []⟩ := by
    rw [turnTo, hy]
    rfl
  rw [hfirst]
  refine .of_reaches (.refl _) hstarts ?_
  rw [hturn] at hinner ⊢
  refine hinner.endAlike (by rw [hy]; rfl) fun w' r x' hbottom hx' hl' hrole => ?_
  exact endAlike_first hm hbottom hx' hne hl' hrole he hrunning (by rw [hy]; rfl) (by rw [hy]; rfl)

/-- A call of an outer generator that waits for its child. -/
theorem waiting_call {i : Input} {is : List Input} (hm : m.config.mode = .unbounded)
    (hrest : LocalInvariant.Resting Generator.FitsRole w)
    (havoided : Avoided (m.engine.sum E) o c w (i :: is)) (hne : c ≠ o)
    (hx : w.generator? c = some x) (hl : x.locked = false) (hs : x.isStarted = true)
    (hy : Waiting c y) :
    EndAlike (step (m.engine.sum E)) (step (m.engine.sum E)) (Followed o c)
      (w.lock c, turnTo x c i.sent? [])
      (w.replace o (y.setLock true), turnTo y o i.sent? []) := by
  obtain ⟨z, hz, -⟩ := id havoided
  have hturn : turnTo x c i.sent? [] = ⟨c, none, .enter i.sent?, []⟩ := by rw [turnTo, if_pos hs]
  have hturn' : turnTo y o i.sent? [] = ⟨o, none, .enter i.sent?, []⟩ := by
    rw [turnTo, if_pos hy.started]
  have hinner : Inner (m.engine.sum E) o c none (w.lock c, turnTo x c i.sent? []) :=
    inner_open hrest havoided hne hx hl (by rw [hturn]; rfl)
  rw [hturn']
  refine .of_reaches (.refl _)
    (.single (outer_turns hz hne hx hl hs (y := y.setLock true) (hy.setLock true) i.sent?)) ?_
  rw [hturn] at hinner ⊢
  exact endAlike_delegating hm hne hinner (hy.setLock true) rfl

/-- A call of an outer generator that has ended with its child. -/
theorem ended_call {i : Input} (hz : w.generator? o = some z) (hne : c ≠ o)
    (hx : w.generator? c = some x) (hl : x.locked = false) (hended : Ended y x) :
    EndAlike (step (m.engine.sum E)) (step (m.engine.sum E)) (Followed o c)
      (w.lock c, turnTo x c i.sent? [])
      (w.replace o (y.setLock true), turnTo y o i.sent? []) := by
  have hx' : (w.lock c).generator? c = some (x.setLock true) := by simp [hx]
  have hz' : (w.lock c).generator? o = some z :=
    (World.generator?_lock_of_ne (Ne.symm hne)).trans hz
  obtain ⟨v, hv⟩ := step_turnTo_finished (E := m.engine.sum E) (y := x) hx' hended.child i.sent? []
  obtain ⟨v', hv'⟩ := step_turnTo_finished (E := m.engine.sum E) (y := y)
    (World.generator?_replace_self hz (y.setLock true)) hended.outer i.sent? []
  refine .of_reaches (.single hv) (.single hv') ?_
  have hback : (w.lock c).unlock c = w := World.setLock_setLock hx hl true
  have hend : EndAlike (step (m.engine.sum E)) (step (m.engine.sum E)) (Followed o c)
      (w.lock c, ⟨c, v, .settled (.ok false), []⟩)
      (((w.lock c).unlock c).replace o (y.setLock true), ⟨o, v', .settled (.ok false), []⟩) :=
    endAlike_spent hz' hx' hne (hended.setLock true true) rfl rfl
  rwa [hback] at hend

/-- Every call after the first. -/
theorem later_call {i : Input} {is : List Input} (hm : m.config.mode = .unbounded)
    (hrest : LocalInvariant.Resting Generator.FitsRole w)
    (havoided : Avoided (m.engine.sum E) o c w (i :: is)) (hne : c ≠ o)
    (hx : w.generator? c = some x) (hl : x.locked = false) (hlinked : Linked c y x) :
    EndAlike (step (m.engine.sum E)) (step (m.engine.sum E)) (Followed o c)
      (w.lock c, turnTo x c i.sent? [])
      (w.replace o (y.setLock true), turnTo y o i.sent? []) := by
  cases hlinked with
  | delegating hy hsuspended =>
    have hstarted : x.isStarted = true := by simp [Generator.isStarted, hsuspended.1]
    exact waiting_call hm hrest havoided hne hx hl hstarted hy
  | spent hended =>
    obtain ⟨z, hz, -⟩ := havoided
    exact ended_call hz hne hx hl hended

/-- The same calls on the child `c` led to `v`, and on the outer generator `o` to `w`: the pairs are the
same, and so is everything but the outer generator, which has come as far as its child. -/
structure Transparent (o c : GeneratorId) (rs : List Report)
    (v : World (Nat ⊕ H) (Execution ⊕ F) (Output × S)) (rs' : List Report)
    (w : World (Nat ⊕ H) (Execution ⊕ F) (Output × S)) : Prop where
  pairs : rs'.map Report.pair? = rs.map Report.pair?
  heap : w.heap = v.heap
  state : w.state = v.state
  others : ∀ g, g ≠ o → w.generator? g = v.generator? g
  outer : ∃ x y, v.generator? c = some x ∧ w.generator? o = some y ∧
    y.isFinished = x.isFinished ∧ (∀ u, x.returnValue = some u → y.getReturn = .ok u) ∧
    (x.isFinished = true → x.returnValue = none → x.lastError = none → y.getReturn = .ok .null) ∧
    y.lastError.isSome = x.lastError.isSome

/-- Calls on the child end just when the same calls on the outer generator do, and are transparent. -/
structure CalledAlike (E : Engine (Nat ⊕ H) (Execution ⊕ F) (Output × S)) (o c : GeneratorId)
    (v w : World (Nat ⊕ H) (Execution ⊕ F) (Output × S)) (is : List Input) : Prop where
  there : ∀ rs v', v.Called E c is rs v' →
    ∃ rs' w', w.Called E o is rs' w' ∧ Transparent o c rs v' rs' w'
  back : ∀ rs' w', w.Called E o is rs' w' →
    ∃ rs v', v.Called E c is rs v' ∧ Transparent o c rs v' rs' w'

/-- The outer generator of `w` follows its child between calls. -/
def Follows (o c : GeneratorId) (v w : World (Nat ⊕ H) (Execution ⊕ F) (Output × S)) : Prop :=
  ∃ x y, w = v.replace o y ∧ v.generator? c = some x ∧ x.locked = false ∧ y.locked = false ∧
    Linked c y x

theorem Follows.transparent {v : World (Nat ⊕ H) (Execution ⊕ F) (Output × S)}
    (h : Follows o c v w) (hz : v.generator? o = some z) : Transparent o c [] v [] w := by
  obtain ⟨x, y, rfl, hx, -, -, hlinked⟩ := h
  refine ⟨rfl, rfl, rfl, fun g hg => World.generator?_replace_of_ne hg y, x, y, hx,
    World.generator?_replace_self hz y, ?_⟩
  cases hlinked with
  | delegating hy hsuspended =>
    have hf' : x.isFinished = false := by simp [Generator.isFinished, hsuspended.1]
    refine ⟨hy.unfinished.trans hf'.symm, ?_, ?_, by rw [hy.lastError, hsuspended.2.2.2]⟩
    · intro u hu
      rw [hsuspended.2.2.1] at hu
      cases hu
    · intro hfinished
      rw [hf'] at hfinished
      cases hfinished
  | spent hended =>
    refine ⟨hended.outer.trans hended.child.symm, ?_, ?_, hended.error.isSome⟩
    · intro u hu
      rw [Generator.getReturn, hended.returned u hu]
    · intro _ hnone hnoerr
      rw [Generator.getReturn, hended.null hnone hnoerr]

variable {v : World (Nat ⊕ H) (Execution ⊕ F) (Output × S)} {i : Input} {is : List Input}
  {s s' : State (Nat ⊕ H) (Execution ⊕ F) (Output × S)}

theorem pair?_eq_pair? {x y : Generator H F} {r r' : Except GeneratorError Bool}
    (hproduced : World.produced r' = World.produced r)
    (hpair : World.produced r = true → y.key = x.key ∧ y.value = x.value) :
    (⟨World.produced r', y.key, y.value⟩ : Report).pair? =
      (⟨World.produced r, x.key, x.value⟩ : Report).pair? := by
  rw [hproduced, Report.pair?, Report.pair?]
  cases hr : World.produced r with
  | false => rfl
  | true =>
    obtain ⟨hkey, hvalue⟩ := hpair hr
    simp only [hkey, hvalue]

theorem Transparent.cons {v' w' : World (Nat ⊕ H) (Execution ⊕ F) (Output × S)}
    {r r' : Except GeneratorError Bool} {rs rs' : List Report}
    (h : Transparent o c rs v' rs' w') (hproduced : World.produced r' = World.produced r)
    (hpair : World.produced r = true → y.key = x.key ∧ y.value = x.value) :
    Transparent o c (⟨World.produced r, x.key, x.value⟩ :: rs) v'
      (⟨World.produced r', y.key, y.value⟩ :: rs') w' := by
  refine ⟨?_, h.heap, h.state, h.others, h.outer⟩
  rw [List.map_cons, List.map_cons, h.pairs, pair?_eq_pair? hproduced hpair]

/-- One call more. -/
theorem CalledAlike.cons (hv : v.open? c i = some s) (hw : w.open? o i = some s')
    (hend : EndAlike (step (m.engine.sum E)) (step (m.engine.sum E)) (Followed o c) s s')
    (hnext : ∀ fuel v' r w', v.advance (m.engine.sum E) fuel c i = some (v', r) → Follows o c v' w' →
      (∃ z, v'.generator? o = some z) ∧ CalledAlike (m.engine.sum E) o c v' w' is) :
    CalledAlike (m.engine.sum E) o c v w (i :: is) where
  there := by
    intro rs v₂ hcalled
    cases hcalled with
    | cons ha hx hrest =>
      obtain ⟨⟨w₁, r'⟩, he', hfollowed⟩ := hend.there _ ((World.advance_iff hv).mp ⟨_, ha⟩)
      obtain ⟨fuel, ha'⟩ := (World.advance_iff hw).mpr he'
      obtain ⟨x, y, rfl, hx', hxl, hyl, hlinked, hproduced, hpair⟩ := hfollowed
      obtain ⟨⟨z, hz⟩, hnext⟩ := hnext _ _ _ _ ha ⟨x, y, rfl, hx', hxl, hyl, hlinked⟩
      obtain ⟨rs', w₂, hrest', ht⟩ := hnext.there _ _ hrest
      obtain rfl := Option.some.inj (hx'.symm.trans hx)
      exact ⟨_, w₂, .cons ha' (World.generator?_replace_self hz y) hrest', ht.cons hproduced hpair⟩
  back := by
    intro rs' w₂ hcalled
    cases hcalled with
    | cons ha' hy hrest' =>
      obtain ⟨⟨v₁, r⟩, he, hfollowed⟩ := hend.back _ ((World.advance_iff hw).mp ⟨_, ha'⟩)
      obtain ⟨fuel, ha⟩ := (World.advance_iff hv).mpr he
      obtain ⟨x, y, rfl, hx, hxl, hyl, hlinked, hproduced, hpair⟩ := hfollowed
      obtain ⟨⟨z, hz⟩, hnext⟩ := hnext _ _ _ _ ha ⟨x, y, rfl, hx, hxl, hyl, hlinked⟩
      obtain ⟨rs, v₂, hrest, ht⟩ := hnext.back _ _ hrest'
      obtain rfl := Option.some.inj ((World.generator?_replace_self hz y).symm.trans hy)
      exact ⟨_, v₂, .cons ha hx hrest, ht.cons hproduced hpair⟩

/-- Once the outer generator follows its child, all further calls are transparent. -/
theorem later_calls (hm : m.config.mode = .unbounded) (hne : c ≠ o)
    (hrest : LocalInvariant.Resting Generator.FitsRole v)
    (havoided : Avoided (m.engine.sum E) o c v is) (hfollows : Follows o c v w) :
    CalledAlike (m.engine.sum E) o c v w is := by
  induction is generalizing v w with
  | nil =>
    obtain ⟨z, hz, -⟩ := havoided
    have ht := hfollows.transparent hz
    constructor
    · intro rs v' hcalled
      cases hcalled
      exact ⟨[], w, .nil w, ht⟩
    · intro rs w' hcalled
      cases hcalled
      exact ⟨[], v, .nil v, ht⟩
  | cons i is ih =>
    obtain ⟨x, y, rfl, hx, hxl, hyl, hlinked⟩ := hfollows
    obtain ⟨z, hz, -⟩ := id havoided
    have hend := later_call hm hrest havoided hne hx hxl hlinked
    have hw : (v.replace o y).open? o i =
        some (v.replace o (y.setLock true), turnTo y o i.sent? []) := by
      rw [World.open_eq (World.generator?_replace_self hz y) hyl, World.lock, World.modify_replace]
    refine .cons (World.open_eq hx hxl) hw hend ?_
    intro fuel v' r w' ha hfollows'
    have havoided' := havoided.advance hne ha
    obtain ⟨z', hz', -⟩ := id havoided'
    exact ⟨⟨z', hz'⟩, ih (Generator.fitsRole_invariant.advance hrest ha) havoided' hfollows'⟩

end Forwarding

open Forwarding in
/-- In a machine without a budget, a fresh generator that only delegates to its first argument is called
instead of that argument, an unlocked generator of any engine in any reachable world: the calls give the
same pairs, end in the same way and leave the same world behind. The child's own calls, with which this is
compared, must not take up the outer generator: it is locked meanwhile, or they never come to it. A child that
takes it up does tell the difference (`delegation_recalled`). -/
theorem delegation_transparent {m : Machine} (E : Engine H F S)
    {v w : World (Nat ⊕ H) (Execution ⊕ F) (Output × S)} {o c : GeneratorId}
    {x : Generator (Nat ⊕ H) (Execution ⊕ F)} {f : Function} {depth : Nat} {arg : Value}
    {rest : List Value} {i : Input} {is : List Input} (hm : m.config.mode = .unbounded)
    (hw : w.Reachable (m.engine.sum E))
    (ho : w.generator? o = some (.fresh (.inl depth) f (arg :: rest))) (hf : f.body = forwarding)
    (harg : w.heap.deref arg = .generator c) (hx : w.generator? c = some x)
    (hl : x.locked = false) (hne : c ≠ o) (hi : i = .next ∨ x.isStarted = false)
    (hv : v = w.lock o ∨ v = w ∧ w.Spares (m.engine.sum E) o c (i :: is)) :
    CalledAlike (m.engine.sum E) o c v w (i :: is) := by
  have hwrest := Generator.fitsRole_invariant.reachable hw
  let y : Generator (Nat ⊕ H) (Execution ⊕ F) := .fresh (.inl depth) f (arg :: rest)
  -- Apart from the outer generator's lock the two worlds are the same.
  obtain ⟨hrest, havoided, hreplace, hheap, hx⟩ :
      LocalInvariant.Resting Generator.FitsRole v ∧ Avoided (m.engine.sum E) o c v (i :: is) ∧
        w = v.replace o y ∧ v.heap = w.heap ∧ v.generator? c = some x := by
    rcases hv with rfl | ⟨rfl, hspares⟩
    · refine ⟨LocalInvariant.modify hwrest fun _ _ hfits => hfits.setLock true,
        ⟨y.setLock true, by simp [ho, y], .inl rfl⟩, ?_, rfl,
        (World.generator?_lock_of_ne hne).trans hx⟩
      rw [World.replace, World.lock, World.modify_modify]
      exact (World.replace_eq_self ho).symm
    · exact ⟨hwrest, ⟨y, ho, .inr hspares⟩, (World.replace_eq_self ho).symm, rfl, hx⟩
  rw [← hheap] at harg
  have hend := first_call (E := E) (y := y.setLock true) hm hf hrest havoided hne harg hx hl hi rfl
  have hopen : w.open? o i =
      some (v.replace o (y.setLock true), Drive.turnTo (y.setLock true) o i.sent? []) := by
    rw [World.open_eq ho rfl, hreplace, World.lock, World.modify_replace]
    rfl
  refine .cons (World.open_eq hx hl) hopen hend ?_
  intro fuel v' r w' ha hfollows
  have havoided' := havoided.advance hne ha
  obtain ⟨z, hz, -⟩ := id havoided'
  exact ⟨⟨z, hz⟩, later_calls hm hne (Generator.fitsRole_invariant.advance hrest ha) havoided' hfollows⟩

open Forwarding in
/-- A producer of a second engine, called through a forwarding generator, gives a pair. -/
theorem delegation_transparent_of_producer :
    ∃ (E : Engine (Nat ⊕ Nat) (Execution ⊕ Execution) (Output × Output))
      (w : World (Nat ⊕ Nat) (Execution ⊕ Execution) (Output × Output)) (is : List Input),
      w.Reachable E ∧ w.Spares E 1 0 is ∧ CalledAlike E 1 0 w w is ∧
        ∃ r w', w.Called E 1 is [r] w' ∧ r.produced = true := by
  let E := (Machine.engine ⟨.empty, .standard⟩).sum (Machine.engine ⟨.empty, .standard⟩)
  let producer : Function := ⟨"producer", 0, 0, #[.const (.int 1), .yield, .echo]⟩
  let outer : Function := ⟨"outer", 1, 0, forwarding⟩
  let w : World (Nat ⊕ Nat) (Execution ⊕ Execution) (Output × Output) :=
    ⟨.empty, (.silent, .captured ""),
      #[.fresh (.inr 0) producer [], .fresh (.inl 0) outer [.generator 0]]⟩
  have hw : w.Reachable E := by
    refine ⟨.empty, (.silent, .captured ""), ?_⟩
    have hproducer := World.Operated.step (E := E) (.refl ⟨.empty, (.silent, .captured ""), #[]⟩)
      (rfl : World.operate E 0 _ (.create (.inr 0) producer []) = some _)
    exact hproducer.step (rfl : World.operate E 0 _ (.create (.inl 0) outer [.generator 0]) = some _)
  have hcall : ((w.advance E 20 1 .next).bind fun (w', r) =>
      if World.produced r then w'.generator? 1 else none).isSome = true := by decide +kernel
  obtain ⟨x, hx⟩ := Option.isSome_iff_exists.mp hcall
  obtain ⟨⟨w', r⟩, ha, hx⟩ := Option.bind_eq_some_iff.mp hx
  simp only [Option.ite_none_right_eq_some] at hx
  have hspares : w.Spares E 1 0 [.next] := by
    refine ⟨fun s n t hs hreach => ?_, fun _ _ _ _ => trivial⟩
    have halong : (w.open? 0 .next).any
        (holdsAlong (Drive.step E) (fun t => t.2.current != 1) 9) = true := by decide +kernel
    rw [hs, Option.any_some] at halong
    simpa using hreach.of_holdsAlong halong
  refine ⟨E, w, [.next], hw, hspares, ?_, _, w', .cons ha hx.2 (.nil w'), hx.1⟩
  exact delegation_transparent (f := outer) _ rfl hw rfl rfl rfl rfl rfl (by decide) (.inl rfl)
    (.inr ⟨rfl, hspares⟩)

open Forwarding in
/-- A child whose second call comes to the generator that delegates to it. If that one has been called, it waits, and
the child is refused; if the child itself has been called, the other one begins, and is refused in its turn. So the
child ends with another error. -/
theorem delegation_recalled :
    ∃ (m : Machine) (E : Engine Nat Execution Output) (w : World (Nat ⊕ Nat) (Execution ⊕ Execution) (Output × Output))
      (x : Generator (Nat ⊕ Nat) (Execution ⊕ Execution)),
      m.config.mode = .unbounded ∧ w.Reachable (m.engine.sum E) ∧ w.heap.deref (.generator 0) = .generator 0 ∧
        w.generator? 0 = some x ∧ x.locked = false ∧
        w.generator? 1 = some (.fresh (.inl 0) ⟨"outer", 1, 0, forwarding⟩ [.generator 0]) ∧
        ¬ CalledAlike (m.engine.sum E) 1 0 w w [.next, .next] := by
  let m : Machine := ⟨.empty, .standard⟩
  let E := m.engine.sum m.engine
  let child : Function :=
    ⟨"child", 1, 0, #[.const (.int 1), .yield, .pop, .loadArg 0, .yieldFrom, .ret]⟩
  let outer : Function := ⟨"outer", 1, 0, forwarding⟩
  let heap : Heap := ⟨#[.generator 1], 0⟩
  let w : World (Nat ⊕ Nat) (Execution ⊕ Execution) (Output × Output) :=
    ⟨heap, (.silent, .silent),
      #[.fresh (.inl 0) child [.reference 0], .fresh (.inl 0) outer [.generator 0]]⟩
  have hw : w.Reachable E := by
    refine ⟨heap, (.silent, .silent), ?_⟩
    have hchild := World.Operated.step (E := E) (.refl ⟨heap, (.silent, .silent), #[]⟩)
      (rfl : World.operate E 0 _ (.create (.inl 0) child [.reference 0]) = some _)
    exact hchild.step (rfl : World.operate E 0 _ (.create (.inl 0) outer [.generator 0]) = some _)
  -- Two calls of `g` leave the child with this error.
  have hcalled {g : GeneratorId} {e : Option GeneratorError}
      (h : ((w.poll E 40 [g, g]).bind fun p => p.2.generator? 0).map (·.lastError) = some e) :
      ∃ rs w' x, w.Called E g [.next, .next] rs w' ∧ w'.generator? 0 = some x ∧ x.lastError = e := by
    obtain ⟨x, hx, he⟩ := Option.map_eq_some_iff.mp h
    obtain ⟨⟨rs, w'⟩, hpoll, hx⟩ := Option.bind_eq_some_iff.mp hx
    exact ⟨rs, w', x, (World.polled_of_poll hpoll).called (n := 2), hx, he⟩
  have hdirect : ((w.poll E 40 [0, 0]).bind fun p => p.2.generator? 0).map (·.lastError) =
      some (some (.executionFailed (.delegation (.sourceFailed "outer"
        "execution failed: cannot resume an already running generator")))) := by decide +kernel
  have hthrough : ((w.poll E 40 [1, 1]).bind fun p => p.2.generator? 0).map (·.lastError) =
      some (some (.executionFailed (.delegation .alreadyRunning))) := by decide +kernel
  refine ⟨m, m.engine, w, _, rfl, hw, rfl, rfl, rfl, rfl, ?_⟩
  intro halike
  obtain ⟨rs, v', x, hv, hx, he⟩ := hcalled hdirect
  obtain ⟨rs', w', x', hw', hx', he'⟩ := hcalled hthrough
  obtain ⟨rs'', w'', hw'', ht⟩ := halike.there rs v' hv
  obtain ⟨-, rfl⟩ := hw'.unique hw''
  have hsame := ht.others 0 (by decide)
  rw [hx, hx'] at hsame
  obtain rfl := Option.some.inj hsame
  rw [he] at he'
  cases he'

end YieldMachine
