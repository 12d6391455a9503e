import YieldMachine.Machine.Basic
import YieldMachine.Proofs.Drive.Move

/-!
The machine beside another engine: what one step of a drive does with one of the machine's bodies.
-/

namespace YieldMachine.Machine

variable {H F S : Type} {m : Machine} {x : Execution}

theorem exceeded?_of_unbounded (hm : m.config.mode = .unbounded) (x : Execution) :
    m.exceeded? x = none := by
  rw [exceeded?, hm]
  rfl

/-- Without a budget, an instruction that succeeds has its effect. -/
theorem advance_of_execute {i : Instruction} {heap heap' : Heap} {effect : Effect}
    (hm : m.config.mode = .unbounded) (hi : x.frame.instruction? = some i)
    (he : ({ x.frame with pc := x.frame.pc + 1 } : Frame).execute heap i = .ok (heap', effect))
    (out : Output) : m.advance heap out x = (heap', m.apply out x.tick effect) := by
  simp only [advance, hi, exceeded?_of_unbounded hm]
  simp only [Execution.tick, he]

/-- One step of a body of the machine, in a drive where another engine runs other bodies. -/
theorem drive_step (m : Machine) (E : Engine H F S)
    (w : World (Nat ⊕ H) (Execution ⊕ F) (Output × S)) {d : Drive (Execution ⊕ F)} {reply : Reply}
    {heap : Heap} {out : Output} {action : Action Nat Execution}
    (hfocus : d.focus = .body (.inl x) reply)
    (hstep : m.step w.heap w.state.1 x reply = (heap, out, action)) :
    Drive.step (m.engine.sum E) (w, d) =
      .next (Drive.perform (m.engine.sum E) { w with heap := heap, state := (out, w.state.2) } d
        (action.map .inl .inl)) := by
  refine Drive.step_body hfocus ?_
  simp only [Engine.sum, engine, hstep]

end YieldMachine.Machine
