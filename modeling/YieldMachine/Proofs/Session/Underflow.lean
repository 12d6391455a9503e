import YieldMachine.Proofs.History.Transcript
import YieldMachine.Proofs.Machine.WellFormed
import YieldMachine.Proofs.Session.Limits

/-!
Well-formed frames in a session, and where an underflow is. All frames of the machine that generators run or hold,
and all that called functions run, are frames that their bodies come to, so they are well formed
(`Machine.conducted_of_stands`, `Machine.record_conducted`). If a call of a function, or an advance of a generator,
reports an underflow, some body of the machine has reported it on the way, at an instruction for which its innermost
frame had too few values (`frames_well_formed`).
-/

namespace YieldMachine

variable {H F S H' F' : Type}

/-! ### Failing bodies -/

namespace Drive

variable {E : Engine H F S} {w : World H F S} {d : Drive F} {s' : State H F S} {e : BodyError}

theorem focus_of_engaged {focus : Focus F} {frame : F} {reply : Reply} (h : focus.position = .engaged frame reply) :
    focus = .body frame reply := by
  cases focus with
  | body frame' reply' => cases h; rfl
  | enter | settled => cases h

/-- Only a body that fails settles its generator by a failed execution. -/
theorem step_fails (hc : Chained w d) (hs : step E (w, d) = .next s')
    (hf : s'.2.focus = .settled (.error (.executionFailed e))) :
    s'.2.current = d.current ∧ ∃ frame reply, d.focus = .body frame reply ∧
      (E.step w.heap w.state frame reply).2.2 = .fail e := by
  have hstride := step_strides hc hs
  obtain ⟨w', d'⟩ := s'
  simp only at hstride hf ⊢
  cases hstride with
  | @act x x' heap s focus hx hact =>
    refine ⟨rfl, ?_⟩
    generalize hp : d.focus.position = p at hact
    cases hact with
    | @fail frame reply heap s e' hE =>
      cases hf
      exact ⟨frame, reply, focus_of_engaged hp, congrArg (fun r => r.2.2) hE⟩
    | settle | start | resume | lapse | breakOff | answer | goOn | suspend | finish => cases hf
  | @handOver result link ls x x' heap s focus hdone hw hx hne hact =>
    -- Whoever waits is not running its body.
    generalize hp : link.wait.position = p at hact
    cases hact with
    | fail hE => cases hwait : link.wait <;> rw [hwait] at hp <;> cases hp
    | settle | start | resume | lapse | breakOff | answer | goOn | suspend | finish => cases hf
  | create | resend => cases hf
  | @follow c y sent hfocus hy hl =>
    unfold turnTo at hf
    split at hf <;> cases hf
  | @delegate frame frame' reply heap s source c y hfocus hE hy hl =>
    unfold turnTo at hf
    split at hf <;> cases hf

end Drive

/-- An advance that reports a failed execution has come to a body of its generator that failed so. -/
theorem World.advance_fails {E : Engine H F S} {w w' : World H F S} {g : GeneratorId} {input : Input} {fuel : Nat}
    {e : BodyError} (ha : w.advance E fuel g input = some (w', .error (.executionFailed e))) :
    ∃ t n u frame reply, w.open? g input = some t ∧ Reaches (Drive.step E) t n u ∧ u.2.current = g ∧
      u.2.focus = .body frame reply ∧ (E.step u.1.heap u.1.state frame reply).2.2 = .fail e := by
  obtain ⟨t, ht, hrun⟩ := Option.bind_eq_some_iff.mp ha
  obtain ⟨n, v, hreach, hhalt⟩ := (ends_of_run hrun).reaches
  have hcall := World.open_onCall ht
  obtain ⟨hcurrent, hfocus, -, -⟩ := (hcall.reaches hreach).halt hhalt
  rcases hreach.last with rfl | ⟨k, u, hu, hs⟩
  · -- A call begins with entering its generator.
    obtain ⟨x, -, -, rfl⟩ := World.open_cases ht
    simp only [Drive.turnTo] at hfocus
    split at hfocus <;> cases hfocus
  · obtain ⟨hsame, frame, reply, hbody, hfail⟩ := Drive.step_fails (hcall.reaches hu).chained hs hfocus
    exact ⟨t, k, u, frame, reply, ht, hu, hsame.symm.trans hcurrent, hbody, hfail⟩

/-- Whether a body has ended by this error. -/
def BodyOutcome.failsBy (e : BodyError) : BodyOutcome F → Bool
  | .failed e' => decide (e' = e)
  | .suspended _ | .returned _ => false

theorem BodyOutcome.eq_failed {o : BodyOutcome F} {e : BodyError} (h : o.failsBy e = true) : o = .failed e := by
  cases o with
  | failed e' => rw [of_decide_eq_true h]
  | suspended | returned => cases h

/-- The action by which a body ends or pauses so. -/
def BodyOutcome.action : BodyOutcome F → Action H F
  | .suspended frame => .suspend frame
  | .returned v => .finish v
  | .failed e => .fail e

theorem Record.halt_action {E : Engine H F S} {w : World H F S} {r : Record} {frame : F} {reply : Reply}
    {q : Record.Result H F S} (hs : Record.step E (w, r, frame, reply) = .halt q) :
    (E.step w.heap w.state frame reply).2.2 = q.2.2.action := by
  rcases hE : E.step w.heap w.state frame reply with ⟨heap, state, action⟩
  simp only [Record.step, hE] at hs
  cases action with
  | suspend | finish | fail => cases hs; rfl
  | delegate source y =>
    simp only [Record.perform] at hs
    split at hs <;> cases hs
  | _ => cases hs

theorem Script.step_ne_fault (t : Tally) (x : Frame) (reply : Reply) (f : Fault) :
    (step t x reply).2 ≠ .fail (.fault f) := by
  have hadvance : advance x ≠ .fail (.fault f) := by
    unfold advance
    split
    · simp
    · split <;> simp
  cases reply with
  | proceed | resume => exact hadvance
  | reported | accepted | refused e =>
    simp only [step]
    split <;> simp
  | delegating active =>
    simp only [step]
    split
    · simp
    · cases active <;> simp
  | value v => simp [step]

/-! ### Where bodies stand -/

theorem Action.Continues.of_map {h : H → H'} {f : F → F'} {a : Action H F} {frame' : F'} {reply : Reply}
    (hgoes : (a.map h f).Continues frame' reply) : ∃ frame, frame' = f frame ∧ a.Continues frame reply := by
  generalize ha : a.map h f = a' at hgoes
  cases hgoes with
  | leads hleads =>
    subst ha
    obtain ⟨frame, rfl, hleads'⟩ := hleads.of_map
    exact ⟨frame, rfl, .leads hleads'⟩
  | pause =>
    obtain ⟨frame, rfl, rfl⟩ := Action.map_suspend ha
    exact ⟨frame, rfl, .pause frame⟩

namespace Drive

variable {E : Engine H F S} {x x' : Generator H F} {p p' : Position F} {frame : F} {reply : Reply}
  {action : Action H F} {ls : List (Line H F)}

/-- The body of the generator is at this frame, and goes on with this reply when its turn comes. -/
inductive Stands (x : Generator H F) : Position F → F → Reply → Prop where
  | engaged (frame : F) (reply : Reply) : Stands x (.engaged frame reply) frame reply
  | awaiting (frame : F) {reply : Reply} (h : reply.ToDelegate) : Stands x (.awaiting frame) frame reply
  | outside {frame : F} (h : x.frame = some frame) : Stands x .outside frame .resume
  | ended {frame : F} (h : x.frame = some frame) : Stands x .over frame .resume

theorem Answers.toDelegate (h : Answers x reply x') : reply.ToDelegate := by
  cases h with
  | begin | skip => exact .accepted
  | refuse e => exact .refused e

theorem Performs.continues (h : Performs x action p x') (hs : Stands x' p frame reply) :
    action.Continues frame reply := by
  cases h with
  | silent => cases hs; exact .leads (.silent _)
  | yieldPair => cases hs; exact .leads (.yieldPair ..)
  | yieldValue => cases hs; exact .leads (.yieldValue ..)
  | delegate _ _ ha => cases hs; exact .leads (.delegate _ _ ha.toDelegate)
  | await => cases hs with | awaiting _ hr => exact .leads (.delegate _ _ hr)
  | askDelegating => cases hs; exact .leads (.askDelegating ..)
  | takeSent => cases hs; exact .leads (.takeSent ..)
  | takeResult => cases hs; exact .leads (.takeResult ..)
  | create => cases hs; exact .leads (.create ..)
  | suspend => cases hs with | ended hframe => cases hframe; exact .pause _
  | finish | fail => cases hs with | ended hframe => cases hframe

/-- A body stands where it stood before, or it has just been started, or an action has led it there. -/
theorem Passage.stands (h : Passage E p x ls p' x') (hs : Stands x' p' frame reply) :
    Stands x p frame reply ∨
      (∃ state, frame = (E.start x.handle x.function x.arguments state).1 ∧ reply = .proceed) ∨
      ∃ heap state frame₀ reply₀, Stands x p frame₀ reply₀ ∧
        (E.step heap state frame₀ reply₀).2.2.Continues frame reply := by
  cases h with
  | stay => exact .inl hs
  | lock => cases hs with | outside hframe => exact .inl (.outside hframe)
  | rest => cases hs with | outside hframe => exact .inl (.ended hframe)
  | close => cases hs with | outside hframe => cases hframe
  | breakOff => cases hs with | ended hframe => cases hframe
  | spent | walk | forward => cases hs with | ended hframe => exact .inl (.outside hframe)
  | follow => exact .inl hs
  | start hf hd hstarted state =>
    cases hs
    exact .inr (.inl ⟨state, rfl, rfl⟩)
  | resume hf hd hframe | exhaust hf hd hframe | leave hf hd hframe =>
    cases hs
    exact .inl (.outside hframe)
  | answer frame ha =>
    cases hs
    exact .inl (.awaiting frame ha.toDelegate)
  | @act _ _ frame₀ reply₀ heap heap' state state' action p' hE hp =>
    refine .inr (.inr ⟨heap, state, frame₀, reply₀, .engaged frame₀ reply₀, ?_⟩)
    rw [hE]
    exact hp.continues hs

/-- Whatever becomes of a generator, it stays a call of its function. -/
theorem Passage.call (h : Passage E p x ls p' x') : x'.function = x.function ∧ x'.arguments = x.arguments := by
  cases h with
  | resume _ _ _ sent => cases sent <;> exact ⟨rfl, rfl⟩
  | answer frame ha => cases ha <;> exact ⟨rfl, rfl⟩
  | act hE hp =>
    cases hp with
    | delegate _ _ ha => cases ha <;> exact ⟨rfl, rfl⟩
    | _ => exact ⟨rfl, rfl⟩
  | _ => exact ⟨rfl, rfl⟩

end Drive

namespace Machine

variable {m : Machine} {E : Engine H F S} {f : Function} {args : List Value} {x : Execution} {reply : Reply}
  {frame : Execution ⊕ F} {heap : Heap} {name : String} {pc : Nat}

theorem sum_continues {state : Output × S} {reply' : Reply}
    (h : ((m.engine.sum E).step heap state frame reply).2.2.Continues (.inl x) reply') :
    ∃ z, frame = .inl z ∧ (m.step heap state.1 z reply).2.2.Continues x reply' := by
  cases frame with
  | inl z =>
    obtain ⟨x', heq, hgoes⟩ := Action.Continues.of_map (a := (m.step heap state.1 z reply).2.2) h
    cases heq
    exact ⟨z, rfl, hgoes⟩
  | inr z =>
    obtain ⟨x', heq, -⟩ := Action.Continues.of_map (a := (E.step heap state.2 z reply).2.2) h
    cases heq

/-- At every moment of a run, a frame of the machine at which a generator stands is one that its body comes to. -/
theorem conducted_of_stands {q : Moment (Nat ⊕ H) (Execution ⊕ F) (Output × S)} {g : GeneratorId}
    {y : Generator (Nat ⊕ H) (Execution ⊕ F)} (hq : q.Run (m.engine.sum E)) (hg : g ∉ q.gone)
    (hy : q.world.generator? g = some y) (hs : Drive.Stands y (q.position g) (.inl x) reply) :
    m.Conducted y.function y.arguments x reply := by
  obtain ⟨heap, state, hlater⟩ := hq
  obtain ⟨ls, hnotes⟩ := hlater.notes g
  refine hnotes.since (I := fun _ p y => ∀ x reply, Drive.Stands y p (.inl x) reply →
    m.Conducted y.function y.arguments x reply) ?_ ?_ hg hy x reply hs
  · intro k f args x reply hs
    cases hs with
    | outside hframe => cases hframe
  · intro ls p y ls' p' y' hp hI x reply hs
    rw [hp.call.1, hp.call.2]
    rcases hp.stands hs with hsame | ⟨state, hstart, rfl⟩ | ⟨heap, state, frame, reply', hbefore, hgoes⟩
    · exact hI x reply hsame
    · -- The machine starts only its own generators.
      cases hk : y.handle with
      | inl k =>
        rw [hk] at hstart
        cases hstart
        exact .start k
      | inr k =>
        rw [hk] at hstart
        cases hstart
    · obtain ⟨z, rfl, hgoes'⟩ := sum_continues hgoes
      exact (hI z reply' hbefore).next heap state.1 hgoes'

/-- A body that is run apart from any generator stays one that its function comes to. -/
theorem record_conducted {w : World (Nat ⊕ H) (Execution ⊕ F) (Output × S)} {r : Record} {n : Nat}
    {t : Record.State (Nat ⊕ H) (Execution ⊕ F) (Output × S)} (hx : m.Conducted f args x reply)
    (hr : Reaches (Record.step (m.engine.sum E)) (w, r, .inl x, reply) n t) :
    ∃ z, t.2.2.1 = .inl z ∧ m.Conducted f args z t.2.2.2 := by
  apply hr.invariant (I := fun t => ∃ z, t.2.2.1 = .inl z ∧ m.Conducted f args z t.2.2.2) ⟨x, rfl, hx⟩
  rintro ⟨w, r, frame, reply⟩ ⟨w', r', frame', reply'⟩ ⟨z, hz, hconducted⟩ hs
  obtain rfl : frame = .inl z := hz
  obtain ⟨hleads, -⟩ := Record.step_cases hs
  obtain ⟨z', rfl, hgoes⟩ := Action.Continues.of_map (a := (m.step w.heap w.state.1 z reply).2.2) (.leads hleads)
  exact ⟨z', rfl, hconducted.next w.heap w.state.1 hgoes⟩

/-- The execution `x`, to which the body of a call of `f` has come, reports an underflow: the innermost frame has
too few values for its next instruction, which is the one at `pc` of the function `name`. -/
structure Underflows (m : Machine) (heap : Heap) (out : Output) (f : Function) (args : List Value) (x : Execution)
    (name : String) (pc : Nat) : Prop where
  conducted : m.Conducted f args x .proceed
  fails : (m.step heap out x .proceed).2.2 = .fail (.fault (.stackUnderflow name pc))
  lacks : x.frame.Lacks name pc

theorem Conducted.underflows {out : Output} (h : m.Conducted f args x reply)
    (hfail : (m.step heap out x reply).2.2 = .fail (.fault (.stackUnderflow name pc))) :
    reply = .proceed ∧ m.Underflows heap out f args x name pc := by
  obtain ⟨rfl, hlacks⟩ := step_underflow hfail
  exact ⟨rfl, h, hfail, hlacks⟩

end Machine

namespace Session

variable {s s' : Session} {frame : Execution ⊕ Script.Frame} {reply : Reply} {heap : Heap}
  {state : Output × Script.Tally} {name : String} {pc : Nat}

/-- Scripts report no faults of the machine. -/
theorem machine_of_fault {f : Fault} (h : (s.engine.step heap state frame reply).2.2 = .fail (.fault f)) :
    ∃ x, frame = .inl x ∧ (s.machine.step heap state.1 x reply).2.2 = .fail (.fault f) := by
  have hfail {H F : Type} {h : H → Nat ⊕ Unit} {k : F → Execution ⊕ Script.Frame} {a : Action H F}
      (ha : a.map h k = .fail (.fault f)) : a = .fail (.fault f) := by
    cases a with
    | fail e => cases ha; rfl
    | _ => cases ha
  cases frame with
  | inl x => exact ⟨x, rfl, hfail h⟩
  | inr x => exact (Script.step_ne_fault _ _ _ _ (hfail h)).elim

/-- An advance that reports an underflow has come to a body of the machine that reports it. -/
theorem advance_underflows {w w' : World (Nat ⊕ Unit) (Execution ⊕ Script.Frame) (Output × Script.Tally)}
    {fuel : Nat} {g : GeneratorId} {input : Input} (hw : w.Reachable s.engine)
    (ha : w.advance s.engine fuel g input = some (w', .error (.executionFailed (.fault (.stackUnderflow name pc))))) :
    ∃ y t n u x, w.generator? g = some y ∧ w.open? g input = some t ∧ Reaches (Drive.step s.engine) t n u ∧
      u.2.current = g ∧ u.2.focus = .body (.inl x) .proceed ∧
      s.machine.Underflows u.1.heap u.1.state.1 y.function y.arguments x name pc := by
  obtain ⟨t, n, u, frame, reply, ht, hu, hcurrent, hfocus, hfail⟩ := World.advance_fails ha
  obtain ⟨x, rfl, hfail'⟩ := machine_of_fault hfail
  obtain ⟨y, hy, -⟩ := World.open_cases ht
  obtain ⟨history, hrun⟩ := Moment.run_of_reachable hw
  obtain ⟨history', hlater⟩ := Moment.later_reaches hu history
  have hwhole := (Moment.Later.single (.call List.not_mem_nil ht)).trans hlater
  obtain ⟨ls, hnotes⟩ := hwhole.notes g
  obtain ⟨y', hy', hcall⟩ := hnotes.invariant (I := fun _ _ y' => y'.function = y.function ∧ y'.arguments = y.arguments)
    (fun hp hI => ⟨hp.call.1.trans hI.1, hp.call.2.trans hI.2⟩) (Moment.kept hrun) List.not_mem_nil hy ⟨rfl, rfl⟩
  have hposition : Drive.Stands y' (Drive.position u.2 g) (.inl x) reply := by
    rw [← hcurrent, Drive.position_current, hfocus]
    exact .engaged ..
  have hconducted := Machine.conducted_of_stands (m := s.machine) (hrun.later hwhole) List.not_mem_nil hy' hposition
  rw [hcall.1, hcall.2] at hconducted
  obtain ⟨rfl, hunderflows⟩ := hconducted.underflows hfail'
  exact ⟨y, t, n, u, x, hy, ht, hu, hcurrent, hfocus, hunderflows⟩

/-- A call that fails by an underflow has run a body that has failed so. -/
theorem run_of_call_underflow {fuel : Nat} {callee : String} {args : List Value}
    (h : s.call fuel callee args = some (s', .error (.fault (.stackUnderflow name pc)))) :
    ∃ f q, s.function callee = .ok f ∧ run (Record.step s.engine) fuel (s.outset f args) = some q ∧
      q.2.2 = .failed (.fault (.stackUnderflow name pc)) := by
  generalize hr : (.error (.fault (.stackUnderflow name pc)) : Except BodyError Value) = r at h
  cases call_concludes h with
  | @unknown e hf =>
    cases hr
    unfold function at hf
    split at hf <;> cases hf
  | refused | creates => cases hr
  | @runs f q hf _ _ hrun =>
    refine ⟨f, q, hf, hrun, ?_⟩
    unfold answer at hr
    split at hr
    · cases hr
    · next e he =>
      cases hr
      exact he
    · cases hr
    · cases hr

/-- A call of a function that reports an underflow has come to such an execution, too. -/
theorem call_underflows {fuel : Nat} {callee : String} {args : List Value}
    (h : s.call fuel callee args = some (s', .error (.fault (.stackUnderflow name pc)))) :
    ∃ f n w r x, s.function callee = .ok f ∧
      Reaches (Record.step s.engine) (s.outset f args) n (w, r, .inl x, .proceed) ∧
      s.machine.Underflows w.heap w.state.1 f args x name pc := by
  obtain ⟨f, q, hf, hrun, ho⟩ := run_of_call_underflow h
  obtain ⟨n, ⟨w, r, frame, reply⟩, hu, hhalt⟩ := (ends_of_run hrun).reaches
  have haction := Record.halt_action hhalt
  rw [ho] at haction
  obtain ⟨x, rfl, hfail⟩ := machine_of_fault haction
  obtain ⟨z, heq, hconducted⟩ := Machine.record_conducted (m := s.machine) (.start 1) hu
  obtain rfl := Sum.inl.inj heq
  obtain ⟨rfl, hunderflows⟩ := hconducted.underflows hfail
  exact ⟨f, n, w, r, x, hf, hu, hunderflows⟩

/-- A body that is run apart from any generator pauses as one that its function comes to, so it can be run on. -/
theorem runBody_conducted {f : Function} {args : List Value} {x z : Execution} {fuel : Nat} {r r' : Record}
    (hx : s.machine.Conducted f args x reply) (h : s.runBody fuel x reply r = some (s', r', .suspended z)) :
    s.machine.Conducted f args z .resume := by
  obtain ⟨⟨w, r'', o⟩, hrun, heq⟩ := Option.map_eq_some_iff.mp h
  have ho : o = .suspended (.inl z) := by
    cases o with
    | suspended frame =>
      cases frame with
      | inl z' => cases heq; rfl
      | inr z' => cases heq
    | returned v | failed e => cases heq
  subst ho
  obtain ⟨n, ⟨w', r₀, frame, reply'⟩, hreach, hhalt⟩ := (ends_of_run hrun).reaches
  obtain ⟨y, hy, hconducted⟩ := Machine.record_conducted hx hreach
  obtain rfl : frame = .inl y := hy
  have hsuspend : ((s.machine.step w'.heap w'.state.1 y reply').2.2.map Sum.inl Sum.inl :
      Action (Nat ⊕ Unit) (Execution ⊕ Script.Frame)) = .suspend (.inl z) := Record.halt_action hhalt
  obtain ⟨z', heq', haction⟩ := Action.map_suspend hsuspend
  obtain rfl := Sum.inl.inj heq'
  apply hconducted.next w'.heap w'.state.1
  rw [haction]
  exact .pause z

end Session

/-- Frames are well formed, and an underflow is where it is said to be. In an execution that the body of a call of
`f` comes to, at any step and after any number of pauses, all frames have their counters within their functions'
bodies, as many locals as declared, and the arguments that they were called with; and only one that is paused
awaits anything: a sent value after a yield of a value or of a pair, and a result after a delegation. Such are all
executions of the machine that a generator runs or holds at any moment of a session, and that a body which is run
apart from any generator comes to or pauses at. And if an advance of a generator or a call of a function reports an
underflow, its body has come to one, in which the innermost frame is that of the named function, with its counter
at the named instruction, which is within the function's body and needs more values than the frame has. -/
theorem frames_well_formed (s : Session) :
    (∀ f args x reply, s.machine.Conducted f args x reply → x.Formed f args ∧ x.Ready reply) ∧
    (∀ z u, s.machine.Within z u → z.activations <:+ u.activations) ∧
    (∀ (q : Moment (Nat ⊕ Unit) (Execution ⊕ Script.Frame) (Output × Script.Tally)) g y x reply,
      q.Run s.engine → g ∉ q.gone → q.world.generator? g = some y →
      Drive.Stands y (q.position g) (.inl x) reply → s.machine.Conducted y.function y.arguments x reply) ∧
    (∀ f args x reply, s.machine.Conducted f args x reply →
      (∀ w r n t, Reaches (Record.step s.engine) (w, r, .inl x, reply) n t →
        ∃ z, t.2.2.1 = .inl z ∧ s.machine.Conducted f args z t.2.2.2) ∧
      ∀ (t : Session) fuel r s' r' z, t.machine = s.machine → t.runBody fuel x reply r = some (s', r', .suspended z) →
        s.machine.Conducted f args z .resume) ∧
    (∀ (w w' : World (Nat ⊕ Unit) (Execution ⊕ Script.Frame) (Output × Script.Tally)) fuel g input name pc,
      w.Reachable s.engine →
      w.advance s.engine fuel g input = some (w', .error (.executionFailed (.fault (.stackUnderflow name pc)))) →
      ∃ y t n u x, w.generator? g = some y ∧ w.open? g input = some t ∧ Reaches (Drive.step s.engine) t n u ∧
        u.2.current = g ∧ u.2.focus = .body (.inl x) .proceed ∧
        s.machine.Underflows u.1.heap u.1.state.1 y.function y.arguments x name pc) ∧
    (∀ fuel callee args s' name pc,
      s.call fuel callee args = some (s', .error (.fault (.stackUnderflow name pc))) →
      ∃ f n w r x, s.function callee = .ok f ∧
        Reaches (Record.step s.engine) (s.outset f args) n (w, r, .inl x, .proceed) ∧
        s.machine.Underflows w.heap w.state.1 f args x name pc) := by
  refine ⟨?_, ?_, ?_, ?_, ?_, ?_⟩
  · intro f args x reply h
    exact h.formed
  · intro z u h
    exact h.activations
  · intro q g y x reply hq hg hy hs
    exact Machine.conducted_of_stands hq hg hy hs
  · intro f args x reply h
    refine ⟨?_, ?_⟩
    · intro w r n t hr
      exact Machine.record_conducted h hr
    · intro t fuel r s' r' z hm hrun
      rw [← hm] at h ⊢
      exact t.runBody_conducted h hrun
  · intro w w' fuel g input name pc hw ha
    exact s.advance_underflows hw ha
  · intro fuel callee args s' name pc h
    exact s.call_underflows h

/-- A plain function that calls one which adds to its only argument, and a generator that pops twice what it is
given back. -/
theorem frames_well_formed_of_callee : ∃ (s s' : Session)
    (w w' : World (Nat ⊕ Unit) (Execution ⊕ Script.Frame) (Output × Script.Tally))
    (y : Generator (Nat ⊕ Unit) (Execution ⊕ Script.Frame)) (f : Function),
    s.call 30 "outer" [] = some (s', .error (.fault (.stackUnderflow "inner" 1))) ∧
    (∃ heap out x, s.machine.Underflows heap out f [] x "inner" 1 ∧ x.Formed f []) ∧
    w.generator? 0 = some y ∧ y.frame.isSome = true ∧
    (∀ x, y.frame = some (.inl x) → x.frame.Paused) ∧
    w.advance s.engine 30 0 .next = some (w', .error (.executionFailed (.fault (.stackUnderflow "twice" 3)))) ∧
    ∃ heap out x, s.machine.Underflows heap out y.function y.arguments x "twice" 3 := by
  let outer : Function := ⟨"outer", 0, 0, #[.const .null, .instantiate 1 1, .ret]⟩
  let inner : Function := ⟨"inner", 1, 0, #[.loadArg 0, .add]⟩
  let twice : Function := ⟨"twice", 0, 0, #[.const .null, .yield, .pop, .pop]⟩
  let s : Session := ⟨⟨⟨#[outer, inner], Std.TreeMap.empty.insert "outer" 0⟩, .standard⟩, ∅,
    ⟨.empty, (.silent, .empty), #[.fresh (.inl 0) twice []]⟩⟩
  obtain ⟨hformed, -, hstands, -, hadvances, hcalls⟩ := frames_well_formed s
  -- The call fails in the function that it calls.
  have hf : s.function "outer" = .ok outer := by
    simp [s, Session.function, Registry.getByName?, Registry.lookup, Registry.get?]
  have hplain : outer.isGenerator = false := by simp [outer, Function.isGenerator, Instruction.isYield]
  have hends : ((run (Record.step s.engine) 30 (s.outset outer [])).any fun q =>
      q.2.2.failsBy (.fault (.stackUnderflow "inner" 1))) = true := by decide +kernel
  obtain ⟨⟨w₀, r₀, o⟩, hrun, ho⟩ := (Option.any_eq_true ..).mp hends
  obtain rfl : o = .failed (.fault (.stackUnderflow "inner" 1)) := BodyOutcome.eq_failed ho
  have hcall : s.call 30 "outer" [] = some (s.setWorld w₀, .error (.fault (.stackUnderflow "inner" 1))) := by
    rw [Session.call_plain hf (by decide) hplain, hrun]
    rfl
  obtain ⟨f, n, w₁, r₁, x, hf', -, hx⟩ := hcalls 30 "outer" [] _ "inner" 1 hcall
  obtain rfl : outer = f := Except.ok.inj (hf.symm.trans hf')
  -- The generator pauses, and fails when it is advanced again.
  have hpauses : ((s.world.advance s.engine 30 0 .next).any fun t => World.produced t.2 &&
      ((t.1.generator? 0).any fun y => y.frame.isSome) &&
      (t.1.advance s.engine 30 0 .next).any fun t' =>
        decide (t'.2 = .error (.executionFailed (.fault (.stackUnderflow "twice" 3))))) = true := by decide +kernel
  obtain ⟨⟨w, r⟩, hfirst, hchecks⟩ := (Option.any_eq_true ..).mp hpauses
  simp only [Bool.and_eq_true] at hchecks
  obtain ⟨⟨hproduced, hframe⟩, hagain⟩ := hchecks
  obtain rfl := World.eq_of_produced hproduced
  obtain ⟨y, hy, hsome⟩ := (Option.any_eq_true ..).mp hframe
  obtain ⟨⟨w', r'⟩, hsecond, hr'⟩ := (Option.any_eq_true ..).mp hagain
  obtain rfl : r' = .error (.executionFailed (.fault (.stackUnderflow "twice" 3))) := of_decide_eq_true hr'
  have hcreate : World.operate s.engine 0 ⟨.empty, (.silent, .empty), #[]⟩ (.create (.inl 0) twice []) =
      some (.created 0, s.world) := rfl
  have hnext : s.world.operate s.engine 30 (.next 0) = some (.moved true, w) := by
    rw [World.operate, hfirst]
    rfl
  have hw : w.Reachable s.engine := ⟨_, _, ((World.Operated.refl _).step hcreate).step hnext⟩
  obtain ⟨history, hrun'⟩ := Moment.run_of_reachable hw
  obtain ⟨y', t, k, u, z, hy', -, -, -, -, hz⟩ := hadvances w w' 30 0 .next "twice" 3 hw hsecond
  obtain rfl : y = y' := Option.some.inj (hy.symm.trans hy')
  refine ⟨s, _, w, w', y, outer, hcall, ⟨_, _, x, hx, ?_⟩, hy, hsome, ?_, hsecond, _, _, z, hz⟩
  · obtain ⟨hwell, -⟩ := hformed outer [] x _ hx.conducted
    exact hwell
  · intro z' hz'
    have hheld := hstands ⟨w, none, history, []⟩ 0 y z' .resume hrun' List.not_mem_nil hy (.outside hz')
    obtain ⟨-, -, hpaused⟩ := hformed y.function y.arguments z' .resume hheld
    exact hpaused

end YieldMachine
