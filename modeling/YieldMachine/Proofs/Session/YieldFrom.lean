import YieldMachine.Proofs.History.Transcript
import YieldMachine.Proofs.Machine.Body
import YieldMachine.Proofs.Machine.Instruction
import YieldMachine.Session

/-!
How the bodies of a session delegate. A body of the machine and its generator always agree on what the body
awaits (`Machine.inTune`): while it is paused, the result of the delegation if one is active and a sent value if
not; while it runs, no delegation is active except right after it was begun, and no sent value is left over. So a
body that yields from a source pauses if the source has given a pair (`Session.step_delegating`), and goes on
with the result if not (`Session.yieldFrom_goesOn`).
-/

namespace YieldMachine

variable {H F S : Type}

/-- What running an instruction, or returning, can ask for. -/
inductive Action.OfInstruction : Action H F → Prop where
  | silent (frame : F) : OfInstruction (.silent frame)
  | yieldPair (k v : Value) (frame : F) : OfInstruction (.yieldPair k v frame)
  | yieldValue (v : Value) (frame : F) : OfInstruction (.yieldValue v frame)
  | delegate (source : Value) (frame : F) : OfInstruction (.delegate source frame)
  | create (handle : H) (f : Function) (args : List Value) (frame : F) :
      OfInstruction (.create handle f args frame)
  | finish (v : Value) : OfInstruction (.finish v)
  | fail (e : BodyError) : OfInstruction (.fail e)

namespace Machine

variable {m : Machine} {E : Engine H F S} {x : Execution} {y y' : Generator (Nat ⊕ H) (Execution ⊕ F)}

theorem ret_ofInstruction (x : Execution) (v : Value) : (x.ret v).OfInstruction := by
  rw [Execution.ret]
  split
  · exact .finish v
  · exact .silent _

theorem call_ofInstruction (m : Machine) (x : Execution) (id : FunctionId) (args : List Value) :
    (m.call x id args).OfInstruction := by
  rw [call]
  split
  · exact .fail _
  · split
    · exact .fail _
    · split
      · exact .create ..
      · exact .silent _

theorem advance_ofInstruction (m : Machine) (heap : Heap) (out : Output) (x : Execution) :
    (m.advance heap out x).2.2.OfInstruction := by
  have h := m.advances heap out x
  revert h
  generalize m.advance heap out x = r
  intro h
  cases h with
  | ends => exact ret_ofInstruction ..
  | exceeds => exact .fail _
  | faults => exact .fail _
  | @executes i heap' e =>
    cases e with
    | go | echo => exact .silent _
    | yieldValue v frame => exact .yieldValue v _
    | yieldPair k v frame => exact .yieldPair k v _
    | yieldFrom source frame => exact .delegate source _
    | call f args frame => exact call_ofInstruction ..
    | ret v => exact ret_ofInstruction ..

/-! ### A body and its generator -/

/-- What a generator of the machine is like while its body, at `x`, has this reply. -/
def Attuned (x : Execution) (y : Generator (Nat ⊕ H) (Execution ⊕ F)) : Reply → Prop
  | .resume => y.delegation = none ∧
      (x.frame.awaiting = .sent ∨ x.frame.awaiting = .delegationResult ∧ y.sent = .null)
  | .accepted => y.sent = .null
  | .delegating active => active = y.isDelegating ∧ y.sent = .null
  | .proceed | .reported | .refused _ | .value _ => y.delegation = none ∧ y.sent = .null

/-- What a generator of the machine is like while its body stands so. -/
def AttunedAt (y : Generator (Nat ⊕ H) (Execution ⊕ F)) : Drive.Position (Execution ⊕ F) → Prop
  | .outside | .over => y.sent = .null ∧ ∀ frame, y.frame = some frame → ∃ x, frame = .inl x ∧
      x.frame.awaiting = if y.isDelegating then .delegationResult else .sent
  | .awaiting frame => ∃ x, frame = .inl x ∧ y.delegation = none ∧ y.sent = .null
  | .engaged frame reply => ∃ x, frame = .inl x ∧ Attuned x y reply

theorem answers_attuned {reply : Reply} (h : Drive.Answers y reply y') (hd : y.delegation = none)
    (hs : y.sent = .null) (x : Execution) : Attuned x y' reply := by
  cases h with
  | begin => exact hs
  | skip => exact hs
  | refuse => exact ⟨hd, hs⟩

/-- Between its body's own actions nothing but the reply to them changes a generator. -/
theorem performs_attuned {heap heap' : Heap} {state state' : Output × S} {reply : Reply}
    {action : Action (Nat ⊕ H) (Execution ⊕ F)} {p : Drive.Position (Execution ⊕ F)}
    (hE : (m.engine.sum E).step heap state (.inl x) reply = (heap', state', action))
    (h : Drive.Performs y action p y') (hx : Attuned x y reply) : AttunedAt y' p := by
  obtain rfl : (m.step heap state.1 x reply).2.2.map .inl .inl = action :=
    congrArg (fun r => r.2.2) hE
  cases reply with
  | proceed =>
    obtain ⟨hd, hs⟩ := hx
    have hask : (m.step heap state.1 x .proceed).2.2.OfInstruction := advance_ofInstruction ..
    revert h
    generalize (m.step heap state.1 x .proceed).2.2 = a at hask
    intro h
    cases hask with
    | delegate source z =>
      cases h with
      | delegate _ _ ha => exact ⟨z, rfl, answers_attuned ha hd hs z⟩
      | await => exact ⟨z, rfl, hd, hs⟩
    | silent z | yieldPair _ _ z | yieldValue _ z | create _ _ _ z => cases h; exact ⟨z, rfl, hd, hs⟩
    | finish | fail => cases h; exact ⟨hs, fun frame hframe => by cases hframe⟩
  | resume =>
    obtain ⟨hd, hawait⟩ := hx
    have hwake : (m.step heap state.1 x .resume).2.2 = wake x := rfl
    rw [hwake, wake] at h
    rcases hawait with hsent | ⟨hresult, hs⟩
    · rw [hsent] at h
      cases h
      exact ⟨_, rfl, hd, rfl⟩
    · rw [hresult] at h
      cases h
      exact ⟨_, rfl, hd, hs⟩
  | reported =>
    obtain ⟨hd, hs⟩ := hx
    cases h
    refine ⟨hs, fun frame hframe => ⟨x.await .sent, (Option.some.inj hframe).symm, ?_⟩⟩
    simp [Generator.isDelegating, Generator.hold, hd, Execution.await]
  | accepted =>
    cases h
    exact ⟨x, rfl, rfl, hx⟩
  | refused e =>
    cases h
    exact ⟨hx.2, fun frame hframe => by cases hframe⟩
  | delegating active =>
    obtain ⟨hactive, hs⟩ := hx
    cases active with
    | true =>
      cases h
      refine ⟨hs, fun frame hframe => ⟨x.await .delegationResult, (Option.some.inj hframe).symm, ?_⟩⟩
      have hheld : (y.hold (.inl (x.await .delegationResult))).isDelegating = true := hactive.symm
      rw [hheld]
      rfl
    | false =>
      cases h
      have hnone : y.delegation = none := by
        simpa [Generator.isDelegating] using hactive.symm
      exact ⟨x, rfl, hnone, hs⟩
  | value v =>
    cases h
    exact ⟨_, rfl, hx⟩

theorem deliver_handle (sent : Option Value) : (y.deliver sent).handle = y.handle := by
  cases sent <;> rfl

theorem passage_handle {p p' : Drive.Position (Execution ⊕ F)}
    {ls : List (Line (Nat ⊕ H) (Execution ⊕ F))}
    (h : Drive.Passage (m.engine.sum E) p y ls p' y') : y'.handle = y.handle := by
  cases h with
  | resume _ _ _ sent => exact deliver_handle sent
  | answer frame ha => cases ha <;> rfl
  | act hE hp =>
    cases hp with
    | delegate _ _ ha => cases ha <;> rfl
    | _ => rfl
  | _ => rfl

/-- Every passage keeps a generator of the machine and its body in tune. -/
theorem passage_attuned {p p' : Drive.Position (Execution ⊕ F)}
    {ls : List (Line (Nat ⊕ H) (Execution ⊕ F))}
    (h : Drive.Passage (m.engine.sum E) p y ls p' y') (hk : ∃ k, y.handle = .inl k)
    (hy : AttunedAt y p) : AttunedAt y' p' := by
  have hheld {frame : Execution ⊕ F} (hy : AttunedAt y .outside) (hframe : y.frame = some frame)
      (hdel : y.isDelegating = true) : ∃ x, frame = .inl x ∧ x.frame.awaiting = .delegationResult := by
    obtain ⟨x, hx, hawait⟩ := hy.2 frame hframe
    rw [hdel] at hawait
    exact ⟨x, hx, hawait⟩
  cases h with
  | stay | lock | rest => exact hy
  | close | breakOff => exact ⟨hy.1, nofun⟩
  | spent | follow | forward => exact hy
  | start hf hd hs state =>
    obtain ⟨k, hk⟩ := hk
    rw [hk]
    exact ⟨_, rfl, hd, hy.1⟩
  | @resume _ frame hf hd hframe sent =>
    obtain ⟨x, rfl, hawait⟩ := hy.2 frame hframe
    have hnone : y.isDelegating = false := by simp [Generator.isDelegating, hd]
    rw [hnone] at hawait
    refine ⟨x, rfl, ?_, .inl hawait⟩
    cases sent <;> exact hd
  | walk hf hd hv =>
    refine ⟨hy.1, fun frame hframe => ?_⟩
    obtain ⟨x, hx, hawait⟩ := hheld hy hframe (by simp [Generator.isDelegating, hd])
    exact ⟨x, hx, hawait⟩
  | exhaust hf hd hframe =>
    obtain ⟨x, hx, hawait⟩ := hheld hy hframe (by simp [Generator.isDelegating, hd])
    exact ⟨x, hx, rfl, .inr ⟨hawait, hy.1⟩⟩
  | leave hf hd hframe r =>
    obtain ⟨x, hx, hawait⟩ := hheld hy hframe (by simp [Generator.isDelegating, hd])
    exact ⟨x, hx, rfl, .inr ⟨hawait, hy.1⟩⟩
  | answer frame ha =>
    obtain ⟨x, rfl, hd, hs⟩ := hy
    exact ⟨x, rfl, answers_attuned ha hd hs x⟩
  | act hE hp =>
    obtain ⟨x, rfl, hx⟩ := hy
    exact performs_attuned hE hp hx

/-- Whatever this generator runs or holds is no execution of the machine. -/
def Foreign (y : Generator (Nat ⊕ H) (Execution ⊕ F)) : Drive.Position (Execution ⊕ F) → Prop
  | .outside | .over => ∀ x, y.frame ≠ some (.inl x)
  | .awaiting frame | .engaged frame _ => ∀ x, frame ≠ .inl x

theorem performs_foreign {heap heap' : Heap} {state state' : Output × S} {reply : Reply} {frame : F}
    {action : Action (Nat ⊕ H) (Execution ⊕ F)} {p : Drive.Position (Execution ⊕ F)}
    (hE : (m.engine.sum E).step heap state (.inr frame) reply = (heap', state', action))
    (h : Drive.Performs y action p y') : Foreign y' p := by
  obtain rfl : (E.step heap state.2 frame reply).2.2.map .inr .inr = action :=
    congrArg (fun r => r.2.2) hE
  revert h
  generalize (E.step heap state.2 frame reply).2.2 = a
  intro h
  cases a with
  | suspend =>
    cases h
    exact fun x hx => nomatch Option.some.inj hx
  | finish | fail => cases h; exact nofun
  | _ => cases h <;> exact nofun

theorem passage_foreign {p p' : Drive.Position (Execution ⊕ F)}
    {ls : List (Line (Nat ⊕ H) (Execution ⊕ F))}
    (h : Drive.Passage (m.engine.sum E) p y ls p' y') (hk : ∃ k, y.handle = .inr k)
    (hy : Foreign y p) : Foreign y' p' := by
  cases h with
  | stay | lock | rest | spent | follow | forward | walk | answer => exact hy
  | close | breakOff => exact nofun
  | start hf hd hs state =>
    obtain ⟨k, hk⟩ := hk
    rw [hk]
    exact nofun
  | resume hf hd hframe | exhaust hf hd hframe | leave hf hd hframe =>
    rintro x rfl
    exact hy x hframe
  | @act _ _ frame reply _ _ _ _ _ _ hE hp =>
    cases frame with
    | inl x => exact absurd rfl (hy x)
    | inr frame => exact performs_foreign hE hp

/-- The machine's generators are in tune with their bodies, and all others are foreign to it. -/
def InTune (p : Drive.Position (Execution ⊕ F)) (y : Generator (Nat ⊕ H) (Execution ⊕ F)) : Prop :=
  match y.handle with
  | .inl _ => AttunedAt y p
  | .inr _ => Foreign y p

/-- At every moment of a run, each generator is in tune with its body. -/
theorem inTune {q : Moment (Nat ⊕ H) (Execution ⊕ F) (Output × S)} (hq : q.Run (m.engine.sum E))
    {g : GeneratorId} (hg : g ∉ q.gone) (hy : q.world.generator? g = some y) :
    InTune (q.position g) y := by
  obtain ⟨heap, state, hlater⟩ := hq
  obtain ⟨ls, hnotes⟩ := hlater.notes g
  refine hnotes.since (I := fun _ => InTune) ?_ ?_ hg hy
  · intro k f args
    cases k with
    | inl k => exact ⟨rfl, nofun⟩
    | inr k => exact nofun
  · intro _ p y _ p' y' hp hI
    unfold InTune at hI ⊢
    rw [passage_handle hp]
    split
    · next k hk =>
      rw [hk] at hI
      exact passage_attuned hp ⟨k, hk⟩ hI
    · next k hk =>
      rw [hk] at hI
      exact passage_foreign hp ⟨k, hk⟩ hI

theorem InTune.engaged {reply : Reply} (h : InTune (.engaged (.inl x) reply) y) : Attuned x y reply := by
  unfold InTune at h
  split at h
  · obtain ⟨z, hz, hattuned⟩ := h
    obtain rfl := Sum.inl.inj hz
    exact hattuned
  · exact absurd rfl (h x)

/-- A paused body of the machine awaits the result of the active delegation. -/
theorem InTune.held (h : InTune .outside y) (hframe : y.frame = some (.inl x))
    (hd : y.isDelegating = true) : x.frame.awaiting = .delegationResult := by
  unfold InTune at h
  split at h
  · obtain ⟨z, hz, hawait⟩ := h.2 _ hframe
    obtain rfl := Sum.inl.inj hz
    rwa [hd] at hawait
  · exact absurd hframe (h x)

end Machine

/-! ### Yielding from a source -/

theorem Action.map_delegate {H' F' : Type} {h : H → H'} {f : F → F'} {a : Action H F} {source : Value} {x' : F'}
    (hd : a.map h f = .delegate source x') : ∃ x, x' = f x ∧ a = .delegate source x := by
  cases a with
  | delegate _ x => cases hd; exact ⟨x, rfl, rfl⟩
  | _ => cases hd

/-- Only an instruction of the machine names a source. -/
theorem Machine.proceed_of_delegate {m : Machine} {heap : Heap} {out : Output} {x x' : Execution} {reply : Reply}
    {source : Value} (h : (m.step heap out x reply).2.2 = .delegate source x') : reply = .proceed := by
  cases reply with
  | proceed => rfl
  | resume =>
    simp only [step, wake] at h
    split at h <;> cases h
  | delegating active => cases active <;> cases h
  | reported | accepted | refused | value => cases h

namespace Session

open Drive

/-- A body that has just yielded from a source: one of the machine, or a script that pauses while its
delegation is active. -/
def yieldsFrom : Execution ⊕ Script.Frame → Bool
  | .inl _ => true
  | .inr x =>
    match Script.lastCue? x with
    | some (.delegate _) | some (.delegateArg _) => true
    | _ => false

/-- The frame that is held while the delegation is active. -/
def pausedFrame : Execution ⊕ Script.Frame → Execution ⊕ Script.Frame
  | .inl x => .inl (x.await .delegationResult)
  | .inr x => .inr x

/-- The machine pushes the result of the delegation, and a script goes on without it. -/
def resultFrame (r : Value) : Execution ⊕ Script.Frame → Execution ⊕ Script.Frame
  | .inl x => .inl (x.push r)
  | .inr x => .inr x

/-- The generator after its body has taken the result of the delegation, if it takes it. -/
def resultTaken (y : Generator (Nat ⊕ Unit) (Execution ⊕ Script.Frame)) :
    Execution ⊕ Script.Frame → Generator (Nat ⊕ Unit) (Execution ⊕ Script.Frame)
  | .inl _ => y.clearResult
  | .inr _ => y

variable {s : Session} {w : World (Nat ⊕ Unit) (Execution ⊕ Script.Frame) (Output × Script.Tally)}
  {d : Drive (Execution ⊕ Script.Frame)} {y : Generator (Nat ⊕ Unit) (Execution ⊕ Script.Frame)}
  {frame : Execution ⊕ Script.Frame}

theorem script_step_yieldsFrom {x : Script.Frame} (h : yieldsFrom (.inr x) = true)
    (t : Script.Tally) :
    Script.step t x .accepted = (t, .askDelegating x) ∧
      ∀ active, Script.step t x (.delegating active) =
        (t, if active then .suspend x else .silent x) := by
  rw [yieldsFrom] at h
  split at h
  · next hcue => exact ⟨by rw [Script.step, hcue], fun active => by rw [Script.step, hcue]⟩
  · next hcue => exact ⟨by rw [Script.step, hcue], fun active => by rw [Script.step, hcue]⟩
  · cases h

/-- A body that has yielded from a source asks whether the delegation is active. -/
theorem step_accepted (h : yieldsFrom frame = true) (hfocus : d.focus = .body frame .accepted)
    (hy : w.generator? d.current = some y) :
    step s.engine (w, d) = .next (w, { d with focus := .body frame (.delegating y.isDelegating) }) := by
  have hE : s.engine.step w.heap w.state frame .accepted = (w.heap, w.state, .askDelegating frame) := by
    cases frame with
    | inl x => rfl
    | inr x => simp only [engine, Engine.sum, Script.engine, (script_step_yieldsFrom h _).1]; rfl
  rw [step_body hfocus hE]
  simp only [perform, hy, Option.any_some]

/-- A body of the machine that names a source has no other delegation active. -/
theorem undelegating_of_yieldFrom {q : Moment _ _ _} {x : Execution} {reply : Reply} {heap' : Heap}
    {state' : Output × Script.Tally} {source : Value} (hq : q.Run s.engine)
    (hdrive : q.drive = some d) (hfocus : d.focus = .body frame reply)
    (hE : s.engine.step q.world.heap q.world.state frame reply = (heap', state', .delegate source (.inl x)))
    (hy : q.world.generator? d.current = some y) : y.isDelegating = false := by
  have hposition : q.position d.current = .engaged frame reply := by
    rw [Moment.position, hdrive]
    exact (position_current d).trans (congrArg Focus.position hfocus)
  have hgone : d.current ∉ q.gone := fun hmem =>
    (Moment.kept hq).spared _ hmem (by rw [Moment.chain, hdrive]; exact List.mem_cons_self)
  have htune := Machine.inTune (m := s.machine) hq hgone hy
  rw [hposition] at htune
  have haction := congrArg (fun r => r.2.2) hE
  cases frame with
  | inr z =>
    obtain ⟨z', hz', -⟩ := Action.map_delegate (a := (Script.step q.world.state.2 z reply).2) haction
    cases hz'
  | inl z =>
    obtain ⟨z', -, hz'⟩ := Action.map_delegate
      (a := (s.machine.step q.world.heap q.world.state.1 z reply).2.2) haction
    obtain rfl := Machine.proceed_of_delegate hz'
    rw [Generator.isDelegating, htune.engaged.1]
    rfl

/-- An active delegation pauses the body. -/
theorem step_delegating (h : yieldsFrom frame = true) (hfocus : d.focus = .body frame (.delegating true))
    (hy : w.generator? d.current = some y) :
    step s.engine (w, d) =
      .next (w.replace d.current (y.hold (pausedFrame frame)), { d with focus := .settled (.ok true) }) := by
  have hE : s.engine.step w.heap w.state frame (.delegating true) =
      (w.heap, w.state, .suspend (pausedFrame frame)) := by
    cases frame with
    | inl x => rfl
    | inr x => simp only [engine, Engine.sum, Script.engine, (script_step_yieldsFrom h _).2]; rfl
  rw [step_body hfocus hE]
  simp only [perform]
  rw [World.modify_eq_replace hy]

theorem step_value {x : Execution} {v : Value} (hfocus : d.focus = .body (.inl x) (.value v)) :
    step s.engine (w, d) = .next (w, { d with focus := .body (.inl (x.push v)) .proceed }) :=
  Machine.drive_step s.machine _ w hfocus rfl

/-- Without one, the body goes on with the result in hand. -/
theorem yieldFrom_goesOn (h : yieldsFrom frame = true) (hfocus : d.focus = .body frame .accepted)
    (hy : w.generator? d.current = some y) (hd : y.isDelegating = false) :
    ∃ n, Reaches (step s.engine) (w, d) n (w.replace d.current (resultTaken y frame),
      { d with focus := .body (resultFrame y.delegationResult frame) .proceed }) := by
  have hask := step_accepted (s := s) h hfocus hy
  rw [hd] at hask
  cases frame with
  | inl x =>
    refine ⟨3, .next hask (.next (Machine.drive_step _ _ _ rfl rfl) (.single ?_))⟩
    simp only [Action.map, perform, hy, Option.map_some, Option.getD_some]
    rw [World.modify_eq_replace hy]
    exact step_value rfl
  | inr x =>
    have hE : s.engine.step w.heap w.state (.inr x) (.delegating false) =
        (w.heap, w.state, .silent (.inr x)) := by
      simp only [engine, Engine.sum, Script.engine, (script_step_yieldsFrom h _).2]
      rfl
    refine ⟨2, .next hask (.single ?_)⟩
    rw [step_body rfl hE]
    exact congrArg Transition.next (Prod.ext (World.replace_eq_self hy).symm rfl)

/-- A body of the machine that is taken up after its delegation goes on with the result. -/
theorem resumed_goesOn {x : Execution} (hawait : x.frame.awaiting = .delegationResult)
    (hfocus : d.focus = .body (.inl x) .resume) (hy : w.generator? d.current = some y) :
    Reaches (step s.engine) (w, d) 2 (w.replace d.current y.clearResult,
      { d with focus := .body (.inl ((x.await .nothing).push y.delegationResult)) .proceed }) := by
  have hwake : s.machine.step w.heap w.state.1 x .resume =
      (w.heap, w.state.1, .takeResult (x.await .nothing)) := by
    simp only [Machine.step, Machine.wake, hawait]
  refine .next (Machine.drive_step _ _ _ hfocus hwake) (.single ?_)
  simp only [Action.map, perform, hy, Option.map_some, Option.getD_some]
  rw [World.modify_eq_replace hy]
  exact step_value rfl

end Session

end YieldMachine
