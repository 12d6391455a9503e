import YieldMachine.Proofs.Drive.Embedding

/-!
One step of a drive in full. A step lets the generator in turn act (`Act`), makes a generator, takes up a
value kept back, moves on to another generator, or hands a result over to the generator that waits for it
(`Stride`). Every step is of one of these kinds (`step_strides`), and each of them says what became of the
frame, the engine's state and the focus.
-/

namespace YieldMachine

variable {H F S : Type}

/-- A change that leaves alone a generator's lock and frame and what tells whether and how it ended. -/
structure Generator.Steady (x x' : Generator H F) : Prop where
  handle : x'.handle = x.handle
  started : x'.isStarted = x.isStarted
  finished : x'.isFinished = x.isFinished
  frame : x'.frame = x.frame
  returnValue : x'.returnValue = x.returnValue
  lastError : x'.lastError = x.lastError
  locked : x'.locked = x.locked

theorem Generator.Steady.refl (x : Generator H F) : x.Steady x := ⟨rfl, rfl, rfl, rfl, rfl, rfl, rfl⟩

/-- Discards a frame, if there is one. -/
def Engine.giveUp (E : Engine H F S) : Option F → S → S
  | some frame, s => E.discard frame s
  | none, s => s

/-- Replies to the request to delegate. -/
inductive Reply.ToDelegate : Reply → Prop where
  | accepted : ToDelegate .accepted
  | refused (e : DelegationError) : ToDelegate (.refused e)

/-- After the action the body goes on from this frame, with this reply. -/
inductive Action.Leads : Action H F → F → Reply → Prop where
  | silent (frame : F) : Leads (.silent frame) frame .proceed
  | yieldPair (k v : Value) (frame : F) : Leads (.yieldPair k v frame) frame .reported
  | yieldValue (v : Value) (frame : F) : Leads (.yieldValue v frame) frame .reported
  | delegate (source : Value) (frame : F) {reply : Reply} (h : reply.ToDelegate) :
      Leads (.delegate source frame) frame reply
  | askDelegating (frame : F) (b : Bool) : Leads (.askDelegating frame) frame (.delegating b)
  | takeSent (frame : F) (v : Value) : Leads (.takeSent frame) frame (.value v)
  | takeResult (frame : F) (v : Value) : Leads (.takeResult frame) frame (.value v)
  | create (handle : H) (f : Function) (args : List Value) (frame : F) (v : Value) :
      Leads (.create handle f args frame) frame (.value v)

namespace Action

variable {H' F' : Type} {h : H → H'} {f : F → F'}

theorem Leads.of_map {action : Action H F} {frame' : F'} {reply : Reply}
    (hleads : (action.map h f).Leads frame' reply) :
    ∃ frame, frame' = f frame ∧ action.Leads frame reply := by
  cases action with
  | silent x => cases hleads; exact ⟨x, rfl, .silent x⟩
  | yieldPair k v x => cases hleads; exact ⟨x, rfl, .yieldPair k v x⟩
  | yieldValue v x => cases hleads; exact ⟨x, rfl, .yieldValue v x⟩
  | delegate v x =>
    cases hleads with
    | delegate _ _ hreply => exact ⟨x, rfl, .delegate v x hreply⟩
  | askDelegating x => cases hleads; exact ⟨x, rfl, .askDelegating x _⟩
  | takeSent x => cases hleads; exact ⟨x, rfl, .takeSent x _⟩
  | takeResult x => cases hleads; exact ⟨x, rfl, .takeResult x _⟩
  | create k fn args x => cases hleads; exact ⟨x, rfl, .create k fn args x _⟩
  | suspend x | finish v | fail e => cases hleads

theorem map_create {action : Action H F} {k' : H'} {fn : Function} {args : List Value} {x' : F'}
    (hcreate : action.map h f = .create k' fn args x') :
    ∃ k x, k' = h k ∧ x' = f x ∧ action = .create k fn args x := by
  cases action with
  | create k _ _ x => cases hcreate; exact ⟨k, x, rfl, rfl, rfl⟩
  | _ => cases hcreate

theorem map_suspend {action : Action H F} {x' : F'} (hsuspend : action.map h f = .suspend x') :
    ∃ x, x' = f x ∧ action = .suspend x := by
  cases action with
  | suspend x => cases hsuspend; exact ⟨x, rfl, rfl⟩
  | _ => cases hsuspend

end Action

namespace Drive

/-- Where the body of a generator stands when its turn comes. -/
inductive Position (F : Type) where
  /-- It does not run. -/
  | outside
  /-- It runs and has waited for a source's first pair. -/
  | awaiting (frame : F)
  /-- It has this reply to its last action. -/
  | engaged (frame : F) (reply : Reply)
  /-- The generator has had its turn. -/
  | over

end Drive

def Focus.position : Focus F → Drive.Position F
  | .enter _ => .outside
  | .body frame reply => .engaged frame reply
  | .settled _ => .over

def Wait.position : Wait F → Drive.Position F
  | .inBody frame => .awaiting frame
  | .paused => .outside

namespace Drive

/-- What the generator in turn, `x`, can do: its position, then the heap, the engine's state, the focus and
the generator afterwards. -/
inductive Act (E : Engine H F S) (w : World H F S) (x : Generator H F) :
    Position F → Heap → S → Focus F → Generator H F → Prop where
  | settle {x' : Generator H F} (b : Bool) (h : x.Steady x') :
      Act E w x .outside w.heap w.state (.settled (.ok b)) x'
  | start (hs : x.isStarted = false) :
      Act E w x .outside w.heap (E.start x.handle x.function x.arguments w.state).2
        (.body (E.start x.handle x.function x.arguments w.state).1 .proceed) x.begin
  | resume {y : Generator H F} {frame : F} (h : x.Steady y) (hx : x.frame = some frame) :
      Act E w x .outside w.heap w.state (.body frame .resume) y.release
  /-- A paused body without a frame has nothing left to run. -/
  | lapse {y : Generator H F} (h : x.Steady y) (hx : x.frame = none) (hf : x.isFinished = false)
      (hlive : x.isStarted = true ∨ x.isDelegating = true) :
      Act E w x .outside w.heap w.state (.settled (.ok false)) y.terminate
  | breakOff (hd : x.isDelegating = true) (e : DelegationError) :
      Act E w x .outside w.heap (E.giveUp x.frame w.state) (.settled (.error (.delegation e)))
        (x.terminate.setError (.delegation e))
  | answer {frame : F} {reply : Reply} {x' : Generator H F} (hr : reply.ToDelegate)
      (h : x.Steady x') : Act E w x (.awaiting frame) w.heap w.state (.body frame reply) x'
  | goOn {frame frame' : F} {reply reply' : Reply} {heap : Heap} {s : S} {action : Action H F}
      {x' : Generator H F} (hE : E.step w.heap w.state frame reply = (heap, s, action))
      (ha : action.Leads frame' reply') (h : x.Steady x') :
      Act E w x (.engaged frame reply) heap s (.body frame' reply') x'
  | suspend {frame frame' : F} {reply : Reply} {heap : Heap} {s : S}
      (hE : E.step w.heap w.state frame reply = (heap, s, .suspend frame')) :
      Act E w x (.engaged frame reply) heap s (.settled (.ok true)) (x.hold frame')
  | finish {frame : F} {reply : Reply} {heap : Heap} {s : S} {v : Value}
      (hE : E.step w.heap w.state frame reply = (heap, s, .finish v)) :
      Act E w x (.engaged frame reply) heap (E.giveUp x.frame s) (.settled (.ok false))
        (x.setReturn v).terminate
  | fail {frame : F} {reply : Reply} {heap : Heap} {s : S} {e : BodyError}
      (hE : E.step w.heap w.state frame reply = (heap, s, .fail e)) :
      Act E w x (.engaged frame reply) heap (E.giveUp x.frame s)
        (.settled (.error (.executionFailed e))) (x.terminate.setError (.executionFailed e))

/-- What one step of a drive can do. -/
inductive Stride (E : Engine H F S) (w : World H F S) (d : Drive F) :
    World H F S → Drive F → Prop where
  | act {x x' : Generator H F} {heap : Heap} {s : S} {focus : Focus F}
      (hx : w.generator? d.current = some x)
      (h : Act E w x d.focus.position heap s focus x') :
      Stride E w d ({ w with heap := heap, state := s }.replace d.current x')
        { d with focus := focus }
  | create {frame frame' : F} {reply : Reply} {heap : Heap} {s : S} {handle : H} {f : Function}
      {args : List Value} (hfocus : d.focus = .body frame reply)
      (hE : E.step w.heap w.state frame reply = (heap, s, .create handle f args frame')) :
      Stride E w d (World.create { w with heap := heap, state := s } handle f args).2
        { d with focus := .body frame' (.value (.generator w.generators.size)) }
  | resend {v : Value} {b : Bool} (hfocus : d.focus = .settled (.ok b)) (hv : d.resend = some v) :
      Stride E w d w { d with resend := none, focus := .enter (some v) }
  | follow {c : GeneratorId} {y : Generator H F} {sent : Option Value}
      (hfocus : d.focus = .enter sent) (hy : w.generator? c = some y) (hl : y.locked = false) :
      Stride E w d (w.lock c) (turnTo y c sent (⟨d.current, d.resend, .paused⟩ :: d.waiting))
  | delegate {frame frame' : F} {reply : Reply} {heap : Heap} {s : S} {source : Value}
      {c : GeneratorId} {y : Generator H F} (hfocus : d.focus = .body frame reply)
      (hE : E.step w.heap w.state frame reply = (heap, s, .delegate source frame'))
      (hy : w.generator? c = some y) (hl : y.locked = false) :
      Stride E w d (World.lock { w with heap := heap, state := s } c)
        (turnTo y c none (⟨d.current, d.resend, .inBody frame'⟩ :: d.waiting))
  | handOver {result : Except GeneratorError Bool} {link : Link F} {ls : List (Link F)}
      {x x' : Generator H F} {heap : Heap} {s : S} {focus : Focus F} (hdone : d.Done result)
      (hw : d.waiting = link :: ls) (hx : w.generator? link.generator = some x)
      (hne : link.generator ≠ d.current)
      (h : Act E (w.unlock d.current) x link.wait.position heap s focus x') :
      Stride E w d ({ w.unlock d.current with heap := heap, state := s }.replace link.generator x')
        ⟨link.generator, link.resend, focus, ls⟩

end Drive

namespace World

variable {w : World H F S} {g : GeneratorId} {x : Generator H F}

theorem modify_eq_replace (hx : w.generator? g = some x) (f : Generator H F → Generator H F) :
    w.modify g f = w.replace g (f x) := by
  conv => lhs; rw [← replace_eq_self hx, modify_replace]

theorem finish_eq_replace (E : Engine H F S) (hx : w.generator? g = some x) :
    w.finish E g = { w with state := E.giveUp x.frame w.state }.replace g x.terminate := by
  rw [finish, hx, Option.bind_some]
  cases hframe : x.frame with
  | some frame => exact modify_eq_replace (w := { w with state := E.discard frame w.state }) hx _
  | none => exact modify_eq_replace hx _

theorem fail_eq_replace (E : Engine H F S) (hx : w.generator? g = some x) (e : GeneratorError) :
    w.fail E g e =
      { w with state := E.giveUp x.frame w.state }.replace g (x.terminate.setError e) := by
  rw [fail, finish_eq_replace E hx, modify_replace]

theorem complete_eq_replace (E : Engine H F S) (hx : w.generator? g = some x) (v : Value) :
    w.complete E g v =
      { w with state := E.giveUp x.frame w.state }.replace g (x.setReturn v).terminate := by
  have hx' : (w.modify g (·.setReturn v)).generator? g = some (x.setReturn v) := by simp [hx]
  rw [complete, finish_eq_replace E hx', modify_eq_replace hx]
  exact modify_replace { w with state := E.giveUp x.frame w.state } g _ _

end World

namespace Drive

variable {E : Engine H F S} {w w' : World H F S} {d d' : Drive F} {x : Generator H F}

/-- A paused body is taken up after a change `f` of its generator. -/
theorem resume_acts {f : Generator H F → Generator H F} (hx : w.generator? d.current = some x)
    (hsteady : x.Steady (f x)) (hf : x.isFinished = false)
    (hlive : x.isStarted = true ∨ x.isDelegating = true) :
    ∃ focus x', Act E w x .outside w.heap w.state focus x' ∧
      resume E (w.modify d.current f) d = (w.replace d.current x', { d with focus := focus }) := by
  have hfx : (w.modify d.current f).generator? d.current = some (f x) := by simp [hx]
  rw [resume, hfx, Option.bind_some, hsteady.frame]
  cases hframe : x.frame with
  | some frame =>
    refine ⟨_, _, .resume hsteady hframe, Prod.ext ?_ rfl⟩
    rw [World.modify_eq_replace hx, World.modify_replace]
  | none =>
    refine ⟨_, _, .lapse hsteady hframe hf hlive, Prod.ext ?_ rfl⟩
    rw [World.finish_eq_replace E hfx, hsteady.frame, hframe, World.modify_eq_replace hx]
    exact World.modify_replace w d.current _ _

/-- A paused generator learns what advancing its source gave. -/
theorem advanced_acts (hx : w.generator? d.current = some x) (hf : x.isFinished = false)
    (hd : x.isDelegating = true) (o : Delegation.Outcome) :
    ∃ s focus x', Act E w x .outside w.heap s focus x' ∧
      advanced E w d o =
        ({ w with state := s }.replace d.current x', { d with focus := focus }) := by
  cases o with
  | pair k v =>
    exact ⟨w.state, _, x.setPair k v, .settle true ⟨rfl, rfl, rfl, rfl, rfl, rfl, rfl⟩,
      Prod.ext (World.modify_eq_replace hx (·.setPair k v)) rfl⟩
  | exhausted v =>
    obtain ⟨focus, x', hact, heq⟩ := resume_acts (E := E) (f := (·.endDelegation v)) hx
      ⟨rfl, rfl, rfl, rfl, rfl, rfl, rfl⟩ hf (.inr hd)
    exact ⟨w.state, focus, x', hact, heq⟩
  | failed e => exact ⟨_, _, _, .breakOff hd e, Prod.ext (World.fail_eq_replace E hx _) rfl⟩

/-- A running body learns what asking its source for a first pair gave. -/
theorem delegated_answers (hx : w.generator? d.current = some x) (frame : F) (source : Delegation)
    (o : Delegation.Outcome) :
    ∃ reply x', Reply.ToDelegate reply ∧ x.Steady x' ∧
      delegated w d frame source o = (w.replace d.current x', { d with focus := .body frame reply }) := by
  cases o with
  | pair k v =>
    exact ⟨_, x.beginDelegation source k v, .accepted, ⟨rfl, rfl, rfl, rfl, rfl, rfl, rfl⟩,
      Prod.ext (World.modify_eq_replace hx (·.beginDelegation source k v)) rfl⟩
  | exhausted v =>
    exact ⟨_, x.skipDelegation v, .accepted, ⟨rfl, rfl, rfl, rfl, rfl, rfl, rfl⟩,
      Prod.ext (World.modify_eq_replace hx (·.skipDelegation v)) rfl⟩
  | failed e =>
    exact ⟨_, _, .refused e, .refl x, Prod.ext (World.replace_eq_self hx).symm rfl⟩

theorem Stride.of_act {s' : State H F S} {heap : Heap} {s : S} {focus : Focus F} {x' : Generator H F}
    {p : Position F} (hp : d.focus.position = p) (hx : w.generator? d.current = some x)
    (h : Act E w x p heap s focus x')
    (heq : s' = ({ w with heap := heap, state := s }.replace d.current x', { d with focus := focus })) :
    Stride E w d s'.1 s'.2 := by
  subst hp heq
  exact .act hx h

theorem enter_strides {sent : Option Value} (hfocus : d.focus = .enter sent)
    (hx : w.generator? d.current = some x) :
    Stride E w d (enter E w d x sent).1 (enter E w d x sent).2 := by
  have hp : d.focus.position = .outside := by rw [hfocus]; rfl
  have hself : w = w.replace d.current x := (World.replace_eq_self hx).symm
  rw [enter]
  split
  · exact .of_act hp hx (.settle false (.refl x)) (Prod.ext hself rfl)
  · next hf =>
    have hf : x.isFinished = false := by simpa using hf
    split
    · next t pending hd =>
      have hdelegating : x.isDelegating = true := by simp [Generator.isDelegating, hd]
      split
      · next k v rest hv =>
        let walked := { x with delegation := some (.table t rest) }.setPair k v
        have hsteady : x.Steady walked := ⟨rfl, rfl, rfl, rfl, rfl, rfl, rfl⟩
        refine .of_act hp hx (.settle true hsteady) (Prod.ext ?_ rfl)
        simp only [advanced]
        rw [World.modify_eq_replace hx, World.modify_replace]
      · obtain ⟨s, focus, x', hact, heq⟩ := advanced_acts (E := E) hx hf hdelegating (.exhausted .null)
        exact .of_act hp hx hact heq
    · next c hd =>
      have hdelegating : x.isDelegating = true := by simp [Generator.isDelegating, hd]
      split
      · next s' hs' =>
        obtain ⟨w', d'⟩ := s'
        obtain ⟨y, hy, hl, rfl, rfl⟩ := descend_cases hs'
        exact .follow hfocus hy hl
      · obtain ⟨s, focus, x', hact, heq⟩ :=
          advanced_acts (E := E) hx hf hdelegating (.failed .alreadyRunning)
        exact .of_act hp hx hact heq
    · next hd =>
      split
      · next hs =>
        let state := (E.start x.handle x.function x.arguments w.state).2
        refine .of_act hp hx (.start (by simpa using hs)) (Prod.ext ?_ rfl)
        exact World.modify_eq_replace (w := { w with state := state }) hx (·.begin)
      · next hs =>
        have hs : x.isStarted = true := by simpa using hs
        split
        · obtain ⟨focus, x', hact, heq⟩ := resume_acts (E := E) (f := (·.deliver sent)) hx
            (by cases sent <;> exact ⟨rfl, rfl, rfl, rfl, rfl, rfl, rfl⟩) hf (.inl hs)
          exact .of_act hp hx hact heq
        · exact .of_act hp hx (.settle false (.refl x)) (Prod.ext hself rfl)

theorem delegate_strides {frame frame' : F} {reply : Reply} {heap : Heap} {state : S} {source : Value}
    (hfocus : d.focus = .body frame reply)
    (hE : E.step w.heap w.state frame reply = (heap, state, .delegate source frame'))
    (hx : w.generator? d.current = some x) :
    Stride E w d (delegate { w with heap := heap, state := state } d source frame').1
      (delegate { w with heap := heap, state := state } d source frame').2 := by
  have hp : d.focus.position = .engaged frame reply := by rw [hfocus]; rfl
  have hanswer (s : Delegation) (o : Delegation.Outcome) :
      Stride E w d (delegated { w with heap := heap, state := state } d frame' s o).1
        (delegated { w with heap := heap, state := state } d frame' s o).2 := by
    obtain ⟨reply', x', hr, hsteady, heq⟩ :=
      delegated_answers (w := { w with heap := heap, state := state }) hx frame' s o
    exact .of_act hp hx (.goOn hE (.delegate source frame' hr) hsteady) heq
  rw [delegate]
  split
  · next e _ => exact hanswer (.child d.current) (.failed e)
  · split
    · exact hanswer ..
    · exact hanswer ..
  · split
    · next s' hs' =>
      obtain ⟨w', d'⟩ := s'
      obtain ⟨y, hy, hl, rfl, rfl⟩ := descend_cases hs'
      exact .delegate hfocus hE hy hl
    · exact hanswer ..

theorem perform_strides {frame : F} {reply : Reply} {heap : Heap} {state : S} {action : Action H F}
    (hfocus : d.focus = .body frame reply)
    (hE : E.step w.heap w.state frame reply = (heap, state, action))
    (hx : w.generator? d.current = some x) :
    Stride E w d (perform E { w with heap := heap, state := state } d action).1
      (perform E { w with heap := heap, state := state } d action).2 := by
  have hp : d.focus.position = .engaged frame reply := by rw [hfocus]; rfl
  have hx' : World.generator? { w with heap := heap, state := state } d.current = some x := hx
  have hself := (World.replace_eq_self hx').symm
  have hmodify (f : Generator H F → Generator H F) := World.modify_eq_replace hx' f
  -- Only the pair, its key and the values in transit change while the body goes on.
  have hgoOn {frame' : F} {reply' : Reply} {f : Generator H F → Generator H F}
      (ha : action.Leads frame' reply') (h : x.Steady (f x)) :
      Stride E w d (World.modify { w with heap := heap, state := state } d.current f)
        { d with focus := .body frame' reply' } := by
    rw [hmodify]
    exact .of_act hp hx (.goOn hE ha h) rfl
  cases action with
  | silent frame' => exact .of_act hp hx (.goOn hE (.silent _) (.refl x)) (Prod.ext hself rfl)
  | yieldPair k v frame' => exact hgoOn (.yieldPair k v _) ⟨rfl, rfl, rfl, rfl, rfl, rfl, rfl⟩
  | yieldValue v frame' => exact hgoOn (.yieldValue v _) ⟨rfl, rfl, rfl, rfl, rfl, rfl, rfl⟩
  | delegate source frame' => exact delegate_strides hfocus hE hx
  | askDelegating frame' =>
    exact .of_act hp hx (.goOn hE (.askDelegating _ _) (.refl x)) (Prod.ext hself rfl)
  | takeSent frame' => exact hgoOn (.takeSent _ _) ⟨rfl, rfl, rfl, rfl, rfl, rfl, rfl⟩
  | takeResult frame' => exact hgoOn (.takeResult _ _) ⟨rfl, rfl, rfl, rfl, rfl, rfl, rfl⟩
  | create handle f args frame' => exact .create hfocus hE
  | suspend frame' => exact .of_act hp hx (.suspend hE) (Prod.ext (hmodify (·.hold frame')) rfl)
  | finish v =>
    exact .of_act hp hx (.finish hE) (Prod.ext (World.complete_eq_replace E hx' v) rfl)
  | fail e => exact .of_act hp hx (.fail hE) (Prod.ext (World.fail_eq_replace E hx' _) rfl)

theorem handOver_strides {result : Except GeneratorError Bool} {link : Link F} {ls : List (Link F)}
    (hc : Chained w d) (hdone : d.Done result) (hw : d.waiting = link :: ls) :
    Stride E w d (handOver E w d.current result link ls).1
      (handOver E w d.current result link ls).2 := by
  have hne : link.generator ≠ d.current := fun he =>
    hc.current_not_mem (by rw [hw, ← he]; exact List.mem_cons_self)
  obtain ⟨x, hx, -⟩ := hc.locked link.generator (by simp [chain, hw])
  have hx' : (w.unlock d.current).generator? link.generator = some x :=
    (World.generator?_unlock_of_ne hne).trans hx
  have hstride {heap : Heap} {s : S} {focus : Focus F} {x' : Generator H F} {s' : State H F S}
      (h : Act E (w.unlock d.current) x link.wait.position heap s focus x')
      (heq : s' = (World.replace { w.unlock d.current with heap := heap, state := s }
        link.generator x', ⟨link.generator, link.resend, focus, ls⟩)) :
      Stride E w d s'.1 s'.2 := heq ▸ .handOver hdone hw hx hne h
  simp only [handOver]
  cases hwait : link.wait with
  | paused =>
    obtain ⟨y, c, hy, hf, hd⟩ := hc.paused link (hw ▸ List.mem_cons_self) hwait
    obtain rfl : x = y := Option.some.inj (hx.symm.trans hy)
    obtain ⟨s, focus, x', hact, heq⟩ := advanced_acts (E := E)
      (d := ⟨link.generator, link.resend, .settled result, ls⟩) hx' hf
      (by simp [Generator.isDelegating, hd]) _
    exact hstride (hwait ▸ hact) heq
  | inBody frame =>
    obtain ⟨reply, x', hr, hsteady, heq⟩ := delegated_answers
      (d := ⟨link.generator, link.resend, .settled result, ls⟩) hx' frame (.child d.current) _
    exact hstride (hwait ▸ .answer hr hsteady) heq

/-- Every step of a drive is one stride. -/
theorem step_strides {s' : State H F S} (hc : Chained w d) (h : step E (w, d) = .next s') :
    Stride E w d s'.1 s'.2 := by
  obtain ⟨x, hx, -⟩ := hc.current
  cases hfocus : d.focus with
  | enter sent =>
    rw [step_enter hfocus hx] at h
    obtain rfl := Transition.next.inj h
    exact enter_strides hfocus hx
  | body frame reply =>
    rcases hE : E.step w.heap w.state frame reply with ⟨heap, state, action⟩
    rw [step_body hfocus hE] at h
    obtain rfl := Transition.next.inj h
    exact perform_strides hfocus hE hx
  | settled result =>
    rcases settled_cases hfocus with ⟨v, b, hok, hv⟩ | hdone
    · rw [step_resend hok hv] at h
      obtain rfl := Transition.next.inj h
      exact .resend hok hv
    · cases hw : d.waiting with
      | cons link ls =>
        rw [step_handOver hdone hw] at h
        obtain rfl := Transition.next.inj h
        exact handOver_strides hc hdone hw
      | nil =>
        rw [step_halt hdone hw] at h
        cases h

end Drive

end YieldMachine
