import YieldMachine.Proofs.History.Account

/-!
What a drive does with one generator, in full. Whenever the drive enters the generator or its body acts, a line
is noted (`Drive.lines`). Between two steps of the drive the generator makes a `Passage`: it says where the body
stood and stands, which lines were noted, and exactly what became of the generator (`step_passages`).
-/

namespace YieldMachine

variable {H F S : Type}

/-- What is noted of a generator. -/
inductive Line (H F : Type) where
  /-- Someone enters it; its paused body gets this value, if there is one. -/
  | entered (delivered : Option Value)
  /-- Its body, at this frame and with this reply, took this action. -/
  | acted (frame : F) (reply : Reply) (action : Action H F)

/-- Whether a value that is sent now goes to the pending yield. -/
def Generator.isReceptive (x : Generator H F) : Bool := x.isValid && !x.isDelegating

/-- The answer to a body that has named a source, when the source gives this. -/
def Delegation.Outcome.reply : Delegation.Outcome → Reply
  | .pair .. | .exhausted _ => .accepted
  | .failed e => .refused e

/-- The generator when the source that its body has named gives this. -/
def Generator.answered (x : Generator H F) (source : Delegation) : Delegation.Outcome → Generator H F
  | .pair k v => x.beginDelegation source k v
  | .exhausted r => x.skipDelegation r
  | .failed _ => x

/-- What advancing a generator, with this result, means to the one that delegates to it. -/
def World.outcome (w : World H F S) (g : GeneratorId) (result : Except GeneratorError Bool) : Delegation.Outcome :=
  ((w.generator? g).map (·.outcome result)).getD (.exhausted .null)

namespace Drive

/-- What the next step notes of a generator. -/
def lines (E : Engine H F S) (s : State H F S) (g : GeneratorId) : List (Line H F) :=
  if s.2.current = g then
    match s.2.focus with
    | .enter sent =>
      [.entered (if (s.1.generator? g).any (·.isReceptive) then sent else none)]
    | .body frame reply => [.acted frame reply (E.step s.1.heap s.1.state frame reply).2.2]
    | .settled _ => []
  else []

/-- The answer to a request to delegate, and the generator afterwards. -/
inductive Answers (x : Generator H F) : Reply → Generator H F → Prop where
  | begin (source : Delegation) (k v : Value) : Answers x .accepted (x.beginDelegation source k v)
  | skip (r : Value) : Answers x .accepted (x.skipDelegation r)
  | refuse (e : DelegationError) : Answers x (.refused e) x

/-- Where the body stands after an action, and the generator afterwards. -/
inductive Performs (x : Generator H F) : Action H F → Position F → Generator H F → Prop where
  | silent (frame : F) : Performs x (.silent frame) (.engaged frame .proceed) x
  | yieldPair (k v : Value) (frame : F) :
      Performs x (.yieldPair k v frame) (.engaged frame .reported) (x.yieldPair k v)
  | yieldValue (v : Value) (frame : F) :
      Performs x (.yieldValue v frame) (.engaged frame .reported) (x.yieldValue v)
  | delegate (source : Value) (frame : F) {reply : Reply} {x' : Generator H F}
      (h : Answers x reply x') : Performs x (.delegate source frame) (.engaged frame reply) x'
  | await (source : Value) (frame : F) : Performs x (.delegate source frame) (.awaiting frame) x
  | askDelegating (frame : F) :
      Performs x (.askDelegating frame) (.engaged frame (.delegating x.isDelegating)) x
  | takeSent (frame : F) :
      Performs x (.takeSent frame) (.engaged frame (.value x.sent)) x.clearSent
  | takeResult (frame : F) :
      Performs x (.takeResult frame) (.engaged frame (.value x.delegationResult)) x.clearResult
  | create (handle : H) (f : Function) (args : List Value) (frame : F) (v : Value) :
      Performs x (.create handle f args frame) (.engaged frame (.value v)) x
  | suspend (frame : F) : Performs x (.suspend frame) .over (x.hold frame)
  | finish (v : Value) : Performs x (.finish v) .over (x.setReturn v).terminate
  | fail (e : BodyError) : Performs x (.fail e) .over (x.terminate.setError (.executionFailed e))

/-- What can become of a generator in one step of a drive, or by being closed. -/
inductive Passage (E : Engine H F S) :
    Position F → Generator H F → List (Line H F) → Position F → Generator H F → Prop where
  | stay (p : Position F) (x : Generator H F) : Passage E p x [] p x
  | lock (x : Generator H F) (b : Bool) : Passage E .outside x [] .outside (x.setLock b)
  | rest (x : Generator H F) (b : Bool) : Passage E .over x [] .outside (x.setLock b)
  | close {x : Generator H F} (hf : x.isFinished = false) :
      Passage E .outside x [] .outside x.terminate
  | spent {x : Generator H F} (hf : x.isFinished = true) :
      Passage E .outside x [.entered none] .over x
  | start {x : Generator H F} (hf : x.isFinished = false) (hd : x.delegation = none)
      (hs : x.isStarted = false) (state : S) : Passage E .outside x [.entered none]
        (.engaged (E.start x.handle x.function x.arguments state).1 .proceed) x.begin
  | resume {x : Generator H F} {frame : F} (hf : x.isFinished = false) (hd : x.delegation = none)
      (hx : x.frame = some frame) (sent : Option Value) : Passage E .outside x [.entered sent]
        (.engaged frame .resume) (x.deliver sent).release
  | walk {x : Generator H F} {t : Table Value} {pending rest : List Key} {k v : Value}
      (hf : x.isFinished = false) (hd : x.delegation = some (.table t pending))
      (hv : Delegation.visit t pending = some ((k, v), rest)) :
      Passage E .outside x [.entered none] .over
        ({ x with delegation := some (.table t rest) }.setPair k v)
  /-- The table has no more entries. -/
  | exhaust {x : Generator H F} {t : Table Value} {frame : F} (hf : x.isFinished = false)
      (hd : x.delegation = some (.table t [])) (hx : x.frame = some frame) :
      Passage E .outside x [.entered none] (.engaged frame .resume) (x.endDelegation .null).release
  /-- The drive moves on to the source. -/
  | follow {x : Generator H F} {c : GeneratorId} (hf : x.isFinished = false)
      (hd : x.delegation = some (.child c)) : Passage E .outside x [.entered none] .outside x
  | forward {x : Generator H F} {c : GeneratorId} (hf : x.isFinished = false)
      (hd : x.delegation = some (.child c)) (k v : Value) :
      Passage E .outside x [] .over (x.setPair k v)
  | leave {x : Generator H F} {c : GeneratorId} {frame : F} (hf : x.isFinished = false)
      (hd : x.delegation = some (.child c)) (hx : x.frame = some frame) (r : Value) :
      Passage E .outside x [] (.engaged frame .resume) (x.endDelegation r).release
  | breakOff {x : Generator H F} {c : GeneratorId} {ls : List (Line H F)} (hf : x.isFinished = false)
      (hd : x.delegation = some (.child c)) (hls : ls = [] ∨ ls = [.entered none])
      (e : DelegationError) :
      Passage E .outside x ls .over (x.terminate.setError (.delegation e))
  | answer {x x' : Generator H F} (frame : F) {reply : Reply} (h : Answers x reply x') :
      Passage E (.awaiting frame) x [] (.engaged frame reply) x'
  | act {x x' : Generator H F} {frame : F} {reply : Reply} {heap heap' : Heap} {state state' : S}
      {action : Action H F} {p : Position F}
      (hE : E.step heap state frame reply = (heap', state', action)) (h : Performs x action p x') :
      Passage E (.engaged frame reply) x [.acted frame reply action] p x'

variable {E : Engine H F S} {w w' : World H F S} {d d' : Drive F} {s' : State H F S} {g : GeneratorId}
  {x : Generator H F} {sent : Option Value}

/-! ### Whoever does not act -/

/-- What becomes of a generator that is not the one to act: it stays, or is locked, unlocked or closed. -/
inductive Bystands : Position F → Generator H F → Position F → Generator H F → Prop where
  | stay (p : Position F) (x : Generator H F) : Bystands p x p x
  | lock (x : Generator H F) (b : Bool) : Bystands .outside x .outside (x.setLock b)
  | rest (x : Generator H F) (b : Bool) : Bystands .over x .outside (x.setLock b)
  | close {x : Generator H F} (hf : x.isFinished = false) : Bystands .outside x .outside x.terminate

theorem Bystands.passage {p p' : Position F} {x' : Generator H F} (h : Bystands p x p' x') :
    Passage E p x [] p' x' := by
  cases h with
  | stay => exact .stay _ x
  | lock _ b => exact .lock x b
  | rest _ b => exact .rest x b
  | close hf => exact .close hf

theorem turned_bystands {c : GeneratorId} {y : Generator H F} {resend : Option Value} {wait : Wait F}
    (hc : Chained w d) (hy : w.generator? c = some y) (hl : y.locked = false) (hg : g ≠ d.current)
    (hx : w.generator? g = some x) :
    ∃ x', (w.lock c).generator? g = some x' ∧ Bystands (d.position g) x
      ((turnTo y c sent (⟨d.current, resend, wait⟩ :: d.waiting)).position g) x' := by
  by_cases hgc : g = c
  · subst hgc
    obtain rfl : y = x := Option.some.inj (hy.symm.trans hx)
    refine ⟨y.setLock true, by simp [hy], ?_⟩
    rw [position_turnTo, position_of_not_mem (hc.not_mem_of_unlocked hy hl)]
    exact .lock y true
  · refine ⟨x, (World.generator?_lock_of_ne hgc).trans hx, ?_⟩
    rw [position_turnTo_of_ne hgc, positionAmong, if_neg (Ne.symm hg), position_of_ne hg]
    exact .stay _ x

/-- A generator other than the one that acts is at most locked or unlocked. -/
theorem Stride.bystander (h : Stride E w d w' d') (hc : Chained w d) (hg : g ≠ actor d d')
    (hx : w.generator? g = some x) :
    ∃ x', w'.generator? g = some x' ∧ Bystands (d.position g) x (d'.position g) x' := by
  cases h with
  | @act y y' heap s focus hy hact =>
    rw [actor_same] at hg
    rw [position_same hg d.resend focus]
    exact ⟨x, (World.generator?_replace_of_ne hg _).trans hx, .stay _ x⟩
  | create hfocus hE =>
    rw [actor_same] at hg
    have hne : g ≠ w.generators.size := by
      rintro rfl
      rw [World.generator?_size] at hx
      cases hx
    rw [position_same hg d.resend (.body ..)]
    exact ⟨x, by rw [World.generator?_create, if_neg hne]; exact hx, .stay _ x⟩
  | resend hfocus hv =>
    rw [actor_same] at hg
    rw [position_same hg none (.enter _)]
    exact ⟨x, hx, .stay _ x⟩
  | follow hfocus hy hl =>
    have hactor (d' : Drive F) : actor d d' = d.current := by rw [actor, hfocus]
    exact turned_bystands hc hy hl (hactor _ ▸ hg) hx
  | @delegate frame frame' reply heap s source c y hfocus hE hy hl =>
    have hactor (d' : Drive F) : actor d d' = d.current := by rw [actor, hfocus]
    have hc' : Chained { w with heap := heap, state := s } d := ⟨hc.nodup, hc.locked, hc.paused⟩
    exact turned_bystands hc' hy hl (hactor _ ▸ hg) hx
  | @handOver result link ls y y' heap s focus hdone hw hy hne hact =>
    have hactor (d' : Drive F) : actor d d' = d'.current := by rw [actor, hdone.1]
    rw [hactor] at hg
    have hafter : position ⟨link.generator, link.resend, focus, ls⟩ g = positionAmong g ls :=
      position_of_ne hg
    rw [World.generator?_replace_of_ne hg, hafter]
    by_cases hcurrent : g = d.current
    · subst hcurrent
      have hout : d.current ∉ ls.map Link.generator := fun hmem =>
        hc.current_not_mem (by rw [hw]; exact List.mem_cons_of_mem _ hmem)
      have hx' : (w.unlock d.current).generator? d.current = some (x.setLock false) := by simp [hx]
      refine ⟨_, hx', ?_⟩
      rw [positionAmong_of_not_mem hout, position_current, hdone.1]
      exact .rest x false
    · refine ⟨x, (World.generator?_unlock_of_ne hcurrent).trans hx, ?_⟩
      rw [position_of_ne hcurrent, hw, positionAmong, if_neg (Ne.symm hg)]
      exact .stay _ x

/-! ### The one that acts -/

theorem resume_eq {f : Generator H F → Generator H F} {frame : F}
    (hx : w.generator? d.current = some x) (hframe : (f x).frame = some frame) :
    resume E (w.modify d.current f) d =
      ((w.modify d.current f).modify d.current (·.release), { d with focus := .body frame .resume }) := by
  have hread : ((w.modify d.current f).generator? d.current).bind (·.frame) = some frame := by
    simp [hx, hframe]
  rw [resume, hread]

/-- The generator in turn ends up at the position of the focus. -/
theorem position_focus (d : Drive F) (focus : Focus F) :
    ({ d with focus := focus } : Drive F).position d.current = focus.position := if_pos rfl

/-- What becomes of a generator that waited between two pairs when its source gives this. -/
inductive Advances (x : Generator H F) : Delegation.Outcome → Position F → Generator H F → Prop where
  | pair (k v : Value) : Advances x (.pair k v) .over (x.setPair k v)
  | exhausted {frame : F} (hframe : x.frame = some frame) (r : Value) :
      Advances x (.exhausted r) (.engaged frame .resume) (x.endDelegation r).release
  | failed (e : DelegationError) : Advances x (.failed e) .over (x.terminate.setError (.delegation e))

theorem advanced_advances {source : Delegation} (hx : w.generator? d.current = some x) (hfits : x.FitsRole .idle)
    (hd : x.delegation = some source) (o : Delegation.Outcome) :
    ∃ x', (advanced E w d o).1.generator? d.current = some x' ∧
      Advances x o ((advanced E w d o).2.position d.current) x' := by
  cases o with
  | failed e =>
    refine ⟨x.terminate.setError (.delegation e), by simp [advanced, fail, hx], ?_⟩
    exact position_focus d (.settled _) ▸ .failed e
  | pair k v =>
    refine ⟨x.setPair k v, by simp [advanced, hx], ?_⟩
    exact position_focus d (.settled _) ▸ .pair k v
  | exhausted r =>
    obtain ⟨frame, hframe⟩ := Option.isSome_iff_exists.mp (hfits.delegating hd).2.1
    rw [advanced, resume_eq (f := (·.endDelegation r)) hx hframe]
    refine ⟨(x.endDelegation r).release, by simp [hx], ?_⟩
    exact position_focus d (.body ..) ▸ .exhausted hframe r

theorem answers_outcome (x : Generator H F) (source : Delegation) (o : Delegation.Outcome) :
    Answers x o.reply (x.answered source o) := by
  cases o with
  | pair k v => exact .begin source k v
  | exhausted r => exact .skip r
  | failed e => exact .refuse e

/-- A running body learns what the source that it has named gives. -/
theorem delegated_answered (hx : w.generator? d.current = some x) (frame : F) (source : Delegation)
    (o : Delegation.Outcome) :
    (delegated w d frame source o).1.generator? d.current = some (x.answered source o) ∧
      (delegated w d frame source o).2.position d.current = .engaged frame o.reply := by
  cases o with
  | pair k v => exact ⟨by simp [delegated, hx, Generator.answered], position_focus d (.body ..)⟩
  | exhausted r => exact ⟨by simp [delegated, hx, Generator.answered], position_focus d (.body ..)⟩
  | failed e => exact ⟨hx, position_focus d (.body ..)⟩

/-- The generator that moves on stays where it waits. -/
theorem descend_waits {c : GeneratorId} {wait : Wait F} (hc : Chained w d)
    (h : descend w d c sent wait = some s') (hx : w.generator? d.current = some x) :
    s'.1.generator? d.current = some x ∧ s'.2.position d.current = wait.position := by
  obtain ⟨w', d'⟩ := s'
  obtain ⟨y, hy, hl, rfl, rfl⟩ := descend_cases h
  have hne : d.current ≠ c := fun he => hc.not_mem_of_unlocked hy hl (he ▸ List.mem_cons_self)
  refine ⟨(World.generator?_lock_of_ne hne).trans hx, ?_⟩
  rw [position_turnTo_of_ne hne, positionAmong, if_pos rfl]

theorem enter_passes (hc : Chained w d) (hx : w.generator? d.current = some x)
    (hfits : x.FitsRole .idle) :
    ∃ x', (enter E w d x sent).1.generator? d.current = some x' ∧
      Passage E .outside x [.entered (if x.isReceptive then sent else none)]
        ((enter E w d x sent).2.position d.current) x' := by
  rw [enter]
  split
  · next hf =>
    have hdeaf : x.isReceptive = false := by simp [Generator.isReceptive, Generator.isValid, hf]
    rw [hdeaf]
    exact ⟨x, hx, position_focus d (.settled _) ▸ .spent hf⟩
  · next hf =>
    have hf : x.isFinished = false := by simpa using hf
    split
    · next t pending hd =>
      have hdeaf : x.isReceptive = false := by
        simp [Generator.isReceptive, Generator.isDelegating, hd]
      rw [hdeaf]
      split
      · next k v rest hv =>
        refine ⟨{ x with delegation := some (.table t rest) }.setPair k v, ?_, ?_⟩
        · simp [advanced, hx]
        · exact position_focus d (.settled _) ▸ .walk hf hd hv
      · next hv =>
        obtain rfl : pending = [] := by
          cases pending with
          | nil => rfl
          | cons k ks => cases hv
        obtain ⟨x', hx', hadvances⟩ := advanced_advances (E := E) hx hfits hd (.exhausted .null)
        refine ⟨x', hx', ?_⟩
        generalize (advanced E w d (.exhausted .null)).2.position d.current = p at hadvances
        cases hadvances with
        | exhausted hframe => exact .exhaust hf hd hframe
    · next c hd =>
      have hdeaf : x.isReceptive = false := by
        simp [Generator.isReceptive, Generator.isDelegating, hd]
      rw [hdeaf]
      split
      · next s' hs' =>
        obtain ⟨hx', hp⟩ := descend_waits hc hs' hx
        exact ⟨x, hx', hp ▸ .follow hf hd⟩
      · obtain ⟨x', hx', hadvances⟩ := advanced_advances (E := E) hx hfits hd (.failed .alreadyRunning)
        refine ⟨x', hx', ?_⟩
        generalize (advanced E w d (.failed .alreadyRunning)).2.position d.current = p at hadvances
        cases hadvances with
        | failed => exact .breakOff hf hd (.inr rfl) _
    · next hd =>
      split
      · next hs =>
        have hs : x.isStarted = false := by simpa using hs
        have hdeaf : x.isReceptive = false := by simp [Generator.isReceptive, Generator.isValid, hs]
        rw [hdeaf]
        refine ⟨x.begin, by simp [start, hx], ?_⟩
        exact position_focus d (.body ..) ▸ .start hf hd hs w.state
      · next hs =>
        have hs : x.isStarted = true := by simpa using hs
        have hpaused := hfits.suspended hf hs
        have hopen : x.isReceptive = true := by
          simp [Generator.isReceptive, Generator.isValid, Generator.isDelegating, hs, hf, hd]
        obtain ⟨frame, hframe⟩ := Option.isSome_iff_exists.mp hpaused.2.1
        have hkeep : (x.deliver sent).frame = some frame := by cases sent <;> exact hframe
        rw [hopen, if_pos (by rw [hpaused.1]), resume_eq (f := (·.deliver sent)) hx hkeep]
        refine ⟨(x.deliver sent).release, by simp [hx], ?_⟩
        exact position_focus d (.body ..) ▸ .resume hf hd hframe sent

theorem delegate_performs {source : Value} {frame : F} (hc : Chained w d)
    (hx : w.generator? d.current = some x) :
    ∃ x', (delegate w d source frame).1.generator? d.current = some x' ∧
      Performs x (.delegate source frame) ((delegate w d source frame).2.position d.current) x' := by
  have hanswer (s : Delegation) (o : Delegation.Outcome) :
      ∃ x', (delegated w d frame s o).1.generator? d.current = some x' ∧
        Performs x (.delegate source frame) ((delegated w d frame s o).2.position d.current) x' := by
    obtain ⟨hx', hp⟩ := delegated_answered hx frame s o
    exact ⟨x.answered s o, hx', hp ▸ .delegate source frame (answers_outcome x s o)⟩
  rw [delegate]
  split
  · next e _ => exact hanswer (.child d.current) (.failed e)
  · split
    · exact hanswer ..
    · exact hanswer ..
  · split
    · next s' hs' =>
      obtain ⟨hx', hp⟩ := descend_waits hc hs' hx
      exact ⟨x, hx', hp ▸ .await source frame⟩
    · exact hanswer ..

theorem perform_performs (E : Engine H F S) (action : Action H F) (hc : Chained w d)
    (hx : w.generator? d.current = some x) :
    ∃ x', (perform E w d action).1.generator? d.current = some x' ∧
      Performs x action ((perform E w d action).2.position d.current) x' := by
  have hbody (frame : F) (reply : Reply) := position_focus d (.body frame reply)
  have hsettled (r : Except GeneratorError Bool) := position_focus d (.settled r)
  cases action with
  | silent frame => exact ⟨x, hx, hbody .. ▸ .silent frame⟩
  | yieldPair k v frame =>
    exact ⟨x.yieldPair k v, by simp [perform, hx], hbody .. ▸ .yieldPair k v frame⟩
  | yieldValue v frame =>
    exact ⟨x.yieldValue v, by simp [perform, hx], hbody .. ▸ .yieldValue v frame⟩
  | delegate source frame => exact delegate_performs hc hx
  | askDelegating frame =>
    refine ⟨x, hx, ?_⟩
    simp only [perform, hx, Option.any_some]
    exact hbody .. ▸ .askDelegating frame
  | takeSent frame =>
    refine ⟨x.clearSent, by simp [perform, hx], ?_⟩
    simp only [perform, hx, Option.map_some, Option.getD_some]
    exact hbody .. ▸ .takeSent frame
  | takeResult frame =>
    refine ⟨x.clearResult, by simp [perform, hx], ?_⟩
    simp only [perform, hx, Option.map_some, Option.getD_some]
    exact hbody .. ▸ .takeResult frame
  | create handle f args frame =>
    have hne : d.current ≠ w.generators.size := by
      intro he
      rw [he, World.generator?_size] at hx
      cases hx
    refine ⟨x, ?_, hbody .. ▸ .create handle f args frame _⟩
    simp only [perform]
    rw [World.generator?_create, if_neg hne, hx]
  | suspend frame => exact ⟨x.hold frame, by simp [perform, hx], hsettled _ ▸ .suspend frame⟩
  | finish v => exact ⟨(x.setReturn v).terminate, by simp [perform, hx], hsettled _ ▸ .finish v⟩
  | fail e =>
    refine ⟨x.terminate.setError (.executionFailed e), by simp [perform, fail, hx], ?_⟩
    exact hsettled _ ▸ .fail e

/-- What becomes of the generator `x` that waits so for `child` when the child gives this. -/
inductive Receives (x : Generator H F) (child : GeneratorId) (o : Delegation.Outcome) :
    Wait F → Position F → Generator H F → Prop where
  | paused {c : GeneratorId} {p : Position F} {x' : Generator H F} (hf : x.isFinished = false)
      (hd : x.delegation = some (.child c)) (h : Advances x o p x') : Receives x child o .paused p x'
  | inBody (frame : F) :
      Receives x child o (.inBody frame) (.engaged frame o.reply) (x.answered (.child child) o)

theorem handOver_receives {result : Except GeneratorError Bool} {link : Link F} {ls : List (Link F)}
    (hc : Chained w d) (hw : d.waiting = link :: ls) (hne : link.generator ≠ d.current)
    (hx : w.generator? link.generator = some x) (hfits : x.FitsRole link.wait.role) :
    ∃ x', (handOver E w d.current result link ls).1.generator? link.generator = some x' ∧
      Receives x d.current (w.outcome d.current result) link.wait
        ((handOver E w d.current result link ls).2.position link.generator) x' := by
  have hx' : (w.unlock d.current).generator? link.generator = some x :=
    (World.generator?_unlock_of_ne hne).trans hx
  simp only [handOver]
  cases hwait : link.wait with
  | paused =>
    obtain ⟨y, c, hy, hf, hd⟩ := hc.paused link (hw ▸ List.mem_cons_self) hwait
    obtain rfl : x = y := Option.some.inj (hx.symm.trans hy)
    rw [hwait] at hfits
    obtain ⟨x', hx'', hadvances⟩ := advanced_advances (E := E)
      (d := ⟨link.generator, link.resend, .settled result, ls⟩) hx' hfits hd (w.outcome d.current result)
    exact ⟨x', hx'', .paused hf hd hadvances⟩
  | inBody frame =>
    obtain ⟨hx'', hp⟩ := delegated_answered (d := ⟨link.generator, link.resend, .settled result, ls⟩)
      hx' frame (.child d.current) (w.outcome d.current result)
    exact ⟨_, hx'', hp ▸ .inBody frame⟩

theorem Receives.passage {child : GeneratorId} {o : Delegation.Outcome} {wait : Wait F} {p : Position F}
    {x' : Generator H F} (h : Receives x child o wait p x') : Passage E wait.position x [] p x' := by
  cases h with
  | paused hf hd hadvances =>
    cases hadvances with
    | pair k v => exact .forward hf hd k v
    | exhausted hframe r => exact .leave hf hd hframe r
    | failed e => exact .breakOff hf hd (.inl rfl) e
  | inBody frame => exact .answer frame (answers_outcome x _ o)

/-! ### One step -/

theorem lines_of_ne (h : g ≠ d.current) : lines E (w, d) g = [] := if_neg (Ne.symm h)

theorem lines_settled {result : Except GeneratorError Bool} (hfocus : d.focus = .settled result) :
    lines E (w, d) g = [] := by
  simp [lines, hfocus]

theorem lines_of_ne_actor (h : g ≠ actor d d') : lines E (w, d) g = [] := by
  cases hfocus : d.focus with
  | settled result => exact lines_settled hfocus
  | enter sent => exact lines_of_ne (by rwa [actor, hfocus] at h)
  | body frame reply => exact lines_of_ne (by rwa [actor, hfocus] at h)

/-- What a step of the drive is to the generator `x`: someone else acts, or it is entered, its body acts, it takes
up the value kept back for it, or it learns what the generator that it waited for gave. -/
inductive Involves (E : Engine H F S) (w : World H F S) (d : Drive F) (x : Generator H F) :
    GeneratorId → State H F S → Prop where
  | aside {g : GeneratorId} {s' : State H F S} (hg : g ≠ actor d s'.2) : Involves E w d x g s'
  | enter {sent : Option Value} (hfocus : d.focus = .enter sent) :
      Involves E w d x d.current (enter E w d x sent)
  | act {frame : F} {reply : Reply} {heap : Heap} {state : S} {action : Action H F}
      (hfocus : d.focus = .body frame reply)
      (hE : E.step w.heap w.state frame reply = (heap, state, action)) :
      Involves E w d x d.current (perform E { w with heap := heap, state := state } d action)
  | resend {v : Value} {b : Bool} (hfocus : d.focus = .settled (.ok b)) (hv : d.resend = some v) :
      Involves E w d x d.current (w, { d with resend := none, focus := .enter (some v) })
  | handOver {result : Except GeneratorError Bool} {link : Link F} {ls : List (Link F)}
      (hdone : d.Done result) (hw : d.waiting = link :: ls) (hne : link.generator ≠ d.current) :
      Involves E w d x link.generator (handOver E w d.current result link ls)

theorem step_involves (hc : Chained w d) (hs : step E (w, d) = .next s')
    (hx : w.generator? g = some x) : Involves E w d x g s' := by
  by_cases hg : g = actor d s'.2
  · cases hfocus : d.focus with
    | enter sent =>
      rw [actor, hfocus] at hg
      subst hg
      rw [step_enter hfocus hx] at hs
      exact Transition.next.inj hs ▸ .enter hfocus
    | body frame reply =>
      rw [actor, hfocus] at hg
      subst hg
      rcases hE : E.step w.heap w.state frame reply with ⟨heap, state, action⟩
      rw [step_body hfocus hE] at hs
      exact Transition.next.inj hs ▸ .act hfocus hE
    | settled result =>
      rw [actor, hfocus] at hg
      rcases settled_cases hfocus with ⟨v, b, hok, hv⟩ | hdone
      · rw [step_resend hok hv] at hs
        obtain rfl := Transition.next.inj hs
        subst hg
        exact .resend hok hv
      · cases hw : d.waiting with
        | nil =>
          rw [step_halt hdone hw] at hs
          cases hs
        | cons link ls =>
          have hne : link.generator ≠ d.current := fun he =>
            hc.current_not_mem (by rw [hw, ← he]; exact List.mem_cons_self)
          have hcurrent := (handOver_turn E result hc hw).current
          rw [step_handOver hdone hw] at hs
          obtain rfl := Transition.next.inj hs
          rw [hcurrent] at hg
          subst hg
          exact .handOver hdone hw hne
  · exact .aside hg

/-- The generator that waits for the one in focus stands where it waits. -/
theorem position_waiting {link : Link F} {ls : List (Link F)} (hw : d.waiting = link :: ls)
    (hne : link.generator ≠ d.current) : d.position link.generator = link.wait.position := by
  rw [position_of_ne hne, hw, positionAmong, if_pos rfl]

theorem role_waiting {link : Link F} {ls : List (Link F)} (hw : d.waiting = link :: ls)
    (hne : link.generator ≠ d.current) : d.role link.generator = link.wait.role := by
  rw [role, if_neg (Ne.symm hne), hw, roleAmong, if_pos rfl]

theorem resend_rests {v : Value} {b : Bool} (hfocus : d.focus = .settled (.ok b)) (x : Generator H F) :
    Bystands (d.position d.current) x
      (({ d with resend := none, focus := .enter (some v) } : Drive F).position d.current) x := by
  rw [position_current, hfocus]
  exact position_focus { d with resend := none } (.enter (some v)) ▸ .rest x x.locked

/-- In every step of a drive, a generator that fits its role makes a passage. -/
theorem step_passages (hc : Chained w d) (hs : step E (w, d) = .next s')
    (hx : w.generator? g = some x) (hfits : x.FitsRole (d.role g)) :
    ∃ x', s'.1.generator? g = some x' ∧
      Passage E (d.position g) x (lines E (w, d) g) (s'.2.position g) x' := by
  cases step_involves hc hs hx with
  | aside hg =>
    rw [lines_of_ne_actor hg]
    obtain ⟨x', hx', hby⟩ := (step_strides hc hs).bystander hc hg hx
    exact ⟨x', hx', hby.passage⟩
  | @enter sent hfocus =>
    rw [role_current, hfocus] at hfits
    have hlines : lines E (w, d) d.current = [.entered (if x.isReceptive then sent else none)] := by
      simp [lines, hfocus, hx]
    rw [hlines, position_current, hfocus]
    exact enter_passes hc hx hfits
  | @act frame reply heap state action hfocus hE =>
    have hlines : lines E (w, d) d.current = [.acted frame reply action] := by
      simp [lines, hfocus, hE]
    have hc' : Chained { w with heap := heap, state := state } d := ⟨hc.nodup, hc.locked, hc.paused⟩
    obtain ⟨x', hx', hperforms⟩ := perform_performs E action hc' hx
    rw [hlines, position_current, hfocus]
    exact ⟨x', hx', .act hE hperforms⟩
  | resend hfocus hv =>
    rw [lines_settled hfocus]
    exact ⟨x, hx, (resend_rests hfocus x).passage⟩
  | handOver hdone hw hne =>
    rw [lines_settled hdone.1, position_waiting hw hne]
    rw [role_waiting hw hne] at hfits
    obtain ⟨x', hx', hreceives⟩ := handOver_receives hc hw hne hx hfits
    exact ⟨x', hx', hreceives.passage⟩

/-! ### Unfinished generators -/

theorem Answers.isFinished {x' : Generator H F} {reply : Reply} (h : Answers x reply x') :
    x'.isFinished = x.isFinished := by
  cases h <;> rfl

/-- Nobody takes up again what is finished. -/
theorem Passage.unfinished {x' : Generator H F} {p p' : Position F} {ls : List (Line H F)}
    (h : Passage E p x ls p' x') (hf : x'.isFinished = false) : x.isFinished = false := by
  cases h with
  | stay | lock | rest => exact hf
  | close | breakOff => cases hf
  | spent hf' =>
    rw [hf] at hf'
    cases hf'
  | start hf' | walk hf' | exhaust hf' | leave hf' | resume hf' | follow hf' | forward hf' => exact hf'
  | answer frame ha => exact ha.isFinished ▸ hf
  | act hE hp =>
    cases hp with
    | delegate _ _ ha => exact ha.isFinished ▸ hf
    | finish | fail => cases hf
    | _ => exact hf

end Drive

end YieldMachine
