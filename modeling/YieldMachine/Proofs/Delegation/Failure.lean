import YieldMachine.Proofs.Delegation.Chain
import YieldMachine.Proofs.Drive.Reentrancy
import YieldMachine.Proofs.Session.YieldFrom

/-!
How a failure propagates. A generator that turns to an unlocked source waits for a call of it (`Drive.Turns`). If the
source has ended by an error, in this call or before, the generator gives up (`Drive.Turns.givesUp`); if it has ended
in another way, the generator goes on with the result (`Drive.Turns.goesOn`, `Session.evaluates`). Together with what
happens to chains of delegations, this is `failure_propagates`.
-/

namespace YieldMachine

variable {H F S : Type}

namespace Generator

variable {x : Generator H F} {r : Except GeneratorError Bool}

theorem FitsRole.unlock (h : x.FitsRole (.settled r)) : (x.setLock false).FitsRole (.settled r) := by
  match r, h with
  | .ok true, h => exact h
  | .ok false, h => exact h
  | .error e, h => exact h

/-- A source that ended by an error is a failed one, however it was advanced since. -/
theorem FitsRole.outcome_failed {e : GeneratorError} (h : x.FitsRole (.settled r)) (he : x.lastError = some e) :
    x.outcome r = .failed (.sourceFailed x.function.name e.message) := by
  match r, h with
  | .ok true, h =>
    rw [h.2.2.2] at he
    cases he
  | .ok false, ⟨_, hone⟩ =>
    have hreturn : x.returnValue = none := hone.resolve_right (by simp [he])
    simp only [outcome, hreturn, he]
  | .error _, ⟨_, hreturn, _⟩ => simp only [outcome, hreturn, he]

/-- A source that ended in another way has its return value, or null, for the result. -/
theorem FitsRole.outcome_exhausted (h : x.FitsRole (.settled r)) (hf : x.isFinished = true)
    (hnone : x.lastError = none) : x.outcome r = .exhausted (x.returnValue.getD .null) := by
  match r, h with
  | .ok true, h =>
    rw [isFinished, h.1] at hf
    cases hf
  | .ok false, _ => cases hreturn : x.returnValue <;> simp [outcome, hreturn, hnone]
  | .error _, ⟨_, _, herror⟩ =>
    rw [hnone] at herror
    cases herror

end Generator

/-- The reply that a body which waited so gets to a source that has ended with a result. -/
def Wait.granted : Wait F → Reply
  | .inBody _ => .accepted
  | .paused => .resume

namespace Drive

variable {E : Engine H F S} {w : World H F S} {c : GeneratorId} {x y : Generator H F} {u : State H F S}

/-- The drive turns to `c`, for which the generator in turn waits so, and goes on as the call `s₁` on `c` does. -/
structure Turns (E : Engine H F S) (u : State H F S) (wait : Wait F) (c : GeneratorId) (s₁ : State H F S) :
    Prop where
  turn : step E u = .next (above (⟨u.2.current, u.2.resend, wait⟩ :: u.2.waiting) s₁)
  call : OnCall c s₁
  apart : Apart E u.2.current s₁
  kept : s₁.1.generator? u.2.current = u.1.generator? u.2.current

/-- The generator in turn, which waited so, gives up: it ends by the error of the source for good, in the world `w`
that the source left, and if its body runs at all after `u`, it does so to be told of the error. -/
structure GivesUp (E : Engine H F S) (u : State H F S) (wait : Wait F) (e : DelegationError) (w : World H F S) :
    Prop where
  ends : ∃ n, Reaches (step E) u n (fail E w u.2 (wait.refusal e)) ∧
    ∀ k t, n ≤ k → Reaches (step E) u k t →
      ∃ x, t.1.generator? u.2.current = some x ∧ x.EndedBy (wait.refusal e)
  idle : ∀ k t frame reply, Reaches (step E) u (k + 1) t → t.2.current = u.2.current →
    t.2.focus = .body frame reply → t = told E w u.2 e wait

variable {wait : Wait F} {s₁ : State H F S} {r : Except GeneratorError Bool}

theorem exists_sent (v : Option Value) : ∃ input : Input, input.sent? = v := by
  cases v with
  | none => exact ⟨.next, rfl⟩
  | some v => exact ⟨.send v, rfl⟩

/-- A drive turns to an unlocked source, as a call on it does; one that is finished stays as it is. -/
theorem seeks_unlocked (hdriven : LocalInvariant.Driven Generator.FitsRole u) (hseeks : Seeks E u wait c)
    (hy : u.1.generator? c = some y) (hl : y.locked = false) :
    ∃ s₁, Turns E u wait c s₁ ∧
      (y.isFinished = true → ∃ w₁ r, Ends (step E) s₁ (w₁, r) ∧ w₁.generator? c = some y) := by
  obtain ⟨w₁, input, s₁, hsame, hopen, hs⟩ : ∃ (w₁ : World H F S) (input : Input) (s₁ : State H F S),
      (∀ o, w₁.generator? o = u.1.generator? o) ∧ w₁.open? c input = some s₁ ∧
        step E u = .next (above (⟨u.2.current, u.2.resend, wait⟩ :: u.2.waiting) s₁) := by
    cases hseeks with
    | @paused w d sent x _ hfocus hx hf hd =>
      obtain ⟨input, rfl⟩ := exists_sent sent
      obtain ⟨s₁, hopen, hdescend⟩ := descend_unlocked d input .paused hy hl
      refine ⟨w, input, s₁, fun _ => rfl, hopen, ?_⟩
      rw [step_enter hfocus hx, enter]
      simp only [hf, hd, hdescend, Bool.false_eq_true, if_false]
    | @inBody w d frame frame' reply heap state source _ hfocus hE hsource =>
      let w' : World H F S := { w with heap := heap, state := state }
      obtain ⟨s₁, hopen, hdescend⟩ := descend_unlocked (w := w') d .next (.inBody frame') hy hl
      refine ⟨w', .next, s₁, fun _ => rfl, hopen, ?_⟩
      rw [Input.sent?] at hdescend
      rw [step_body hfocus hE, perform, delegate]
      simp only [Delegation.ofValue, hsource]
      rw [hdescend]
  obtain ⟨hc, hall⟩ := hdriven
  obtain ⟨x, hx, hlocked⟩ := hc.current
  obtain ⟨hapart, hkept⟩ := apart_of_locked E hopen ((hsame _).trans hx) hlocked
  refine ⟨s₁, ⟨hs, World.open_onCall hopen, hapart, hkept.trans hx.symm⟩, ?_⟩
  intro hf
  have hout : c ∉ u.2.chain := by
    intro hmem
    obtain ⟨z, hz, hz'⟩ := hc.locked c hmem
    obtain rfl := Option.some.inj (hz.symm.trans hy)
    rw [hl] at hz'
    cases hz'
  have hidle := hall c y hy
  rw [role_of_not_mem hout] at hidle
  have hy₁ := (hsame c).trans hy
  have hadvance := World.advance_finished (E := E) hy₁ (hidle.finished hf) hl (Nat.le_refl 2) input
  exact ⟨w₁, .ok false, (World.advance_iff hopen).mp ⟨2, hadvance⟩, hy₁⟩

/-- Until the source has been advanced, the generator that waits for it is not in turn. -/
theorem Turns.reaches {w₁ : World H F S} (h : Turns E u wait c s₁) (he : Ends (step E) s₁ (w₁, r))
    (hy : w₁.generator? c = some y) :
    ∃ n, Reaches (step E) u (n + 1)
        (received E w₁ c y r ⟨u.2.current, u.2.resend, wait⟩ u.2.waiting) ∧
      ∀ k t, k < n → Reaches (step E) u (k + 1) t → t.2.current ≠ u.2.current := by
  obtain ⟨n, s₂, hr, hhalt⟩ := he.reaches
  obtain ⟨rfl, -⟩ := (h.call.reaches hr).halt hhalt
  refine ⟨n + 1, .next h.turn ((reaches_above hr _).trans (.single (step_above_halt hhalt hy _ _))), ?_⟩
  intro k t hk hr'
  cases hr' with
  | next hs hr' =>
    obtain rfl := Transition.next.inj (hs.symm.trans h.turn)
    obtain ⟨t', hr'', rfl⟩ := reaches_above_within hr hr' (Nat.le_of_lt_succ hk)
    exact fun hcurrent => (h.apart.reaches hr'').outside (hcurrent ▸ List.mem_cons_self)

/-- Where the advance of the source ends, the source has settled, and the generator that waits for it is as it
was. -/
theorem Turns.ends {w₁ : World H F S} (h : Turns E u wait c s₁)
    (hdriven : LocalInvariant.Driven Generator.FitsRole u) (he : Ends (step E) s₁ (w₁, r)) :
    (∃ y, w₁.generator? c = some y ∧ y.FitsRole (.settled r)) ∧
      w₁.generator? u.2.current = u.1.generator? u.2.current := by
  obtain ⟨n, s₂, hr, hhalt⟩ := he.reaches
  obtain ⟨rfl, hfocus, -, rfl⟩ := (h.call.reaches hr).halt hhalt
  have hapart := h.apart.reaches hr
  obtain ⟨z, hz, -⟩ := hdriven.1.current
  have hne : u.2.current ≠ s₂.2.current := fun heq => hapart.outside (heq ▸ List.mem_cons_self)
  constructor
  · obtain ⟨hc, hall⟩ := driven_reaches hdriven (.next h.turn (reaches_above hr _))
    obtain ⟨y, hy, -⟩ := hc.current
    have hsettled := hall _ y hy
    rw [role_current, show (above _ s₂).2.focus = .settled r from hfocus] at hsettled
    have hy' : s₂.1.generator? s₂.2.current = some y := hy
    exact ⟨y.setLock false, by simp [hy'], hsettled.unlock⟩
  · rw [World.generator?_unlock_of_ne hne, hz]
    exact h.apart.kept_reaches (h.kept.trans hz) hr

/-- A generator whose source has ended by an error gives up, if its body passes the error on. -/
theorem Turns.givesUp {w₁ : World H F S} {e : GeneratorError} (h : Turns E u wait c s₁)
    (hdriven : LocalInvariant.Driven Generator.FitsRole u) (he : Ends (step E) s₁ (w₁, r))
    (hy : w₁.generator? c = some y) (herror : y.lastError = some e) (hp : wait.Passes E) :
    GivesUp E u wait (.sourceFailed y.function.name e.message) w₁ := by
  obtain ⟨n, hr, hquiet⟩ := h.reaches he hy
  obtain ⟨y', hy', hrole⟩ := (h.ends hdriven he).1
  obtain rfl := Option.some.inj (hy'.symm.trans hy)
  have houtcome := hrole.outcome_failed herror
  generalize DelegationError.sourceFailed y'.function.name e.message = err at houtcome ⊢
  have htold : received E w₁ c y' r ⟨u.2.current, u.2.resend, wait⟩ u.2.waiting = told E w₁ u.2 err wait := by
    cases wait <;> simp only [received, houtcome] <;> rfl
  rw [htold] at hr
  obtain ⟨m, hr', hm⟩ : ∃ m, Reaches (step E) (told E w₁ u.2 err wait) m (fail E w₁ u.2 (wait.refusal err)) ∧
      m ≤ 1 := by
    cases wait with
    | paused => exact ⟨0, .refl _, Nat.zero_le 1⟩
    | inBody frame => exact ⟨1, .single (step_body rfl (hp w₁.heap w₁.state err)), Nat.le_refl 1⟩
  have hends := hr.trans hr'
  have hdriven' := driven_reaches hdriven hends
  obtain ⟨x, hx, -⟩ := hdriven'.1.current
  have hended : x.EndedBy (wait.refusal err) := by
    have hsettled := hdriven'.2 _ x hx
    rw [role_current] at hsettled
    exact Generator.FitsRole.endedBy hsettled
  have hlater (k : Nat) (t : State H F S) (hk : n + 1 + m ≤ k) (hrt : Reaches (step E) u k t) :
      ∃ x, t.1.generator? u.2.current = some x ∧ x.EndedBy (wait.refusal err) := by
    obtain ⟨b, hx'⟩ := finished_reaches hdriven' hx hended.finished (hends.rest hrt hk)
    exact ⟨x.setLock b, hx', hended.finished, hended.returnValue, hended.delegation, hended.lastError⟩
  refine ⟨⟨_, hends, hlater⟩, fun k t frame reply hrt hcurrent hfocus => ?_⟩
  rcases Nat.lt_trichotomy k n with hk | rfl | hk
  · exact absurd hcurrent (hquiet k t hk hrt)
  · exact hrt.unique hr
  · -- The body of a finished generator does not run.
    obtain ⟨x', hx', hended'⟩ := hlater (k + 1) t (by omega) hrt
    have hrunning := (driven_reaches hdriven hrt).2 t.2.current x' (hcurrent ▸ hx')
    rw [role_current, hfocus] at hrunning
    exact absurd hended'.finished (Bool.eq_false_iff.mp hrunning.unfinished)

/-- A generator whose source has ended otherwise goes on: it becomes `x'`, with the result of the source, and its
body is taken up at this frame. -/
inductive GoesOn (x : Generator H F) (v : Value) : Wait F → F → Generator H F → Prop where
  | inBody (frame : F) : GoesOn x v (.inBody frame) frame (x.skipDelegation v)
  | paused {frame : F} (hframe : x.frame = some frame) : GoesOn x v .paused frame (x.endDelegation v).release

theorem Turns.goesOn {w₁ : World H F S} {frame : F} {x' : Generator H F} (h : Turns E u wait c s₁)
    (hdriven : LocalInvariant.Driven Generator.FitsRole u) (he : Ends (step E) s₁ (w₁, r))
    (hy : w₁.generator? c = some y) (hf : y.isFinished = true) (hnone : y.lastError = none)
    (hx : u.1.generator? u.2.current = some x) (hon : GoesOn x (y.returnValue.getD .null) wait frame x') :
    ∃ n, Reaches (step E) u n (w₁.replace u.2.current x', { u.2 with focus := .body frame wait.granted }) := by
  obtain ⟨n, hr, -⟩ := h.reaches he hy
  obtain ⟨⟨y', hy', hrole⟩, hkept⟩ := h.ends hdriven he
  obtain rfl := Option.some.inj (hy'.symm.trans hy)
  have houtcome := hrole.outcome_exhausted hf hnone
  have hx₁ := hkept.trans hx
  refine ⟨n + 1, ?_⟩
  cases hon with
  | inBody frame =>
    simp only [received, houtcome, delegated] at hr
    rwa [World.modify_eq_replace hx₁] at hr
  | paused hframe =>
    simp only [received, houtcome, advanced] at hr
    rw [resume_eq (d := ⟨u.2.current, u.2.resend, .settled r, u.2.waiting⟩) hx₁ hframe,
      World.modify_modify, World.modify_eq_replace hx₁] at hr
    exact hr

end Drive

namespace Session

open Drive

/-- The body of `x`, which waits so for its source, named the source in this frame. -/
inductive Named (x : Generator (Nat ⊕ Unit) (Execution ⊕ Script.Frame)) :
    Wait (Execution ⊕ Script.Frame) → Execution ⊕ Script.Frame → Prop where
  | inBody (frame : Execution ⊕ Script.Frame) : Named x (.inBody frame) frame
  | paused {frame : Execution ⊕ Script.Frame} (hframe : x.frame = some (pausedFrame frame)) : Named x .paused frame

/-- What the body yielded from evaluates to `v`, in the world `w` that the source left: a body of the machine goes on
with it on the stack, and a script is taken up and can ask for it. -/
def Evaluates (s : Session) (u : State (Nat ⊕ Unit) (Execution ⊕ Script.Frame) (Output × Script.Tally))
    (wait : Wait (Execution ⊕ Script.Frame))
    (w : World (Nat ⊕ Unit) (Execution ⊕ Script.Frame) (Output × Script.Tally)) (v : Value) :
    Execution ⊕ Script.Frame → Prop
  | .inl z => ∃ n x, Reaches (step s.engine) u n
      (w.replace u.2.current x, { u.2 with focus := .body (.inl (z.push v)) .proceed })
  | .inr z => ∃ n x, Reaches (step s.engine) u n
      (w.replace u.2.current x, { u.2 with focus := .body (.inr z) wait.granted }) ∧ x.delegationResult = v

variable {s : Session} {u s₁ : State (Nat ⊕ Unit) (Execution ⊕ Script.Frame) (Output × Script.Tally)}
  {w w₁ : World (Nat ⊕ Unit) (Execution ⊕ Script.Frame) (Output × Script.Tally)}
  {d : Drive (Execution ⊕ Script.Frame)}
  {wait : Wait (Execution ⊕ Script.Frame)} {c : GeneratorId} {r : Except GeneratorError Bool}
  {x y : Generator (Nat ⊕ Unit) (Execution ⊕ Script.Frame)} {history : History (Execution ⊕ Script.Frame)}

/-- A paused body of the machine is one that named a source and awaits its result. -/
theorem named_of_paused (hrun : Moment.Run s.engine ⟨w, some d, history, []⟩) {sent : Option Value}
    (hfocus : d.focus = .enter sent) (hx : w.generator? d.current = some x) (hd : x.isDelegating = true)
    {frame : Execution ⊕ Script.Frame} (hframe : x.frame = some frame) :
    ∃ frame', frame = pausedFrame frame' ∧ ∀ z, frame' = .inl z → z.await .nothing = z := by
  cases frame with
  | inr z => exact ⟨.inr z, rfl, nofun⟩
  | inl z =>
    have hposition : d.position d.current = .outside := by rw [position_current, hfocus]; rfl
    have htune := Machine.inTune (m := s.machine) hrun List.not_mem_nil hx
    simp only [Moment.position, hposition] at htune
    refine ⟨.inl (z.await .nothing), ?_, ?_⟩
    · rw [pausedFrame, ← htune.held hframe hd]
      rfl
    · rintro _ ⟨⟩
      rfl

theorem evaluates (hrun : Moment.Run s.engine ⟨u.1, some u.2, history, []⟩)
    (hdriven : LocalInvariant.Driven Generator.FitsRole u) (hseeks : Seeks s.engine u wait c)
    (h : Turns s.engine u wait c s₁) (he : Ends (step s.engine) s₁ (w₁, r)) (hy : w₁.generator? c = some y)
    (hf : y.isFinished = true) (hnone : y.lastError = none) (hx : u.1.generator? u.2.current = some x) :
    ∃ frame, Named x wait frame ∧ s.Evaluates u wait w₁ (y.returnValue.getD .null) frame := by
  have hreaches {frame : Execution ⊕ Script.Frame} {x' : Generator _ _}
      (hon : GoesOn x (y.returnValue.getD .null) wait frame x') := h.goesOn hdriven he hy hf hnone hx hon
  have hx₁ := (h.ends hdriven he).2.trans hx
  generalize y.returnValue.getD .null = v at hreaches ⊢
  have hsame (x₁ x₂ : Generator (Nat ⊕ Unit) (Execution ⊕ Script.Frame)) :
      (w₁.replace u.2.current x₁).replace u.2.current x₂ = w₁.replace u.2.current x₂ := World.modify_replace ..
  have hread (x₁ : Generator (Nat ⊕ Unit) (Execution ⊕ Script.Frame)) :=
    World.generator?_replace_self hx₁ x₁
  cases hseeks with
  | @inBody w d frame frame' reply heap state source _ hfocus hE hsource =>
    obtain ⟨n, hr⟩ := hreaches (.inBody frame')
    refine ⟨frame', .inBody frame', ?_⟩
    cases frame' with
    | inr z => exact ⟨n, _, hr, rfl⟩
    | inl z =>
      have hidle : x.isDelegating = false := undelegating_of_yieldFrom hrun rfl hfocus hE hx
      have hfrom : yieldsFrom (.inl z) = true := rfl
      obtain ⟨m, hr'⟩ := yieldFrom_goesOn (s := s) (d := { d with focus := .body (.inl z) .accepted })
        hfrom rfl (hread (x.skipDelegation v)) hidle
      exact ⟨n + m, _, hsame _ _ ▸ hr.trans hr'⟩
  | @paused w d sent x' _ hfocus hx' hunfinished hd =>
    obtain rfl := Option.some.inj (hx'.symm.trans hx)
    have hidle := hdriven.2 _ x' hx
    rw [role_current, show (w, d).2.focus = .enter sent from hfocus] at hidle
    obtain ⟨frame, hframe⟩ := Option.isSome_iff_exists.mp (Generator.FitsRole.delegating hidle hd).2.1
    obtain ⟨frame', rfl, hwake⟩ := named_of_paused hrun hfocus hx
      (by rw [Generator.isDelegating, hd]; rfl) hframe
    obtain ⟨n, hr⟩ := hreaches (.paused hframe)
    refine ⟨frame', .paused hframe, ?_⟩
    cases frame' with
    | inr z => exact ⟨n, _, hr, rfl⟩
    | inl z =>
      have hr' := resumed_goesOn (s := s) (x := z.await .delegationResult)
        (d := { d with focus := .body (.inl (z.await .delegationResult)) .resume }) rfl rfl
        (hread (x'.endDelegation v).release)
      have hwoken : (z.await .delegationResult).await .nothing = z := hwake z rfl
      rw [hsame, hwoken] at hr'
      exact ⟨n + 2, _, hr.trans hr'⟩

end Session

/-- Failure propagates along delegations. A call on `g` of a session, in any world that operations lead to, is
at `u`.

If each generator of the chain `g :: gs` delegates to the next one when the call is made, and the body of the last
one fails at `u`, then the call gives back an error, all generators of the chain have ended by the error that the
next one left, down to the body's, and of each but the last one the held frame was discarded, once, and nothing else
happened to it.

If the generator in turn at `u` is about to turn to an unlocked source, it waits for a call of the source. When that
has ended, and the source is finished by an error, now or before, the generator in turn ends by it and its body does
not go on. A script's `attempt` is not meant here (`Session.catches`), for it is no yield from: it only notes how its
request was answered, a refusal like any other, and goes on to its next line without a result, which is also why it
outlasts a refusal by a running generator (`reentrancy_safe`). If the source is finished otherwise, closed or by
returning, what the body yielded from evaluates to its return value. -/
theorem failure_propagates (s : Session)
    {w : World (Nat ⊕ Unit) (Execution ⊕ Script.Frame) (Output × Script.Tally)} (hw : w.Reachable s.engine)
    {g : GeneratorId} {input : Input} {n : Nat}
    {t u : Drive.State (Nat ⊕ Unit) (Execution ⊕ Script.Frame) (Output × Script.Tally)}
    (hopen : w.open? g input = some t) (hreach : Reaches (Drive.step s.engine) t n u) :
    (∀ gs frame reply heap state e, List.IsChain w.DelegatesTo (g :: gs) →
      u.2.current = (g :: gs).getLast (List.cons_ne_nil g gs) → u.2.focus = .body frame reply →
      s.engine.step u.1.heap u.1.state frame reply = (heap, state, .fail e) →
      ∃ es v w' err, Drive.Records s.engine t es v ∧ Drive.step s.engine v = .halt (w', .error err) ∧
        (∃ fuel, w.advance s.engine fuel g input = some (w', .error err)) ∧ w'.Undone e (g :: gs) err ∧
        ∀ o ∈ (g :: gs).dropLast, ∃ frame cause, w.heldFrame o = some frame ∧
          es.of o = [.discarded frame, .brokenOff cause]) ∧
    ∀ wait c x y, Drive.Seeks s.engine u wait c → u.1.generator? u.2.current = some x →
      u.1.generator? c = some y → y.locked = false →
      ∃ t₁, Drive.Turns s.engine u wait c t₁ ∧
        (y.isFinished = true →
          ∃ w₁ r, Ends (Drive.step s.engine) t₁ (w₁, r) ∧ w₁.generator? c = some y) ∧
        ∀ w₁ r y₁, Ends (Drive.step s.engine) t₁ (w₁, r) → w₁.generator? c = some y₁ →
          (∀ e, y₁.lastError = some e → Session.catches wait = false →
            Drive.GivesUp s.engine u wait (.sourceFailed y₁.function.name e.message) w₁) ∧
          (y₁.isFinished = true → y₁.lastError = none →
            ∃ frame, Session.Named x wait frame ∧ s.Evaluates u wait w₁ (y₁.returnValue.getD .null) frame) := by
  have hrest := Generator.fitsRole_invariant.reachable hw
  have hdriven := Generator.fitsRole_invariant.reaches hrest hopen hreach
  constructor
  · intro gs frame reply heap state e hchain hcurrent hfocus hE
    obtain ⟨es, v, w', err, hrecords, hhalt, hundone, hevents⟩ :=
      Drive.undone_of_failure hrest hchain hopen hreach hcurrent hfocus hE
    obtain ⟨k, hr⟩ := hrecords.reaches
    exact ⟨es, v, w', err, hrecords, hhalt, (World.advance_iff hopen).mpr (hr.ends_iff.mpr (.halt hhalt)),
      hundone, hevents⟩
  · intro wait c x y hseeks hx hy hl
    obtain ⟨t₁, hturns, hfinished⟩ := Drive.seeks_unlocked hdriven hseeks hy hl
    refine ⟨t₁, hturns, hfinished, fun w₁ r y₁ he hy₁ => ⟨fun e herror hcatch => ?_, fun hf hnone => ?_⟩⟩
    · exact hturns.givesUp hdriven he hy₁ herror (s.passes hcatch)
    · obtain ⟨history, hrun⟩ := Moment.run_of_call hw hopen hreach
      exact Session.evaluates hrun hdriven hseeks hturns he hy₁ hf hnone hx

/-- A body of the machine that delegates to a script, which fails when it is advanced for the second time. -/
theorem failure_propagates_of_script :
    ∃ (s : Session) (w w' : World _ _ _) (err : GeneratorError) (fuel : Nat),
      w.Reachable s.engine ∧ w.DelegatesTo 1 0 ∧ w.advance s.engine fuel 1 .next = some (w', .error err) ∧
        w'.Undone (.failure "boom") [1, 0] err := by
  let body : Array Cue := #[.yieldPair .null .null, .fail "boom"]
  obtain ⟨scripts, hbody⟩ : ∃ scripts : Scripts, scripts.body "source" = body :=
    ⟨Std.TreeMap.empty.insert "source" body, by simp [Scripts.body]⟩
  let s : Session := ⟨⟨.empty, .standard⟩, scripts, ⟨.empty, (.silent, .empty), #[]⟩⟩
  let outer : Function := ⟨"outer", 1, 0, #[.loadArg 0, .yieldFrom, .ret]⟩
  let frame : Execution := ⟨2, 0, { Frame.ofCall outer [.generator 0] with pc := 2 }, []⟩
  let x₀ : Generator (Nat ⊕ Unit) (Execution ⊕ Script.Frame) := .fresh (.inr ()) ⟨"source", 0, 0, #[]⟩ []
  let y₀ : Generator (Nat ⊕ Unit) (Execution ⊕ Script.Frame) := .fresh (.inl 0) outer [.generator 0]
  let x₁ : Generator (Nat ⊕ Unit) (Execution ⊕ Script.Frame) :=
    { x₀ with lifecycle := ⟨true, false, true⟩, frame := some (.inr ⟨body, [], 1⟩) }
  let y₁ : Generator (Nat ⊕ Unit) (Execution ⊕ Script.Frame) :=
    { y₀ with
      lifecycle := ⟨true, false, true⟩, delegation := some (.child 0),
      frame := some (.inl (frame.await .delegationResult)) }
  let w₀ : World (Nat ⊕ Unit) (Execution ⊕ Script.Frame) (Output × Script.Tally) :=
    ⟨.empty, (.silent, .empty), #[x₀, y₀]⟩
  let w₁ : World (Nat ⊕ Unit) (Execution ⊕ Script.Frame) (Output × Script.Tally) :=
    ⟨.empty, (.silent, ⟨1, 0, #[]⟩), #[x₁, y₁]⟩
  let named : Drive (Execution ⊕ Script.Frame) := ⟨0, none, .enter none, [⟨1, none, .inBody (.inl frame)⟩]⟩
  have hstart : Drive.step s.engine
      (⟨.empty, (.silent, .empty), #[x₀.setLock true, y₀.begin.setLock true]⟩, named) =
      .next (⟨.empty, (.silent, ⟨1, 0, #[]⟩), #[x₀.begin.setLock true, y₀.begin.setLock true]⟩,
        { named with focus := .body (.inr ⟨body, [], 0⟩) .proceed }) := by
    rw [← hbody]
    rfl
  have hnamed : Reaches (Drive.step s.engine) (w₀.lock 1, ⟨1, none, .enter none, []⟩) 3
      (⟨.empty, (.silent, .empty), #[x₀.setLock true, y₀.begin.setLock true]⟩, named) :=
    .next rfl (.next rfl (.next rfl (.refl _)))
  let given : World (Nat ⊕ Unit) (Execution ⊕ Script.Frame) (Output × Script.Tally) :=
    ⟨.empty, (.silent, ⟨1, 0, #[]⟩), #[x₁, { y₁ with frame := none, locked := true }]⟩
  have hyields : Reaches (Drive.step s.engine)
      (⟨.empty, (.silent, ⟨1, 0, #[]⟩), #[x₀.begin.setLock true, y₀.begin.setLock true]⟩,
        { named with focus := .body (.inr ⟨body, [], 0⟩) .proceed }) 2
      (⟨.empty, (.silent, ⟨1, 0, #[]⟩), #[x₁.setLock true, y₀.begin.setLock true]⟩,
        { named with focus := .settled (.ok true) }) := .next rfl (.next rfl (.refl _))
  have hgiven : Drive.step s.engine
      (⟨.empty, (.silent, ⟨1, 0, #[]⟩), #[x₁.setLock true, y₀.begin.setLock true]⟩,
        { named with focus := .settled (.ok true) }) =
      .next (given, ⟨1, none, .body (.inl frame) .accepted, []⟩) := rfl
  have hpaused : Ends (Drive.step s.engine) (given, ⟨1, none, .body (.inl frame) .accepted, []⟩) (w₁, .ok true) :=
    ends_of_run (n := 4) rfl
  have hends := hnamed.ends_iff.mpr (.next hstart (hyields.ends_iff.mpr (.next hgiven hpaused)))
  obtain ⟨fuel, hadvance⟩ := (World.advance_iff (w := w₀) (g := 1) (i := .next) rfl).mpr hends
  have hcreated : World.Operated s.engine s.world w₀ :=
    ((World.Operated.refl s.world).step
      (rfl : World.operate s.engine 0 _ (.create (.inr ()) ⟨"source", 0, 0, #[]⟩ []) = some _)).step
      (rfl : World.operate s.engine 0 _ (.create (.inl 0) outer [.generator 0]) = some _)
  have hnext : w₀.operate s.engine fuel (.next 1) = some (.moved true, w₁) := by
    rw [World.operate, hadvance]
    rfl
  have hw : w₁.Reachable s.engine := ⟨_, _, hcreated.step hnext⟩
  have hd : w₁.DelegatesTo 1 0 := ⟨y₁, rfl, rfl⟩
  have hopen : w₁.open? 1 .next = some (w₁.lock 1, ⟨1, none, .enter none, []⟩) := rfl
  have hturn : Drive.step s.engine (w₁.lock 1, ⟨1, none, .enter none, []⟩) =
      .next ((w₁.lock 1).lock 0, ⟨0, none, .enter none, [⟨1, none, .paused⟩]⟩) := rfl
  have hresume : Drive.step s.engine ((w₁.lock 1).lock 0, ⟨0, none, .enter none, [⟨1, none, .paused⟩]⟩) =
      .next (⟨.empty, (.silent, ⟨1, 0, #[]⟩), #[x₁.release.setLock true, y₁.setLock true]⟩,
        ⟨0, none, .body (.inr ⟨body, [], 1⟩) .resume, [⟨1, none, .paused⟩]⟩) := rfl
  obtain ⟨-, -, w', err, -, -, ⟨fuel', herror⟩, hundone, -⟩ :=
    (failure_propagates s hw hopen (.next hturn (.single hresume))).1 [0] _ _ _ _ _ (by simpa using hd) rfl rfl rfl
  exact ⟨s, w₁, w', err, fuel', hw, hd, herror, hundone⟩

end YieldMachine
