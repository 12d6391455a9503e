import Mathlib.Data.List.Chain
import YieldMachine.Proofs.Drive.Nesting
import YieldMachine.Proofs.Finality

/-!
Chains of delegations. If each generator of a chain delegates to the next one, a call on the first one is soon within
a call on the second one, and so on (`call_stage`). If the body of the last one fails, the calls return one after the
other, each with an error that names the next generator and its error, and the frames that were held are discarded
(`undone_of_failure`).
-/

namespace YieldMachine

variable {H F S : Type}

/-- Finished by an error, with nothing left. -/
structure Generator.EndedBy (e : GeneratorError) (x : Generator H F) : Prop where
  finished : x.isFinished = true
  returnValue : x.returnValue = none
  delegation : x.delegation = none
  lastError : x.lastError = some e

theorem Generator.FitsRole.endedBy {x : Generator H F} {e : GeneratorError}
    (h : x.FitsRole (.settled (.error e))) : x.EndedBy e := by
  obtain ⟨⟨hlifecycle, -, hdelegation⟩, hreturn, herror⟩ := h
  exact ⟨by rw [isFinished, hlifecycle], hreturn, hdelegation, herror⟩

namespace World

/-- The first generator delegates to the second. -/
def DelegatesTo (w : World H F S) (g c : GeneratorId) : Prop :=
  ∃ x, w.generator? g = some x ∧ x.delegation = some (.child c)

def heldFrame (w : World H F S) (g : GeneratorId) : Option F := (w.generator? g).bind (·.frame)

/-- All generators of a chain have ended: the last one by an error `e` of its body, and each other one by the error
that its source, the next one, left. The first one has ended by the error given. -/
inductive Undone (w : World H F S) (e : BodyError) : List GeneratorId → GeneratorError → Prop where
  | source {g : GeneratorId} {x : Generator H F} (hx : w.generator? g = some x)
      (h : x.EndedBy (.executionFailed e)) : Undone w e [g] (.executionFailed e)
  | delegator {g c : GeneratorId} {gs : List GeneratorId} {x y : Generator H F} {cause : GeneratorError}
      (hc : Undone w e (c :: gs) cause) (hy : w.generator? c = some y) (hx : w.generator? g = some x)
      (h : x.EndedBy (.delegation (.sourceFailed y.function.name cause.message))) :
      Undone w e (g :: c :: gs) (.delegation (.sourceFailed y.function.name cause.message))

variable {w w' : World H F S} {g c o : GeneratorId} {gs : List GeneratorId} {x : Generator H F}
  {e : BodyError} {err : GeneratorError}

theorem DelegatesTo.lock (h : w.DelegatesTo g c) (o : GeneratorId) : (w.lock o).DelegatesTo g c := by
  obtain ⟨x, hx, hd⟩ := h
  by_cases hg : g = o
  · subst hg
    exact ⟨x.setLock true, by simp [hx], hd⟩
  · exact ⟨x, (generator?_lock_of_ne hg).trans hx, hd⟩

theorem heldFrame_lock (w : World H F S) (g o : GeneratorId) : (w.lock o).heldFrame g = w.heldFrame g := by
  rw [heldFrame, heldFrame]
  by_cases hg : g = o
  · subst hg
    rw [generator?_lock_self]
    cases w.generator? g <;> rfl
  · rw [generator?_lock_of_ne hg]

theorem Undone.finished (h : w.Undone e gs err) :
    ∀ o ∈ gs, ∃ x, w.generator? o = some x ∧ x.isFinished = true := by
  induction h with
  | source hx h =>
    intro o ho
    obtain rfl := List.mem_singleton.mp ho
    exact ⟨_, hx, h.finished⟩
  | delegator _ _ hx h ih =>
    intro o ho
    rcases List.mem_cons.mp ho with rfl | ho
    · exact ⟨_, hx, h.finished⟩
    · exact ih o ho

theorem Undone.head (h : w.Undone e (g :: gs) err) : ∃ x, w.generator? g = some x ∧ x.EndedBy err := by
  cases h with
  | source hx h => exact ⟨_, hx, h⟩
  | delegator _ _ hx h => exact ⟨_, hx, h⟩

theorem Undone.congr (h : w.Undone e gs err) (hsame : ∀ o ∈ gs, w'.generator? o = w.generator? o) :
    w'.Undone e gs err := by
  induction h with
  | source hx h => exact .source ((hsame _ List.mem_cons_self).trans hx) h
  | delegator _ hy hx h ih =>
    have hrest := fun o ho => hsame o (List.mem_cons_of_mem _ ho)
    exact .delegator (ih hrest) ((hrest _ List.mem_cons_self).trans hy)
      ((hsame _ List.mem_cons_self).trans hx) h

end World

namespace Drive

variable {E : Engine H F S} {w w' : World H F S} {g c : GeneratorId} {x y : Generator H F} {input : Input}
  {s s' t u : State H F S} {n : Nat} {gs : List GeneratorId} {es : History F}

theorem resting_lock (h : LocalInvariant.Resting Generator.FitsRole w) (g : GeneratorId) :
    LocalInvariant.Resting Generator.FitsRole (w.lock g) :=
  LocalInvariant.modify h fun _ _ hx => hx.setLock true

/-- Steps of a drive leave a finished generator as it is, its lock apart. -/
theorem finished_reaches {o : GeneratorId} (h : LocalInvariant.Driven Generator.FitsRole s)
    (hx : s.1.generator? o = some x) (hf : x.isFinished = true) (hr : Reaches (step E) s n t) :
    ∃ b, t.1.generator? o = some (x.setLock b) := by
  refine (hr.invariant (I := fun t => LocalInvariant.Driven Generator.FitsRole t ∧
    ∃ b, t.1.generator? o = some (x.setLock b)) ⟨h, x.locked, hx⟩ ?_).2
  rintro t t' ⟨hdriven, b, hy⟩ hs
  obtain ⟨b', hy'⟩ := Generator.step_finished hdriven hy hf hs
  exact ⟨Generator.fitsRole_invariant.step hdriven hs, b', hy'⟩

/-- A call keeps apart from what is locked when it begins. -/
theorem apart_of_locked (E : Engine H F S) (hopen : w.open? c input = some s) (hx : w.generator? g = some x)
    (hl : x.locked = true) : Apart E g s ∧ s.1.generator? g = some x := by
  have hne : g ≠ c := by
    rintro rfl
    obtain ⟨z, hz, hunlocked, -⟩ := World.open_cases hopen
    obtain rfl := Option.some.inj (hz.symm.trans hx)
    rw [hl] at hunlocked
    cases hunlocked
  obtain ⟨hc, hchain⟩ := World.open_chained hopen
  obtain ⟨z, -, -, rfl⟩ := World.open_cases hopen
  have hkept : (w.lock c).generator? g = some x := (World.generator?_lock_of_ne hne).trans hx
  exact ⟨⟨hc, by simpa [hchain] using hne, x, hkept, .inl hl⟩, hkept⟩

/-- A generator that has settled, and that nobody waits for, goes nowhere. -/
theorem reaches_settled {r : Except GeneratorError Bool}
    (hr : Reaches (step E) (w, ⟨g, none, .settled r, []⟩) n t) : t = (w, ⟨g, none, .settled r, []⟩) := by
  cases hr with
  | refl => rfl
  | next hs _ =>
    rw [step_halt (.of_none rfl rfl) rfl] at hs
    cases hs

theorem focus_of_settled {r : Except GeneratorError Bool} (hs : step E s = .next (w, ⟨g, none, .settled r, []⟩))
    (hr : Reaches (step E) s (n + 1) t) : t.2.focus = .settled r := by
  cases hr with
  | next hs' hr' =>
    obtain rfl := Transition.next.inj (hs'.symm.trans hs)
    rw [reaches_settled hr']

/-! ### A call on a generator that delegates -/

/-- The link of a generator that waits for its source between two pairs. -/
def pausedLink (g : GeneratorId) : Link F := ⟨g, none, .paused⟩

/-- To move on to an unlocked generator is to call it on behalf of those that wait. -/
theorem descend_unlocked (d : Drive F) (input : Input) (wait : Wait F) (hy : w.generator? c = some y)
    (hl : y.locked = false) :
    ∃ s₁, w.open? c input = some s₁ ∧
      descend w d c input.sent? wait = some (above (⟨d.current, d.resend, wait⟩ :: d.waiting) s₁) := by
  refine ⟨_, World.open_eq hy hl, ?_⟩
  simp only [descend, hy, hl, Bool.false_eq_true, if_false, above, turnTo]
  split <;> rfl

/-- The call turns to the source, as a call of the source would, or is refused. -/
theorem step_delegator (hrest : LocalInvariant.Resting Generator.FitsRole w) (hd : w.DelegatesTo g c)
    (hopen : w.open? g input = some s) :
    (∃ s₁, (w.lock g).open? c input = some s₁ ∧ step E s = .next (above [pausedLink g] s₁)) ∨
      ∃ w', step E s = .next (w', ⟨g, none, .settled (.error (.delegation .alreadyRunning)), []⟩) := by
  obtain ⟨x, hx, hdelegation⟩ := hd
  obtain ⟨x', hx', hl, rfl⟩ := World.open_cases hopen
  obtain rfl : x' = x := Option.some.inj (hx'.symm.trans hx)
  have hsuspended := (hrest g x' hx).delegating hdelegation
  have hstarted : x'.isStarted = true := by rw [Generator.isStarted, hsuspended.1]
  have hunfinished : (x'.setLock true).isFinished = false := by
    show x'.lifecycle.finished = false
    rw [hsuspended.1]
  have hlocked : (w.lock g).generator? g = some (x'.setLock true) := by simp [hx]
  have hdelegation' : (x'.setLock true).delegation = some (.child c) := hdelegation
  rw [turnTo, if_pos hstarted, step_enter rfl hlocked]
  simp only [enter, hunfinished, hdelegation', Bool.false_eq_true, if_false]
  cases hy : (w.lock g).generator? c with
  | none => exact .inr ⟨_, by simp only [descend, hy]; rfl⟩
  | some y =>
    cases hly : y.locked with
    | true => exact .inr ⟨_, by simp only [descend, hy, hly]; rfl⟩
    | false =>
      obtain ⟨s₁, hopen₁, hdescend⟩ :=
        descend_unlocked ⟨g, none, .enter input.sent?, []⟩ input .paused hy hly
      exact .inl ⟨s₁, hopen₁, by rw [hdescend]; rfl⟩

/-- A source that ended by an error ends the generator that waits for it. -/
theorem received_error (E : Engine H F S) (w : World H F S) (c g : GeneratorId) {err : GeneratorError}
    (hret : y.returnValue = none) (herr : y.lastError = some err) :
    received E w c y (.error err) (pausedLink g) [] =
      (w.fail E g (.delegation (.sourceFailed y.function.name err.message)),
        ⟨g, none, .settled (.error (.delegation (.sourceFailed y.function.name err.message))), []⟩) := by
  simp only [received, pausedLink, Generator.outcome, hret, herr]
  rfl

/-- How far a call on `g`, which delegates to `c`, has come. -/
inductive Stage (E : Engine H F S) (w : World H F S) (g c : GeneratorId) (input : Input) (s : State H F S) :
    State H F S → Prop where
  | entered : Stage E w g c input s s
  /-- It is within a call on the source. -/
  | within {s₁ s' : State H F S} {k : Nat} (hopen : (w.lock g).open? c input = some s₁)
      (hs : step E s = .next (above [pausedLink g] s₁)) (hr : Reaches (step E) s₁ k s') :
      Stage E w g c input s (above [pausedLink g] s')
  /-- The source has no more pairs. -/
  | past {s₁ s₂ t : State H F S} {w₂ : World H F S} {k m : Nat}
      (hopen : (w.lock g).open? c input = some s₁) (hs : step E s = .next (above [pausedLink g] s₁))
      (hr : Reaches (step E) s₁ k s₂) (hhalt : step E s₂ = .halt (w₂, .ok false))
      (hr' : Reaches (step E) (above [pausedLink g] s₂) m t) : Stage E w g c input s t
  /-- It is about to return, with a pair or an error. -/
  | settled {t : State H F S} {r : Except GeneratorError Bool} (hfocus : t.2.focus = .settled r)
      (hr : r ≠ .ok false) : Stage E w g c input s t

theorem call_stage (hrest : LocalInvariant.Resting Generator.FitsRole w) (hd : w.DelegatesTo g c)
    (hopen : w.open? g input = some s) (hr : Reaches (step E) s n t) : Stage E w g c input s t := by
  cases hr with
  | refl => exact .entered
  | next hs hr =>
    rcases step_delegator (E := E) hrest hd hopen with ⟨s₁, hopen₁, hs₁⟩ | ⟨w', hs'⟩
    · obtain rfl := Transition.next.inj (hs.symm.trans hs₁)
      rcases reaches_above_cases hr with ⟨s', hr', rfl⟩ | ⟨k, m, s₂, ⟨w₂, r⟩, hr₂, hhalt, hr'⟩
      · exact .within hopen₁ hs₁ hr'
      · obtain ⟨x, hx, hrole⟩ := (Generator.fitsRole_invariant.ends (resting_lock hrest g) hopen₁
          (hr₂.ends_iff.mpr (.halt hhalt))).2
        obtain ⟨rfl, -⟩ := ((World.open_onCall hopen₁).reaches hr₂).halt hhalt
        have hreceived := step_above_halt hhalt hx (pausedLink g) []
        match r, hrole with
        | .ok false, _ => exact .past hopen₁ hs₁ hr₂ hhalt hr'
        | .ok true, _ => exact .settled (focus_of_settled (r := .ok true) hreceived hr') (by simp)
        | .error err, hrole =>
          obtain ⟨-, hret, herr⟩ := hrole
          rw [received_error E w₂ _ g (y := x.setLock false) hret herr] at hreceived
          exact .settled (focus_of_settled hreceived hr') (by simp)
    · exact .settled (focus_of_settled hs' (.next hs hr)) (by simp)

theorem driven_above (hrest : LocalInvariant.Resting Generator.FitsRole w) {s₁ s₂ : State H F S}
    (hopen : w.open? g input = some s) (hs : step E s = .next (above [pausedLink g] s₁))
    (hr : Reaches (step E) s₁ n s₂) :
    LocalInvariant.Driven Generator.FitsRole (above [pausedLink g] s₂) :=
  Generator.fitsRole_invariant.reaches hrest hopen (.next hs (reaches_above hr _))

/-- A call that ends without a pair and without an error has finished the last generator of the chain. -/
theorem last_finished (hrest : LocalInvariant.Resting Generator.FitsRole w)
    (hchain : List.IsChain w.DelegatesTo (g :: gs)) (hopen : w.open? g input = some s)
    (hr : Reaches (step E) s n t) (hhalt : step E t = .halt (w', .ok false)) :
    ∃ x, t.1.generator? ((g :: gs).getLast (by simp)) = some x ∧ x.isFinished = true := by
  induction gs generalizing w g s n t w' with
  | nil =>
    obtain ⟨rfl, hfocus, -⟩ := ((World.open_onCall hopen).reaches hr).halt hhalt
    obtain ⟨hc, hall⟩ := Generator.fitsRole_invariant.reaches hrest hopen hr
    obtain ⟨x, hx, -⟩ := hc.current
    have hrole := hall _ x hx
    rw [role_current, hfocus] at hrole
    obtain ⟨hfinished, -⟩ : x.In .finished ∧ _ := hrole
    exact ⟨x, hx, by rw [Generator.isFinished, hfinished.1]⟩
  | cons c gs ih =>
    obtain ⟨hd, hchain'⟩ := List.isChain_cons_cons.mp hchain
    obtain ⟨⟨hfocus, -⟩, hwaiting, -⟩ := halt_cases hhalt
    cases call_stage hrest hd hopen hr with
    | entered =>
      obtain ⟨x, -, -, rfl⟩ := World.open_cases hopen
      rw [turnTo] at hfocus
      split at hfocus <;> cases hfocus
    | within => simp [above] at hwaiting
    | @past s₁ s₂ _ w₂ k m hopen₁ hs hr₂ hhalt₂ hr' =>
      obtain ⟨x, hx, hf⟩ := ih (resting_lock hrest g)
        (hchain'.imp fun a b h => h.lock g) hopen₁ hr₂ hhalt₂
      obtain ⟨b, hx'⟩ := finished_reaches (driven_above hrest hopen hs hr₂) hx hf hr'
      exact ⟨_, hx', hf⟩
    | settled hfocus' hr' =>
      rw [hfocus] at hfocus'
      cases hfocus'
      exact absurd rfl hr'

/-! ### What happens to the generators of the chain -/

/-- Nothing happens when a call turns to the source. -/
theorem events_delegator {s₁ : State H F S} (hrest : LocalInvariant.Resting Generator.FitsRole w)
    (hd : w.DelegatesTo g c) (hopen : w.open? g input = some s)
    (hs : step E s = .next (above [pausedLink g] s₁)) : events E s = [] := by
  obtain ⟨x, hx, hl, rfl⟩ := World.open_cases hopen
  have hopen' : w.logged.open? g input = some ((w.lock g).logged, turnTo x g input.sent? []) :=
    World.open_eq (w := w.logged) hx hl
  obtain ⟨w₁, hrecorded, -⟩ := step_recorded hs
  rcases step_delegator (E := E.recorded) (w := w.logged) hrest hd hopen' with ⟨s₂, hopen₂, hs₂⟩ | ⟨w', hs'⟩
  · obtain ⟨y, -, -, rfl⟩ := World.open_cases hopen₂
    have hfocus : (turnTo y c input.sent? []).focus.brokenOff = ([] : List (Event F)) := by
      rw [turnTo]
      split <;> rfl
    simp only [events, hs₂, above, hfocus]
    rfl
  · have hdrive := congrArg Prod.snd (Transition.next.inj (hrecorded.symm.trans hs'))
    have hwaiting := congrArg waiting hdrive
    simp at hwaiting

/-- When the source has ended by an error, the frame of the generator that waits for it is discarded, and its
delegation is broken off. -/
theorem events_broken {err : GeneratorError} {frame : F} (hhalt : step E t = .halt (w, .error err))
    (hy : w.generator? t.2.current = some y) (hret : y.returnValue = none) (herr : y.lastError = some err)
    (hframe : w.heldFrame g = some frame) :
    events E (above [pausedLink g] t) = [(g, .discarded frame),
      (g, .brokenOff (.sourceFailed y.function.name err.message))] := by
  obtain ⟨w₁, d⟩ := t
  obtain ⟨hdone, hwaiting, rfl⟩ := halt_cases hhalt
  have hhalt' : step E.recorded (w₁.logged, d) = .halt (w₁.logged.unlock d.current, .error err) :=
    step_halt hdone hwaiting
  have hreceived := step_above_halt hhalt' (y := y) hy (pausedLink g) []
  rw [received_error E.recorded _ _ g hret herr] at hreceived
  have hframe' : ((w₁.logged.unlock d.current).generator? g).bind (·.frame) = some frame := hframe
  have hactor : actor { d with waiting := d.waiting ++ [pausedLink g] }
      ⟨g, none, .settled (.error (.delegation (.sourceFailed y.function.name err.message))), []⟩ = g := by
    rw [actor, show d.focus = .settled (.error err) from hdone.1]
  have hstate : ((w₁.logged.unlock d.current).fail E.recorded g
      (.delegation (.sourceFailed y.function.name err.message))).state.2 = [.discarded frame] := by
    simp only [World.fail, World.finish, hframe']
    rfl
  have hstep : step E.recorded ((above [pausedLink g] (w₁, d)).1.logged, (above [pausedLink g] (w₁, d)).2) =
    .next _ := hreceived
  simp only [events, hstep, hstate]
  simp only [above, hactor]
  rfl

/-! ### The failure of the last generator -/

/-- A call in which the body of the generator itself fails. -/
theorem call_fails {frame : F} {reply : Reply} {heap : Heap} {state : S} {e : BodyError}
    (hrest : LocalInvariant.Resting Generator.FitsRole w) (hopen : w.open? g input = some s)
    (hr : Reaches (step E) s n u) (hcurrent : u.2.current = g) (hfocus : u.2.focus = .body frame reply)
    (hE : E.step u.1.heap u.1.state frame reply = (heap, state, .fail e)) :
    ∃ es t w', Records E s es t ∧ step E t = .halt (w', .error (.executionFailed e)) ∧
      w'.Undone e [g] (.executionFailed e) := by
  have hwaiting := ((World.open_onCall hopen).reaches hr).alone hcurrent
  obtain ⟨hc, hall⟩ := Generator.fitsRole_invariant.reaches hrest hopen hr
  obtain ⟨x, hx, -⟩ := hc.current
  have hrunning := hall _ x hx
  rw [role_current, hfocus] at hrunning
  obtain ⟨w₁, d⟩ := u
  subst hcurrent
  obtain ⟨es, hrecords⟩ := records_of_reaches hr
  have hfail := step_body (d := d) hfocus hE
  have hhalt := step_halt (E := E)
    (w := (World.fail { w₁ with heap := heap, state := state } E d.current (.executionFailed e)))
    (d := { d with focus := .settled (.error (.executionFailed e)) }) ⟨rfl, fun _ _ _ => nofun⟩ hwaiting
  have hread : World.generator? { w₁ with heap := heap, state := state } d.current = some x := hx
  exact ⟨_, _, _, hrecords.next hfail, hhalt,
    .source (x := (x.terminate.setError (.executionFailed e)).setLock false) (by simp [hread])
      ⟨rfl, hrunning.returnValue, rfl, rfl⟩⟩

/-- The call on the source leaves the generator that waits for it alone. -/
theorem delegator_kept {s₁ : State H F S} {r : Result H F S} (hx : w.generator? g = some x)
    (hopen₁ : (w.lock g).open? c input = some s₁) (hrecords : Records E s₁ es t) (hhalt : step E t = .halt r) :
    r.1.generator? g = some (x.setLock true) ∧ es.of g = [] := by
  obtain ⟨k, hreach⟩ := hrecords.reaches
  have hlocked : (w.lock g).generator? g = some (x.setLock true) := by simp [hx]
  obtain ⟨hapart, hkept⟩ := apart_of_locked E hopen₁ hlocked rfl
  obtain ⟨-, -, hr⟩ := halt_cases hhalt
  have hne : g ≠ t.2.current := fun heq => (hapart.reaches hreach).outside (heq ▸ List.mem_cons_self)
  rw [hr, World.generator?_unlock_of_ne hne]
  exact ⟨hapart.kept_reaches hkept hreach, hrecords.of_apart hapart⟩

/-- When the source has ended by an error, so does the generator that waits for it, and its frame is discarded. -/
theorem delegator_broken {s₁ : State H F S} {w₂ : World H F S} {err : GeneratorError} {cause : DelegationError}
    (hrest : LocalInvariant.Resting Generator.FitsRole w) (hd : w.DelegatesTo g c)
    (hopen : w.open? g input = some s) (hopen₁ : (w.lock g).open? c input = some s₁)
    (hs : step E s = .next (above [pausedLink g] s₁)) (hrecords : Records E s₁ es t)
    (hhalt : step E t = .halt (w₂, .error err)) (hy : w₂.generator? c = some y) (hended : y.EndedBy err)
    (hcause : cause = .sourceFailed y.function.name err.message) :
    ∃ frame t' w' x, w.heldFrame g = some frame ∧
      Records E s (es ++ [.discarded frame, .brokenOff cause].map (g, ·)) t' ∧
      step E t' = .halt (w', .error (.delegation cause)) ∧
      w'.generator? g = some x ∧ x.EndedBy (.delegation cause) ∧
      ∀ o, o ≠ g → w'.generator? o = w₂.generator? o := by
  subst hcause
  obtain ⟨x, hx, hdelegation⟩ := id hd
  have hsuspended := (hrest g x hx).delegating hdelegation
  obtain ⟨frame, hframe⟩ := Option.isSome_iff_exists.mp hsuspended.2.1
  obtain ⟨hx₂, -⟩ := delegator_kept hx hopen₁ hrecords hhalt
  have hframe₂ : w₂.heldFrame g = some frame := by
    rw [World.heldFrame, hx₂]
    exact hframe
  obtain ⟨k, hreach⟩ := hrecords.reaches
  obtain ⟨rfl, -⟩ := ((World.open_onCall hopen₁).reaches hreach).halt hhalt
  have hbroken := step_above_halt hhalt hy (pausedLink g) []
  rw [received_error E _ _ g hended.returnValue hended.lastError] at hbroken
  have hrecorded := ((Records.single hs).trans (hrecords.above [pausedLink g])).next hbroken
  rw [events_delegator hrest hd hopen hs, List.nil_append,
    events_broken hhalt hy hended.returnValue hended.lastError hframe₂] at hrecorded
  refine ⟨frame, _, _,
    ((x.setLock true).terminate.setError
      (.delegation (.sourceFailed y.function.name err.message))).setLock false,
    by rw [World.heldFrame, hx]; exact hframe, hrecorded, step_halt (.of_none rfl rfl) rfl, by simp [hx₂],
    ⟨rfl, hsuspended.2.2.1, rfl, rfl⟩, fun o ho => ?_⟩
  exact (World.generator?_unlock_of_ne ho).trans (World.generator?_fail_of_ne E _ ho)

theorem undone_of_failure {frame : F} {reply : Reply} {heap : Heap} {state : S} {e : BodyError}
    (hrest : LocalInvariant.Resting Generator.FitsRole w)
    (hchain : List.IsChain w.DelegatesTo (g :: gs)) (hopen : w.open? g input = some s)
    (hr : Reaches (step E) s n u) (hcurrent : u.2.current = (g :: gs).getLast (by simp))
    (hfocus : u.2.focus = .body frame reply)
    (hE : E.step u.1.heap u.1.state frame reply = (heap, state, .fail e)) :
    ∃ es t w' err, Records E s es t ∧ step E t = .halt (w', .error err) ∧ w'.Undone e (g :: gs) err ∧
      ∀ o ∈ (g :: gs).dropLast, ∃ frame cause, w.heldFrame o = some frame ∧
        es.of o = [.discarded frame, .brokenOff cause] := by
  induction gs generalizing w g s n u with
  | nil =>
    obtain ⟨es, t, w', hrecords, hhalt, hundone⟩ := call_fails hrest hopen hr hcurrent hfocus hE
    exact ⟨es, t, w', _, hrecords, hhalt, hundone, by simp⟩
  | cons c gs ih =>
    obtain ⟨hd, hchain'⟩ := List.isChain_cons_cons.mp hchain
    have hchain₁ : List.IsChain (w.lock g).DelegatesTo (c :: gs) := hchain'.imp fun a b h => h.lock g
    have hrest₁ := resting_lock hrest g
    cases call_stage hrest hd hopen hr with
    | entered =>
      obtain ⟨x, -, -, rfl⟩ := World.open_cases hopen
      rw [turnTo] at hfocus
      split at hfocus <;> cases hfocus
    | settled hfocus' =>
      rw [hfocus] at hfocus'
      cases hfocus'
    | @past s₁ s₂ _ w₂ k m hopen₁ hs hr₂ hhalt₂ hr' =>
      -- The last generator is finished, and its body cannot run.
      obtain ⟨x, hx, hf⟩ := last_finished hrest₁ hchain₁ hopen₁ hr₂ hhalt₂
      obtain ⟨b, hy⟩ := finished_reaches (driven_above hrest hopen hs hr₂) hx hf hr'
      have hrunning := (Generator.fitsRole_invariant.reaches hrest hopen hr).2 u.2.current (x.setLock b)
        (by rw [hcurrent]; exact hy)
      rw [role_current, hfocus] at hrunning
      exact absurd hf (Bool.eq_false_iff.mp hrunning.unfinished)
    | @within s₁ s' k hopen₁ hs hr' =>
      obtain ⟨es, t, w₂, err, hrecords, hhalt, hundone, hevents⟩ :=
        ih hrest₁ hchain₁ hopen₁ hr' hcurrent hfocus hE
      obtain ⟨y, hy, hended⟩ := hundone.head
      obtain ⟨frame', t', w', x, hframe, hrecords', hhalt', hx, hended', hothers⟩ :=
        delegator_broken hrest hd hopen hopen₁ hs hrecords hhalt hy hended rfl
      obtain ⟨z, hz, hdelegation⟩ := hd
      obtain ⟨hkept, hnone⟩ := delegator_kept hz hopen₁ hrecords hhalt
      have hsame : ∀ o ∈ c :: gs, w'.generator? o = w₂.generator? o := by
        intro o ho
        refine hothers o ?_
        rintro rfl
        -- All of them have ended before the generator in turn does.
        obtain ⟨z', hz', hf⟩ := hundone.finished o ho
        obtain rfl := Option.some.inj (hz'.symm.trans hkept)
        rw [Generator.isFinished, Generator.setLock, ((hrest o z hz).delegating hdelegation).1] at hf
        cases hf
      refine ⟨_, t', w', _, hrecords', hhalt',
        .delegator (hundone.congr hsame) ((hsame c List.mem_cons_self).trans hy) hx hended', ?_⟩
      intro o ho
      rw [List.dropLast_cons_of_ne_nil (by simp)] at ho
      rw [History.of_append]
      rcases List.mem_cons.mp ho with rfl | ho
      · exact ⟨frame', _, hframe, by rw [hnone, History.of_map_self, List.nil_append]⟩
      · obtain ⟨frame, cause, hheld, hof⟩ := hevents o ho
        have hne : o ≠ g := by
          rintro rfl
          rw [hnone] at hof
          cases hof
        rw [World.heldFrame_lock] at hheld
        exact ⟨frame, cause, hheld, by rw [hof, History.of_map_of_ne hne, List.append_nil]⟩

end Drive

end YieldMachine
