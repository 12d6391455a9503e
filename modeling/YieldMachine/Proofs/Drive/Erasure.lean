import YieldMachine.Proofs.Drive.Move

/-!
Engines that keep more state than others. If an engine does what another does and only its state holds more,
a drive on the first goes the same way as on the second (`step_erase`).
-/

namespace YieldMachine

variable {H F S T : Type}

/-- `φ` forgets what the state of `E'` holds beyond that of `E`. -/
structure Engine.Erases (E' : Engine H F T) (E : Engine H F S) (φ : T → S) : Prop where
  start : ∀ h f args s,
    E.start h f args (φ s) = ((E'.start h f args s).1, φ (E'.start h f args s).2)
  step : ∀ heap s frame reply, E.step heap (φ s) frame reply =
    ((E'.step heap s frame reply).1, φ (E'.step heap s frame reply).2.1,
      (E'.step heap s frame reply).2.2)
  discard : ∀ frame s, E.discard frame (φ s) = φ (E'.discard frame s)

namespace World

def mapState (φ : T → S) (w : World H F T) : World H F S := ⟨w.heap, φ w.state, w.generators⟩

variable {E' : Engine H F T} {E : Engine H F S} {φ : T → S}

theorem finish_mapState (h : E'.Erases E φ) (w : World H F T) (g : GeneratorId) :
    (w.mapState φ).finish E g = (w.finish E' g).mapState φ := by
  have hread : (w.mapState φ).generator? g = w.generator? g := rfl
  rw [finish, finish, hread]
  cases (w.generator? g).bind (·.frame) with
  | some frame =>
    simp only [mapState, h.discard]
    rfl
  | none => rfl

end World

namespace Drive

/-- The drive on the engine that keeps less. -/
def erase (φ : T → S) (s : State H F T) : State H F S := (s.1.mapState φ, s.2)

variable {E' : Engine H F T} {E : Engine H F S} {φ : T → S} {w : World H F T} {d : Drive F}
  {x : Generator H F}

theorem resume_erase (h : E'.Erases E φ) :
    resume E (w.mapState φ) d = erase φ (resume E' w d) := by
  have hread : (w.mapState φ).generator? d.current = w.generator? d.current := rfl
  rw [resume, resume, hread]
  cases (w.generator? d.current).bind (·.frame) with
  | some frame => rfl
  | none => exact Prod.ext (World.finish_mapState h w d.current) rfl

theorem fail_erase (h : E'.Erases E φ) (e : GeneratorError) :
    fail E (w.mapState φ) d e = erase φ (fail E' w d e) := by
  rw [fail, World.fail, World.finish_mapState h]
  rfl

theorem advanced_erase (h : E'.Erases E φ) (outcome : Delegation.Outcome) :
    advanced E (w.mapState φ) d outcome = erase φ (advanced E' w d outcome) := by
  cases outcome with
  | pair k v => rfl
  | exhausted r => exact resume_erase (w := w.modify d.current (·.endDelegation r)) h
  | failed e => exact fail_erase h _

theorem delegated_erase (frame : F) (source : Delegation) (outcome : Delegation.Outcome) :
    delegated (w.mapState φ) d frame source outcome =
      erase φ (delegated w d frame source outcome) := by
  cases outcome <;> rfl

theorem descend_erase {g : GeneratorId} {sent : Option Value} {wait : Wait F} :
    descend (w.mapState φ) d g sent wait = (descend w d g sent wait).map (erase φ) := by
  have hread : (w.mapState φ).generator? g = w.generator? g := rfl
  rw [descend, descend, hread]
  cases w.generator? g with
  | none => rfl
  | some x =>
    cases hl : x.locked with
    | true => simp [hl]
    | false =>
      simp only [hl, Bool.false_eq_true, if_false, Option.map_some]
      rfl

theorem enter_erase (h : E'.Erases E φ) {sent : Option Value} :
    enter E (w.mapState φ) d x sent = erase φ (enter E' w d x sent) := by
  rw [enter, enter]
  split
  · rfl
  · split
    · next t pending _ =>
      split
      · next k v rest _ =>
        exact advanced_erase
          (w := w.modify d.current fun x => { x with delegation := some (.table t rest) }) h _
      · exact advanced_erase h _
    · next g _ =>
      rw [descend_erase]
      cases descend w d g sent .paused with
      | some s' => rfl
      | none => exact advanced_erase h _
    · split
      · have hstate : (w.mapState φ).state = φ w.state := rfl
        simp only [start, hstate, h.start]
        rfl
      · split
        · exact resume_erase (w := w.modify d.current (·.deliver sent)) h
        · rfl

theorem delegate_erase {source : Value} {frame : F} :
    delegate (w.mapState φ) d source frame = erase φ (delegate w d source frame) := by
  have hheap : (w.mapState φ).heap = w.heap := rfl
  rw [delegate, delegate, hheap]
  split
  · rfl
  · split
    · exact delegated_erase ..
    · exact delegated_erase ..
  · next g _ =>
    rw [descend_erase]
    cases descend w d g none (.inBody frame) with
    | some s' => rfl
    | none => exact delegated_erase ..

theorem perform_erase (h : E'.Erases E φ) (action : Action H F) :
    perform E (w.mapState φ) d action = erase φ (perform E' w d action) := by
  cases action with
  | delegate source frame => exact delegate_erase
  | finish v => exact Prod.ext (World.finish_mapState h (w.modify d.current (·.setReturn v)) _) rfl
  | fail e => exact fail_erase h _
  | _ => rfl

theorem handOver_erase (h : E'.Erases E φ) (child : GeneratorId)
    (result : Except GeneratorError Bool) (link : Link F) (ls : List (Link F)) :
    handOver E (w.mapState φ) child result link ls =
      erase φ (handOver E' w child result link ls) := by
  have hread : (w.mapState φ).generator? child = w.generator? child := rfl
  simp only [handOver, hread]
  cases link.wait with
  | paused => exact advanced_erase (w := w.unlock child) h _
  | inBody frame => exact delegated_erase (w := w.unlock child) ..

/-- The state that the drive keeps beyond the other's does not steer it. -/
theorem step_erase (h : E'.Erases E φ) (s : State H F T) :
    step E (erase φ s) = match step E' s with
      | .next s' => .next (erase φ s')
      | .halt r => .halt (r.1.mapState φ, r.2) := by
  obtain ⟨w, d⟩ := s
  cases hfocus : d.focus with
  | enter sent =>
    have hread : (w.mapState φ).generator? d.current = w.generator? d.current := rfl
    cases hx : w.generator? d.current with
    | some x =>
      rw [erase, step_enter hfocus (hread.trans hx), step_enter hfocus hx, enter_erase h]
    | none =>
      simp only [step, erase, hfocus, hread, hx]
  | body frame reply =>
    rcases hE : E'.step w.heap w.state frame reply with ⟨heap, state, action⟩
    have hE₀ : E.step (w.mapState φ).heap (w.mapState φ).state frame reply = (heap, φ state, action) := by
      have hstep := h.step w.heap w.state frame reply
      rw [hE] at hstep
      exact hstep
    rw [erase, step_body hfocus hE₀, step_body hfocus hE]
    exact congrArg _ (perform_erase (w := { w with heap := heap, state := state }) h action)
  | settled result =>
    rcases settled_cases hfocus with ⟨v, b, hok, hv⟩ | hdone
    · rw [erase, step_resend hok hv, step_resend hok hv]
      rfl
    · cases hw : d.waiting with
      | cons link ls =>
        rw [erase, step_handOver hdone hw, step_handOver hdone hw, handOver_erase h]
      | nil =>
        rw [erase, step_halt hdone hw, step_halt hdone hw]
        rfl

end Drive

end YieldMachine
