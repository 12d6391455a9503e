import YieldMachine.Proofs.Drive.Move

/-!
A drive inside a larger one. Until the last generator of its chain has settled, a drive goes the same way
whatever waits below that generator (`step_rebase`), and whatever stands in the place of a generator that it
never comes to (`step_replace`).
-/

namespace YieldMachine

variable {H F S : Type}

namespace World

variable {w : World H F S} {o g : GeneratorId} {y z : Generator H F}

/-- Puts another generator in the place of one. -/
def replace (w : World H F S) (o : GeneratorId) (y : Generator H F) : World H F S :=
  w.modify o fun _ => y

@[simp] theorem replace_heap (w : World H F S) (o : GeneratorId) (y : Generator H F) :
    (w.replace o y).heap = w.heap := rfl

@[simp] theorem replace_state (w : World H F S) (o : GeneratorId) (y : Generator H F) :
    (w.replace o y).state = w.state := rfl

theorem generator?_replace_self (hz : w.generator? o = some z) (y : Generator H F) :
    (w.replace o y).generator? o = some y := by
  simp [replace, hz]

theorem generator?_replace_of_ne (h : g ≠ o) (y : Generator H F) :
    (w.replace o y).generator? g = w.generator? g := generator?_modify_of_ne h _

theorem replace_eq_self (hz : w.generator? o = some z) : w.replace o z = w := modify_eq_self hz rfl

theorem modify_replace (w : World H F S) (o : GeneratorId) (y : Generator H F)
    (f : Generator H F → Generator H F) : (w.replace o y).modify o f = w.replace o (f y) :=
  modify_modify ..

theorem modify_replace_of_ne (h : g ≠ o) (y : Generator H F) (f : Generator H F → Generator H F) :
    (w.replace o y).modify g f = (w.modify g f).replace o y := modify_comm (Ne.symm h) ..

theorem lock_replace (h : g ≠ o) (y : Generator H F) :
    (w.replace o y).lock g = (w.lock g).replace o y := modify_replace_of_ne h y _

theorem unlock_replace (h : g ≠ o) (y : Generator H F) :
    (w.replace o y).unlock g = (w.unlock g).replace o y := modify_replace_of_ne h y _

theorem finish_replace (E : Engine H F S) (h : g ≠ o) (y : Generator H F) :
    (w.replace o y).finish E g = (w.finish E g).replace o y := by
  rw [finish, finish, generator?_replace_of_ne h]
  cases (w.generator? g).bind (·.frame) with
  | some frame =>
    exact modify_replace_of_ne (w := { w with state := E.discard frame w.state }) h y _
  | none => exact modify_replace_of_ne h y _

theorem fail_replace (E : Engine H F S) (h : g ≠ o) (y : Generator H F) (e : GeneratorError) :
    (w.replace o y).fail E g e = (w.fail E g e).replace o y := by
  rw [fail, fail, finish_replace E h, modify_replace_of_ne h]

theorem complete_replace (E : Engine H F S) (h : g ≠ o) (y : Generator H F) (v : Value) :
    (w.replace o y).complete E g v = (w.complete E g v).replace o y := by
  rw [complete, complete, modify_replace_of_ne h, finish_replace E h]

theorem create_replace (hz : w.generator? o = some z) (y : Generator H F) (h : H) (f : Function)
    (args : List Value) :
    (w.replace o y).create h f args =
      ((w.create h f args).1, (w.create h f args).2.replace o y) := by
  have hsize : (w.replace o y).generators.size = w.generators.size := generators_size_modify ..
  refine Prod.ext hsize (ext_generator? rfl rfl fun i => ?_)
  have hne : o ≠ w.generators.size := by
    rintro rfl
    rw [generator?_size] at hz
    cases hz
  rw [generator?_create, hsize]
  by_cases hi : i = o
  · subst hi
    have hz' : (w.create h f args).2.generator? i = some z := by
      rw [generator?_create, if_neg hne, hz]
    rw [if_neg hne, generator?_replace_self hz, generator?_replace_self hz']
  · rw [generator?_replace_of_ne hi, generator?_replace_of_ne hi, generator?_create]

/-- A replaced generator is ended in its place; a held frame is given up. -/
theorem finish_replace_self {E : Engine H F S} (hz : w.generator? o = some z)
    (hframe : ∀ frame, y.frame = some frame → E.discard frame w.state = w.state) :
    (w.replace o y).finish E o = w.replace o y.terminate := by
  rw [finish, generator?_replace_self hz, Option.bind_some]
  cases hy : y.frame with
  | none => exact modify_replace ..
  | some frame =>
    simp only [replace_state, hframe frame hy]
    exact modify_replace w o y _

theorem fail_replace_self {E : Engine H F S} (hz : w.generator? o = some z)
    (hframe : ∀ frame, y.frame = some frame → E.discard frame w.state = w.state)
    (e : GeneratorError) :
    (w.replace o y).fail E o e = w.replace o (y.terminate.setError e) := by
  rw [fail, finish_replace_self hz hframe, modify_replace]

theorem complete_replace_self {E : Engine H F S} (hz : w.generator? o = some z)
    (hframe : y.frame = none) (v : Value) :
    (w.replace o y).complete E o v = w.replace o (y.setReturn v).terminate := by
  rw [complete, modify_replace, finish_replace_self hz]
  intro frame hsome
  have hnone : (y.setReturn v).frame = none := hframe
  rw [hnone] at hsome
  cases hsome

end World

namespace Drive

variable {E : Engine H F S} {w : World H F S} {d : Drive F} {o : GeneratorId} {y z : Generator H F}
  {x : Generator H F}

/-! ### A generator that is never turned to -/

/-- Another generator in the place of `o`. -/
def replaced (o : GeneratorId) (y : Generator H F) (s : State H F S) : State H F S :=
  (s.1.replace o y, s.2)

theorem resume_replace (h : d.current ≠ o) :
    resume E (w.replace o y) d = replaced o y (resume E w d) := by
  rw [resume, resume, World.generator?_replace_of_ne h]
  cases (w.generator? d.current).bind (·.frame) with
  | some frame => exact Prod.ext (World.modify_replace_of_ne h y _) rfl
  | none => exact Prod.ext (World.finish_replace E h y) rfl

theorem resume_replace_self {frame : F} {v : Option Value} {focus : Focus F} {ls : List (Link F)}
    (hz : w.generator? o = some z) (hframe : y.frame = some frame) :
    resume E (w.replace o y) ⟨o, v, focus, ls⟩ =
      (w.replace o y.release, ⟨o, v, .body frame .resume, ls⟩) := by
  simp only [resume, World.generator?_replace_self hz, Option.bind_some, hframe, World.modify_replace]

theorem advanced_replace (h : d.current ≠ o) (outcome : Delegation.Outcome) :
    advanced E (w.replace o y) d outcome = replaced o y (advanced E w d outcome) := by
  cases outcome with
  | pair k v => exact Prod.ext (World.modify_replace_of_ne h y _) rfl
  | exhausted r =>
    simp only [advanced]
    rw [World.modify_replace_of_ne h, resume_replace h]
  | failed e => exact Prod.ext (World.fail_replace E h y _) rfl

theorem delegated_replace (h : d.current ≠ o) (frame : F) (source : Delegation)
    (outcome : Delegation.Outcome) :
    delegated (w.replace o y) d frame source outcome =
      replaced o y (delegated w d frame source outcome) := by
  cases outcome with
  | pair k v => exact Prod.ext (World.modify_replace_of_ne h y _) rfl
  | exhausted r => exact Prod.ext (World.modify_replace_of_ne h y _) rfl
  | failed e => rfl

/-- If `o` refuses to be turned to, so does the generator in its place. -/
theorem descend_replace (hz : w.generator? o = some z) (hy : z.locked = true → y.locked = true)
    {g : GeneratorId} {sent : Option Value} {wait : Wait F}
    (hturn : ∀ s', descend w d g sent wait = some s' → s'.2.current ≠ o) :
    descend (w.replace o y) d g sent wait = (descend w d g sent wait).map (replaced o y) := by
  by_cases hg : g = o
  · subst hg
    cases hl : z.locked with
    | true =>
      rw [descend, descend, World.generator?_replace_self hz, hz]
      simp [hl, hy hl]
    | false =>
      have hsome : descend w d g sent wait =
          some (w.lock g, turnTo z g sent (⟨d.current, d.resend, wait⟩ :: d.waiting)) := by
        simp [descend, hz, hl]
      exact absurd (turnTo_current ..) (hturn _ hsome)
  · rw [descend, descend, World.generator?_replace_of_ne hg]
    cases w.generator? g with
    | none => rfl
    | some x =>
      cases hl : x.locked with
      | true => simp [hl]
      | false =>
        simp only [hl, Bool.false_eq_true, if_false, Option.map_some]
        exact congrArg some (Prod.ext (World.lock_replace hg y) rfl)

theorem enter_replace (hz : w.generator? o = some z) (hy : z.locked = true → y.locked = true)
    (h : d.current ≠ o)
    {sent : Option Value} (hturn : (enter E w d x sent).2.current ≠ o) :
    enter E (w.replace o y) d x sent = replaced o y (enter E w d x sent) := by
  rw [enter] at hturn
  rw [enter, enter]
  by_cases hf : x.isFinished = true
  · rw [if_pos hf, if_pos hf]
    rfl
  rw [if_neg hf] at hturn
  rw [if_neg hf, if_neg hf]
  cases hd : x.delegation with
  | none =>
    simp only
    by_cases hs : (!x.isStarted) = true
    · rw [if_pos hs, if_pos hs]
      exact Prod.ext (World.modify_replace_of_ne (w := { w with state := _ }) h y _) rfl
    rw [if_neg hs, if_neg hs]
    by_cases hp : x.lifecycle.suspended = true
    · rw [if_pos hp, if_pos hp, World.modify_replace_of_ne h, resume_replace h]
    · rw [if_neg hp, if_neg hp]
      rfl
  | some source =>
    cases source with
    | table t pending =>
      simp only
      cases Delegation.visit t pending with
      | some p =>
        simp only
        rw [World.modify_replace_of_ne h, advanced_replace h]
      | none => exact advanced_replace h _
    | child g =>
      simp only [hd] at hturn ⊢
      rw [descend_replace hz hy]
      · cases descend w d g sent .paused with
        | some s' => rfl
        | none => exact advanced_replace h _
      · intro s' hs'
        simpa only [hs'] using hturn

theorem delegate_replace (hz : w.generator? o = some z) (hy : z.locked = true → y.locked = true)
    (h : d.current ≠ o)
    {source : Value} {frame : F} (hturn : (delegate w d source frame).2.current ≠ o) :
    delegate (w.replace o y) d source frame = replaced o y (delegate w d source frame) := by
  rw [delegate] at hturn
  rw [delegate, delegate, World.replace_heap]
  cases hsource : Delegation.ofValue w.heap source with
  | error e => rfl
  | ok source =>
    cases source with
    | table t pending =>
      simp only
      cases Delegation.visit t pending with
      | some p => exact delegated_replace h ..
      | none => exact delegated_replace h ..
    | child g =>
      simp only [hsource] at hturn ⊢
      rw [descend_replace hz hy]
      · cases descend w d g none (.inBody frame) with
        | some s' => rfl
        | none => exact delegated_replace h ..
      · intro s' hs'
        simpa only [hs'] using hturn

theorem perform_replace (hz : w.generator? o = some z) (hy : z.locked = true → y.locked = true)
    (h : d.current ≠ o)
    {action : Action H F} (hturn : (perform E w d action).2.current ≠ o) :
    perform E (w.replace o y) d action = replaced o y (perform E w d action) := by
  have hread : (w.replace o y).generator? d.current = w.generator? d.current :=
    World.generator?_replace_of_ne h y
  cases action with
  | silent frame => rfl
  | yieldPair k v frame => exact Prod.ext (World.modify_replace_of_ne h y _) rfl
  | yieldValue v frame => exact Prod.ext (World.modify_replace_of_ne h y _) rfl
  | delegate source frame => exact delegate_replace hz hy h hturn
  | askDelegating frame =>
    simp only [perform, hread]
    rfl
  | takeSent frame =>
    simp only [perform, hread]
    exact Prod.ext (World.modify_replace_of_ne h y _) rfl
  | takeResult frame =>
    simp only [perform, hread]
    exact Prod.ext (World.modify_replace_of_ne h y _) rfl
  | create handle f args frame =>
    simp only [perform, World.create_replace hz]
    rfl
  | suspend frame => exact Prod.ext (World.modify_replace_of_ne h y _) rfl
  | finish v => exact Prod.ext (World.complete_replace E h y v) rfl
  | fail e => exact Prod.ext (World.fail_replace E h y _) rfl

theorem handOver_replace {child : GeneratorId} {link : Link F} (hchild : child ≠ o)
    (h : link.generator ≠ o) (result : Except GeneratorError Bool) (ls : List (Link F)) :
    handOver E (w.replace o y) child result link ls =
      replaced o y (handOver E w child result link ls) := by
  simp only [handOver, World.generator?_replace_of_ne hchild]
  rw [World.unlock_replace hchild]
  cases link.wait with
  | paused => exact advanced_replace h _
  | inBody frame => exact delegated_replace h ..

theorem step_replace (hz : w.generator? o = some z) (hy : z.locked = true → y.locked = true)
    (ho : o ∉ d.chain)
    {s' : State H F S} (hs : step E (w, d) = .next s') (hturn : s'.2.current ≠ o) :
    step E (w.replace o y, d) = .next (replaced o y s') := by
  simp only [chain, List.mem_cons, not_or] at ho
  have hcurrent : d.current ≠ o := Ne.symm ho.1
  cases hfocus : d.focus with
  | enter sent =>
    have hread := World.generator?_replace_of_ne (w := w) hcurrent y
    cases hx : w.generator? d.current with
    | some x =>
      rw [step_enter hfocus hx] at hs
      obtain rfl := Transition.next.inj hs
      rw [step_enter hfocus (hread.trans hx), enter_replace hz hy hcurrent hturn]
    | none =>
      simp only [step, hfocus, hx] at hs
      obtain rfl := Transition.next.inj hs
      simp only [step, hfocus, hread.trans hx]
      rfl
  | body frame reply =>
    rcases hE : E.step w.heap w.state frame reply with ⟨heap, state, action⟩
    rw [step_body hfocus hE] at hs
    obtain rfl := Transition.next.inj hs
    rw [step_body (w := w.replace o y) hfocus hE]
    exact congrArg _ (perform_replace (w := { w with heap := heap, state := state }) hz hy hcurrent hturn)
  | settled result =>
    rcases settled_cases hfocus with ⟨v, b, hok, hv⟩ | hdone
    · rw [step_resend hok hv] at hs ⊢
      obtain rfl := Transition.next.inj hs
      rfl
    · cases hw : d.waiting with
      | cons link ls =>
        rw [hw, List.map_cons, List.mem_cons, not_or] at ho
        rw [step_handOver hdone hw] at hs ⊢
        obtain rfl := Transition.next.inj hs
        rw [handOver_replace hcurrent (Ne.symm ho.2.1)]
      | nil =>
        rw [step_halt hdone hw] at hs
        cases hs

/-! ### What waits below the last generator -/

def rebaseLinks (v : Option Value) (base : List (Link F)) : List (Link F) → List (Link F)
  | [] => base
  | l :: ls => { l with resend := if ls.isEmpty then v else l.resend } :: rebaseLinks v base ls

/-- The last generator of the drive keeps back the value `v` and has `base` waiting for it. -/
def rebase (v : Option Value) (base : List (Link F)) (d : Drive F) : Drive F where
  current := d.current
  resend := if d.waiting.isEmpty then v else d.resend
  focus := d.focus
  waiting := rebaseLinks v base d.waiting

def rebased (v : Option Value) (base : List (Link F)) (s : State H F S) : State H F S :=
  (s.1, s.2.rebase v base)

variable {v : Option Value} {base : List (Link F)}

theorem turnTo_rebase (d : Drive F) (x : Generator H F) (g : GeneratorId) (sent : Option Value)
    (wait : Wait F) :
    turnTo x g sent (⟨d.current, (d.rebase v base).resend, wait⟩ :: (d.rebase v base).waiting) =
      (turnTo x g sent (⟨d.current, d.resend, wait⟩ :: d.waiting)).rebase v base := by
  rw [turnTo, turnTo]
  split <;> rfl

theorem resume_rebase : resume E w (d.rebase v base) = rebased v base (resume E w d) := by
  have hcurrent : (d.rebase v base).current = d.current := rfl
  rw [resume, resume, hcurrent]
  cases (w.generator? d.current).bind (·.frame) <;> rfl

theorem advanced_rebase (outcome : Delegation.Outcome) :
    advanced E w (d.rebase v base) outcome = rebased v base (advanced E w d outcome) := by
  cases outcome with
  | pair k u => rfl
  | exhausted r => exact resume_rebase
  | failed e => rfl

theorem delegated_rebase (frame : F) (source : Delegation) (outcome : Delegation.Outcome) :
    delegated w (d.rebase v base) frame source outcome =
      rebased v base (delegated w d frame source outcome) := by
  cases outcome <;> rfl

theorem descend_rebase {g : GeneratorId} {sent : Option Value} {wait : Wait F} :
    descend w (d.rebase v base) g sent wait = (descend w d g sent wait).map (rebased v base) := by
  rw [descend, descend]
  cases w.generator? g with
  | none => rfl
  | some x =>
    cases hl : x.locked with
    | true => simp [hl]
    | false =>
      simp only [hl, Bool.false_eq_true, if_false, Option.map_some]
      exact congrArg some (Prod.ext rfl (turnTo_rebase d x g sent wait))

theorem enter_rebase {sent : Option Value} :
    enter E w (d.rebase v base) x sent = rebased v base (enter E w d x sent) := by
  rw [enter, enter]
  by_cases hf : x.isFinished = true
  · rw [if_pos hf, if_pos hf]
    rfl
  rw [if_neg hf, if_neg hf]
  cases x.delegation with
  | none =>
    simp only
    by_cases hs : (!x.isStarted) = true
    · rw [if_pos hs, if_pos hs]
      rfl
    rw [if_neg hs, if_neg hs]
    by_cases hp : x.lifecycle.suspended = true
    · rw [if_pos hp, if_pos hp, resume_rebase]
      rfl
    · rw [if_neg hp, if_neg hp]
      rfl
  | some source =>
    cases source with
    | table t pending =>
      simp only
      cases Delegation.visit t pending <;> exact advanced_rebase _
    | child g =>
      simp only [descend_rebase]
      cases descend w d g sent .paused with
      | some s' => rfl
      | none => exact advanced_rebase _

theorem delegate_rebase {source : Value} {frame : F} :
    delegate w (d.rebase v base) source frame = rebased v base (delegate w d source frame) := by
  rw [delegate, delegate]
  cases Delegation.ofValue w.heap source with
  | error e => rfl
  | ok source =>
    cases source with
    | table t pending =>
      simp only
      cases Delegation.visit t pending <;> exact delegated_rebase ..
    | child g =>
      simp only [descend_rebase]
      cases descend w d g none (.inBody frame) with
      | some s' => rfl
      | none => exact delegated_rebase ..

theorem perform_rebase (action : Action H F) :
    perform E w (d.rebase v base) action = rebased v base (perform E w d action) := by
  cases action with
  | delegate source frame => exact delegate_rebase
  | _ => rfl

theorem handOver_rebase (child : GeneratorId) (result : Except GeneratorError Bool) (link : Link F)
    (ls : List (Link F)) :
    handOver E w child result { link with resend := if ls.isEmpty then v else link.resend }
        (rebaseLinks v base ls) =
      rebased v base (handOver E w child result link ls) := by
  simp only [handOver]
  cases link.wait with
  | paused => exact advanced_rebase (d := ⟨link.generator, link.resend, .settled result, ls⟩) _
  | inBody frame => exact delegated_rebase (d := ⟨link.generator, link.resend, .settled result, ls⟩) ..

/-- The last generator of the drive has settled. -/
def Bottomed (s : State H F S) : Prop := s.2.waiting = [] ∧ ∃ result, s.2.focus = .settled result

theorem step_rebase {s : State H F S} (hb : ¬ Bottomed s) (v : Option Value) (base : List (Link F)) :
    ∃ s', step E s = .next s' ∧ step E (rebased v base s) = .next (rebased v base s') := by
  obtain ⟨w, d⟩ := s
  cases hfocus : d.focus with
  | enter sent =>
    cases hx : w.generator? d.current with
    | some x =>
      refine ⟨_, step_enter hfocus hx, ?_⟩
      rw [rebased, step_enter (d := d.rebase v base) hfocus hx, enter_rebase]
    | none =>
      refine ⟨(w, { d with focus := .settled (.ok false) }), ?_, ?_⟩
      · simp only [step, hfocus, hx]
      · simp only [step, rebased, rebase, hfocus, hx]
  | body frame reply =>
    rcases hE : E.step w.heap w.state frame reply with ⟨heap, state, action⟩
    refine ⟨_, step_body hfocus hE, ?_⟩
    rw [rebased, step_body (d := d.rebase v base) hfocus hE, perform_rebase]
  | settled result =>
    cases hw : d.waiting with
    | nil => exact absurd ⟨hw, result, hfocus⟩ hb
    | cons link ls =>
      rcases settled_cases hfocus with ⟨u, b, hok, hu⟩ | hdone
      · refine ⟨_, step_resend hok hu, ?_⟩
        have hu' : (d.rebase v base).resend = some u := by simp [rebase, hw, hu]
        rw [rebased, step_resend (d := d.rebase v base) hok hu']
        simp [rebased, rebase, hw]
      · refine ⟨_, step_handOver hdone hw, ?_⟩
        have hdone' : (d.rebase v base).Done result := by simpa [Done, rebase, hw] using hdone
        have hw' : (d.rebase v base).waiting =
            { link with resend := if ls.isEmpty then v else link.resend } :: rebaseLinks v base ls := by
          rw [rebase, hw, rebaseLinks]
        rw [rebased, step_handOver hdone' hw', handOver_rebase]
        rfl

/-- Until the last generator has settled, the value kept back for it stays. -/
theorem keepsBack_step {s s' : State H F S} (hkeep : s.2.rebase v [] = s.2) (hb : ¬ Bottomed s)
    (hs : step E s = .next s') : s'.2.rebase v [] = s'.2 := by
  obtain ⟨t, ht, ht'⟩ := step_rebase (E := E) hb v []
  obtain rfl : s' = t := Transition.next.inj (hs.symm.trans ht)
  have hself : rebased v [] s = s := Prod.ext rfl hkeep
  rw [hself, hs] at ht'
  exact congrArg Prod.snd (Transition.next.inj ht').symm

/-! ### A drive that keeps apart from a generator -/

/-- The drive does not come to `o`, because `o` is locked or because nothing leads there. -/
structure Apart (E : Engine H F S) (o : GeneratorId) (s : State H F S) : Prop where
  chained : s.2.Chained s.1
  outside : o ∉ s.2.chain
  avoided : ∃ z, s.1.generator? o = some z ∧
    (z.locked = true ∨ ∀ n t, Reaches (step E) s n t → t.2.current ≠ o)

theorem Apart.current_step {s s' : State H F S} (h : Apart E o s) (hs : step E s = .next s') :
    s'.2.current ≠ o := by
  obtain ⟨hc, ho, z, hz, hlocked | hspared⟩ := h
  · intro hcurrent
    have hmem : o ∈ s'.2.chain := hcurrent ▸ List.mem_cons_self
    rcases (step_moves hc hs).2.chain with heq | ⟨g, x, heq, hx, hl⟩ | heq
    · exact ho (heq ▸ hmem)
    · rw [heq] at hmem
      rcases List.mem_cons.mp hmem with rfl | hmem
      · rw [hz] at hx
        cases hx
        rw [hl] at hlocked
        cases hlocked
      · exact ho hmem
    · exact ho (heq ▸ List.mem_cons_of_mem _ hmem)
  · exact hspared 1 s' (.single hs)

/-- A generator apart from the drive stays as it is. -/
theorem Apart.kept_step {s s' : State H F S} (h : Apart E o s) (hz : s.1.generator? o = some z)
    (hs : step E s = .next s') : s'.1.generator? o = some z := by
  -- Putting `o` itself in its place changes nothing.
  have hsame := step_replace hz id h.outside hs (h.current_step hs)
  rw [World.replace_eq_self hz, hs] at hsame
  have hworld : s'.1 = s'.1.replace o z := congrArg Prod.fst (Transition.next.inj hsame)
  obtain ⟨z', hz', -⟩ := (step_moves h.chained hs).2.old o z hz
  rw [hworld, World.generator?_replace_self hz']

theorem Apart.step {s s' : State H F S} (h : Apart E o s) (hs : step E s = .next s') :
    Apart E o s' := by
  have hcurrent := h.current_step hs
  obtain ⟨hc', hmoves⟩ := step_moves h.chained hs
  refine ⟨hc', ?_, ?_⟩
  · intro hmem
    rcases hmoves.chain with heq | ⟨g, x, heq, -, -⟩ | heq
    · exact h.outside (heq ▸ hmem)
    · have hg : s'.2.current = g := (List.cons.inj heq).1
      rw [heq, ← hg] at hmem
      exact h.outside ((List.mem_cons.mp hmem).resolve_left (Ne.symm hcurrent))
    · exact h.outside (heq ▸ List.mem_cons_of_mem _ hmem)
  · obtain ⟨z, hz, hlocked | hspared⟩ := h.avoided
    · exact ⟨z, h.kept_step hz hs, .inl hlocked⟩
    · exact ⟨z, h.kept_step hz hs, .inr fun n t hr => hspared (n + 1) t (.next hs hr)⟩

theorem Apart.reaches {s s' : State H F S} {n : Nat} (h : Apart E o s)
    (hr : Reaches (Drive.step E) s n s') : Apart E o s' :=
  hr.invariant h fun _ _ => Apart.step

theorem Apart.kept_reaches {s s' : State H F S} {n : Nat} (h : Apart E o s)
    (hz : s.1.generator? o = some z) (hr : Reaches (Drive.step E) s n s') :
    s'.1.generator? o = some z := by
  have hboth := hr.invariant (I := fun t => Apart E o t ∧ t.1.generator? o = some z) ⟨h, hz⟩
    fun t t' ht hs => ⟨ht.1.step hs, ht.1.kept_step ht.2 hs⟩
  exact hboth.2

/-- The same drive where `y` stands in the place of `o` and `base` waits below. -/
def embed (o : GeneratorId) (y : Generator H F) (v : Option Value) (base : List (Link F))
    (s : State H F S) : State H F S :=
  rebased v base (replaced o y s)

theorem step_embed {s : State H F S} (h : Apart E o s) (hy : y.locked = true) (hb : ¬ Bottomed s)
    (v : Option Value) (base : List (Link F)) :
    ∃ s', step E s = .next s' ∧ step E (embed o y v base s) = .next (embed o y v base s') := by
  obtain ⟨z, hz, -⟩ := h.avoided
  obtain ⟨s', hs, -⟩ := step_rebase (E := E) hb v base
  have hreplaced := step_replace hz (fun _ => hy) h.outside hs (h.current_step hs)
  obtain ⟨t, ht, ht'⟩ := step_rebase (E := E) (s := replaced o y s) hb v base
  obtain rfl : t = replaced o y s' := Transition.next.inj (ht.symm.trans hreplaced)
  exact ⟨s', hs, ht'⟩

end Drive

end YieldMachine
