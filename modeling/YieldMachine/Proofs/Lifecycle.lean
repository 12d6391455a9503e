import YieldMachine.Machine.Basic
import YieldMachine.Proofs.Operation

/-!
The phases of a generator. Between operations every generator is fresh, suspended or finished, whatever its
engine does (`lifecycle_phases`): flags, held frame, delegation, return value and error always fit together,
and a drive never comes to a generator in any other state (`Drive.Astray`).
-/

namespace YieldMachine

variable {H F S : Type}

inductive Phase where
  | fresh
  | suspended
  | finished
  deriving DecidableEq, Repr

/-- The state of a generator in each phase. -/
def Generator.In (x : Generator H F) : Phase → Prop
  | .fresh => x.lifecycle = ⟨false, false, false⟩ ∧ x.frame = none ∧ x.delegation = none ∧
      x.returnValue = none ∧ x.lastError = none ∧ x.key = .null ∧ x.value = .null
  | .suspended => x.lifecycle = ⟨true, false, true⟩ ∧ x.frame.isSome = true ∧
      x.returnValue = none ∧ x.lastError = none
  | .finished => x.lifecycle = ⟨true, true, false⟩ ∧ x.frame = none ∧ x.delegation = none

/-- A generator whose body is being run: what the body may do in the meantime is left open. -/
structure Generator.Running (x : Generator H F) : Prop where
  started : x.isStarted = true
  unfinished : x.isFinished = false
  frame : x.frame = none
  returnValue : x.returnValue = none
  lastError : x.lastError = none

def Generator.FitsRole (r : Role) (x : Generator H F) : Prop :=
  match r with
  | .idle => (∃ p, x.In p) ∧ (x.returnValue = none ∨ x.lastError = none)
  | .running => x.Running
  | .settled (.ok true) => x.In .suspended
  | .settled (.ok false) => x.In .finished ∧ (x.returnValue = none ∨ x.lastError = none)
  | .settled (.error e) => x.In .finished ∧ x.returnValue = none ∧ x.lastError = some e

/-- The next step of the drive would take up a body whose frame is missing, or enter a generator that is
started but neither suspended, nor delegating, nor finished. -/
def Drive.Astray (s : Drive.State H F S) : Prop :=
  match s.2.focus with
  | .enter _ => ∃ x, s.1.generator? s.2.current = some x ∧ x.isFinished = false ∧
      (x.frame = none ∧ (x.isDelegating = true ∨ x.lifecycle.suspended = true) ∨
        x.isStarted = true ∧ x.isDelegating = false ∧ x.lifecycle.suspended = false)
  | .body .. => False
  | .settled _ => ∃ link ls x, s.2.waiting = link :: ls ∧ link.wait = .paused ∧
      s.1.generator? link.generator = some x ∧ x.frame = none

namespace Generator

variable {x : Generator H F} {p q : Phase}

theorem In.unique (hp : x.In p) (hq : x.In q) : p = q := by
  -- The flags of the three phases differ.
  cases p <;> cases q <;> first | rfl | exact absurd (hp.1.symm.trans hq.1) (by decide)

theorem In.of_unfinished (h : x.In p) (hf : x.isFinished = false) (hs : x.isStarted = true) :
    p = .suspended := by
  cases p with
  | fresh => simp [isStarted, h.1] at hs
  | suspended => rfl
  | finished => simp [isFinished, h.1] at hf

theorem In.of_delegating (h : x.In p) {d : Delegation} (hd : x.delegation = some d) :
    p = .suspended := by
  cases p with
  | fresh => simp [h.2.2.1] at hd
  | suspended => rfl
  | finished => simp [h.2.2] at hd

theorem In.isDelegating (h : x.In p) (hd : x.isDelegating = true) : x.frame.isSome = true := by
  obtain ⟨d, hd⟩ := Option.isSome_iff_exists.mp hd
  obtain rfl := h.of_delegating hd
  exact h.2.1

theorem In.suspended_iff (h : x.In p) : x.lifecycle.suspended = true ↔ x.frame.isSome = true := by
  cases p with
  | fresh => simp [h.1, h.2.1]
  | suspended => simp [h.1, h.2.1]
  | finished => simp [h.1, h.2.1]

theorem FitsRole.suspended (h : x.FitsRole .idle) (hf : x.isFinished = false)
    (hs : x.isStarted = true) : x.In .suspended := by
  obtain ⟨⟨p, hp⟩, -⟩ := h
  exact hp.of_unfinished hf hs ▸ hp

theorem FitsRole.delegating (h : x.FitsRole .idle) {d : Delegation} (hd : x.delegation = some d) :
    x.In .suspended := by
  obtain ⟨⟨p, hp⟩, -⟩ := h
  exact hp.of_delegating hd ▸ hp

theorem FitsRole.fresh (h : x.FitsRole .idle) (hs : x.isStarted = false) : x.In .fresh := by
  obtain ⟨⟨p, hp⟩, -⟩ := h
  cases p with
  | fresh => exact hp
  | suspended => simp [isStarted, hp.1] at hs
  | finished => simp [isStarted, hp.1] at hs

theorem FitsRole.finished (h : x.FitsRole .idle) (hf : x.isFinished = true) : x.In .finished := by
  obtain ⟨⟨p, hp⟩, -⟩ := h
  cases p with
  | fresh => simp [isFinished, hp.1] at hf
  | suspended => simp [isFinished, hp.1] at hf
  | finished => exact hp

/-- Once it has settled, a generator is in a phase. -/
theorem FitsRole.rest {result : Except GeneratorError Bool} (h : x.FitsRole (.settled result)) :
    x.FitsRole .idle := by
  match result, h with
  | .ok true, h => exact ⟨⟨.suspended, h⟩, .inl h.2.2.1⟩
  | .ok false, ⟨h, hone⟩ => exact ⟨⟨.finished, h⟩, hone⟩
  | .error e, ⟨h, hnone, _⟩ => exact ⟨⟨.finished, h⟩, .inl hnone⟩

theorem FitsRole.setLock (h : x.FitsRole .idle) (b : Bool) : (x.setLock b).FitsRole .idle := by
  obtain ⟨⟨p, hp⟩, hone⟩ := h
  exact ⟨⟨p, by cases p <;> exact hp⟩, hone⟩

/-- Every move leads from a phase, or a running body, to a phase or a running body. -/
theorem fitsRole_invariant : LocalInvariant (FitsRole : Role → Generator H F → Prop) where
  fresh _ _ _ := ⟨⟨.fresh, rfl, rfl, rfl, rfl, rfl, rfl, rfl⟩, .inl rfl⟩
  move {r x r' x'} hm h := by
    cases hm with
    | stay => exact h
    | lock _ b => exact h.setLock b
    | rest => exact h.rest
    | unlock => exact h.rest.setLock false
    | spent hf => exact ⟨h.finished hf, h.2⟩
    | start hf hd hs =>
      have hp := h.fresh hs
      exact ⟨rfl, hf, hp.2.1, hp.2.2.2.1, hp.2.2.2.2.1⟩
    | resume hf hd hs hsus hx sent =>
      have hp := h.suspended hf hs
      cases sent <;> exact ⟨hs, hf, rfl, hp.2.2.1, hp.2.2.2⟩
    | walk hf hd => exact h.delegating hd
    | forward hf hd => exact h.delegating hd
    | leave hf hd hx r =>
      have hp := h.delegating hd
      have hs : x.isStarted = true := by simp [isStarted, hp.1]
      exact ⟨hs, hf, rfl, hp.2.2.1, hp.2.2.2⟩
    | breakOff hf hd => exact ⟨⟨rfl, rfl, rfl⟩, (h.delegating hd).2.2.1, rfl⟩
    | pause =>
      refine ⟨?_, rfl, h.returnValue, h.lastError⟩
      have hs := h.started
      have hf := h.unfinished
      simp only [isStarted, isFinished] at hs hf
      simp [hold, hs, hf]
    | complete => exact ⟨⟨rfl, rfl, rfl⟩, .inr h.lastError⟩
    | fail => exact ⟨⟨rfl, rfl, rfl⟩, h.returnValue, rfl⟩
    | close hf => exact ⟨⟨.finished, rfl, rfl, rfl⟩, h.2⟩
    -- A held frame is there whenever one is needed.
    | lapse hf hs hx sent => simpa [hx] using (h.suspended hf hs).2.1
    | lapseDelegating hf hd hx r => simpa [hx] using (h.delegating hd).2.1
    | stuck hf hs hd hp => simp [(h.suspended hf hs).1] at hp
    -- What a running body does touches none of the five fields.
    | yieldPair | yieldValue | delegate | skip | takeSent | takeResult =>
      exact ⟨h.started, h.unfinished, h.frame, h.returnValue, h.lastError⟩

/-- Nothing but its lock changes once a generator is finished. -/
theorem FitsRole.move_finished {r r' : Role} {x' : Generator H F} (h : x.FitsRole r)
    (hf : x.isFinished = true) (hm : Move r x r' x') : ∃ b, x' = x.setLock b := by
  cases hm with
  | stay | rest | spent => exact ⟨x.locked, rfl⟩
  | lock _ b => exact ⟨b, rfl⟩
  | unlock => exact ⟨false, rfl⟩
  -- Every other move starts from an unfinished generator: a running body's is one.
  | start hf' | resume hf' | walk hf' | forward hf' | leave hf' | breakOff hf' | close hf'
  | lapse hf' | lapseDelegating hf' | stuck hf' =>
    rw [hf] at hf'
    cases hf'
  | yieldPair | yieldValue | delegate | skip | takeSent | takeResult | pause | complete | fail =>
    have hf' := h.unfinished
    rw [hf] at hf'
    cases hf'

/-- A step of a drive leaves a finished generator as it is, its lock apart. -/
theorem step_finished {E : Engine H F S} {s s' : Drive.State H F S} {g : GeneratorId}
    (h : LocalInvariant.Driven FitsRole s) (hx : s.1.generator? g = some x)
    (hf : x.isFinished = true) (hs : Drive.step E s = .next s') :
    ∃ b, s'.1.generator? g = some (x.setLock b) := by
  obtain ⟨x', hx', hm⟩ := (Drive.step_moves h.1 hs).2.old g x hx
  obtain ⟨b, rfl⟩ := (h.2 g x hx).move_finished hf hm
  exact ⟨b, hx'⟩

/-- A drive whose generators all fit their roles does not go astray. -/
theorem not_astray {s : Drive.State H F S} (h : LocalInvariant.Driven FitsRole s) :
    ¬ Drive.Astray s := by
  obtain ⟨hc, hall⟩ := h
  intro hastray
  rw [Drive.Astray] at hastray
  split at hastray
  · next sent hfocus =>
    obtain ⟨x, hx, hf, hbad⟩ := hastray
    have hrole : s.2.role s.2.current = .idle := by rw [Drive.role_current, hfocus]; rfl
    have hidle : FitsRole .idle x := hrole ▸ hall _ x hx
    obtain ⟨⟨p, hp⟩, -⟩ := id hidle
    rcases hbad with ⟨hnone, hdel | hsus⟩ | ⟨hs, -, hsus⟩
    · simpa [hnone] using hp.isDelegating hdel
    · simpa [hnone] using hp.suspended_iff.mp hsus
    · simp [(hidle.suspended hf hs).1] at hsus
  · exact hastray
  · obtain ⟨link, ls, x, hw, hpaused, hx, hnone⟩ := hastray
    obtain ⟨y, c, hy, hf, hd⟩ := hc.paused link (hw ▸ List.mem_cons_self) hpaused
    obtain rfl : x = y := Option.some.inj (hx.symm.trans hy)
    have hne : s.2.current ≠ link.generator := fun he =>
      hc.current_not_mem (by rw [hw, he]; exact List.mem_cons_self)
    have hrole : s.2.role link.generator = .idle := by
      rw [Drive.role, if_neg hne, hw, Drive.roleAmong, if_pos rfl, hpaused]
      rfl
    have hidle : FitsRole .idle x := hrole ▸ hall _ x hx
    simpa [hnone] using (hidle.delegating hd).2.1

end Generator

/-- However an engine behaves and whatever is done with the generators of a world, each of them is in
exactly one phase between operations. So a delegating generator holds a frame, a generator is flagged as
suspended just when it holds one, and no advance of it goes astray. -/
theorem lifecycle_phases (E : Engine H F S) {w : World H F S} (hw : World.Reachable E w)
    {g : GeneratorId} {x : Generator H F} (hx : w.generator? g = some x) :
    (∃ p, x.In p ∧ ∀ q, x.In q → q = p) ∧
      (x.isDelegating = true → x.frame.isSome = true) ∧
      (x.lifecycle.suspended = true ↔ x.frame.isSome = true) ∧
      ∀ input s n s', w.open? g input = some s → Reaches (Drive.step E) s n s' →
        ¬ Drive.Astray s' := by
  have hrest := Generator.fitsRole_invariant.reachable hw
  obtain ⟨⟨p, hp⟩, -⟩ := hrest g x hx
  refine ⟨⟨p, hp, fun q hq => hq.unique hp⟩, hp.isDelegating, hp.suspended_iff, ?_⟩
  intro input s n s' hs hreach
  exact Generator.not_astray (Generator.fitsRole_invariant.reaches hrest hs hreach)

/-- A machine's generator that walks a table, after its first pair. -/
theorem lifecycle_phases_of_walker :
    ∃ (w : World Nat Execution Output) (x : Generator Nat Execution),
      World.Reachable (Machine.engine ⟨.empty, .standard⟩) w ∧ w.generator? 0 = some x ∧
        x.isDelegating = true ∧ x.frame.isSome = true ∧ (∃ p, x.In p ∧ ∀ q, x.In q → q = p) := by
  let E := Machine.engine ⟨.empty, .standard⟩
  let walker : Function :=
    ⟨"walker", 0, 0, #[.const (.array 0 (.ofValues [.int 7, .int 8])), .yieldFrom]⟩
  let w : World Nat Execution Output := ⟨.empty, .silent, #[.fresh 0 walker []]⟩
  have hw : World.Operated E ⟨.empty, .silent, #[]⟩ w :=
    .step (.refl _) (rfl : World.operate E 0 _ (.create 0 walker []) = some _)
  have hnext : ((w.operate E 9 (.next 0)).bind fun (_, w') => w'.generator? 0).any
      (·.isDelegating) = true := by decide +kernel
  obtain ⟨x, hx, hdelegating⟩ := (Option.any_eq_true ..).mp hnext
  obtain ⟨⟨a, w'⟩, hoperate, hx⟩ := Option.bind_eq_some_iff.mp hx
  have hw' : World.Reachable E w' := ⟨_, _, hw.step hoperate⟩
  have hphase := lifecycle_phases E hw' hx
  exact ⟨w', x, hw', hx, hdelegating, hphase.2.1 hdelegating, hphase.1⟩

end YieldMachine
