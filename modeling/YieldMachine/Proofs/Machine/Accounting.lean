import YieldMachine.Proofs.Session.Limits
import YieldMachine.Proofs.Session.YieldFrom

/-!
Exact accounting of instructions. An execution runs its course by calls of the engine, one after the other, whatever
it is answered in between; the course counts the instructions that are started (`Machine.Course`). The counter of the
execution is this number, cut off at the greatest word, and the budget is reported just when one instruction more
than the budget would be started (`Machine.Course.reports_iff`). The bodies of generators, through all their pauses,
and the bodies of called functions run such courses, with the instructions of their own only
(`instructions_counted_exactly`).
-/

namespace YieldMachine

variable {H F S H' F' : Type}

namespace Action

/-- The frame that goes on after an action, at once or later. -/
def frame? : Action H F → Option F
  | .silent x | .yieldPair _ _ x | .yieldValue _ x | .delegate _ x | .askDelegating x => some x
  | .takeSent x | .takeResult x | .create _ _ _ x | .suspend x => some x
  | .finish _ | .fail _ => none

theorem frame?_map (h : H → H') (f : F → F') (a : Action H F) : (a.map h f).frame? = a.frame?.map f := by
  cases a <;> rfl

theorem Leads.frame? {a : Action H F} {x : F} {reply : Reply} (h : a.Leads x reply) : a.frame? = some x := by
  cases h <;> rfl

theorem frame?_cases {a : Action H F} {x : F} (h : a.frame? = some x) :
    (∃ reply, a.Leads x reply) ∨ a = .suspend x := by
  cases a with
  | silent => cases h; exact .inl ⟨_, .silent x⟩
  | yieldPair k v => cases h; exact .inl ⟨_, .yieldPair k v x⟩
  | yieldValue v => cases h; exact .inl ⟨_, .yieldValue v x⟩
  | delegate source => cases h; exact .inl ⟨_, .delegate source x .accepted⟩
  | askDelegating => cases h; exact .inl ⟨_, .askDelegating x true⟩
  | takeSent => cases h; exact .inl ⟨_, .takeSent x .null⟩
  | takeResult => cases h; exact .inl ⟨_, .takeResult x .null⟩
  | create k f args => cases h; exact .inl ⟨_, .create k f args x .null⟩
  | suspend => cases h; exact .inr rfl
  | finish | fail => cases h

end Action

/-- The report that the budget has run out. -/
def BodyError.isExhaustion : BodyError → Bool
  | .fault (.budgetExceeded _) => true
  | _ => false

def Action.isExhaustion : Action H F → Bool
  | .fail e => e.isExhaustion
  | _ => false

def BodyOutcome.isExhaustion : BodyOutcome F → Bool
  | .failed e => e.isExhaustion
  | _ => false

theorem Action.isExhaustion_map (h : H → H') (f : F → F') (a : Action H F) :
    (a.map h f).isExhaustion = a.isExhaustion := by
  cases a <;> rfl

theorem Action.isExhaustion_iff {a : Action H F} :
    a.isExhaustion = true ↔ ∃ b, a = .fail (.fault (.budgetExceeded b)) := by
  constructor
  · intro h
    cases a with
    | fail e =>
      cases e with
      | fault f =>
        cases f with
        | budgetExceeded b => exact ⟨b, rfl⟩
        | _ => cases h
      | failure | delegation => cases h
    | _ => cases h
  · rintro ⟨b, rfl⟩
    rfl

namespace Machine

variable {m : Machine} {n b : Nat} {x y : Execution} {heap : Heap} {out : Output} {reply : Reply}

/-- Whether the next step starts an instruction, as far as the budget lets it. -/
def starts (x : Execution) : Reply → Bool
  | .proceed => x.frame.instruction?.isSome
  | _ => false

/-- Executions in which this many instructions have been started, whatever they were answered in between. -/
inductive Course (m : Machine) : Nat → Execution → Prop where
  | start (depth : Nat) (f : Function) (args : List Value) : Course m 0 (execution depth f args)
  | next {n : Nat} {x y : Execution} (h : Course m n x) (heap : Heap) (out : Output) (reply : Reply)
      (hy : (m.step heap out x reply).2.2.frame? = some y) : Course m (n + (starts x reply).toNat) y

/-! ### One step -/

/-- An instruction beyond the budget has no effect. -/
theorem step_exceeded (hs : starts x reply = true) (hb : m.exceeded? x.tick = some b) :
    m.step heap out x reply = (heap, out, .fail (.fault (.budgetExceeded b))) := by
  cases reply with
  | proceed =>
    obtain ⟨i, hi⟩ := Option.isSome_iff_exists.mp hs
    simp only [step, advance, hi, hb]
  | _ => cases hs

/-- Nothing else reports the budget. -/
theorem step_exhaustion_iff :
    (m.step heap out x reply).2.2 = .fail (.fault (.budgetExceeded b)) ↔
      starts x reply = true ∧ m.exceeded? x.tick = some b := by
  constructor
  · intro h
    -- Any other limits of the instructions would do: a step that reports the budget depends on it.
    let c : Config := ⟨if m.config.mode = .unbounded then .bounded 0 else .unbounded, m.config.maxCallDepth⟩
    have hmode : m.config.mode ≠ c.mode := by
      simp only [c]
      split
      · next hunbounded => simp [hunbounded]
      · next hbounded => exact hbounded
    have hcut : m.cuts c (m.step heap out x reply).2.2 = true := by
      rw [h]
      simpa [cuts] using hmode
    have hstarts : starts x reply = true ∧ m.exceeded? x.tick ≠ none := by
      by_contra hwithin
      have hnone (hreply : reply = .proceed) (hi : x.frame.instruction?.isSome = true) :
          m.exceeded? x.tick = none := by
        subst hreply
        exact not_not.mp fun hne => hwithin ⟨hi, hne⟩
      rw [cuts_of_within (c := c) rfl hnone] at hcut
      cases hcut
    obtain ⟨hs, hne⟩ := hstarts
    obtain ⟨b', hb'⟩ := Option.ne_none_iff_exists'.mp hne
    have hreport : (m.step heap out x reply).2.2 = _ := congrArg (fun r => r.2.2) (step_exceeded hs hb')
    rw [h] at hreport
    cases hreport
    exact ⟨hs, hb'⟩
  · rintro ⟨hs, hb⟩
    rw [step_exceeded hs hb]

theorem executes_eq (m : Machine) (x : Execution) (reply : Reply) :
    m.executes x reply = (starts x reply && (m.exceeded? x.tick).isNone) := by
  cases reply <;> rfl

/-- An execution that goes on has run the instruction that it started, and has counted it. -/
theorem step_counts (hy : (m.step heap out x reply).2.2.frame? = some y) :
    (starts x reply = true → m.exceeded? x.tick = none) ∧
      y.steps = bif starts x reply then x.tick.steps else x.steps := by
  have hwithin (hs : starts x reply = true) : m.exceeded? x.tick = none := by
    cases hb : m.exceeded? x.tick with
    | none => rfl
    | some b =>
      rw [step_exceeded hs hb] at hy
      cases hy
  refine ⟨hwithin, ?_⟩
  rcases Action.frame?_cases hy with ⟨reply', hleads⟩ | hsuspend
  · rw [steps_of_leads hleads, executes_eq]
    cases hs : starts x reply with
    | false => rfl
    | true => rw [hwithin hs]; rfl
  · cases reply with
    | reported => cases hsuspend; rfl
    | delegating active => cases active <;> cases hsuspend; rfl
    | proceed =>
      -- Instructions do not pause the body; the reply to what they ask for does.
      have hask := m.advance_ofInstruction heap out x
      change (m.advance heap out x).2.2 = .suspend y at hsuspend
      rw [hsuspend] at hask
      cases hask
    | resume =>
      simp only [step, wake] at hsuspend
      split at hsuspend <;> cases hsuspend
    | accepted | refused | value => cases hsuspend

/-! ### Whole courses -/

theorem tick_exceeded_iff (hsteps : x.steps = min n Config.wordMax) :
    m.exceeded? x.tick = some b ↔
      m.config.mode.budget? = some b ∧ b < Config.wordMax ∧ b ≤ n := by
  have htick : b < x.tick.steps ↔ b < Config.wordMax ∧ b ≤ n := by
    simp only [Execution.tick, hsteps]
    omega
  rw [exceeded?, Option.filter_eq_some_iff, decide_eq_true_iff, htick]

/-- The counter is the number of instructions, and they are within the budget. -/
theorem Course.counted (h : m.Course n x) :
    x.steps = min n Config.wordMax ∧
      ∀ b, m.config.mode.budget? = some b → b < Config.wordMax → n ≤ b := by
  induction h with
  | start => exact ⟨(Nat.zero_min _).symm, fun b _ _ => Nat.zero_le b⟩
  | @next n x y h heap out reply hy ih =>
    obtain ⟨hsteps, hbound⟩ := ih
    obtain ⟨hwithin, hy⟩ := step_counts hy
    cases hs : starts x reply with
    | false =>
      rw [hs, cond_false] at hy
      exact ⟨hy.trans hsteps, hbound⟩
    | true =>
      rw [hs, cond_true] at hy
      rw [Bool.toNat_true]
      refine ⟨?_, fun b hb hlt => ?_⟩
      · rw [hy, Execution.tick, hsteps]
        simp only
        omega
      · by_contra hbeyond
        have hexceeded := (tick_exceeded_iff hsteps).mpr ⟨hb, hlt, by omega⟩
        rw [hwithin hs] at hexceeded
        cases hexceeded

/-- The budget is reported just when one more instruction than it allows would be started. -/
theorem Course.reports_iff (h : m.Course n x) :
    (m.step heap out x reply).2.2 = .fail (.fault (.budgetExceeded b)) ↔
      m.config.mode.budget? = some b ∧ b < Config.wordMax ∧ n = b ∧ starts x reply = true := by
  obtain ⟨hsteps, hbound⟩ := h.counted
  rw [step_exhaustion_iff, tick_exceeded_iff hsteps]
  constructor
  · rintro ⟨hs, hb, hlt, hle⟩
    exact ⟨hb, hlt, Nat.le_antisymm (hbound b hb hlt) hle, hs⟩
  · rintro ⟨hb, hlt, rfl, hs⟩
    exact ⟨hs, hb, hlt, Nat.le_refl _⟩

/-- `n` instructions were to be started in all. Where the budget counts, it is reported just when they are one more
than it; a budget of the greatest word, or none, is never reported. -/
structure Exact (m : Machine) (n : Nat) (reported : Bool) : Prop where
  bounded : ∀ b, m.config.mode.budget? = some b → b < Config.wordMax →
    n ≤ b + 1 ∧ (reported = true ↔ n = b + 1)
  unbounded : (∀ b, m.config.mode.budget? = some b → Config.wordMax ≤ b) → reported = false

theorem Course.exact (h : m.Course n x) : m.Exact n false := by
  refine ⟨fun b hb hlt => ?_, fun _ => rfl⟩
  have hle := h.counted.2 b hb hlt
  simp only [Bool.false_eq_true, false_iff]
  omega

/-- So it is after one more step, whether it reports the budget or not. -/
theorem Course.exact_step (h : m.Course n x) (heap : Heap) (out : Output) (reply : Reply) :
    m.Exact (n + (starts x reply).toNat) (m.step heap out x reply).2.2.isExhaustion := by
  constructor
  · intro b hb hlt
    have hle := h.counted.2 b hb hlt
    have hone := Bool.toNat_le (starts x reply)
    refine ⟨by omega, ?_⟩
    rw [Action.isExhaustion_iff]
    constructor
    · rintro ⟨b', hreport⟩
      obtain ⟨hb', -, rfl, hs⟩ := h.reports_iff.mp hreport
      obtain rfl := Option.some.inj (hb.symm.trans hb')
      rw [hs, Bool.toNat_true]
    · intro hn
      have hs : starts x reply = true := by
        by_contra hquiet
        rw [Bool.eq_false_of_not_eq_true hquiet, Bool.toNat_false] at hn
        omega
      rw [hs, Bool.toNat_true] at hn
      exact ⟨b, h.reports_iff.mpr ⟨hb, hlt, by omega, hs⟩⟩
  · intro hlax
    by_contra hreport
    obtain ⟨b, hb⟩ := Action.isExhaustion_iff.mp (Bool.eq_true_of_not_eq_false hreport)
    obtain ⟨hbudget, hlt, -⟩ := h.reports_iff.mp hb
    exact absurd (hlax b hbudget) (Nat.not_le.mpr hlt)

end Machine

/-! ### The bodies of generators -/

namespace Line

/-- Whether an instruction of the machine is started here. -/
def starts : Line (Nat ⊕ H) (Execution ⊕ F) → Bool
  | .acted (.inl x) reply _ => Machine.starts x reply
  | _ => false

/-- Whether the machine reports its budget here. -/
def exhausts : Line (Nat ⊕ H) (Execution ⊕ F) → Bool
  | .acted (.inl _) _ action => action.isExhaustion
  | _ => false

end Line

/-- How many instructions are started in all this. -/
def started (ls : List (Line (Nat ⊕ H) (Execution ⊕ F))) : Nat := ls.countP Line.starts

def exhausted (ls : List (Line (Nat ⊕ H) (Execution ⊕ F))) : Bool := ls.any Line.exhausts

theorem started_append (ls ls' : List (Line (Nat ⊕ H) (Execution ⊕ F))) :
    started (ls ++ ls') = started ls + started ls' := List.countP_append

theorem exhausted_append (ls ls' : List (Line (Nat ⊕ H) (Execution ⊕ F))) :
    exhausted (ls ++ ls') = (exhausted ls || exhausted ls') := List.any_append

theorem started_single (l : Line (Nat ⊕ H) (Execution ⊕ F)) : started [l] = l.starts.toNat := by
  rw [started, List.countP_singleton]
  cases l.starts <;> rfl

theorem exhausted_single (l : Line (Nat ⊕ H) (Execution ⊕ F)) : exhausted [l] = l.exhausts :=
  Bool.or_false _

namespace Drive

/-- The frame of a generator whose body stands so, be it running or held. -/
def Position.frame? (y : Generator H F) : Position F → Option F
  | .awaiting frame | .engaged frame _ => some frame
  | .outside | .over => y.frame

theorem Performs.frame? {x x' : Generator H F} {action : Action H F} {p : Position F}
    (h : Performs x action p x') : p.frame? x' = action.frame? := by
  cases h <;> rfl

theorem Performs.isStarted {x x' : Generator H F} {action : Action H F} {p : Position F}
    (h : Performs x action p x') (hs : x.isStarted = true) : x'.isStarted = true := by
  cases h with
  | delegate _ _ ha => cases ha <;> exact hs
  | finish | fail => rfl
  | _ => exact hs

end Drive

namespace Machine

variable {m : Machine} {E : Engine H F S} {ls ls' : List (Line (Nat ⊕ H) (Execution ⊕ F))}
  {p p' : Drive.Position (Execution ⊕ F)} {y y' : Generator (Nat ⊕ H) (Execution ⊕ F)}

/-- What a generator's transcript tells of its body. -/
structure Accounted (m : Machine) (ls : List (Line (Nat ⊕ H) (Execution ⊕ F)))
    (p : Drive.Position (Execution ⊕ F)) (y : Generator (Nat ⊕ H) (Execution ⊕ F)) : Prop where
  exact : m.Exact (started ls) (exhausted ls)
  course : ∀ x, p.frame? y = some (.inl x) → m.Course (started ls) x ∧ exhausted ls = false
  fresh : y.isStarted = false → p.frame? y = none ∧ started ls = 0 ∧ exhausted ls = false

/-- Whatever does not run the body leaves the account. -/
theorem Accounted.quiet (h : Accounted m ls p y) (hstarted : started ls' = 0)
    (hexhausted : exhausted ls' = false) (hframe : p'.frame? y' = none ∨ p'.frame? y' = p.frame? y)
    (hlater : y'.isStarted = false → y.isStarted = false) : Accounted m (ls ++ ls') p' y' := by
  have hsame : started (ls ++ ls') = started ls := by rw [started_append, hstarted, Nat.add_zero]
  have hreport : exhausted (ls ++ ls') = exhausted ls := by
    rw [exhausted_append, hexhausted, Bool.or_false]
  constructor
  · rw [hsame, hreport]
    exact h.exact
  · intro x hx
    rw [hsame, hreport]
    rcases hframe with hnone | heq
    · rw [hnone] at hx
      cases hx
    · exact h.course x (heq ▸ hx)
  · intro hs
    obtain ⟨hnone, hzero, hno⟩ := h.fresh (hlater hs)
    rw [hsame, hreport]
    refine ⟨?_, hzero, hno⟩
    rcases hframe with hnone' | heq
    · exact hnone'
    · rw [heq, hnone]

/-- An action of the body adds one step to its course. -/
theorem Accounted.act {heap heap' : Heap} {state state' : Output × S} {frame : Execution ⊕ F}
    {reply : Reply} {action : Action (Nat ⊕ H) (Execution ⊕ F)}
    (h : Accounted m ls (.engaged frame reply) y)
    (hE : (m.engine.sum E).step heap state frame reply = (heap', state', action))
    (hp : Drive.Performs y action p' y') : Accounted m (ls ++ [.acted frame reply action]) p' y' := by
  have hstarted : y.isStarted = true := by
    by_contra hs
    cases (h.fresh (Bool.eq_false_of_not_eq_true hs)).1
  have hfresh : y'.isStarted ≠ false := by simp [hp.isStarted hstarted]
  cases frame with
  | inr z =>
    obtain rfl : (E.step heap state.2 z reply).2.2.map .inr .inr = action := congrArg (fun r => r.2.2) hE
    refine ⟨?_, fun x hx => ?_, fun hs => absurd hs hfresh⟩
    · rw [started_append, exhausted_append, started_single, exhausted_single]
      change m.Exact (started ls + 0) (exhausted ls || false)
      rw [Nat.add_zero, Bool.or_false]
      exact h.exact
    · rw [hp.frame?, Action.frame?_map] at hx
      obtain ⟨z', -, hz'⟩ := Option.map_eq_some_iff.mp hx
      cases hz'
  | inl z =>
    obtain rfl : (m.step heap state.1 z reply).2.2.map .inl .inl = action := congrArg (fun r => r.2.2) hE
    obtain ⟨hcourse, hno⟩ := h.course z rfl
    refine ⟨?_, fun x hx => ?_, fun hs => absurd hs hfresh⟩
    · rw [started_append, exhausted_append, started_single, exhausted_single, hno, Bool.false_or,
        Line.starts, Line.exhausts, Action.isExhaustion_map]
      exact hcourse.exact_step heap state.1 reply
    · rw [hp.frame?, Action.frame?_map] at hx
      obtain ⟨x', hx', heq⟩ := Option.map_eq_some_iff.mp hx
      obtain rfl := Sum.inl.inj heq
      have hquiet : (m.step heap state.1 z reply).2.2.isExhaustion = false := by
        by_contra hreport
        obtain ⟨b, hb⟩ := Action.isExhaustion_iff.mp (Bool.eq_true_of_not_eq_false hreport)
        rw [hb] at hx'
        cases hx'
      rw [started_append, exhausted_append, started_single, exhausted_single, hno, Bool.false_or,
        Line.starts, Line.exhausts, Action.isExhaustion_map]
      exact ⟨hcourse.next heap state.1 reply hx', hquiet⟩

theorem passage_accounted (h : Drive.Passage (m.engine.sum E) p y ls' p' y') (hy : Accounted m ls p y) :
    Accounted m (ls ++ ls') p' y' := by
  cases h with
  | stay | lock | rest => exact hy.quiet rfl rfl (.inr rfl) id
  | spent | walk | follow | forward => exact hy.quiet rfl rfl (.inr rfl) id
  | close => exact hy.quiet rfl rfl (.inl rfl) nofun
  | breakOff _ _ hls => rcases hls with rfl | rfl <;> exact hy.quiet rfl rfl (.inl rfl) nofun
  | resume hf hd hx sent =>
    refine hy.quiet rfl rfl (.inr hx.symm) ?_
    cases sent <;> exact id
  | exhaust hf hd hx => exact hy.quiet rfl rfl (.inr hx.symm) id
  | leave hf hd hx => exact hy.quiet rfl rfl (.inr hx.symm) id
  | answer frame ha => cases ha <;> exact hy.quiet rfl rfl (.inr rfl) id
  | act hE hp => exact hy.act hE hp
  | start hf hd hs state =>
    obtain ⟨-, hzero, hno⟩ := hy.fresh hs
    have hsame : started (ls ++ [.entered none]) = 0 := by rw [started_append, hzero]; rfl
    have hreport : exhausted (ls ++ [.entered none]) = false := by rw [exhausted_append, hno]; rfl
    have hcourse (x : Execution)
        (hx : some ((m.engine.sum E).start y.handle y.function y.arguments state).1 = some (.inl x)) :
        m.Course 0 x := by
      cases hk : y.handle with
      | inl k =>
        rw [hk] at hx
        cases hx
        exact .start ..
      | inr k =>
        rw [hk] at hx
        cases hx
    refine ⟨?_, fun x hx => ?_, nofun⟩
    · rw [hsame, hreport]
      exact (Course.start 0 y.function []).exact
    · rw [hsame, hreport]
      exact ⟨hcourse x hx, rfl⟩

/-- At every moment of a run, the transcript of a generator tells how many instructions its body has started. -/
theorem accounted {heap : Heap} {state : Output × S} {g : GeneratorId}
    {q : Moment (Nat ⊕ H) (Execution ⊕ F) (Output × S)}
    (h : Moment.Notes (m.engine.sum E) g ⟨⟨heap, state, #[]⟩, none, [], []⟩ ls q) (hg : g ∉ q.gone)
    (hy : q.world.generator? g = some y) : Accounted m ls (q.position g) y := by
  refine h.since (I := Accounted m) (fun k f args => ?_) passage_accounted hg hy
  exact ⟨(Course.start 0 f args).exact, nofun, fun _ => ⟨rfl, rfl, rfl⟩⟩

/-! ### The bodies of called functions -/

/-- The number of instructions, none or one, that the next step of a body starts. -/
def startsAt : Record.State (Nat ⊕ H) (Execution ⊕ F) (Output × S) → Nat
  | (_, _, .inl x, reply) => (starts x reply).toNat
  | (_, _, .inr _, _) => 0

variable {w : World (Nat ⊕ H) (Execution ⊕ F) (Output × S)} {r : Record} {n k : Nat} {x : Execution}
  {reply : Reply}

/-- A body that goes on goes on in its course. -/
theorem record_course {t : Record.State (Nat ⊕ H) (Execution ⊕ F) (Output × S)}
    (hx : m.Course n x) (hs : Record.step (m.engine.sum E) (w, r, .inl x, reply) = .next t) :
    ∃ z, t.2.2.1 = .inl z ∧ m.Course (n + startsAt (w, r, .inl x, reply)) z := by
  obtain ⟨w', r', frame', reply'⟩ := t
  obtain ⟨hleads, -⟩ := Record.step_cases hs
  have hleads' : ((m.step w.heap w.state.1 x reply).2.2.map Sum.inl Sum.inl).Leads frame' reply'
    (H := Nat ⊕ H) := hleads
  obtain ⟨z, rfl, hz⟩ := hleads'.of_map
  exact ⟨z, rfl, hx.next w.heap w.state.1 reply hz.frame?⟩

theorem record_reaches {t : Record.State (Nat ⊕ H) (Execution ⊕ F) (Output × S)} (hx : m.Course n x)
    (hr : Reaches (Record.step (m.engine.sum E)) (w, r, .inl x, reply) k t) :
    ∃ z, t.2.2.1 = .inl z ∧
      m.Course (n + spent (Record.step (m.engine.sum E)) startsAt k (w, r, .inl x, reply)) z := by
  generalize hu : (w, r, Sum.inl x, reply) = u at hr
  induction hr generalizing n w r x reply with
  | refl => subst hu; exact ⟨x, rfl, hx⟩
  | @next u u' t k hs hr ih =>
    subst hu
    obtain ⟨z, hz, hcourse⟩ := record_course hx hs
    obtain ⟨w', r', frame', reply'⟩ := u'
    obtain rfl : frame' = .inl z := hz
    obtain ⟨z', hz', hcourse'⟩ := ih hcourse rfl
    rw [Nat.add_assoc, ← spent_of_next hs] at hcourse'
    exact ⟨z', hz', hcourse'⟩

/-- A body that comes to an end, or pauses, does so within its account. -/
theorem record_halt_exact {q : Record.Result (Nat ⊕ H) (Execution ⊕ F) (Output × S)} (hx : m.Course n x)
    (hs : Record.step (m.engine.sum E) (w, r, .inl x, reply) = .halt q) :
    m.Exact (n + startsAt (w, r, .inl x, reply)) q.2.2.isExhaustion ∧
      ∀ frame, q.2.2 = .suspended frame →
        ∃ z, frame = .inl z ∧ m.Course (n + startsAt (w, r, .inl x, reply)) z := by
  rcases hE : m.step w.heap w.state.1 x reply with ⟨heap, out, action⟩
  have hexact := hx.exact_step w.heap w.state.1 reply
  have hnext (z : Execution) (hz : action.frame? = some z) : m.Course (n + (starts x reply).toNat) z :=
    hx.next w.heap w.state.1 reply (hE ▸ hz)
  rw [hE] at hexact
  simp only [Record.step, Engine.sum, engine, hE] at hs
  cases action with
  | suspend z =>
    cases hs
    refine ⟨hexact, fun frame hframe => ⟨z, ?_, hnext z rfl⟩⟩
    cases hframe
    rfl
  | finish | fail =>
    cases hs
    exact ⟨hexact, fun frame hframe => by cases hframe⟩
  | delegate source z =>
    simp only [Action.map, Record.perform] at hs
    split at hs <;> cases hs
  | _ => cases hs

theorem record_exact {q : Record.Result (Nat ⊕ H) (Execution ⊕ F) (Output × S)} (hx : m.Course n x)
    (hrun : run (Record.step (m.engine.sum E)) k (w, r, .inl x, reply) = some q) :
    m.Exact (n + spent (Record.step (m.engine.sum E)) startsAt k (w, r, .inl x, reply))
        q.2.2.isExhaustion ∧
      ∀ frame, q.2.2 = .suspended frame → ∃ z, frame = .inl z ∧
        m.Course (n + spent (Record.step (m.engine.sum E)) startsAt k (w, r, .inl x, reply)) z := by
  induction k generalizing n w r x reply with
  | zero => cases hrun
  | succ k ih =>
    cases hs : Record.step (m.engine.sum E) (w, r, .inl x, reply) with
    | halt q' =>
      rw [run_of_halt hs] at hrun
      obtain rfl := Option.some.inj hrun
      rw [spent_of_halt hs]
      exact record_halt_exact hx hs
    | next t =>
      obtain ⟨z, hz, hcourse⟩ := record_course hx hs
      obtain ⟨w', r', frame', reply'⟩ := t
      obtain rfl : frame' = .inl z := hz
      rw [run_of_next hs] at hrun
      rw [spent_of_next hs, ← Nat.add_assoc]
      exact ih hcourse hrun

end Machine

/-- Every instruction counts once. In any execution the counter is the number of instructions that were started,
cut off at the greatest word. The budget is reported just when it is below that word and all of its instructions have
been started and there is one more, which then has no effect. This number takes in all that a generator's body has
started since the beginning, through all its pauses and plain calls, and nothing of the generators that it
delegates to; and likewise all that the body of a called function has started. So a body that starts no more
instructions than the budget never reports it. -/
theorem instructions_counted_exactly (m : Machine) (E : Engine H F S) :
    (∀ n x, m.Course n x → x.steps = min n Config.wordMax ∧ ∀ heap out reply b,
      ((m.step heap out x reply).2.2 = .fail (.fault (.budgetExceeded b)) ↔
        m.config.mode.budget? = some b ∧ b < Config.wordMax ∧ n = b ∧ Machine.starts x reply = true) ∧
      ((m.step heap out x reply).2.2 = .fail (.fault (.budgetExceeded b)) →
        m.step heap out x reply = (heap, out, .fail (.fault (.budgetExceeded b))))) ∧
    (∀ heap state g ls q y, Moment.Notes (m.engine.sum E) g ⟨⟨heap, state, #[]⟩, none, [], []⟩ ls q →
      g ∉ q.gone → q.world.generator? g = some y →
      m.Exact (started ls) (exhausted ls) ∧
      (∀ x, (q.position g).frame? y = some (.inl x) → m.Course (started ls) x ∧ exhausted ls = false) ∧
      ∀ d x reply b, q.drive = some d → d.current = g → d.focus = .body (.inl x) reply →
        m.config.mode.budget? = some b → b < Config.wordMax → started ls = b →
        Machine.starts x reply = true →
        Drive.step (m.engine.sum E) (q.world, d) = .next
          (q.world.replace g (y.terminate.setError (.executionFailed (.fault (.budgetExceeded b)))),
            { d with focus := .settled (.error (.executionFailed (.fault (.budgetExceeded b)))) })) ∧
    (∀ depth f args, m.Course 0 (Machine.execution depth f args)) ∧
    ∀ n x w r reply k, m.Course n x →
      let t : Record.State (Nat ⊕ H) (Execution ⊕ F) (Output × S) := (w, r, .inl x, reply)
      let n' := n + spent (Record.step (m.engine.sum E)) Machine.startsAt k t
      (∀ t', Reaches (Record.step (m.engine.sum E)) t k t' → ∃ z, t'.2.2.1 = .inl z ∧ m.Course n' z) ∧
      ∀ w' r' o, run (Record.step (m.engine.sum E)) k t = some (w', r', o) →
        m.Exact n' o.isExhaustion ∧ ∀ frame, o = .suspended frame → ∃ z, frame = .inl z ∧ m.Course n' z := by
  refine ⟨fun n x hx => ⟨hx.counted.1, fun heap out reply b => ⟨hx.reports_iff, fun hreport => ?_⟩⟩,
    fun heap state g ls q y hnotes hg hy => ?_, Machine.Course.start, fun n x w r reply k hx => ?_⟩
  · obtain ⟨hs, hb⟩ := Machine.step_exhaustion_iff.mp hreport
    exact Machine.step_exceeded hs hb
  · have haccounted := Machine.accounted hnotes hg hy
    refine ⟨haccounted.exact, haccounted.course, fun d x reply b hd hcurrent hfocus hb hlt hn hs => ?_⟩
    subst hcurrent
    have hposition : q.position d.current = .engaged (.inl x) reply := by
      rw [Moment.position, hd]
      exact (Drive.position_current d).trans (congrArg Focus.position hfocus)
    have hcourse := (haccounted.course x (by rw [hposition]; rfl)).1
    have hreport : (m.step q.world.heap q.world.state.1 x reply).2.2 = .fail (.fault (.budgetExceeded b)) :=
      hcourse.reports_iff.mpr ⟨hb, hlt, hn, hs⟩
    obtain ⟨-, hexceeded⟩ := Machine.step_exhaustion_iff.mp hreport
    have hrunning := ((Moment.Kept.origin heap state).later hnotes.later).fits _ y hy hg
    rw [Moment.role, hd] at hrunning
    simp only [Drive.role_current, hfocus] at hrunning
    have hfail := World.fail_eq_replace (m.engine.sum E) hy (.executionFailed (.fault (.budgetExceeded b)))
    rw [hrunning.frame] at hfail
    rw [Machine.drive_step m E q.world hfocus (Machine.step_exceeded hs hexceeded)]
    exact congrArg Transition.next (Prod.ext hfail rfl)
  · exact ⟨fun t' hr => Machine.record_reaches hx hr, fun w' r' o hrun => Machine.record_exact hx hrun⟩

/-- A body that goes on after its first pause, with a budget of three. -/
theorem instructions_counted_exactly_of_pause :
    ∃ (m : Machine) (x : Execution), m.config.mode = .bounded 3 ∧ m.Course 3 x ∧ x.steps = 3 ∧
      Machine.starts x .proceed = true ∧
      m.step .empty .silent x .proceed = (.empty, .silent, .fail (.fault (.budgetExceeded 3))) := by
  let f : Function := ⟨"pause", 0, 0, #[.const (.int 1), .yield, .pop, .const (.int 2), .yield]⟩
  let m : Machine := ⟨⟨#[f], ∅⟩, ⟨.bounded 3, 8⟩⟩
  obtain ⟨hcount, -, hstart, -⟩ := instructions_counted_exactly m (Script.engine ∅)
  -- Two instructions, the pause at the yield, the value that is sent to it, and one more instruction.
  have h₁ := (hstart 0 f []).next .empty .silent .proceed rfl
  have h₂ := h₁.next .empty .silent .proceed rfl
  have h₃ := h₂.next .empty .silent .reported rfl
  have h₄ := h₃.next .empty .silent .resume rfl
  have h₅ := h₄.next .empty .silent (.value .null) rfl
  have h₆ := h₅.next .empty .silent .proceed rfl
  obtain ⟨hsteps, hreport⟩ := hcount _ _ h₆
  obtain ⟨hiff, heffect⟩ := hreport .empty .silent .proceed 3
  exact ⟨m, _, rfl, h₆, hsteps, rfl, heffect (hiff.mpr ⟨rfl, by decide, rfl, rfl⟩)⟩

end YieldMachine
