import YieldMachine.Proofs.Drive.Meter
import YieldMachine.Proofs.Lifecycle
import YieldMachine.Session

/-!
A machine with a budget. The budget is one execution's own, and a body may make generators with budgets of
their own; but these start at least one call deeper, and the depth of calls is limited. So an execution that has
`k` instructions left can bring about `k` times what one more generator may do, and no more (`allowance`).
This prices the bodies of the machine (`Machine.meter`); scripts end anyway (`Script.meter`). Hence every
call and every advance of a session ends, and its generators have a finite number of instructions left
together (`bounded_terminates`).
-/

namespace YieldMachine

/-- How many instructions a generator may bring about, by its distance from the greatest depth. -/
def allowance (budget : Nat) : Nat → Nat
  | 0 => budget
  | k + 1 => budget * (1 + allowance budget k)

theorem allowance_mono (b : Nat) {k l : Nat} (h : k ≤ l) : allowance b k ≤ allowance b l := by
  induction l generalizing k with
  | zero => rw [Nat.le_zero.mp h]
  | succ l ih =>
    cases k with
    | zero => exact Nat.le_mul_of_pos_right b (by omega)
    | succ k => exact Nat.mul_le_mul_left b (Nat.add_le_add_left (ih (by omega)) 1)

namespace Execution

/-- The depth at which the outermost frame runs. -/
def base (x : Execution) : Nat := x.depth - x.callers.length

end Execution

namespace Machine

variable {m : Machine} {b : Nat} {x : Execution}

/-- Whether the body runs an instruction now: there is one, and the budget has not run out. -/
def executes (m : Machine) (x : Execution) : Reply → Bool
  | .proceed => x.frame.instruction?.isSome && (m.exceeded? x.tick).isNone
  | _ => false

/-- What one new generator of a body at this depth may bring about. -/
def offspring (m : Machine) (b depth : Nat) : Nat :=
  if depth < m.config.maxCallDepth then allowance b (m.config.maxCallDepth - depth - 1) else 0

def credit (m : Machine) (b : Nat) (x : Execution) : Nat := (b - x.steps) * (1 + m.offspring b x.base)

def grant (m : Machine) (b depth : Nat) : Nat := allowance b (m.config.maxCallDepth - depth)

/-- What is still to be asked and answered before the next instruction. -/
def stage (x : Execution) : Reply → Nat
  | .proceed => x.callers.length
  | .value _ => x.callers.length + 1
  | .resume | .delegating _ => x.callers.length + 2
  | .accepted => x.callers.length + 3
  | .reported | .refused _ => 0

theorem credit_congr {y : Execution} (hs : y.steps = x.steps) (hb : y.base = x.base) :
    m.credit b y = m.credit b x := by
  rw [credit, credit, hs, hb]

theorem grant_eq (m : Machine) (b depth : Nat) : m.grant b depth = b * (1 + m.offspring b depth) := by
  rw [grant, offspring]
  split
  · next h =>
    obtain ⟨k, hk⟩ : ∃ k, m.config.maxCallDepth - depth = k + 1 := ⟨_, (Nat.sub_add_cancel (by omega)).symm⟩
    rw [hk]
    rfl
  · next h =>
    rw [Nat.sub_eq_zero_of_le (by omega)]
    simp [allowance]

/-- Within the budget, an instruction takes one step of it. -/
theorem tick_steps (hm : m.config.mode = .bounded b) (hb : b < Config.wordMax)
    (hx : m.exceeded? x.tick = none) : x.tick.steps = x.steps + 1 ∧ x.steps + 1 ≤ b := by
  have hle : x.tick.steps ≤ b := by
    simpa [exceeded?, hm, Mode.budget?, Option.filter] using hx
  simp only [Execution.tick] at hle ⊢
  omega

/-- A step within the budget pays for itself and for one new generator. -/
theorem credit_tick (hm : m.config.mode = .bounded b) (hb : b < Config.wordMax)
    (hx : m.exceeded? x.tick = none) :
    m.credit b x.tick + (1 + m.offspring b x.base) ≤ m.credit b x := by
  obtain ⟨hsteps, hle⟩ := tick_steps hm hb hx
  have hbase : x.tick.base = x.base := rfl
  have hleft : b - x.steps = (b - (x.steps + 1)) + 1 := by omega
  rw [credit, credit, hsteps, hbase, hleft, Nat.succ_mul]

theorem ret_left (m : Machine) (b : Nat) (x : Execution) (v : Value) :
    (x.ret v).left (m.credit b) (m.grant b) ≤ m.credit b x := by
  rw [Execution.ret]
  split
  · exact Nat.zero_le _
  · next caller rest hcallers =>
    refine Nat.le_of_eq (credit_congr rfl ?_)
    simp only [Execution.base, hcallers, List.length_cons]
    omega

theorem call_left (m : Machine) (b : Nat) (x : Execution) (id : FunctionId) (args : List Value) :
    (m.call x id args).left (m.credit b) (m.grant b) ≤ m.credit b x + m.offspring b x.base := by
  rw [call]
  split
  · exact Nat.zero_le _
  · next f hf =>
    split
    · exact Nat.zero_le _
    · next hdepth =>
      have hbase : x.base ≤ x.depth := Nat.sub_le ..
      split
      · refine Nat.add_le_add_left ?_ _
        rw [offspring, if_pos (by omega)]
        exact allowance_mono b (by omega)
      · have hsame : m.credit b { x with
            depth := x.depth + 1, frame := .ofCall f args, callers := x.frame :: x.callers } =
              m.credit b x := by
          refine credit_congr rfl ?_
          simp only [Execution.base, List.length_cons]
          omega
        exact Nat.le_trans (Nat.le_of_eq hsame) (Nat.le_add_right ..)

/-- An effect leaves the credit and may take what one new generator is granted. -/
theorem apply_left (m : Machine) (b : Nat) (out : Output) (x : Execution) (effect : Effect) :
    (m.apply out x effect).2.left (m.credit b) (m.grant b) ≤
      m.credit b x + m.offspring b x.base := by
  cases effect with
  | call f args frame => exact call_left m b { x with frame := frame } f args
  | ret v => exact Nat.le_trans (ret_left m b x v) (Nat.le_add_right ..)
  | _ => exact Nat.le_add_right ..

theorem advance_left (hm : m.config.mode = .bounded b) (hb : b < Config.wordMax) (heap : Heap)
    (out : Output) (x : Execution) :
    (m.advance heap out x).2.2.left (m.credit b) (m.grant b) + (m.executes x .proceed).toNat ≤
      m.credit b x := by
  rw [advance, executes]
  cases hi : x.frame.instruction? with
  | none => simpa using ret_left m b x .null
  | some i =>
    cases hx : m.exceeded? x.tick with
    | some budget => simp [hx, Action.left]
    | none =>
      have htick := credit_tick hm hb hx
      simp only [hx, Option.isSome_some, Option.isNone_none, Bool.and_self, Bool.toNat_true]
      split
      · simp only [Action.left]
        omega
      · next heap' effect _ =>
        have happly := apply_left m b out x.tick effect
        have hbase : x.tick.base = x.base := rfl
        rw [hbase] at happly
        change (m.apply out x.tick effect).2.left (m.credit b) (m.grant b) + 1 ≤ _
        omega

/-- Nothing but an instruction within the budget makes a generator. -/
theorem advance_create {heap : Heap} {out : Output} {h : Nat} {f : Function} {args : List Value}
    {y : Execution} (hadvance : (m.advance heap out x).2.2 = .create h f args y) :
    m.executes x .proceed = true := by
  rw [advance] at hadvance
  rw [executes]
  split at hadvance
  · simp only [Execution.ret] at hadvance
    split at hadvance <;> cases hadvance
  · next i hi =>
    simp only at hadvance
    split at hadvance
    · cases hadvance
    · next hx => simp [hi, hx]

/-- The end of a frame without an instruction leaves one caller less. -/
theorem advance_stage {heap : Heap} {out : Output} {y : Execution} {reply : Reply}
    (hquiet : m.executes x .proceed = false)
    (hleads : (m.advance heap out x).2.2.Leads y reply) : stage y reply < x.callers.length := by
  rw [advance] at hleads
  rw [executes] at hquiet
  split at hleads
  · simp only [Execution.ret] at hleads
    split at hleads
    · cases hleads
    · next caller rest hcallers =>
      cases hleads
      simp [stage, hcallers]
  · next i hi =>
    simp only at hleads
    split at hleads
    · cases hleads
    · next hx => simp [hi, hx] at hquiet

/-- Bodies of a machine with a budget. -/
def meter (m : Machine) {b : Nat} (hm : m.config.mode = .bounded b) (hb : b < Config.wordMax) :
    m.engine.Meter where
  credit := m.credit b
  grant := m.grant b
  spends := m.executes
  stage := stage
  start_le depth f args out := by
    rw [grant_eq]
    exact Nat.le_refl _
  step_le heap out x reply := by
    cases reply with
    | proceed => exact advance_left hm hb heap out x
    | resume =>
      have hwake : (wake x).left (m.credit b) (m.grant b) = m.credit b x := by
        rw [wake]
        split <;> rfl
      exact Nat.le_of_eq hwake
    | delegating active =>
      cases active with
      | true => exact Nat.le_refl _
      | false => exact Nat.le_refl _
    | refused e => exact Nat.zero_le _
    | reported | accepted | value v => exact Nat.le_refl _
  create_spends {heap out x reply h f args y} hcreate := by
    match reply with
    | .proceed => exact advance_create hcreate
    | .resume =>
      simp only [engine, step, wake] at hcreate
      split at hcreate <;> cases hcreate
    | .delegating true | .delegating false => cases hcreate
    | .reported | .accepted | .refused e | .value v => cases hcreate
  stage_lt {heap out x reply y reply'} hquiet hleads := by
    match reply with
    | .proceed => exact advance_stage hquiet hleads
    | .resume =>
      simp only [engine, step, wake] at hleads
      split at hleads <;> cases hleads <;> simp [stage, Execution.await]
    | .accepted | .delegating false | .value v =>
      cases hleads
      simp [stage, Execution.push]
    -- The others pause or end the body.
    | .delegating true | .reported | .refused e => cases hleads

end Machine

namespace Script

variable {x y : Frame} {reply : Reply}

/-- A script goes through its lines, with at most two replies in between. -/
def stage (x : Frame) : Reply → Nat
  | .proceed | .resume => 3 * (x.body.size - x.pc)
  | .accepted => 3 * (x.body.size - x.pc) + 2
  | _ => 3 * (x.body.size - x.pc) + 1

theorem stage_le (x : Frame) (reply : Reply) : stage x reply ≤ 3 * (x.body.size - x.pc) + 2 := by
  cases reply <;> simp [stage]

theorem advance_leads (hleads : (advance x).Leads y reply) :
    x.pc < x.body.size ∧ y = { x with pc := x.pc + 1 } := by
  rw [advance] at hleads
  split at hleads
  · cases hleads
  · next cue hcue =>
    have hpc : x.pc < x.body.size := (Array.getElem?_eq_some_iff.mp hcue).1
    refine ⟨hpc, ?_⟩
    cases cue <;> cases hleads <;> rfl

theorem advance_stage (hleads : (advance x).Leads y reply) :
    stage y reply < 3 * (x.body.size - x.pc) := by
  obtain ⟨hpc, rfl⟩ := advance_leads hleads
  have hle := stage_le { x with pc := x.pc + 1 } reply
  simp only at hle
  omega

/-- A script never makes a generator. -/
theorem step_ne_create (t : Tally) (x : Frame) (reply : Reply) (h : Unit) (f : Function)
    (args : List Value) (y : Frame) : (step t x reply).2 ≠ .create h f args y := by
  cases reply with
  | proceed | resume =>
    simp only [step, advance]
    split
    · nofun
    · next cue _ => cases cue <;> nofun
  | delegating active =>
    simp only [step]
    split
    · nofun
    · cases active <;> nofun
  | reported | accepted | refused e =>
    simp only [step]
    split <;> nofun
  | value v => nofun

/-- Every reply but the first two brings the script to its next line. -/
theorem step_stage {t : Tally} {reply' : Reply} (hleads : (step t x reply).2.Leads y reply') :
    stage y reply' < stage x reply := by
  cases reply with
  | proceed | resume => exact advance_stage hleads
  | delegating active =>
    simp only [step] at hleads
    split at hleads
    · cases hleads
      simp [stage]
    · cases active <;> cases hleads
      simp [stage]
  | reported | accepted | refused e =>
    simp only [step] at hleads
    split at hleads <;> cases hleads <;> simp [stage]
  | value v =>
    cases hleads
    simp [stage]

/-- Scripts cost nothing, and each of them ends. -/
def meter (scripts : Scripts) : (engine scripts).Meter where
  credit _ := 0
  grant _ := 0
  spends _ _ := false
  stage := stage
  start_le _ _ _ _ := Nat.le_refl _
  step_le heap t x reply := by
    generalize ((engine scripts).step heap t x reply).2.2 = action
    cases action <;> exact Nat.le_refl _
  create_spends hcreate := (step_ne_create _ _ _ _ _ _ _ hcreate).elim
  stage_lt _ hleads := step_stage hleads

end Script

namespace Session

variable {s : Session} {b : Nat}

/-- The number of instructions of the machine, none or one, that the next step of a drive runs. -/
def executes (s : Session)
    (t : Drive.State (Nat ⊕ Unit) (Execution ⊕ Script.Frame) (Output × Script.Tally)) : Nat :=
  match t.2.focus with
  | .body (.inl x) reply => (s.machine.executes x reply).toNat
  | _ => 0

def meter (s : Session) (hm : s.machine.config.mode = .bounded b) (hb : b < Config.wordMax) :
    s.engine.Meter :=
  (s.machine.meter hm hb).sum (Script.meter s.scripts)

theorem cost_meter (hm : s.machine.config.mode = .bounded b) (hb : b < Config.wordMax) :
    (s.meter hm hb).cost = s.executes := by
  funext t
  rw [Engine.Meter.cost, executes]
  cases t.2.focus with
  | enter sent => rfl
  | body frame reply => cases frame <;> rfl
  | settled result => rfl

/-- No generator in a phase can bring about more than one at depth zero. -/
theorem worth_le (hm : s.machine.config.mode = .bounded b) (hb : b < Config.wordMax)
    {x : Generator (Nat ⊕ Unit) (Execution ⊕ Script.Frame)} (hx : x.FitsRole .idle) :
    (s.meter hm hb).worth x ≤ allowance b s.machine.config.maxCallDepth := by
  have hgrant (depth : Nat) : s.machine.grant b depth ≤ allowance b s.machine.config.maxCallDepth :=
    allowance_mono b (Nat.sub_le ..)
  obtain ⟨⟨p, hp⟩, -⟩ := hx
  cases p with
  | fresh =>
    simp only [Engine.Meter.worth, Generator.isStarted, hp.1, hp.2.1, cond_false]
    cases x.handle with
    | inl depth => exact hgrant depth
    | inr _ => exact Nat.zero_le _
  | suspended =>
    obtain ⟨frame, hframe⟩ := Option.isSome_iff_exists.mp hp.2.1
    simp only [Engine.Meter.worth, Generator.isStarted, hp.1, hframe, cond_true, Option.map_some,
      Option.getD_some, Nat.zero_add]
    cases frame with
    | inl y =>
      refine Nat.le_trans ?_ (hgrant y.base)
      rw [Machine.grant_eq]
      exact Nat.mul_le_mul_right _ (Nat.sub_le ..)
    | inr _ => exact Nat.zero_le _
  | finished => simp [Engine.Meter.worth, Generator.isStarted, hp.1, hp.2.1]

end Session

/-- Bounded mode ends. With a budget below the greatest word, every call of a function returns, and so does
every advance of a generator that nobody drives, whatever the generators delegate to and hold. If the
generators are each in a phase, then all further advances, of them and of the generators that their bodies make,
run together at most as many instructions as the budget, the greatest depth and the number of generators
allow. -/
theorem bounded_terminates (s : Session) {b : Nat} (hm : s.machine.config.mode = .bounded b)
    (hb : b < Config.wordMax) :
    (∀ name args, ∃ fuel r, s.call fuel name args = some r) ∧
    (∀ g x input, s.world.generator? g = some x → x.locked = false →
      ∃ fuel r, s.advance fuel g input = some r) ∧
    (LocalInvariant.Resting Generator.FitsRole s.world →
      ∀ n w', World.Worked s.engine s.executes s.world n w' →
        n ≤ s.world.generators.size * allowance b s.machine.config.maxCallDepth) := by
  refine ⟨fun name args => ?_, fun g x input hx hl => ?_, fun hrest n w' hworked => ?_⟩
  · simp only [Session.call]
    split
    · exact ⟨0, _, rfl⟩
    · next f hf =>
      split
      · exact ⟨0, _, rfl⟩
      · split
        · exact ⟨0, _, rfl⟩
        · obtain ⟨q, hq⟩ := (s.meter hm hb).record_ends s.world .silent
            (.inl (Machine.execution 1 f args)) .proceed
          obtain ⟨fuel, hrun⟩ := hq.run
          simp only [Session.runBody]
          exact ⟨fuel, _, by rw [hrun]; rfl⟩
  · have hopen := World.open_eq (i := input) hx hl
    obtain ⟨hc, -⟩ := World.open_chained hopen
    obtain ⟨r, hr⟩ := (s.meter hm hb).ends hc (Drive.turnTo_waiting ..)
    obtain ⟨fuel, hfuel⟩ := (World.advance_iff hopen).mpr hr
    exact ⟨fuel, _, by rw [Session.advance, hfuel]; rfl⟩
  · rw [← Session.cost_meter hm hb] at hworked
    have hle := Engine.Meter.worked_le hworked
    have htotal : s.world.total (s.meter hm hb).worth ≤
        s.world.generators.size * allowance b s.machine.config.maxCallDepth :=
      World.total_le fun g x hx => Session.worth_le hm hb (hrest g x hx)
    omega

/-- A generator that makes another of its kind and delegates to it. -/
theorem bounded_terminates_of_recursion :
    ∃ (s : Session) (n : Nat) (w' : World _ _ _), s.machine.config = ⟨.bounded 9, 3⟩ ∧
      (∃ fuel r, s.advance fuel 0 .next = some r) ∧
      World.Worked s.engine s.executes s.world n w' ∧ 0 < n ∧ n ≤ 1 * allowance 9 3 := by
  let f : Function := ⟨"recursion", 0, 0, #[.instantiate 0 0, .yieldFrom]⟩
  let s : Session := ⟨⟨⟨#[f], ∅⟩, ⟨.bounded 9, 3⟩⟩, ∅, ⟨.empty, (.silent, .empty), #[.fresh (.inl 0) f []]⟩⟩
  have hrest : LocalInvariant.Resting Generator.FitsRole s.world := by
    intro g x hx
    match g with
    | 0 =>
      obtain rfl := Option.some.inj hx
      exact Generator.fitsRole_invariant.fresh ..
    | g + 1 => simp [s, World.generator?] at hx
  obtain ⟨-, hadvance, hcount⟩ := bounded_terminates s (b := 9) rfl (by decide)
  obtain ⟨fuel, ⟨s', r⟩, hr⟩ := hadvance 0 _ .next rfl rfl
  obtain ⟨⟨w', r'⟩, hw', -⟩ := Option.map_eq_some_iff.mp hr
  have hopen : s.world.open? 0 .next = some (s.world.lock 0, ⟨0, none, .enter none, []⟩) := rfl
  have hends := (World.advance_iff hopen).mp ⟨fuel, hw'⟩
  -- The first instruction is run in the second step.
  obtain ⟨t, u, hstart, hnext, hfirst⟩ : ∃ t u,
      Drive.step s.engine (s.world.lock 0, ⟨0, none, .enter none, []⟩) = .next t ∧
        Drive.step s.engine t = .next u ∧ s.executes t = 1 := ⟨_, _, rfl, rfl, rfl⟩
  obtain ⟨k, hk⟩ := ((hends.of_next hstart).of_next hnext).costs s.executes
  have hworked : World.Worked s.engine s.executes s.world _ _ :=
    .advance (.refl _) hopen (.next hstart (.next hnext hk))
  exact ⟨s, _, _, rfl, ⟨fuel, _, hr⟩, hworked, by omega, hcount hrest _ _ hworked⟩

end YieldMachine
