import YieldMachine.Proofs.Drive.Discipline
import YieldMachine.Proofs.Machine.Limits
import YieldMachine.Proofs.Session.Progress

/-!
Limits cut runs short and change nothing else. A session and the same session under laxer limits go through the
same states until one of its bodies reports a limit that has changed. So a call that runs `n` instructions is
the same under every budget from `n` on and fails by every smaller one, with part of its output; and laxer limits give
the same answers, in the same number of instructions, to calls of functions and to whole conversations with
a generator in which no body reports a limit (`limits_only_cut`).
-/

namespace YieldMachine

section Agreement

variable {σ ρ : Type} {step step' : σ → Transition σ ρ} {cost cost' : σ → Nat} {s t : σ}

/-- What the steps of a run cost together, as long as it takes no more than `n` of them. -/
def spent (step : σ → Transition σ ρ) (cost : σ → Nat) : Nat → σ → Nat
  | 0, _ => 0
  | n + 1, s =>
    cost s + match step s with
      | .next t => spent step cost n t
      | .halt _ => 0

theorem spent_of_next (h : step s = .next t) (n : Nat) :
    spent step cost (n + 1) s = cost s + spent step cost n t := by
  rw [spent, h]

theorem spent_of_halt {r : ρ} (h : step s = .halt r) (n : Nat) : spent step cost (n + 1) s = cost s := by
  rw [spent, h]
  rfl

/-- Two machines that step alike wherever the first one comes run alike. -/
theorem run_congr (h : ∀ n t, Reaches step s n t → step' t = step t) (k : Nat) :
    run step' k s = run step k s := by
  induction k generalizing s with
  | zero => rfl
  | succ k ih =>
    rw [run, run, h 0 s (.refl s)]
    cases hs : step s with
    | next t => exact ih fun n u hr => h (n + 1) u (.next hs hr)
    | halt r => rfl

theorem spent_congr (h : ∀ n t, Reaches step s n t → step' t = step t ∧ cost' t = cost t) (k : Nat) :
    spent step' cost' k s = spent step cost k s := by
  induction k generalizing s with
  | zero => rfl
  | succ k ih =>
    obtain ⟨hstep, hcost⟩ := h 0 s (.refl s)
    rw [spent, spent, hstep, hcost]
    cases hs : step s with
    | next t => exact congrArg (cost s + ·) (ih fun n u hr => h (n + 1) u (.next hs hr))
    | halt r => rfl

end Agreement

/-- Carrying out an action leaves the state that bodies share. -/
theorem Record.perform_state {H F S : Type} (w : World H F S) (r : Record) (action : Action H F) :
    (∀ t, Record.perform w r action = .next t → t.1.state = w.state) ∧
      ∀ q, Record.perform w r action = .halt q → q.1.state = w.state := by
  constructor
  · intro t ht
    cases action with
    | delegate source frame =>
      simp only [Record.perform] at ht
      split at ht <;> cases ht <;> rfl
    | _ => cases ht <;> rfl
  · intro q hq
    cases action with
    | delegate source frame =>
      simp only [Record.perform] at hq
      split at hq <;> cases hq
    | _ => cases hq <;> rfl

/-- A drive asks its engine for nothing but new frames, the step of the body in focus, and to give up frames. -/
theorem Drive.step_congr {H F S : Type} {E E' : Engine H F S} {t : Drive.State H F S}
    (hstart : E'.start = E.start) (hdiscard : E'.discard = E.discard)
    (hstep : ∀ frame reply, t.2.focus = .body frame reply →
      E'.step t.1.heap t.1.state frame reply = E.step t.1.heap t.1.state frame reply) :
    Drive.step E' t = Drive.step E t := by
  obtain ⟨w, d⟩ := t
  obtain ⟨start, step, discard, held⟩ := E
  obtain ⟨start', step', discard', held'⟩ := E'
  obtain rfl : start' = start := hstart
  obtain rfl : discard' = discard := hdiscard
  cases hfocus : d.focus with
  | enter sent =>
    simp only [Drive.step, hfocus]
    cases w.generator? d.current <;> rfl
  | body frame reply =>
    have hsame := hstep frame reply hfocus
    simp only at hsame
    simp only [Drive.step, hfocus, hsame]
    cases (step w.heap w.state frame reply).2.2 <;> rfl
  | settled result =>
    simp only [Drive.step, hfocus]
    split
    · rfl
    · cases d.waiting <;> rfl

namespace Session

variable {s s' : Session} {c : Config} {heap : Heap} {state : Output × Script.Tally}
  {frame : Execution ⊕ Script.Frame} {reply : Reply}

/-- The session with other limits of its machine. -/
def limited (s : Session) (c : Config) : Session := { s with machine := s.machine.limited c }

/-- Whether a step of a body reports a limit that the limits `c` do not share. -/
def cuts (s : Session) (c : Config) (heap : Heap) (state : Output × Script.Tally) :
    Execution ⊕ Script.Frame → Reply → Bool
  | .inl x, reply => s.machine.cuts c (s.machine.step heap state.1 x reply).2.2
  | .inr _, _ => false

theorem step_limited (h : s.machine.config.Laxer c) (hcut : s.cuts c heap state frame reply = false) :
    (s.limited c).engine.step heap state frame reply = s.engine.step heap state frame reply := by
  cases frame with
  | inl x =>
    have hsame := Machine.step_limited h hcut
    simp only [engine, Engine.sum, Machine.engine, limited, hsame]
  | inr x => rfl

/-! ### Calls of functions -/

/-- The number of instructions, none or one, that the next step of a body runs. -/
def runs (s : Session) :
    Record.State (Nat ⊕ Unit) (Execution ⊕ Script.Frame) (Output × Script.Tally) → Nat
  | (_, _, .inl x, reply) => (s.machine.executes x reply).toNat
  | (_, _, .inr _, _) => 0

/-- Where a called function begins. -/
def outset (s : Session) (f : Function) (args : List Value) :
    Record.State (Nat ⊕ Unit) (Execution ⊕ Script.Frame) (Output × Script.Tally) :=
  (s.world, .silent, .inl (Machine.execution 1 f args), .proceed)

/-- The number of instructions that a call of a function runs. -/
def instructions (s : Session) (fuel : Nat) (name : String) (args : List Value) : Nat :=
  match s.function name with
  | .error _ => 0
  | .ok f =>
    if s.machine.config.maxCallDepth = 0 then 0
    else if f.isGenerator then 0
    else spent (Record.step s.engine) s.runs fuel (s.outset f args)

/-- What a call of a function gives when its body has come to an end. -/
def answer (f : Function) : BodyOutcome (Execution ⊕ Script.Frame) → Except BodyError Value
  | .returned v => .ok v
  | .failed e => .error e
  | .suspended (.inl _) => .error (.fault (.notAGenerator f.name))
  | .suspended (.inr _) => .ok .null

variable {name : String} {args : List Value} {f : Function} {fuel : Nat}

theorem call_plain (hf : s.function name = .ok f) (hlimit : s.machine.config.maxCallDepth ≠ 0)
    (hplain : f.isGenerator = false) (fuel : Nat) (args : List Value) :
    s.call fuel name args = (run (Record.step s.engine) fuel (s.outset f args)).map fun q =>
      (s.setWorld q.1, answer f q.2.2) := by
  simp only [call, hf, hlimit, hplain, if_false, Bool.false_eq_true, runBody, Option.map_map]
  congr 1
  funext q
  obtain ⟨w, r, o⟩ := q
  cases o with
  | suspended frame => cases frame <;> rfl
  | _ => rfl

/-- What a call of a function comes to: a fault at once, a new generator, or what its body ends in. -/
inductive Concludes (s : Session) (fuel : Nat) (name : String) (args : List Value) :
    Session → Except BodyError Value → Prop where
  | unknown {e : Fault} (hf : s.function name = .error e) : Concludes s fuel name args s (.error (.fault e))
  | refused {f : Function} (hf : s.function name = .ok f) (hlimit : s.machine.config.maxCallDepth = 0) :
      Concludes s fuel name args s (.error (.fault (.callDepthExceeded 0)))
  | creates {f : Function} (hf : s.function name = .ok f) (hlimit : s.machine.config.maxCallDepth ≠ 0)
      (hgenerator : f.isGenerator = true) :
      Concludes s fuel name args (s.setWorld (s.world.create (.inl 1) f args).2)
        (.ok (.generator (s.world.create (.inl 1) f args).1))
  | runs {f : Function} {q : Record.Result (Nat ⊕ Unit) (Execution ⊕ Script.Frame) (Output × Script.Tally)}
      (hf : s.function name = .ok f) (hlimit : s.machine.config.maxCallDepth ≠ 0) (hplain : f.isGenerator = false)
      (hrun : run (Record.step s.engine) fuel (s.outset f args) = some q) :
      Concludes s fuel name args (s.setWorld q.1) (answer f q.2.2)

theorem call_concludes {r : Except BodyError Value} (h : s.call fuel name args = some (s', r)) :
    s.Concludes fuel name args s' r := by
  cases hf : s.function name with
  | error e =>
    simp only [call, hf] at h
    cases h
    exact .unknown hf
  | ok f =>
    by_cases hlimit : s.machine.config.maxCallDepth = 0
    · simp only [call, hf, hlimit, if_true] at h
      cases h
      exact .refused hf hlimit
    · cases hplain : f.isGenerator with
      | true =>
        simp only [call, hf, hlimit, hplain, if_true, if_false] at h
        cases h
        exact .creates hf hlimit hplain
      | false =>
        rw [call_plain hf hlimit hplain] at h
        obtain ⟨q, hrun, heq⟩ := Option.map_eq_some_iff.mp h
        cases heq
        exact .runs hf hlimit hplain hrun

theorem instructions_plain (hf : s.function name = .ok f) (hlimit : s.machine.config.maxCallDepth ≠ 0)
    (hplain : f.isGenerator = false) (fuel : Nat) (args : List Value) :
    s.instructions fuel name args = spent (Record.step s.engine) s.runs fuel (s.outset f args) := by
  simp only [instructions, hf, hlimit, hplain, if_false, Bool.false_eq_true]

theorem record_step_limited (h : s.machine.config.Laxer c)
    {t : Record.State (Nat ⊕ Unit) (Execution ⊕ Script.Frame) (Output × Script.Tally)}
    (hcut : s.cuts c t.1.heap t.1.state t.2.2.1 t.2.2.2 = false) :
    Record.step (s.limited c).engine t = Record.step s.engine t ∧ (s.limited c).runs t = s.runs t := by
  obtain ⟨w, r, frame, reply⟩ := t
  refine ⟨by simp only [Record.step, step_limited h hcut], ?_⟩
  cases frame with
  | inl x => exact congrArg Bool.toNat (Machine.executes_limited h hcut)
  | inr x => rfl

/-- A body that reports a limit ends by this report. -/
theorem record_step_of_cuts
    {t : Record.State (Nat ⊕ Unit) (Execution ⊕ Script.Frame) (Output × Script.Tally)}
    (hcut : s.cuts c t.1.heap t.1.state t.2.2.1 t.2.2.2 = true) :
    ∃ w r e, Record.step s.engine t = .halt (w, r, .failed e) ∧ s.machine.cuts c (.fail e) = true := by
  obtain ⟨w, r, frame, reply⟩ := t
  cases frame with
  | inr x => cases hcut
  | inl x =>
    rcases hE : s.machine.step w.heap w.state.1 x reply with ⟨heap, out, action⟩
    simp only [cuts, hE] at hcut
    cases action with
    | fail e =>
      refine ⟨{ w with heap := heap, state := (out, w.state.2) }, r, e, ?_, hcut⟩
      simp only [Record.step, engine, Engine.sum, Machine.engine, hE]
      rfl
    | _ => cases hcut

/-- A run that does not end by the report of a limit never reports one. -/
theorem cuts_of_run {q : Record.Result (Nat ⊕ Unit) (Execution ⊕ Script.Frame) (Output × Script.Tally)}
    {t u : Record.State (Nat ⊕ Unit) (Execution ⊕ Script.Frame) (Output × Script.Tally)} {n : Nat}
    (hrun : run (Record.step s.engine) fuel t = some q)
    (hq : ∀ e, q.2.2 = .failed e → s.machine.cuts c (.fail e) = false)
    (hr : Reaches (Record.step s.engine) t n u) :
    s.cuts c u.1.heap u.1.state u.2.2.1 u.2.2.2 = false := by
  by_contra hcut
  obtain ⟨w, r, e, hhalt, he⟩ := record_step_of_cuts (Bool.eq_true_of_not_eq_false hcut)
  obtain rfl := (hr.ends_iff.mp (ends_of_run hrun)).of_halt hhalt
  rw [hq e rfl] at he
  cases he

theorem call_machine {r : Except BodyError Value} (hcall : s.call fuel name args = some (s', r)) :
    s'.machine = s.machine := by
  cases call_concludes hcall <;> rfl

/-- Laxer limits change no call that does not end by the report of one of them. -/
theorem call_limited {r : Except BodyError Value} (h : s.machine.config.Laxer c)
    (hcall : s.call fuel name args = some (s', r))
    (hr : ∀ e, r = .error e → s.machine.cuts c (.fail e) = false) :
    (s.limited c).call fuel name args = some (s'.limited c, r) ∧
      (s.limited c).instructions fuel name args = s.instructions fuel name args := by
  have hfunction : (s.limited c).function name = s.function name := rfl
  cases hf : s.function name with
  | error e =>
    simp only [call, instructions, hfunction, hf] at hcall ⊢
    cases hcall
    exact ⟨rfl, trivial⟩
  | ok f =>
    by_cases hlimit : s.machine.config.maxCallDepth = 0
    · simp only [call, hf, hlimit, if_true] at hcall
      cases hcall
      have hsame := hr _ rfl
      simp only [Machine.cuts, bne_eq_false_iff_eq, hlimit] at hsame
      have hzero : (s.limited c).machine.config.maxCallDepth = 0 := hsame.symm
      simp only [call, instructions, hfunction, hf, hlimit, hzero, if_true]
      exact ⟨trivial, trivial⟩
    · have hlimit' : (s.limited c).machine.config.maxCallDepth ≠ 0 := by
        have hle : s.machine.config.maxCallDepth ≤ (s.limited c).machine.config.maxCallDepth := h.depth
        omega
      cases hplain : f.isGenerator with
      | true =>
        simp only [call, instructions, hfunction, hf, hlimit, hlimit', hplain, if_true, if_false] at hcall ⊢
        cases hcall
        exact ⟨rfl, trivial⟩
      | false =>
        rw [call_plain hf hlimit hplain] at hcall
        obtain ⟨q, hrun, heq⟩ := Option.map_eq_some_iff.mp hcall
        obtain ⟨rfl, rfl⟩ := Prod.mk.inj heq
        have hcut {n u} (hu : Reaches (Record.step s.engine) (s.outset f args) n u) :=
          record_step_limited h (cuts_of_run hrun (fun e he => hr e (by rw [he]; rfl)) hu)
        rw [call_plain (hfunction.trans hf) hlimit' hplain, instructions_plain (hfunction.trans hf) hlimit' hplain,
          instructions_plain hf hlimit hplain]
        refine ⟨?_, spent_congr (fun n u hu => hcut hu) fuel⟩
        have hsame := run_congr (fun n u hu => (hcut hu).1) fuel
        rw [show (s.limited c).outset f args = s.outset f args from rfl, hsame, hrun]
        rfl

/-! ### A budget -/

variable {b : Nat} {w : World (Nat ⊕ Unit) (Execution ⊕ Script.Frame) (Output × Script.Tally)} {r : Record}
  {x : Execution} {q : Record.Result (Nat ⊕ Unit) (Execution ⊕ Script.Frame) (Output × Script.Tally)}

/-- The session with a budget. -/
def budgeted (s : Session) (b : Nat) : Session :=
  s.limited { s.machine.config with mode := .bounded b }

/-- The session with another limit of the depth. -/
def deepened (s : Session) (depth : Nat) : Session :=
  s.limited { s.machine.config with maxCallDepth := depth }

/-- A body goes on in an execution that has counted its instruction, and adds to the output. -/
theorem record_next {t' : Record.State (Nat ⊕ Unit) (Execution ⊕ Script.Frame) (Output × Script.Tally)}
    (hs : Record.step s.engine (w, r, .inl x, reply) = .next t') :
    ∃ w' r' y reply', t' = (w', r', .inl y, reply') ∧
      y.steps = (bif s.machine.executes x reply then x.tick.steps else x.steps) ∧
      ∃ text, w'.state.1 = w.state.1.print text := by
  obtain ⟨w', r', frame', reply'⟩ := t'
  obtain ⟨hleads, -⟩ := Record.step_cases hs
  have hleads' : ((s.machine.step w.heap w.state.1 x reply).2.2.map Sum.inl Sum.inl).Leads
    (frame' : Execution ⊕ Script.Frame) reply' (H := Nat ⊕ Unit) := hleads
  obtain ⟨y, rfl, hy⟩ := hleads'.of_map
  obtain ⟨text, htext⟩ := s.machine.step_output w.heap w.state.1 x reply
  have hstate := (Record.perform_state _ r _).1 _ hs
  refine ⟨w', r', y, reply', rfl, Machine.steps_of_leads hy, text, ?_⟩
  exact (congrArg Prod.fst hstate).trans htext

theorem record_halt (hs : Record.step s.engine (w, r, .inl x, reply) = .halt q) :
    ∃ text, q.1.state.1 = w.state.1.print text := by
  obtain ⟨text, htext⟩ := s.machine.step_output w.heap w.state.1 x reply
  have hstate := (Record.perform_state _ r _).2 _ hs
  exact ⟨text, (congrArg Prod.fst hstate).trans htext⟩

theorem run_output (hrun : run (Record.step s.engine) fuel (w, r, .inl x, reply) = some q) :
    ∃ text, q.1.state.1 = w.state.1.print text := by
  induction fuel generalizing w r x reply with
  | zero => cases hrun
  | succ n ih =>
    cases hs : Record.step s.engine (w, r, .inl x, reply) with
    | halt q' =>
      rw [run_of_halt hs] at hrun
      obtain rfl := Option.some.inj hrun
      exact record_halt hs
    | next t' =>
      rw [run_of_next hs] at hrun
      obtain ⟨w', r', y, reply', rfl, -, text, htext⟩ := record_next hs
      obtain ⟨rest, hrest⟩ := ih hrun
      exact ⟨text ++ rest, by rw [hrest, htext, Output.print_print]⟩

/-- Where the budget has not run out, it does not steer the body. -/
theorem record_step_budgeted (hm : s.machine.config.mode = .unbounded)
    (hb : s.machine.executes x reply = true → x.tick.steps ≤ b) :
    Record.step (s.budgeted b).engine (w, r, .inl x, reply) = Record.step s.engine (w, r, .inl x, reply) := by
  have hlaxer : (s.budgeted b).machine.config.Laxer s.machine.config := by
    refine ⟨fun b' hb' => ?_, Nat.le_refl _⟩
    rw [hm] at hb'
    cases hb'
  have hcut : (s.budgeted b).cuts s.machine.config w.heap w.state (.inl x) reply = false := by
    refine Machine.cuts_of_within rfl fun hreply hi => ?_
    have hle := hb ((Machine.executes_of_unbounded hm).mpr ⟨hreply, hi⟩)
    simpa [Machine.exceeded?, budgeted, limited, Machine.limited, Mode.budget?, Option.filter] using hle
  exact (record_step_limited (t := (w, r, .inl x, reply)) hlaxer hcut).1.symm

/-- Where it has run out, the next instruction fails. -/
theorem record_step_exhausted (hb : b < Config.wordMax) (hx : x.steps = b) (hi : x.frame.instruction?.isSome = true) :
    Record.step (s.budgeted b).engine (w, r, .inl x, .proceed) =
      .halt (w, r, .failed (.fault (.budgetExceeded b))) := by
  have hexceeded : (s.budgeted b).machine.exceeded? x.tick = some b := by
    have htick : b < x.tick.steps := by
      simp only [Execution.tick]
      omega
    simpa [Machine.exceeded?, budgeted, limited, Machine.limited, Mode.budget?, Option.filter] using htick
  obtain ⟨i, hi⟩ := Option.isSome_iff_exists.mp hi
  simp only [Record.step, engine, Engine.sum, Machine.engine, Machine.step, Machine.advance, hi, hexceeded]
  rfl

/-- With budget for all its instructions a body runs as without one. -/
theorem run_within (hm : s.machine.config.mode = .unbounded) {k : Nat} (hk : x.steps ≤ k)
    (hle : k + spent (Record.step s.engine) s.runs fuel (w, r, .inl x, reply) ≤ b) :
    run (Record.step (s.budgeted b).engine) fuel (w, r, .inl x, reply) =
      run (Record.step s.engine) fuel (w, r, .inl x, reply) := by
  induction fuel generalizing w r x reply k with
  | zero => rfl
  | succ n ih =>
    have htick : x.tick.steps ≤ k + 1 := Nat.le_trans (Nat.min_le_left ..) (Nat.succ_le_succ hk)
    have hruns : s.runs (w, r, .inl x, reply) = (s.machine.executes x reply).toNat := rfl
    have hsame : Record.step (s.budgeted b).engine (w, r, .inl x, reply) =
        Record.step s.engine (w, r, .inl x, reply) := by
      refine record_step_budgeted hm fun hx => Nat.le_trans htick ?_
      rw [spent, hruns, hx, Bool.toNat_true] at hle
      omega
    rw [run, run, hsame]
    cases hs : Record.step s.engine (w, r, .inl x, reply) with
    | halt q => rfl
    | next t' =>
      obtain ⟨w', r', y, reply', rfl, hsteps, -⟩ := record_next hs
      rw [spent_of_next hs, hruns, ← Nat.add_assoc] at hle
      refine ih (k := k + (s.machine.executes x reply).toNat) ?_ hle
      rw [hsteps]
      cases s.machine.executes x reply with
      | true => exact htick
      | false => exact hk

/-- With a smaller budget it fails by the budget, after part of the output. -/
theorem run_beyond (hm : s.machine.config.mode = .unbounded) (hb : b < Config.wordMax) (hx : x.steps ≤ b)
    (hlt : b < x.steps + spent (Record.step s.engine) s.runs fuel (w, r, .inl x, reply))
    (hrun : run (Record.step s.engine) fuel (w, r, .inl x, reply) = some q) :
    ∃ w' r' text, run (Record.step (s.budgeted b).engine) fuel (w, r, .inl x, reply) =
        some (w', r', .failed (.fault (.budgetExceeded b))) ∧ q.1.state.1 = w'.state.1.print text := by
  induction fuel generalizing w r x reply with
  | zero => cases hrun
  | succ n ih =>
    have hruns : s.runs (w, r, .inl x, reply) = (s.machine.executes x reply).toNat := rfl
    by_cases hlast : s.machine.executes x reply = true ∧ x.steps = b
    · -- The budget is used up and there is one more instruction.
      obtain ⟨hexecutes, hsteps⟩ := hlast
      obtain ⟨rfl, hi⟩ := (Machine.executes_of_unbounded hm).mp hexecutes
      obtain ⟨text, htext⟩ := run_output hrun
      exact ⟨w, r, text, run_of_halt (record_step_exhausted hb hsteps hi) n, htext⟩
    · have htick : s.machine.executes x reply = true → x.tick.steps = x.steps + 1 ∧ x.steps + 1 ≤ b := by
        intro hexecutes
        have hne : x.steps ≠ b := fun he => hlast ⟨hexecutes, he⟩
        simp only [Execution.tick]
        omega
      have hsame : Record.step (s.budgeted b).engine (w, r, .inl x, reply) =
          Record.step s.engine (w, r, .inl x, reply) := by
        refine record_step_budgeted hm fun hexecutes => ?_
        obtain ⟨heq, hle⟩ := htick hexecutes
        omega
      cases hs : Record.step s.engine (w, r, .inl x, reply) with
      | halt q' =>
        -- A body that ends here would have run one instruction at most.
        rw [spent_of_halt hs, hruns] at hlt
        cases hexecutes : s.machine.executes x reply with
        | true =>
          obtain ⟨-, hle⟩ := htick hexecutes
          rw [hexecutes, Bool.toNat_true] at hlt
          omega
        | false =>
          rw [hexecutes, Bool.toNat_false] at hlt
          omega
      | next t' =>
        obtain ⟨w', r', y, reply', rfl, hsteps, -⟩ := record_next hs
        rw [run_of_next hs] at hrun
        rw [run_of_next (hsame.trans hs)]
        rw [spent_of_next hs, hruns] at hlt
        have hy : y.steps = x.steps + (s.machine.executes x reply).toNat ∧ y.steps ≤ b := by
          cases hexecutes : s.machine.executes x reply with
          | true =>
            obtain ⟨heq, hle⟩ := htick hexecutes
            rw [hsteps, hexecutes, cond_true, Bool.toNat_true]
            omega
          | false =>
            rw [hsteps, hexecutes, cond_false, Bool.toNat_false]
            exact ⟨rfl, hx⟩
        exact ih hy.2 (by omega) hrun

/-- A budget either suffices for the whole call, or the call fails by it. -/
theorem call_budgeted {r : Except BodyError Value} (hm : s.machine.config.mode = .unbounded)
    (hcall : s.call fuel name args = some (s', r)) (b : Nat) :
    (s.instructions fuel name args ≤ b → (s.budgeted b).call fuel name args = some (s'.budgeted b, r)) ∧
    (b < s.instructions fuel name args → b < Config.wordMax → ∃ t text,
      (s.budgeted b).call fuel name args = some (t, .error (.fault (.budgetExceeded b))) ∧
        s'.output = t.output.print text) := by
  have hfunction : (s.budgeted b).function name = s.function name := rfl
  have hdepth : (s.budgeted b).machine.config.maxCallDepth = s.machine.config.maxCallDepth := rfl
  cases hf : s.function name with
  | error e =>
    simp only [call, instructions, hfunction, hf] at hcall ⊢
    cases hcall
    exact ⟨fun _ => rfl, fun hlt => absurd hlt (Nat.not_lt_zero b)⟩
  | ok f =>
    by_cases hlimit : s.machine.config.maxCallDepth = 0
    · simp only [call, instructions, hfunction, hdepth, hf, hlimit, if_true] at hcall ⊢
      cases hcall
      exact ⟨fun _ => rfl, fun hlt => absurd hlt (Nat.not_lt_zero b)⟩
    · cases hplain : f.isGenerator with
      | true =>
        simp only [call, instructions, hfunction, hdepth, hf, hlimit, hplain, if_true, if_false] at hcall ⊢
        cases hcall
        exact ⟨fun _ => rfl, fun hlt => absurd hlt (Nat.not_lt_zero b)⟩
      | false =>
        rw [call_plain hf hlimit hplain] at hcall
        obtain ⟨q, hrun, heq⟩ := Option.map_eq_some_iff.mp hcall
        obtain ⟨rfl, rfl⟩ := Prod.mk.inj heq
        rw [instructions_plain hf hlimit hplain,
          call_plain (s := s.budgeted b) (hfunction.trans hf) hlimit hplain,
          show (s.budgeted b).outset f args = s.outset f args from rfl]
        refine ⟨fun hle => ?_, fun hlt hb => ?_⟩
        · rw [outset, run_within hm (Nat.zero_le 0) (by rwa [Nat.zero_add]), ← outset, hrun]
          rfl
        · have hlt' : b < 0 + spent (Record.step s.engine) s.runs fuel (s.outset f args) := by rwa [Nat.zero_add]
          obtain ⟨w', r', text, hrun', htext⟩ := run_beyond hm hb (Nat.zero_le b) hlt' hrun
          rw [outset, hrun']
          exact ⟨_, text, rfl, htext⟩

/-! ### Conversations -/

/-- What a call on a generator gives: its answer, after how many instructions, and the session it leaves. -/
structure Exchange where
  instructions : Nat
  answer : Except GeneratorError Bool
  session : Session

def Exchange.limited (e : Exchange) (c : Config) : Exchange := { e with session := e.session.limited c }

/-- Calls on one generator, one after the other. -/
def converse (fuel : Nat) (g : GeneratorId) : Session → List Input → Option (List Exchange)
  | _, [] => some []
  | s, i :: is =>
    (s.advance fuel g i).bind fun (s', r) =>
      let n := ((s.world.open? g i).map (spent (Drive.step s.engine) s.executes fuel)).getD 0
      (converse fuel g s' is).map (⟨n, r, s'⟩ :: ·)

/-- Whether the next step of a drive is one in which a body of this machine reports a limit that `c` does not share. -/
def cutsAt (s : Session) (c : Config)
    (t : Drive.State (Nat ⊕ Unit) (Execution ⊕ Script.Frame) (Output × Script.Tally)) : Bool :=
  match t.2.focus with
  | .body frame reply => s.cuts c t.1.heap t.1.state frame reply
  | _ => false

/-- Throughout the calls on `g` that begin in the second session, no body reports a limit of the first session
that `c` does not share. -/
def Uncut (s : Session) (c : Config) (g : GeneratorId) : Session → List Input → Prop
  | _, [] => True
  | s', i :: is =>
    (∀ t n u, s'.world.open? g i = some t → Reaches (Drive.step s'.engine) t n u → s.cutsAt c u = false) ∧
      ∀ fuel s'' r, s'.advance fuel g i = some (s'', r) → Uncut s c g s'' is

theorem drive_step_limited (h : s.machine.config.Laxer c)
    {t : Drive.State (Nat ⊕ Unit) (Execution ⊕ Script.Frame) (Output × Script.Tally)}
    (hcut : s.cutsAt c t = false) :
    Drive.step (s.limited c).engine t = Drive.step s.engine t ∧ (s.limited c).executes t = s.executes t := by
  constructor
  · refine Drive.step_congr rfl rfl fun frame reply hfocus => step_limited h ?_
    rwa [cutsAt, hfocus] at hcut
  · rw [executes, executes]
    rw [cutsAt] at hcut
    split
    · next x reply hfocus =>
      rw [hfocus] at hcut
      exact congrArg Bool.toNat (Machine.executes_limited h hcut)
    · rfl

variable {g : GeneratorId} {i : Input} {is : List Input}

/-- Where the bodies report no limit, neither of the two runs knows which of the limits it is under. -/
theorem drive_limited (h : s.machine.config.Laxer c)
    {t : Drive.State (Nat ⊕ Unit) (Execution ⊕ Script.Frame) (Output × Script.Tally)}
    (hcut : (∀ n u, Reaches (Drive.step s.engine) t n u → s.cutsAt c u = false) ∨
      ∀ n u, Reaches (Drive.step (s.limited c).engine) t n u → s.cutsAt c u = false) (fuel : Nat) :
    run (Drive.step (s.limited c).engine) fuel t = run (Drive.step s.engine) fuel t ∧
      spent (Drive.step (s.limited c).engine) (s.limited c).executes fuel t =
        spent (Drive.step s.engine) s.executes fuel t := by
  rcases hcut with hcut | hcut
  · have hsame n u (hr : Reaches (Drive.step s.engine) t n u) := drive_step_limited h (hcut n u hr)
    exact ⟨run_congr (fun n u hr => (hsame n u hr).1) fuel, spent_congr hsame fuel⟩
  · have hsame n u (hr : Reaches (Drive.step (s.limited c).engine) t n u) :=
      drive_step_limited h (hcut n u hr)
    exact ⟨(run_congr (fun n u hr => (hsame n u hr).1.symm) fuel).symm,
      (spent_congr (fun n u hr => ⟨(hsame n u hr).1.symm, (hsame n u hr).2.symm⟩) fuel).symm⟩

theorem converse_limited (h : s.machine.config.Laxer c) (hm : s'.machine = s.machine)
    (hcut : s.Uncut c g s' is ∨ s.Uncut c g (s'.limited c) is) (fuel : Nat) :
    converse fuel g (s'.limited c) is = (converse fuel g s' is).map (·.map (·.limited c)) := by
  induction is generalizing s' with
  | nil => rfl
  | cons i is ih =>
    have hcutsAt : s'.cutsAt c = s.cutsAt c := by
      funext t
      rw [cutsAt, cutsAt]
      split
      · next frame reply _ => cases frame <;> simp only [cuts, hm]
      · rfl
    cases hopen : s'.world.open? g i with
    | none =>
      have hopen' : (s'.limited c).world.open? g i = none := hopen
      simp only [converse, advance, World.advance, hopen, hopen', Option.bind_none, Option.map_none]
    | some t =>
      have hopen' : (s'.limited c).world.open? g i = some t := hopen
      obtain ⟨hrun, hspent⟩ := drive_limited (hm ▸ h) (hcut.imp
        (fun hs n u hr => hcutsAt ▸ hs.1 t n u hopen hr) fun hs n u hr => hcutsAt ▸ hs.1 t n u hopen' hr) fuel
      have hadvance : (s'.limited c).advance fuel g i =
          (s'.advance fuel g i).map fun p => (p.1.limited c, p.2) := by
        simp only [advance, World.advance, hopen, hopen', Option.bind_some, hrun, Option.map_map]
        rfl
      rw [converse, converse, hadvance, hopen, hopen']
      cases ha : s'.advance fuel g i with
      | none => rfl
      | some p =>
        obtain ⟨s₁, r⟩ := p
        have hm₁ : s₁.machine = s.machine := by
          obtain ⟨p, -, hp⟩ := Option.map_eq_some_iff.mp ha
          cases hp
          exact hm
        have hrest := ih hm₁ (hcut.imp (fun hs => hs.2 fuel s₁ r ha)
          fun hs => hs.2 fuel (s₁.limited c) r (hadvance.trans (by rw [ha]; rfl)))
        simp only [Option.map_some, Option.bind_some, hrest, hspent, Option.getD_some, Option.map_map]
        rfl

end Session

/-- Limits cut runs short and change nothing else. If a call of a function without a budget ends after `n`
instructions, then with a budget from `n` on it is the same call, and with a smaller one it fails by the budget after
part of the output. If a call under a limit of the depth does not end by that limit, it is the same call under every
greater one, with the same number of instructions. And under laxer limits, of the budget, of the depth or of both, a
conversation with a generator is the same, call by call, if none of the bodies driven in it, under the one limits or
under the others, reports a limit that has changed. -/
theorem limits_only_cut (s : Session) :
    (∀ fuel name args s' r, s.machine.config.mode = .unbounded → s.call fuel name args = some (s', r) → ∀ b,
      (s.instructions fuel name args ≤ b → (s.budgeted b).call fuel name args = some (s'.budgeted b, r)) ∧
      (b < s.instructions fuel name args → b < Config.wordMax → ∃ t text,
        (s.budgeted b).call fuel name args = some (t, .error (.fault (.budgetExceeded b))) ∧
          s'.output = t.output.print text)) ∧
    (∀ fuel name args s' r, s.call fuel name args = some (s', r) →
      (∀ l, r ≠ .error (.fault (.callDepthExceeded l))) →
      ∀ depth, s.machine.config.maxCallDepth ≤ depth →
        (s.deepened depth).call fuel name args = some (s'.deepened depth, r) ∧
          (s.deepened depth).instructions fuel name args = s.instructions fuel name args) ∧
    (∀ c g is, s.machine.config.Laxer c → s.Uncut c g s is ∨ s.Uncut c g (s.limited c) is → ∀ fuel,
      Session.converse fuel g (s.limited c) is = (Session.converse fuel g s is).map (·.map (·.limited c))) := by
  refine ⟨fun fuel name args s' r hm hcall b => Session.call_budgeted hm hcall b,
    fun fuel name args s' r hcall hr depth hle => ?_,
    fun c g is h hcut fuel => Session.converse_limited h rfl hcut fuel⟩
  have hlaxer : s.machine.config.Laxer { s.machine.config with maxCallDepth := depth } :=
    ⟨fun b' hb' => ⟨b', hb', Nat.le_refl _⟩, hle⟩
  have hsame := Session.call_limited hlaxer hcall ?_
  · rwa [show s'.deepened depth = s'.limited { s.machine.config with maxCallDepth := depth } by
      rw [Session.deepened, Session.call_machine hcall]]
  · rintro e rfl
    unfold Machine.cuts
    split
    · exact bne_self_eq_false _
    · next l _ => exact (hr l (by simp_all)).elim
    · rfl

/-- A function that prints two texts in five instructions, and a generator that takes two for its pair. -/
theorem limits_only_cut_of_greeting : ∃ s s' : Session,
    s.machine.config = ⟨.unbounded, 1⟩ ∧ s.call 9 "greet" [] = some (s', .ok .null) ∧
    s.instructions 9 "greet" [] = 5 ∧
    (s.budgeted 5).call 9 "greet" [] = some (s'.budgeted 5, .ok .null) ∧
    (∃ t text, (s.budgeted 4).call 9 "greet" [] = some (t, .error (.fault (.budgetExceeded 4))) ∧
      s'.output = t.output.print text) ∧
    ((s.deepened 7).call 9 "greet" [] = some (s'.deepened 7, .ok .null) ∧
      (s.deepened 7).instructions 9 "greet" [] = 5) ∧
    ((s.budgeted 2).converse 9 0 [.next]).isSome = true ∧
    (((s.budgeted 2).limited ⟨.unbounded, 3⟩).converse 9 0 [.next] =
      ((s.budgeted 2).converse 9 0 [.next]).map (·.map (·.limited ⟨.unbounded, 3⟩))) := by
  let greet : Function := ⟨"greet", 0, 0, #[.const (.text "a"), .echo, .const (.text "b"), .echo, .ret]⟩
  let tell : Function := ⟨"tell", 0, 0, #[.const .null, .yield]⟩
  let s : Session := ⟨⟨⟨#[greet, tell], Std.TreeMap.empty.insert "greet" 0⟩, ⟨.unbounded, 1⟩⟩, ∅,
    ⟨.empty, (.captured "", .empty), #[.fresh (.inl 0) tell []]⟩⟩
  have hf : s.function "greet" = .ok greet := by
    simp [s, Session.function, Registry.getByName?, Registry.lookup, Registry.get?]
  have hplain : greet.isGenerator = false := by simp [greet, Function.isGenerator, Instruction.isYield]
  obtain ⟨s', hcall⟩ : ∃ s', s.call 9 "greet" [] = some (s', .ok .null) := by
    rw [Session.call_plain hf Nat.one_ne_zero hplain]
    exact ⟨_, rfl⟩
  have hcount : s.instructions 9 "greet" [] = 5 := by
    rw [Session.instructions_plain hf Nat.one_ne_zero hplain]
    rfl
  obtain ⟨hbudget, hdepth, -⟩ := limits_only_cut s
  obtain ⟨-, -, hconverse⟩ := limits_only_cut (s.budgeted 2)
  obtain ⟨henough, -⟩ := hbudget 9 "greet" [] s' _ rfl hcall 5
  obtain ⟨-, hless⟩ := hbudget 9 "greet" [] s' _ rfl hcall 4
  obtain ⟨hdeep, hsame⟩ := hdepth 9 "greet" [] s' _ hcall (by simp) 7 (by decide)
  have hlaxer : (s.budgeted 2).machine.config.Laxer ⟨.unbounded, 3⟩ := by
    refine ⟨?_, by decide⟩
    intro b' hb'
    cases hb'
  refine ⟨s, s', rfl, hcall, hcount, henough (by omega), hless (by omega) (by decide),
    ⟨hdeep, hsame.trans hcount⟩, rfl, hconverse ⟨.unbounded, 3⟩ 0 [.next] hlaxer (.inl ?_) 9⟩
  refine ⟨fun t n u hopen hr => ?_, fun _ _ _ _ => trivial⟩
  have hopen' : (s.budgeted 2).world.open? 0 .next =
      some ((s.budgeted 2).world.lock 0, ⟨0, none, .enter none, []⟩) := rfl
  obtain rfl := Option.some.inj (hopen'.symm.trans hopen)
  have hnever : holdsAlong (Drive.step (s.budgeted 2).engine) (fun u => !(s.budgeted 2).cutsAt ⟨.unbounded, 3⟩ u) 9
      ((s.budgeted 2).world.lock 0, ⟨0, none, .enter none, []⟩) = true := rfl
  simpa using hr.of_holdsAlong hnever

end YieldMachine
