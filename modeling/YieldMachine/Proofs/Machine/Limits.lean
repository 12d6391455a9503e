import YieldMachine.Proofs.Machine.Budget
import YieldMachine.Proofs.Machine.Instruction

/-!
Machines that differ in their limits only. A step looks at the limits in two places, before an instruction and
when a function is called, and each time only to fail by them. So under laxer limits a step is the same unless it
reports a limit that has changed (`Machine.step_limited`). Apart from its limits, a step adds to the output and counts
the instruction that it runs (`Machine.step_output`, `Machine.steps_of_leads`).
-/

namespace YieldMachine

/-- The second limits are the first ones or laxer. -/
structure Config.Laxer (c c' : Config) : Prop where
  budget : ∀ b', c'.mode.budget? = some b' → ∃ b, c.mode.budget? = some b ∧ b ≤ b'
  depth : c.maxCallDepth ≤ c'.maxCallDepth

theorem Output.print_empty (o : Output) : o.print "" = o := by
  cases o <;> simp [print]

theorem Output.print_print (o : Output) (a b : String) : (o.print a).print b = o.print (a ++ b) := by
  cases o <;> simp [print, String.append_assoc]

namespace Machine

variable {m : Machine} {c : Config} {x y : Execution} {heap : Heap} {out : Output} {reply : Reply}

/-- The machine with other limits. -/
def limited (m : Machine) (c : Config) : Machine := { m with config := c }

/-- Whether an action reports that a limit is reached which the limits `c` do not share. -/
def cuts (m : Machine) (c : Config) : Action Nat Execution → Bool
  | .fail (.fault (.budgetExceeded _)) => m.config.mode != c.mode
  | .fail (.fault (.callDepthExceeded _)) => m.config.maxCallDepth != c.maxCallDepth
  | _ => false

theorem exceeded_limited (h : m.config.Laxer c) (hx : m.exceeded? x = none) :
    (m.limited c).exceeded? x = none := by
  simp only [exceeded?, limited, Option.filter_eq_none_iff, decide_eq_true_eq, Nat.not_lt] at hx ⊢
  intro b' hb'
  obtain ⟨b, hb, hle⟩ := h.budget b' hb'
  exact Nat.le_trans (hx b hb) hle

theorem call_limited (h : m.config.Laxer c) {id : FunctionId} {args : List Value}
    (hcut : m.cuts c (m.call x id args) = false) :
    (m.limited c).call x id args = m.call x id args := by
  rw [call] at hcut
  rw [call, call, show (m.limited c).registry = m.registry from rfl]
  cases hf : m.registry.get? id with
  | none => rfl
  | some f =>
    rw [hf] at hcut
    simp only at hcut ⊢
    by_cases hdepth : m.config.maxCallDepth ≤ x.depth
    · rw [if_pos hdepth, cuts, bne_eq_false_iff_eq] at hcut
      rw [limited, ← hcut]
    · have hlax : ¬ (m.limited c).config.maxCallDepth ≤ x.depth :=
        fun hle => hdepth (Nat.le_trans h.depth hle)
      rw [if_neg hdepth, if_neg hlax]

theorem apply_limited (h : m.config.Laxer c) {effect : Effect}
    (hcut : m.cuts c (m.apply out x effect).2 = false) :
    (m.limited c).apply out x effect = m.apply out x effect := by
  cases effect with
  | call f args frame => exact congrArg (Prod.mk out) (call_limited h hcut)
  | _ => rfl

/-- Whether an instruction runs does not depend on limits that are not reached. -/
theorem exceeded_eq (h : m.config.Laxer c) (hi : x.frame.instruction?.isSome = true)
    (hcut : m.cuts c (m.advance heap out x).2.2 = false) :
    (m.limited c).exceeded? x.tick = m.exceeded? x.tick := by
  obtain ⟨i, hi⟩ := Option.isSome_iff_exists.mp hi
  cases hb : m.exceeded? x.tick with
  | none => exact exceeded_limited h hb
  | some b =>
    simp only [advance, hi, hb, cuts, bne_eq_false_iff_eq] at hcut
    rw [← hb, exceeded?, exceeded?, limited, ← hcut]

theorem advance_limited (h : m.config.Laxer c) (hcut : m.cuts c (m.advance heap out x).2.2 = false) :
    (m.limited c).advance heap out x = m.advance heap out x := by
  cases hi : x.frame.instruction? with
  | none => simp only [advance, hi]
  | some i =>
    have hb := exceeded_eq h (Option.isSome_iff_exists.mpr ⟨i, hi⟩) hcut
    simp only [advance, hi] at hcut ⊢
    rw [hb]
    cases hexceeded : m.exceeded? x.tick with
    | some b => rfl
    | none =>
      rw [hexceeded] at hcut
      simp only at hcut ⊢
      split
      · rfl
      · next heap' effect he =>
        rw [he] at hcut
        exact congrArg (Prod.mk heap') (apply_limited h hcut)

/-- Under laxer limits a step is the same, unless it reports a limit that has changed. -/
theorem step_limited (h : m.config.Laxer c) (hcut : m.cuts c (m.step heap out x reply).2.2 = false) :
    (m.limited c).step heap out x reply = m.step heap out x reply := by
  cases reply with
  | proceed => exact advance_limited h hcut
  | delegating active => cases active <;> rfl
  | _ => rfl

theorem executes_limited (h : m.config.Laxer c)
    (hcut : m.cuts c (m.step heap out x reply).2.2 = false) :
    (m.limited c).executes x reply = m.executes x reply := by
  cases reply with
  | proceed =>
    rw [executes, executes]
    cases hi : x.frame.instruction?.isSome with
    | false => rfl
    | true => rw [exceeded_eq h hi hcut]
  | _ => rfl

/-- Within the budget no step reports it. -/
theorem cuts_of_within (hdepth : m.config.maxCallDepth = c.maxCallDepth)
    (hb : reply = .proceed → x.frame.instruction?.isSome = true → m.exceeded? x.tick = none) :
    m.cuts c (m.step heap out x reply).2.2 = false := by
  have hret (v : Value) (y : Execution) : m.cuts c (y.ret v) = false := by
    rw [Execution.ret]
    split <;> rfl
  have hcall (y : Execution) (id : FunctionId) (args : List Value) : m.cuts c (m.call y id args) = false := by
    rw [call]
    split
    · rfl
    · split
      · simp [cuts, hdepth]
      · split <;> rfl
  cases reply with
  | proceed =>
    have hadvances := m.advances heap out x
    change m.cuts c (m.advance heap out x).2.2 = false
    generalize m.advance heap out x = result at hadvances
    cases hadvances with
    | ends hi => exact hret ..
    | exceeds hi hb' =>
      rw [hb rfl (Option.isSome_iff_exists.mpr ⟨_, hi⟩)] at hb'
      cases hb'
    | @faults i f hi hb' he hf => cases f <;> first | rfl | cases hf
    | @executes i heap' e hi hb' he hk =>
      cases e with
      | call f args frame => exact hcall ..
      | ret v => exact hret ..
      | _ => rfl
  | resume =>
    simp only [step, wake]
    split <;> rfl
  | delegating active => cases active <;> rfl
  | _ => rfl

theorem executes_of_unbounded (hm : m.config.mode = .unbounded) :
    m.executes x reply = true ↔ reply = .proceed ∧ x.frame.instruction?.isSome = true := by
  cases reply <;> simp [executes, exceeded?, hm, Mode.budget?]

/-! ### Output and counter -/

theorem apply_output (m : Machine) (out : Output) (x : Execution) (effect : Effect) :
    ∃ text, (m.apply out x effect).1 = out.print text := by
  cases effect with
  | echo text frame => exact ⟨text, rfl⟩
  | _ => exact ⟨"", (Output.print_empty out).symm⟩

/-- A step adds to the output. -/
theorem step_output (m : Machine) (heap : Heap) (out : Output) (x : Execution) (reply : Reply) :
    ∃ text, (m.step heap out x reply).2.1 = out.print text := by
  have hsame : ∃ text, out = out.print text := ⟨"", (Output.print_empty out).symm⟩
  cases reply with
  | proceed =>
    have hadvances := m.advances heap out x
    change ∃ text, (m.advance heap out x).2.1 = out.print text
    generalize m.advance heap out x = result at hadvances
    cases hadvances with
    | executes hi hb he hk => exact apply_output ..
    | _ => exact hsame
  | delegating active => cases active <;> exact hsame
  | _ => exact hsame

theorem steps_of_ret {v : Value} {reply' : Reply} (h : (x.ret v).Leads y reply') : y.steps = x.steps := by
  rw [Execution.ret] at h
  split at h <;> cases h
  rfl

theorem steps_of_call {id : FunctionId} {args : List Value} {reply' : Reply}
    (h : (m.call x id args).Leads y reply') : y.steps = x.steps := by
  rw [call] at h
  split at h
  · cases h
  · split at h
    · cases h
    · split at h <;> cases h <;> rfl

/-- The counter of an execution counts its instructions. -/
theorem steps_of_leads {reply' : Reply} (h : (m.step heap out x reply).2.2.Leads y reply') :
    y.steps = bif m.executes x reply then x.tick.steps else x.steps := by
  cases reply with
  | proceed =>
    have hadvances := m.advances heap out x
    change (m.advance heap out x).2.2.Leads y reply' at h
    rw [executes]
    generalize m.advance heap out x = result at hadvances h
    cases hadvances with
    | ends hi =>
      rw [hi]
      exact steps_of_ret h
    | exceeds => cases h
    | faults => cases h
    | @executes i heap' e hi hb he hk =>
      rw [hi, hb]
      cases e with
      | call f args frame => exact steps_of_call (x := { x.tick with frame := frame }) h
      | ret v => exact steps_of_ret h
      | _ => cases h; rfl
  | resume =>
    simp only [step, wake] at h
    split at h <;> cases h <;> rfl
  | delegating active => cases active <;> cases h; rfl
  | accepted | value v => cases h; rfl
  | reported | refused e => cases h

end Machine

end YieldMachine
