import Mathlib.Data.List.Perm.Subperm
import YieldMachine.Proofs.Calls
import YieldMachine.Proofs.Drive.Stride
import YieldMachine.Proofs.World.Total
import YieldMachine.World.Record
import YieldMachine.World.Reclaim

/-!
Bodies that live on credit. A `Meter` of an engine gives each frame a credit and each new generator a grant, so
that steps of bodies never raise what is left and some of them spend one unit of it. Then the balance of a whole
drive never rises (`balance_stride`), every drive ends (`ends`), and all that later advances can spend was there
before the first of them (`worked_le`).
-/

namespace YieldMachine

variable {H F S : Type}

/-- What an action leaves of a frame's credit, for the frame itself and for a new generator. -/
def Action.left (credit : F → Nat) (grant : H → Nat) : Action H F → Nat
  | .silent x | .yieldPair _ _ x | .yieldValue _ x | .delegate _ x => credit x
  | .askDelegating x | .takeSent x | .takeResult x | .suspend x => credit x
  | .create h _ _ x => credit x + grant h
  | .finish _ | .fail _ => 0

/-- A frame has a credit and a new generator is granted one. A step of a body spends one unit, or it makes no
generator and the body comes closer to its next stop. -/
structure Engine.Meter (E : Engine H F S) where
  credit : F → Nat
  grant : H → Nat
  spends : F → Reply → Bool
  /-- Falls with each step that spends nothing. -/
  stage : F → Reply → Nat
  start_le : ∀ h f args s, credit (E.start h f args s).1 ≤ grant h
  step_le : ∀ heap s frame reply,
    (E.step heap s frame reply).2.2.left credit grant + (spends frame reply).toNat ≤ credit frame
  create_spends : ∀ {heap s frame reply h f args frame'},
    (E.step heap s frame reply).2.2 = .create h f args frame' → spends frame reply = true
  stage_lt : ∀ {heap s frame reply frame' reply'}, spends frame reply = false →
    (E.step heap s frame reply).2.2.Leads frame' reply' → stage frame' reply' < stage frame reply

namespace Action

variable {H' F' : Type} {h : H → H'} {f : F → F'}

theorem left_map (credit : F' → Nat) (grant : H' → Nat) (action : Action H F) :
    (action.map h f).left credit grant = action.left (fun x => credit (f x)) fun k => grant (h k) := by
  cases action <;> rfl

end Action

/-- Two engines side by side, each with its own prices. -/
def Engine.Meter.sum {H' F' S' : Type} {E : Engine H F S} {E' : Engine H' F' S'} (M : E.Meter)
    (M' : E'.Meter) : (E.sum E').Meter where
  credit := Sum.elim M.credit M'.credit
  grant := Sum.elim M.grant M'.grant
  spends := Sum.elim M.spends M'.spends
  stage := Sum.elim M.stage M'.stage
  start_le k f args s := by
    cases k with
    | inl k => exact M.start_le k f args s.1
    | inr k => exact M'.start_le k f args s.2
  step_le heap s frame reply := by
    cases frame with
    | inl x => exact Nat.le_trans (by simp [Engine.sum, Action.left_map]) (M.step_le heap s.1 x reply)
    | inr x => exact Nat.le_trans (by simp [Engine.sum, Action.left_map]) (M'.step_le heap s.2 x reply)
  create_spends {heap s frame reply h f args frame'} hcreate := by
    cases frame with
    | inl x =>
      obtain ⟨k, y, -, -, hcreate⟩ := Action.map_create hcreate
      exact M.create_spends hcreate
    | inr x =>
      obtain ⟨k, y, -, -, hcreate⟩ := Action.map_create hcreate
      exact M'.create_spends hcreate
  stage_lt {heap s frame reply frame' reply'} hquiet hleads := by
    cases frame with
    | inl x =>
      obtain ⟨y, rfl, hy⟩ := hleads.of_map
      exact M.stage_lt hquiet hy
    | inr x =>
      obtain ⟨y, rfl, hy⟩ := hleads.of_map
      exact M'.stage_lt hquiet hy

/-- The chain has no more generators than there are. -/
theorem Drive.Chained.length_lt {w : World H F S} {d : Drive F} (hc : Chained w d) :
    d.waiting.length < w.generators.size := by
  have hsubset : d.chain ⊆ List.range w.generators.size := by
    intro g hg
    obtain ⟨x, hx, -⟩ := hc.locked g hg
    exact List.mem_range.mpr (Array.getElem?_eq_some_iff.mp hx).1
  have hle := (List.subperm_of_subset hc.nodup hsubset).length_le
  simp only [chain, List.length_cons, List.length_map, List.length_range] at hle
  omega

/-- The run halts with a result, and its steps cost this much together. -/
inductive Costs {σ ρ : Type} (step : σ → Transition σ ρ) (cost : σ → Nat) : σ → Nat → ρ → Prop where
  | halt {s : σ} {r : ρ} (h : step s = .halt r) : Costs step cost s 0 r
  | next {s t : σ} {n : Nat} {r : ρ} (h : step s = .next t) (e : Costs step cost t n r) :
      Costs step cost s (cost s + n) r

theorem Ends.costs {σ ρ : Type} {step : σ → Transition σ ρ} {s : σ} {r : ρ} (h : Ends step s r)
    (cost : σ → Nat) : ∃ n, Costs step cost s n r := by
  induction h with
  | halt hs => exact ⟨0, .halt hs⟩
  | next hs _ ih =>
    obtain ⟨n, hn⟩ := ih
    exact ⟨_, .next hs hn⟩

/-- Advances of any generators, between which generators may be closed, dropped, locked and unlocked and
anything else may change, lead from the first world to the second and cost this much together. -/
inductive World.Worked (E : Engine H F S) (cost : Drive.State H F S → Nat) :
    World H F S → Nat → World H F S → Prop where
  | refl (w : World H F S) : Worked E cost w 0 w
  | advance {w w₁ : World H F S} {n k : Nat} {g : GeneratorId} {input : Input}
      {s : Drive.State H F S} {r : Drive.Result H F S} (h : Worked E cost w n w₁)
      (hs : w₁.open? g input = some s) (hk : Costs (Drive.step E) cost s k r) :
      Worked E cost w (n + k) r.1
  | close {w w₁ : World H F S} {n : Nat} (h : Worked E cost w n w₁) (g : GeneratorId) :
      Worked E cost w n (w₁.close E g)
  | drop {w w₁ : World H F S} {n : Nat} (h : Worked E cost w n w₁) (g : GeneratorId) :
      Worked E cost w n (w₁.drop E g)
  | setLock {w w₁ : World H F S} {n : Nat} (h : Worked E cost w n w₁) (g : GeneratorId) (b : Bool) :
      Worked E cost w n (w₁.modify g (·.setLock b))
  | elsewhere {w w₁ : World H F S} {n : Nat} (h : Worked E cost w n w₁) (heap : Heap) (state : S) :
      Worked E cost w n { w₁ with heap := heap, state := state }

namespace Engine.Meter

open Drive

variable {E : Engine H F S} (M : E.Meter)

/-- What a generator can spend before someone turns to it again. -/
def worth (x : Generator H F) : Nat :=
  (bif x.isStarted then 0 else M.grant x.handle) + (x.frame.map M.credit).getD 0

def inFocus : Focus F → Nat
  | .body frame _ => M.credit frame
  | _ => 0

def inWait : Wait F → Nat
  | .inBody frame => M.credit frame
  | .paused => 0

def among : List (Link F) → Nat
  | [] => 0
  | l :: ls => M.inWait l.wait + among ls

/-- All that a drive and the generators of its world can spend. -/
def balance (s : State H F S) : Nat :=
  s.1.total M.worth + (M.inFocus s.2.focus + M.among s.2.waiting)

def creditAt : Position F → Nat
  | .awaiting frame | .engaged frame _ => M.credit frame
  | _ => 0

def costAt : Position F → Nat
  | .engaged frame reply => (M.spends frame reply).toNat
  | _ => 0

/-- What the next step spends. -/
def cost (s : State H F S) : Nat := M.costAt s.2.focus.position

variable {M} {w w' : World H F S} {d d' : Drive F} {s s' : State H F S} {x x' : Generator H F}

/-! ### The balance never rises -/

@[simp] theorem inFocus_enter (sent : Option Value) : M.inFocus (.enter sent) = 0 := rfl

@[simp] theorem inFocus_body (frame : F) (reply : Reply) :
    M.inFocus (.body frame reply) = M.credit frame := rfl

@[simp] theorem inFocus_settled (result : Except GeneratorError Bool) :
    M.inFocus (.settled result) = 0 := rfl

theorem creditAt_focus (focus : Focus F) : M.creditAt focus.position = M.inFocus focus := by
  cases focus <;> rfl

theorem creditAt_wait (wait : Wait F) : M.creditAt wait.position = M.inWait wait := by
  cases wait <;> rfl

theorem costAt_wait (wait : Wait F) : M.costAt wait.position = 0 := by
  cases wait <;> rfl

theorem worth_steady (h : x.Steady x') : M.worth x' = M.worth x := by
  rw [worth, worth, h.started, h.handle, h.frame]

theorem worth_terminate (x : Generator H F) : M.worth x.terminate = 0 := by
  simp [worth, Generator.terminate, Generator.isStarted, Lifecycle.terminal]

theorem worth_setLock (x : Generator H F) (b : Bool) : M.worth (x.setLock b) = M.worth x := rfl

/-- The frame that goes on has what the action leaves. -/
theorem leads_credit {action : Action H F} {frame : F} {reply : Reply}
    (h : action.Leads frame reply) : M.credit frame ≤ action.left M.credit M.grant := by
  cases h <;> simp [Action.left]

theorem step_left {heap heap' : Heap} {state state' : S} {frame : F} {reply : Reply}
    {action : Action H F} (hE : E.step heap state frame reply = (heap', state', action)) :
    action.left M.credit M.grant + (M.spends frame reply).toNat ≤ M.credit frame := by
  have hle := M.step_le heap state frame reply
  rwa [hE] at hle

theorem stage_step {heap heap' : Heap} {state state' : S} {frame frame' : F} {reply reply' : Reply}
    {action : Action H F} (hquiet : M.spends frame reply = false)
    (hE : E.step heap state frame reply = (heap', state', action)) (ha : action.Leads frame' reply') :
    M.stage frame' reply' < M.stage frame reply := by
  have hleads : (E.step heap state frame reply).2.2.Leads frame' reply' := by rwa [hE]
  exact M.stage_lt hquiet hleads

theorem act_le {p : Position F} {heap : Heap} {state : S} {focus : Focus F}
    (h : Act E w x p heap state focus x') :
    M.worth x' + M.inFocus focus + M.costAt p ≤ M.worth x + M.creditAt p := by
  cases h with
  | settle _ h => simp [costAt, creditAt, worth_steady h]
  | start hs =>
    have hgrant := M.start_le x.handle x.function x.arguments w.state
    have hworth : M.worth x = M.grant x.handle + M.worth x.begin := by
      have hbegin : M.worth x.begin = 0 + (x.frame.map M.credit).getD 0 := rfl
      rw [hbegin, worth, hs, cond_false, Nat.zero_add]
    simp only [inFocus_body, costAt, creditAt]
    omega
  | @resume y frame h hx =>
    have hworth : M.worth y.release + M.credit frame = M.worth x := by
      rw [← worth_steady (M := M) h]
      simp [worth, Generator.release, Generator.isStarted, h.frame, hx]
    simp only [inFocus_body, costAt, creditAt]
    omega
  | lapse h => simp [costAt, creditAt, worth_terminate]
  | breakOff hd e =>
    have hworth : M.worth (x.terminate.setError (.delegation e)) = 0 := worth_terminate x
    simp [costAt, creditAt, hworth]
  | answer _ h => simp [costAt, creditAt, worth_steady h]
  | goOn hE ha h =>
    have hleft := step_left (M := M) hE
    have hcredit := leads_credit (M := M) ha
    simp only [inFocus_body, costAt, creditAt, worth_steady h]
    omega
  | @suspend frame frame' reply _ _ hE =>
    have hleft := step_left (M := M) hE
    have hworth : M.worth (x.hold frame') ≤ M.worth x + M.credit frame' := by
      simp [worth, Generator.hold, Generator.isStarted]
    simp only [inFocus_settled, costAt, creditAt, Action.left] at hleft ⊢
    omega
  | @finish frame reply _ _ v hE =>
    have hleft := step_left (M := M) hE
    have hworth : M.worth (x.setReturn v).terminate = 0 := worth_terminate _
    simp only [inFocus_settled, costAt, creditAt, Action.left] at hleft ⊢
    omega
  | @fail frame reply _ _ e hE =>
    have hleft := step_left (M := M) hE
    have hworth : M.worth (x.terminate.setError (.executionFailed e)) = 0 := worth_terminate x
    simp only [inFocus_settled, costAt, creditAt, Action.left] at hleft ⊢
    omega

theorem inFocus_turnTo (g : GeneratorId) (sent : Option Value) (ls : List (Link F)) :
    M.inFocus (turnTo x g sent ls).focus = 0 := by
  rw [turnTo]
  split <;> rfl

theorem total_replaced {g : GeneratorId} (hx : w.generator? g = some x) (x' : Generator H F)
    (heap : Heap) (state : S) :
    World.total M.worth (World.replace { w with heap := heap, state := state } g x') + M.worth x =
      w.total M.worth + M.worth x' :=
  World.total_replace (w := { w with heap := heap, state := state }) hx x'

theorem total_setLock (w : World H F S) (g : GeneratorId) (b : Bool) :
    World.total M.worth (w.modify g (·.setLock b)) = w.total M.worth :=
  World.total_modify (fun x => worth_setLock x b) w g

/-- One step leaves of the balance at most what it does not spend. -/
theorem balance_stride (h : Stride E w d w' d') :
    M.balance (w', d') + M.cost (w, d) ≤ M.balance (w, d) := by
  cases h with
  | @act x x' heap state focus hx hact =>
    have hle := act_le (M := M) hact
    have htotal := total_replaced (M := M) hx x' heap state
    rw [creditAt_focus] at hle
    simp only [balance, cost]
    omega
  | @create frame frame' reply heap state handle f args hfocus hE =>
    have hleft := step_left (M := M) hE
    have htotal := World.total_create (f := M.worth) { w with heap := heap, state := state } handle f args
    have hfresh : M.worth (.fresh handle f args) = M.grant handle := by
      simp [worth, Generator.fresh, Generator.isStarted, Lifecycle.fresh]
    have hsame : World.total M.worth { w with heap := heap, state := state } = w.total M.worth := rfl
    simp only [balance, cost, hfocus, Focus.position, costAt, inFocus_body, Action.left] at hleft ⊢
    omega
  | resend hfocus hv => simp [balance, cost, hfocus, Focus.position, costAt]
  | @follow c y sent hfocus hy hl =>
    have htotal : World.total M.worth (w.lock c) = w.total M.worth := total_setLock w c true
    simp [balance, cost, hfocus, Focus.position, costAt, inFocus_turnTo, turnTo_waiting, among, inWait,
      htotal]
  | @delegate frame frame' reply heap state source c y hfocus hE hy hl =>
    have hleft := step_left (M := M) hE
    have htotal : World.total M.worth (World.lock { w with heap := heap, state := state } c) =
        w.total M.worth := total_setLock { w with heap := heap, state := state } c true
    simp only [balance, cost, hfocus, Focus.position, costAt, inFocus_turnTo, turnTo_waiting, among,
      inWait, inFocus_body, Action.left, htotal] at hleft ⊢
    omega
  | @handOver result link ls x x' heap state focus hdone hw hx hne hact =>
    have hle := act_le (M := M) hact
    have hunlock : World.total M.worth (w.unlock d.current) = w.total M.worth :=
      total_setLock w d.current false
    have htotal := total_replaced (M := M) ((World.generator?_unlock_of_ne hne).trans hx) x' heap state
    rw [creditAt_wait, costAt_wait] at hle
    simp only [balance, cost, hdone.1, Focus.position, costAt, inFocus_settled, hw, among]
    omega

/-- Only a step that spends makes a generator. -/
theorem size_stride (h : Stride E w d w' d') :
    w'.generators.size ≤ w.generators.size + M.cost (w, d) := by
  cases h with
  | act hx hact => simp [World.replace]
  | create hfocus hE =>
    have hspends := M.create_spends (congrArg (·.2.2) hE)
    simp [World.create, cost, hfocus, Focus.position, costAt, hspends]
  | resend => simp
  | follow => simp [World.lock]
  | delegate => simp [World.lock]
  | handOver => simp [World.replace, World.unlock]

theorem balance_step (hc : s.2.Chained s.1) (hs : Drive.step E s = .next s') :
    M.balance s' + M.cost s ≤ M.balance s ∧
      s'.1.generators.size ≤ s.1.generators.size + M.cost s :=
  ⟨balance_stride (step_strides hc hs), size_stride (step_strides hc hs)⟩

theorem balance_reaches {n : Nat} (hc : s.2.Chained s.1) (hr : Reaches (Drive.step E) s n s') :
    s'.2.Chained s'.1 ∧ M.balance s' ≤ M.balance s ∧
      M.balance s' + s'.1.generators.size ≤ M.balance s + s.1.generators.size := by
  refine hr.invariant (I := fun t => t.2.Chained t.1 ∧ M.balance t ≤ M.balance s ∧
    M.balance t + t.1.generators.size ≤ M.balance s + s.1.generators.size) ⟨hc, by omega, by omega⟩ ?_
  rintro t t' ⟨hct, hle, hsize⟩ hs
  have hstep := balance_step (M := M) hct hs
  exact ⟨(step_moves hct hs).1, by omega, by omega⟩

/-! ### Every drive ends -/

def rank : Focus F → Nat
  | .enter _ => 2
  | .body .. => 1
  | .settled _ => 0

/-- A value kept back lets the generator in turn be entered once more. -/
def phase (d : Drive F) : Nat := (if d.resend.isSome then 3 else 0) + rank d.focus

variable (M) in
def stageOf : Focus F → Nat
  | .body frame reply => M.stage frame reply
  | _ => 0

variable (M) in
/-- What falls until the generator in turn has settled: the balance, the room for further generators on the
chain, the phase of the one in turn, and the stage of its body. -/
def gauge (s : State H F S) : Nat × Nat × Nat × Nat :=
  (M.balance s, M.balance s + s.1.generators.size - s.2.waiting.length, phase s.2, M.stageOf s.2.focus)

variable (M) in
def Nearer (t s : State H F S) : Prop :=
  Prod.Lex (· < ·) (Prod.Lex (· < ·) (Prod.Lex (· < ·) (· < ·))) (M.gauge t) (M.gauge s)

theorem nearer_wf : WellFounded M.Nearer :=
  InvImage.wf M.gauge (WellFoundedRelation.wf : WellFounded (WellFoundedRelation.rel (α := Nat × Nat × Nat × Nat)))

theorem nearer_of {t : State H F S} (hc : s.2.Chained s.1) (hb : M.balance t ≤ M.balance s)
    (hsize : M.balance t + t.1.generators.size ≤ M.balance s + s.1.generators.size)
    (hlen : s.2.waiting.length ≤ t.2.waiting.length)
    (h : M.balance t < M.balance s ∨ s.2.waiting.length < t.2.waiting.length ∨
      phase t.2 < phase s.2 ∨ phase t.2 ≤ phase s.2 ∧ M.stageOf t.2.focus < M.stageOf s.2.focus) :
    M.Nearer t s := by
  have hroom := hc.length_lt
  simp only [Nearer, gauge, Prod.lex_def]
  omega

/-- No turn ends in being entered again. -/
theorem act_rank {p : Position F} {heap : Heap} {state : S} {focus : Focus F}
    (h : Act E w x p heap state focus x') : rank focus < 2 := by
  cases h <;> simp [rank]

/-- A turn of the generator in turn brings it closer to being settled. -/
theorem nearer_act {heap : Heap} {state : S} {focus : Focus F} (hc : Chained w d)
    (hx : w.generator? d.current = some x) (h : Act E w x d.focus.position heap state focus x') :
    M.Nearer (World.replace { w with heap := heap, state := state } d.current x',
      { d with focus := focus }) (w, d) := by
  have hbalance := balance_stride (M := M) (.act hx h)
  have hsize := size_stride (M := M) (.act hx h)
  refine nearer_of hc (by omega) (by simp only; omega) (Nat.le_refl _) ?_
  cases hfocus : d.focus with
  | enter sent =>
    have hrank := act_rank h
    have henter : rank (.enter sent : Focus F) = 2 := rfl
    right; right; left
    simp only [phase, hfocus, henter]
    omega
  | settled result =>
    rw [hfocus] at h
    cases h
  | body frame reply =>
    rw [hfocus] at h
    cases h with
    | goOn hE ha hsteady =>
      cases hspends : M.spends frame reply with
      | true =>
        simp only [cost, hfocus, Focus.position, costAt, hspends, Bool.toNat_true] at hbalance
        exact .inl (by omega)
      | false =>
        have hstage := stage_step hspends hE ha
        right; right; right
        simp [phase, hfocus, rank, stageOf, hstage]
    | suspend | finish | fail =>
      right; right; left
      simp [phase, hfocus, rank]

/-- A settled generator hands over to the one that waits for it. -/
theorem stride_done {r : Except GeneratorError Bool} (hdone : d.Done r) (h : Stride E w d w' d') :
    ∃ link x x' heap state focus, d.waiting = link :: d'.waiting ∧ d'.current = link.generator ∧
      d'.resend = link.resend ∧ d'.focus = focus ∧
      Act E (w.unlock d.current) x link.wait.position heap state focus x' := by
  cases h with
  | act hx hact =>
    rw [hdone.1] at hact
    cases hact
  | @resend v b hfocus hv =>
    have hr : r = .ok b := by
      rw [hdone.1] at hfocus
      exact Focus.settled.inj hfocus
    exact absurd hr (hdone.2 v b hv)
  | create hfocus | follow hfocus | delegate hfocus =>
    rw [hdone.1] at hfocus
    cases hfocus
  | handOver _ hw _ _ hact => exact ⟨_, _, _, _, _, _, hw, rfl, rfl, rfl, hact⟩

/-- Whoever is in turn settles, and the chain below it stays as it is. -/
theorem settles (M : E.Meter) (s : State H F S) (hc : s.2.Chained s.1) :
    ∃ n s' r, Reaches (Drive.step E) s n s' ∧ s'.2.Done r ∧ s'.2.waiting = s.2.waiting := by
  induction s using M.nearer_wf.induction with
  | _ s ih =>
  obtain ⟨w, d⟩ := s
  -- The states on the way at which the same generator is in turn again.
  have hagain {n : Nat} {t : State H F S} (hr : Reaches (Drive.step E) (w, d) n t)
      (hw : t.2.waiting = d.waiting) (hnear : M.Nearer t (w, d)) :
      ∃ n s' r, Reaches (Drive.step E) (w, d) n s' ∧ s'.2.Done r ∧ s'.2.waiting = d.waiting := by
    obtain ⟨k, s', r, hr', hdone, hw'⟩ := ih t hnear (balance_reaches (M := M) hc hr).1
    exact ⟨n + k, s', r, hr.trans hr', hdone, hw'.trans hw⟩
  -- A generator further up settles first and hands over.
  have hchild {t : State H F S} {link : Link F} (hs : Drive.step E (w, d) = .next t)
      (hlink : t.2.waiting = link :: d.waiting) (hnear : M.Nearer t (w, d)) :
      ∃ n u x x' w₁ heap state, Reaches (Drive.step E) (w, d) n u ∧ u.2.waiting = d.waiting ∧
        u.2.resend = link.resend ∧ M.balance u ≤ M.balance t ∧
        Act E w₁ x link.wait.position heap state u.2.focus x' := by
    have hct := (step_moves hc hs).1
    obtain ⟨n, u, r, hr, hdone, hw⟩ := ih t hnear hct
    obtain ⟨hcu, hbalance, -⟩ := balance_reaches (M := M) hct hr
    have hover : Drive.step E u = .next (handOver E u.1 u.2.current r link d.waiting) :=
      step_handOver hdone (hw.trans hlink)
    obtain ⟨link', x, x', heap, state, focus, hlinks, hcurrent, hresend, rfl, hact⟩ :=
      stride_done hdone (step_strides hcu hover)
    obtain ⟨rfl, hrest⟩ := List.cons.inj ((hw.trans hlink).symm.trans hlinks)
    have hstep := balance_step (M := M) hcu hover
    exact ⟨n + 1 + 1, _, x, x', _, heap, state, (Reaches.next hs hr).trans (.single hover), hrest.symm,
      hresend, by omega, hact⟩
  cases hs : Drive.step E (w, d) with
  | halt r => exact ⟨0, (w, d), r.2, .refl _, (halt_cases hs).1, rfl⟩
  | next t =>
    have hstride := step_strides hc hs
    obtain ⟨hbalance, hsize⟩ := balance_step (M := M) hc hs
    obtain ⟨w', d'⟩ := t
    simp only at hstride hsize
    cases hstride with
    | act hx hact => exact hagain (.single hs) rfl (nearer_act hc hx hact)
    | create hfocus hE =>
      have hspends := M.create_spends (congrArg (·.2.2) hE)
      have hcost : M.cost (w, d) = 1 := by simp [cost, hfocus, Focus.position, costAt, hspends]
      exact hagain (.single hs) rfl
        (nearer_of hc (by omega) (by simp only; omega) (Nat.le_refl _) (.inl (by omega)))
    | resend hfocus hv =>
      refine hagain (.single hs) rfl (nearer_of hc (by omega) (by simp only; omega) (Nat.le_refl _) ?_)
      right; right; left
      simp [phase, hfocus, hv, rank]
    | @follow c y sent hfocus hy hl =>
      have hnear : M.Nearer (w.lock c, turnTo y c sent (⟨d.current, d.resend, .paused⟩ :: d.waiting))
          (w, d) := by
        refine nearer_of hc (by omega) (by simp only; omega) ?_ (.inr (.inl ?_)) <;>
          simp [turnTo_waiting]
      obtain ⟨n, u, x, x', w₁, heap, state, hr, hw, hresend, hle, hact⟩ :=
        hchild hs (turnTo_waiting ..) hnear
      obtain ⟨-, hbalance', hsize'⟩ := balance_reaches (M := M) hc hr
      have hrank := act_rank hact
      have henter : rank (.enter sent : Focus F) = 2 := rfl
      refine hagain hr hw (nearer_of hc hbalance' hsize' (by rw [hw]) (.inr (.inr (.inl ?_))))
      simp only [phase, hresend, hfocus, henter]
      omega
    | @delegate frame frame' reply heap state source c y hfocus hE hy hl =>
      have hnear : M.Nearer (World.lock { w with heap := heap, state := state } c,
          turnTo y c none (⟨d.current, d.resend, .inBody frame'⟩ :: d.waiting)) (w, d) := by
        refine nearer_of hc (by omega) (by simp only; omega) ?_ (.inr (.inl ?_)) <;>
          simp [turnTo_waiting]
      obtain ⟨n, u, x, x', w₁, heap', state', hr, hw, hresend, hle, hact⟩ :=
        hchild hs (turnTo_waiting ..) hnear
      obtain ⟨-, hbalance', hsize'⟩ := balance_reaches (M := M) hc hr
      refine hagain hr hw (nearer_of hc hbalance' hsize' (by rw [hw]) ?_)
      -- Either naming the source has cost something, or the body has its reply and is a stage further.
      cases hspends : M.spends frame reply with
      | true =>
        simp only [cost, hfocus, Focus.position, costAt, hspends, Bool.toNat_true] at hbalance
        exact .inl (by omega)
      | false =>
        generalize hu : u.2.focus = focus at hact
        cases hact with
        | answer hreply hsteady =>
          have hstage := stage_step hspends hE (.delegate source frame' hreply)
          right; right; right
          simp [phase, hresend, hu, hfocus, rank, stageOf, hstage]
    | handOver hdone => exact ⟨0, (w, d), _, .refl _, hdone, rfl⟩

/-- A drive on which nobody waits ends. -/
theorem ends (M : E.Meter) {s : State H F S} (hc : s.2.Chained s.1) (hw : s.2.waiting = []) :
    ∃ r, Ends (Drive.step E) s r := by
  obtain ⟨n, s', r, hr, hdone, hw'⟩ := M.settles s hc
  exact ⟨_, hr.ends_iff.mpr (.halt (step_halt hdone (hw'.trans hw)))⟩

/-- A body that runs apart from any generator ends. -/
theorem record_ends (M : E.Meter) (w : World H F S) (r : Record) (frame : F) (reply : Reply) :
    ∃ q, Ends (Record.step E) (w, r, frame, reply) q := by
  -- By the credit and, as long as nothing is spent, by the stage.
  induction hc : M.credit frame using Nat.strongRecOn generalizing w r frame reply with
  | _ c ihc =>
  induction ht : M.stage frame reply using Nat.strongRecOn generalizing w r frame reply with
  | _ t iht =>
  rcases hE : E.step w.heap w.state frame reply with ⟨heap, state, action⟩
  have hleft := step_left (M := M) hE
  have hstep : Record.step E (w, r, frame, reply) =
      Record.perform { w with heap := heap, state := state } r action := by
    simp only [Record.step, hE]
  have hgoOn {w' : World H F S} {r' : Record} {frame' : F} {reply' : Reply}
      (hs : Record.step E (w, r, frame, reply) = .next (w', r', frame', reply'))
      (ha : action.Leads frame' reply') : ∃ q, Ends (Record.step E) (w, r, frame, reply) q := by
    have hcredit := leads_credit (M := M) ha
    suffices h : ∃ q, Ends (Record.step E) (w', r', frame', reply') q by
      obtain ⟨q, hq⟩ := h
      exact ⟨q, .next hs hq⟩
    by_cases hlt : M.credit frame' < c
    · exact ihc _ hlt w' r' frame' reply' rfl
    · have hquiet : M.spends frame reply = false := by
        cases hspends : M.spends frame reply with
        | false => rfl
        | true =>
          rw [hspends, Bool.toNat_true] at hleft
          omega
      exact iht _ (ht ▸ stage_step hquiet hE ha) w' r' frame' reply' (by omega) rfl
  cases action with
  | silent frame' => exact hgoOn hstep (.silent _)
  | yieldPair k v frame' => exact hgoOn hstep (.yieldPair k v _)
  | yieldValue v frame' => exact hgoOn hstep (.yieldValue v _)
  | delegate source frame' =>
    simp only [Record.perform] at hstep
    split at hstep
    · exact hgoOn hstep (.delegate source _ .accepted)
    · exact hgoOn hstep (.delegate source _ .accepted)
    · exact hgoOn hstep (.delegate source _ (.refused _))
  | askDelegating frame' => exact hgoOn hstep (.askDelegating _ _)
  | takeSent frame' => exact hgoOn hstep (.takeSent _ _)
  | takeResult frame' => exact hgoOn hstep (.takeResult _ _)
  | create handle f args frame' => exact hgoOn hstep (.create handle f args _ _)
  | suspend frame' | finish v | fail e => exact ⟨_, .halt hstep⟩

/-! ### What advances cost -/

/-- A drive spends what its balance loses. -/
theorem costs_le {n : Nat} {r : Result H F S} (hc : s.2.Chained s.1)
    (h : Costs (Drive.step E) M.cost s n r) : n + r.1.total M.worth ≤ M.balance s := by
  induction h with
  | @halt s r hs =>
    obtain ⟨hdone, hwaiting, hr⟩ := halt_cases hs
    have htotal : r.1.total M.worth = s.1.total M.worth := by
      rw [hr]
      exact total_setLock s.1 s.2.current false
    simp [balance, hdone.1, hwaiting, among, htotal]
  | @next s t n r hs _ ih =>
    have hrest := ih (step_moves hc hs).1
    have hstep := balance_step (M := M) hc hs
    omega

theorem balance_open {g : GeneratorId} {input : Input} (hs : w.open? g input = some s) :
    M.balance s = w.total M.worth := by
  obtain ⟨x, hx, -, rfl⟩ := World.open_cases hs
  have htotal : World.total M.worth (w.lock g) = w.total M.worth := total_setLock w g true
  simp [balance, inFocus_turnTo, turnTo_waiting, among, htotal]

theorem total_close (w : World H F S) (g : GeneratorId) :
    World.total M.worth (w.close E g) ≤ w.total M.worth := by
  rw [World.close]
  split
  · next x hx =>
    split
    · exact Nat.le_refl _
    · have htotal := total_replaced (M := M) hx x.terminate w.heap (E.giveUp x.frame w.state)
      have hworth := worth_terminate (M := M) x
      rw [World.finish_eq_replace E hx]
      omega
  · exact Nat.le_refl _

theorem total_drop (w : World H F S) (g : GeneratorId) :
    World.total M.worth (w.drop E g) ≤ w.total M.worth := by
  rw [World.drop]
  split
  · next frame hframe =>
    obtain ⟨x, hx, -⟩ := Option.bind_eq_some_iff.mp hframe
    have htotal := total_replaced (M := M) hx { x with frame := none } w.heap (E.discard frame w.state)
    have hworth : M.worth { x with frame := none } ≤ M.worth x := by
      simp [worth, Generator.isStarted]
    rw [World.modify_eq_replace (w := { w with state := E.discard frame w.state }) hx]
    omega
  · exact Nat.le_refl _

/-- What advances cost was there before the first of them. -/
theorem worked_le {n : Nat} (h : World.Worked E M.cost w n w') :
    n + w'.total M.worth ≤ w.total M.worth := by
  induction h with
  | refl => omega
  | advance _ hs hk ih =>
    have hcosts := costs_le (World.open_chained hs).1 hk
    rw [balance_open hs] at hcosts
    omega
  | @close w₁ n _ g ih =>
    have hclose := total_close (M := M) w₁ g
    omega
  | @drop w₁ n _ g ih =>
    have hdrop := total_drop (M := M) w₁ g
    omega
  | setLock _ g b ih => rwa [total_setLock]
  | elsewhere _ heap state ih => exact ih

end Engine.Meter

end YieldMachine
