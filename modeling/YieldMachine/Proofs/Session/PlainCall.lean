import YieldMachine.Proofs.Machine.Body
import YieldMachine.Proofs.Machine.Nesting
import YieldMachine.Proofs.Session.Limits

/-!
Calls of plain functions leave generators and cells alone. A function without yield instructions keeps to itself: its
body goes on alone, opens further plain calls, makes generators without running them, and ends; it neither reports
to whoever drives it nor asks or pauses (`Machine.step_plainly`). So a call changes no cell and no generator that there
is, whether the user makes it (`Session.call_undisturbed`) or a body that a drive runs
(`Machine.InCall.step`).
-/

namespace YieldMachine

/-- Whether a body keeps to itself: it goes on alone, makes a generator, or ends. -/
def Action.isInward {H F : Type} : Action H F → Bool
  | .silent _ | .create .. | .finish _ | .fail _ => true
  | _ => false

theorem Action.isInward_map {H F H' F' : Type} (h : H → H') (f : F → F') (a : Action H F) :
    (a.map h f).isInward = a.isInward := by
  cases a <;> rfl

namespace World

variable {H F S : Type} {w w' w'' : World H F S}

/-- The cells and the generators of the first world are in the second as they were, and what is new there has not
begun. -/
structure Undisturbed (w w' : World H F S) : Prop where
  cells : w'.heap.cells = w.heap.cells
  kept : ∀ g x, w.generator? g = some x → w'.generator? g = some x
  fresh : ∀ g x, w.generator? g = none → w'.generator? g = some x →
    ∃ h f args, x = .fresh h f args ∧ f.isGenerator = true

namespace Undisturbed

theorem of_generators_eq (hcells : w'.heap.cells = w.heap.cells) (hgenerators : w'.generators = w.generators) :
    w.Undisturbed w' := by
  have hsame (g : GeneratorId) : w'.generator? g = w.generator? g := by rw [generator?, hgenerators]; rfl
  refine ⟨hcells, fun g x hx => (hsame g).trans hx, fun g x hnone hx => ?_⟩
  rw [hsame, hnone] at hx
  cases hx

theorem refl (w : World H F S) : w.Undisturbed w := of_generators_eq rfl rfl

theorem trans (h : w.Undisturbed w') (h' : w'.Undisturbed w'') : w.Undisturbed w'' := by
  refine ⟨h'.cells.trans h.cells, fun g x hx => h'.kept g x (h.kept g x hx), fun g x hnone hx => ?_⟩
  cases hx' : w'.generator? g with
  | none => exact h'.fresh g x hx' hx
  | some y =>
    obtain rfl := Option.some.inj ((h'.kept g y hx').symm.trans hx)
    exact h.fresh g y hnone hx'

theorem create (w : World H F S) (h : H) {f : Function} (hf : f.isGenerator = true) (args : List Value) :
    w.Undisturbed (w.create h f args).2 := by
  refine ⟨rfl, fun g x hx => ?_, fun g x hnone hx => ?_⟩
  · have hg : g ≠ w.generators.size := by
      rintro rfl
      rw [generator?_size] at hx
      cases hx
    rw [generator?_create, if_neg hg, hx]
  · rw [generator?_create] at hx
    split at hx
    · exact ⟨h, f, args, (Option.some.inj hx).symm, hf⟩
    · rw [hnone] at hx
      cases hx

end Undisturbed

end World

namespace Frame

variable {x : Frame} {h : Heap}

/-- Whatever instruction runs, the cells stay as they are. -/
abbrev KeepsCells {α : Type} (h : Heap) (heap : α → Heap) : Except Fault α → Prop :=
  Settles (fun _ => True) fun a => (heap a).cells = h.cells

theorem settles_anyhow {α : Type} (a : Except Fault α) : Settles (fun _ => True) (fun _ => True) a := by
  cases a <;> trivial

theorem changeTop_cells (operator : String) (f : Table Value → Except Fault (Table Value)) :
    KeepsCells h Prod.fst (x.changeTop h operator f) := by
  rw [changeTop]
  split
  · exact (settles_anyhow _).bind fun _ _ => rfl
  · trivial
  · trivial

theorem append_cells : KeepsCells h Prod.fst (x.append h) :=
  (settles_anyhow _).bind fun _ _ => changeTop_cells ..

theorem insert_cells : KeepsCells h Prod.fst (x.insert h) := by
  refine (settles_anyhow _).bind fun _ _ => (settles_anyhow _).bind fun popped _ => ?_
  cases popped
  simp only
  split
  · exact changeTop_cells ..
  · trivial

theorem execute_cells (x : Frame) (h : Heap) (i : Instruction) : KeepsCells h Prod.fst (x.execute h i) := by
  cases i with
  | const | newArray | ret => rfl
  | throw => trivial
  | loadArg i | loadLocal i =>
    rw [execute]
    split
    · rfl
    · trivial
  | jumpIfFalse target =>
    refine (settles_anyhow _).bind fun popped _ => ?_
    cases popped
    simp only
    split
    · rfl
    · exact (settles_anyhow _).bind fun _ _ => rfl
  | arrayPush => exact append_cells.bind fun _ hp => hp
  | arraySet => exact insert_cells.bind fun _ hp => hp
  | storeLocal | yieldPair => exact (settles_anyhow _).bind fun _ _ => (settles_anyhow _).bind fun _ _ => rfl
  | _ => exact (settles_anyhow _).bind fun _ _ => rfl

end Frame

/-- The execution runs a plain function, and so do the calls that are open above `base`. -/
def Execution.Above (base : List Frame) (x : Execution) : Prop :=
  ∃ top, x.callers = top ++ base ∧ ∀ frame ∈ x.frame :: top, frame.function.isGenerator = false

theorem Execution.Above.withFrame {base : List Frame} {x : Execution} (hx : x.Above base) {frame : Frame}
    (hf : frame.function = x.frame.function) : Execution.Above base { x with frame := frame } := by
  obtain ⟨top, hcallers, hplain⟩ := hx
  obtain ⟨hframe, htop⟩ := List.forall_mem_cons.mp hplain
  exact ⟨top, hcallers, List.forall_mem_cons.mpr ⟨hf ▸ hframe, htop⟩⟩

namespace Machine

variable {m : Machine} {base : List Frame} {x : Execution}

/-- What a plain function does: it goes on, makes a generator, returns to the frame below, or ends the execution. -/
inductive Plainly (base : List Frame) : Action Nat Execution → Prop where
  | stays {y : Execution} (hy : y.Above base) : Plainly base (.silent y)
  | creates {k : Nat} {f : Function} {args : List Value} {y : Execution} (hf : f.isGenerator = true)
      (hy : y.Above base) : Plainly base (.create k f args y)
  | returns {caller : Frame} {rest : List Frame} {v : Value} {y : Execution} (hbase : base = caller :: rest)
      (hframe : y.frame = caller.push v) (hcallers : y.callers = rest) : Plainly base (.silent y)
  | finishes {v : Value} (hbase : base = []) : Plainly base (.finish v)
  | fails (f : Fault) : Plainly base (.fail (.fault f))

theorem Plainly.isInward {action : Action Nat Execution} (h : Plainly base action) : action.isInward = true := by
  cases h <;> rfl

theorem ret_plainly (hx : x.Above base) (v : Value) : Plainly base (x.ret v) := by
  obtain ⟨top, hcallers, hplain⟩ := hx
  rw [Execution.ret]
  cases top with
  | nil =>
    rw [List.nil_append] at hcallers
    rw [hcallers]
    cases base with
    | nil => exact .finishes rfl
    | cons caller rest => exact .returns rfl rfl rfl
  | cons frame top =>
    rw [hcallers, List.cons_append]
    obtain ⟨hframe, htop⟩ := List.forall_mem_cons.mp (List.forall_mem_cons.mp hplain).2
    exact .stays ⟨top, rfl, List.forall_mem_cons.mpr ⟨hframe, htop⟩⟩

theorem call_plainly (hx : x.Above base) (id : FunctionId) (args : List Value) :
    Plainly base (m.call x id args) := by
  obtain ⟨top, hcallers, hplain⟩ := hx
  rw [call]
  split
  · exact .fails _
  · next f hf =>
    split
    · exact .fails _
    · split
      · next hgenerator => exact .creates hgenerator ⟨top, hcallers, hplain⟩
      · next hgenerator =>
        refine .stays ⟨x.frame :: top, by rw [hcallers]; rfl, List.forall_mem_cons.mpr ⟨?_, hplain⟩⟩
        exact Bool.eq_false_iff.mpr hgenerator

theorem advance_plainly (hx : x.Above base) (heap : Heap) (out : Output) :
    (m.advance heap out x).1.cells = heap.cells ∧ Plainly base (m.advance heap out x).2.2 := by
  have hcases := m.advances heap out x
  generalize m.advance heap out x = result at hcases
  cases hcases with
  | ends hi => exact ⟨rfl, ret_plainly hx .null⟩
  | exceeds hi hb => exact ⟨rfl, .fails _⟩
  | faults hi hb he hf => exact ⟨rfl, .fails _⟩
  | @executes i heap' e hi hb he hk =>
    have hcells := Frame.execute_cells { x.frame with pc := x.frame.pc + 1 } heap i
    rw [he] at hcells
    refine ⟨hcells, ?_⟩
    have hgo {y : Frame} (hy : e.frame? = some y) : Execution.Above base { x.tick with frame := y } :=
      Execution.Above.withFrame (x := x.tick) hx (hk.function y hy)
    -- A yield would make a generator function of the one that runs.
    have hyield : e.isYield = false := by
      rw [hk.isYield, Bool.eq_false_iff]
      intro hy
      obtain ⟨top, -, hplain⟩ := hx
      have hgenerator := isGenerator_of_isYield hi hy
      rw [hplain x.frame List.mem_cons_self] at hgenerator
      cases hgenerator
    cases e with
    | go y => exact .stays (hgo rfl)
    | echo text y => exact .stays (hgo rfl)
    | call f args y => exact call_plainly (hgo rfl) f args
    | ret v => exact ret_plainly (x := x.tick) hx v
    | yieldValue | yieldPair | yieldFrom => cases hyield

theorem step_plainly (hx : x.Above base) {reply : Reply} (hr : reply.atYield = false) (heap : Heap) (out : Output) :
    (m.step heap out x reply).1.cells = heap.cells ∧ Plainly base (m.step heap out x reply).2.2 := by
  cases reply with
  | proceed => exact advance_plainly hx heap out
  | value v => exact ⟨rfl, .stays (hx.withFrame rfl)⟩
  | resume | reported | accepted | refused | delegating => cases hr

/-! ## Calls in a drive -/

variable {H F S : Type} {E : Engine H F S} {w w' : World (Nat ⊕ H) (Execution ⊕ F) (Output × S)}
  {d : Drive (Execution ⊕ F)} {caller : Frame} {rest : List Frame}
  {t t' : Drive.State (Nat ⊕ H) (Execution ⊕ F) (Output × S)}

/-- In the drive that was `(w, d)`, the body in focus is still in the plain calls above `base`. -/
inductive InCall (base : List Frame) (w : World (Nat ⊕ H) (Execution ⊕ F) (Output × S)) (d : Drive (Execution ⊕ F)) :
    Drive.State (Nat ⊕ H) (Execution ⊕ F) (Output × S) → Prop where
  | mk {w' : World (Nat ⊕ H) (Execution ⊕ F) (Output × S)} {y : Execution} {reply : Reply} (hy : y.Above base)
      (hr : reply.atYield = false) (hw : w.Undisturbed w') :
      InCall base w d (w', { d with focus := .body (.inl y) reply })

/-- The call is over: it has returned to the frame that made it, or failed and ended the generator in focus. -/
inductive CallOver (m : Machine) (E : Engine H F S) (caller : Frame) (rest : List Frame)
    (w : World (Nat ⊕ H) (Execution ⊕ F) (Output × S)) (d : Drive (Execution ⊕ F)) :
    Drive.State (Nat ⊕ H) (Execution ⊕ F) (Output × S) → Prop where
  | returned {w' : World (Nat ⊕ H) (Execution ⊕ F) (Output × S)} {y : Execution} {v : Value}
      (hframe : y.frame = caller.push v) (hcallers : y.callers = rest) (hw : w.Undisturbed w') :
      CallOver m E caller rest w d (w', { d with focus := .body (.inl y) .proceed })
  | failed {w' : World (Nat ⊕ H) (Execution ⊕ F) (Output × S)} {e : GeneratorError} (hw : w.Undisturbed w') :
      CallOver m E caller rest w d
        (w'.fail (m.engine.sum E) d.current e, { d with focus := .settled (.error e) })

theorem InCall.step (ht : InCall (caller :: rest) w d t) :
    ∃ t', Drive.step (m.engine.sum E) t = .next t' ∧
      (InCall (caller :: rest) w d t' ∨ CallOver m E caller rest w d t') := by
  obtain @⟨w', y, reply, hy, hr, hw⟩ := ht
  obtain ⟨hcells, haction⟩ := step_plainly (m := m) hy hr w'.heap w'.state.1
  rcases hstep : m.step w'.heap w'.state.1 y reply with ⟨heap, out, action⟩
  rw [hstep] at hcells haction
  have hw₁ : w.Undisturbed { w' with heap := heap, state := (out, w'.state.2) } :=
    hw.trans (.of_generators_eq hcells rfl)
  refine ⟨_, drive_step m E w' rfl hstep, ?_⟩
  cases haction with
  | stays hz => exact .inl (.mk hz rfl hw₁)
  | creates hf hz => exact .inl (.mk hz rfl (hw₁.trans (.create _ _ hf _)))
  | returns hbase hframe hcallers =>
    obtain ⟨rfl, rfl⟩ := List.cons.inj hbase
    exact .inr (.returned hframe hcallers hw₁)
  | finishes hbase => cases hbase
  | fails f => exact .inr (.failed hw₁)

/-- A call goes on undisturbed for as long as it is not over. -/
theorem InCall.run {n : Nat} (hs : InCall (caller :: rest) w d t)
    (h : Reaches (Drive.step (m.engine.sum E)) t n t') :
    InCall (caller :: rest) w d t' ∨
      ∃ k ≤ n, ∃ u, Reaches (Drive.step (m.engine.sum E)) t k u ∧ CallOver m E caller rest w d u := by
  induction h with
  | refl => exact .inl hs
  | @next t t₁ t' n hnext _ ih =>
    obtain ⟨t₂, hstep, hphase⟩ := hs.step (m := m) (E := E)
    obtain rfl := Transition.next.inj (hstep.symm.trans hnext)
    rcases hphase with hphase | hover
    · obtain hin | ⟨k, hk, u, hu, hover⟩ := ih hphase
      · exact .inl hin
      · exact .inr ⟨k + 1, Nat.succ_le_succ hk, u, .next hnext hu, hover⟩
    · exact .inr ⟨1, Nat.succ_le_succ (Nat.zero_le n), t₂, .single hnext, hover⟩

theorem InCall.inward (ht : InCall base w d t) : w.Undisturbed t.1 ∧
    ∃ y reply, t.2 = { d with focus := .body (.inl y) reply } ∧ y.Above base ∧
      ((m.engine.sum E).step t.1.heap t.1.state (.inl y) reply).2.2.isInward = true := by
  obtain @⟨w', y, reply, hy, hr, hw⟩ := ht
  refine ⟨hw, y, reply, rfl, hy, ?_⟩
  exact (Action.isInward_map ..).trans (step_plainly hy hr w'.heap w'.state.1).2.isInward

/-- The generator that made a call has its pair, its keys, the value sent and the last result as before. -/
theorem CallOver.keeps (h : CallOver m E caller rest w d t) {x : Generator (Nat ⊕ H) (Execution ⊕ F)}
    (hx : w.generator? d.current = some x) :
    ∃ x', t.1.generator? d.current = some x' ∧ x'.key = x.key ∧ x'.value = x.value ∧
      x'.largestKey = x.largestKey ∧ x'.sent = x.sent ∧ x'.delegationResult = x.delegationResult := by
  cases h with
  | returned hframe hcallers hw => exact ⟨x, hw.kept _ x hx, rfl, rfl, rfl, rfl, rfl⟩
  | @failed w' e hw =>
    refine ⟨x.terminate.setError e, ?_, rfl, rfl, rfl, rfl, rfl⟩
    rw [World.generator?_fail_self, hw.kept _ x hx]
    rfl

end Machine

/-! ## Calls by the user -/

namespace Session

variable {s s' : Session} {w : World (Nat ⊕ Unit) (Execution ⊕ Script.Frame) (Output × Script.Tally)}
  {t t' : Record.State (Nat ⊕ Unit) (Execution ⊕ Script.Frame) (Output × Script.Tally)}
  {q : Record.Result (Nat ⊕ Unit) (Execution ⊕ Script.Frame) (Output × Script.Tally)}

/-- In the world `w` a plain function was called, and it has not ended yet. -/
inductive Calling (w : World (Nat ⊕ Unit) (Execution ⊕ Script.Frame) (Output × Script.Tally)) :
    Record.State (Nat ⊕ Unit) (Execution ⊕ Script.Frame) (Output × Script.Tally) → Prop where
  | mk {w' : World (Nat ⊕ Unit) (Execution ⊕ Script.Frame) (Output × Script.Tally)} {y : Execution} {reply : Reply}
      (hy : y.Above []) (hr : reply.atYield = false) (hw : w.Undisturbed w') (htally : w'.state.2 = w.state.2) :
      Calling w (w', .silent, .inl y, reply)

theorem calling_outset {f : Function} (hf : f.isGenerator = false) (args : List Value) :
    Calling s.world (s.outset f args) :=
  .mk ⟨[], rfl, List.forall_mem_singleton.mpr hf⟩ rfl (.refl _) rfl

/-- A plain function goes on, or ends by returning or failing, and nothing was noted of it. -/
theorem Calling.step (ht : Calling w t) :
    (∃ t', Record.step s.engine t = .next t' ∧ Calling w t') ∨
      ∃ w' o, Record.step s.engine t = .halt (w', .silent, o) ∧ (∀ frame, o ≠ .suspended frame) ∧
        w.Undisturbed w' ∧ w'.state.2 = w.state.2 := by
  obtain @⟨w', y, reply, hy, hr, hw, htally⟩ := ht
  obtain ⟨hcells, haction⟩ := Machine.step_plainly (m := s.machine) hy hr w'.heap w'.state.1
  rcases hstep : s.machine.step w'.heap w'.state.1 y reply with ⟨heap, out, action⟩
  rw [hstep] at hcells haction
  have hw₁ : w.Undisturbed { w' with heap := heap, state := (out, w'.state.2) } :=
    hw.trans (.of_generators_eq hcells rfl)
  simp only [Record.step, engine, Engine.sum, Machine.engine, hstep]
  cases haction with
  | stays hz => exact .inl ⟨_, rfl, .mk hz rfl hw₁ htally⟩
  | creates hf hz => exact .inl ⟨_, rfl, .mk hz rfl (hw₁.trans (.create _ _ hf _)) htally⟩
  | returns hbase => cases hbase
  | finishes hbase => exact .inr ⟨_, _, rfl, fun _ ho => (by cases ho), hw₁, htally⟩
  | fails f => exact .inr ⟨_, _, rfl, fun _ ho => (by cases ho), hw₁, htally⟩

theorem Calling.run {n : Nat} (hs : Calling w t) (h : Reaches (Record.step s.engine) t n t') : Calling w t' := by
  refine h.invariant hs fun u u' hu hnext => ?_
  obtain ⟨u'', hstep, hcalling⟩ | ⟨w', o, hstep, -⟩ := hu.step (s := s)
  · obtain rfl := Transition.next.inj (hstep.symm.trans hnext)
    exact hcalling
  · rw [hstep] at hnext
    cases hnext

theorem Calling.ends (hs : Calling w t) (h : Ends (Record.step s.engine) t q) :
    q.2.1 = .silent ∧ (∀ frame, q.2.2 ≠ .suspended frame) ∧ w.Undisturbed q.1 ∧ q.1.state.2 = w.state.2 := by
  obtain ⟨n, u, hu, hhalt⟩ := h.reaches
  obtain ⟨u', hstep, -⟩ | ⟨w', o, hstep, ho, hw, htally⟩ := (hs.run hu).step (s := s)
  · rw [hstep] at hhalt
    cases hhalt
  · rw [hstep] at hhalt
    cases hhalt
    exact ⟨rfl, ho, hw, htally⟩

theorem call_undisturbed {fuel : Nat} {name : String} {args : List Value} {r : Except BodyError Value}
    (h : s.call fuel name args = some (s', r)) : s.world.Undisturbed s'.world ∧ s'.tally = s.tally := by
  cases call_concludes h with
  | unknown | refused => exact ⟨.refl _, rfl⟩
  | creates hf hlimit hgenerator => exact ⟨.create _ _ hgenerator _, rfl⟩
  | runs hf hlimit hplain hrun =>
    obtain ⟨-, -, hw, htally⟩ := (calling_outset hplain args).ends (ends_of_run hrun)
    exact ⟨hw, htally⟩

end Session

/-- Plain calls run no generator and disturb none. A call of a function by the user, whatever the function and its
arguments, leaves all cells and generators as they were and makes fresh generators only; at every moment of it, nothing
has been noted of its body, which neither reports, asks nor pauses, and it ends by returning or failing. The same holds
of a call that a body of the machine makes while it is driven: in a drive where a plain function has been called
by the frame `caller`, at any depth, the drive goes on in that call alone until the call returns to `caller` or fails,
and then the generator in focus has the pair, the largest key, the value sent and the last result that it had. -/
theorem plain_calls_disturb_nothing (s : Session) :
    (∀ fuel name args s' r, s.call fuel name args = some (s', r) →
      s.world.Undisturbed s'.world ∧ s'.tally = s.tally) ∧
    (∀ f args, f.isGenerator = false →
      (∀ n t, Reaches (Record.step s.engine) (s.outset f args) n t →
        s.world.Undisturbed t.1 ∧ t.2.1.calls = [] ∧
          (s.engine.step t.1.heap t.1.state t.2.2.1 t.2.2.2).2.2.isInward = true) ∧
      ∀ q, Ends (Record.step s.engine) (s.outset f args) q →
        s.world.Undisturbed q.1 ∧ q.2.1.calls = [] ∧ ∀ frame, q.2.2 ≠ .suspended frame) ∧
    ∀ (w : World (Nat ⊕ Unit) (Execution ⊕ Script.Frame) (Output × Script.Tally)) (d : Drive (Execution ⊕ Script.Frame))
      x reply caller rest, d.focus = .body (.inl x) reply → reply.atYield = false →
      x.frame.function.isGenerator = false → x.callers = caller :: rest →
      ∀ n t, Reaches (Drive.step s.engine) (w, d) n t →
        (w.Undisturbed t.1 ∧ ∃ y r, t.2 = { d with focus := .body (.inl y) r } ∧ y.Above (caller :: rest) ∧
          (s.engine.step t.1.heap t.1.state (.inl y) r).2.2.isInward = true) ∨
        ∃ k ≤ n, ∃ u w', Reaches (Drive.step s.engine) (w, d) k u ∧ w.Undisturbed w' ∧
          ((∃ y v, u = (w', { d with focus := .body (.inl y) .proceed }) ∧ y.frame = caller.push v ∧ y.callers = rest) ∨
            ∃ e, u = (w'.fail s.engine d.current e, { d with focus := .settled (.error e) })) ∧
          ∀ x, w.generator? d.current = some x → ∃ x', u.1.generator? d.current = some x' ∧
            x'.key = x.key ∧ x'.value = x.value ∧ x'.largestKey = x.largestKey ∧ x'.sent = x.sent ∧
            x'.delegationResult = x.delegationResult := by
  refine ⟨fun fuel name args s' r h => Session.call_undisturbed h, fun f args hf => ⟨fun n t ht => ?_, fun q hq => ?_⟩,
    fun w d x reply caller rest hfocus hr hplain hcallers n t ht => ?_⟩
  · obtain @⟨w', y, reply, hy, hr, hw, -⟩ := (Session.calling_outset hf args).run ht
    refine ⟨hw, rfl, ?_⟩
    exact (Action.isInward_map ..).trans (Machine.step_plainly hy hr w'.heap w'.state.1).2.isInward
  · obtain ⟨hrecord, ho, hw, -⟩ := (Session.calling_outset hf args).ends hq
    exact ⟨hw, by rw [hrecord]; rfl, ho⟩
  · have hstart : Machine.InCall (caller :: rest) w d (w, d) := by
      obtain ⟨current, resend, focus, waiting⟩ := d
      cases hfocus
      exact .mk ⟨[], hcallers, List.forall_mem_singleton.mpr hplain⟩ hr (.refl w)
    obtain hin | ⟨k, hk, u, hu, hover⟩ := hstart.run ht
    · exact .inl hin.inward
    · have hkeeps := fun x hx => hover.keeps (x := x) hx
      cases hover with
      | @returned w' y v hframe hcallers hw =>
        exact .inr ⟨k, hk, _, w', hu, hw, .inl ⟨y, v, rfl, hframe, hcallers⟩, hkeeps⟩
      | @failed w' e hw => exact .inr ⟨k, hk, _, w', hu, hw, .inr ⟨e, rfl⟩, hkeeps⟩

/-- A function that gives its argument back, a generator: called by the user, and by the body of that generator. -/
theorem plain_calls_disturb_nothing_of_echo : ∃ (s s' : Session)
    (w : World (Nat ⊕ Unit) (Execution ⊕ Script.Frame) (Output × Script.Tally)) (d : Drive (Execution ⊕ Script.Frame))
    (x : Execution) (caller : Frame),
    (s.call 9 "same" [.generator 0] = some (s', .ok (.generator 0)) ∧ s.world.Undisturbed s'.world) ∧
    d.focus = .body (.inl x) .proceed ∧ x.frame.function.isGenerator = false ∧ x.callers = [caller] ∧
    (w.generator? d.current).isSome = true ∧
    ∃ k ≤ 2, ∃ u w', Reaches (Drive.step s.engine) (w, d) k u ∧ w.Undisturbed w' ∧
      ∀ x, w.generator? d.current = some x → ∃ x', u.1.generator? d.current = some x' ∧ x'.sent = x.sent := by
  let same : Function := ⟨"same", 1, 0, #[.loadArg 0, .ret]⟩
  let teller : Function := ⟨"teller", 1, 0, #[.loadArg 0, .instantiate 0 1, .yield]⟩
  let running : Generator (Nat ⊕ Unit) (Execution ⊕ Script.Frame) :=
    { Generator.fresh (.inl 0) teller [.generator 0] with lifecycle := ⟨true, false, false⟩, locked := true }
  let caller : Frame := { Frame.ofCall teller [.generator 0] with pc := 2 }
  let x : Execution := ⟨2, 1, .ofCall same [.generator 0], [caller]⟩
  let s : Session := ⟨⟨⟨#[same, teller], Std.TreeMap.empty.insert "same" 0⟩, ⟨.unbounded, 3⟩⟩, ∅,
    ⟨.empty, (.captured "", .empty), #[running]⟩⟩
  let d : Drive (Execution ⊕ Script.Frame) := ⟨0, none, .body (.inl x) .proceed, []⟩
  have hf : s.function "same" = .ok same := by
    simp [s, Session.function, Registry.getByName?, Registry.lookup, Registry.get?]
  have hplain : same.isGenerator = false := by simp [same, Function.isGenerator, Instruction.isYield]
  obtain ⟨s', hcall⟩ : ∃ s', s.call 9 "same" [.generator 0] = some (s', .ok (.generator 0)) := by
    rw [Session.call_plain hf (by decide) hplain]
    exact ⟨_, rfl⟩
  obtain ⟨t, ht, y, hy, hnone⟩ : ∃ t, Reaches (Drive.step s.engine) (s.world, d) 2 t ∧
      ∃ y, t.2.focus = .body (.inl y) .proceed ∧ y.callers = [] := by
    refine ⟨_, .next rfl (.next rfl (.refl _)), _, rfl, ?_⟩
    rfl
  obtain ⟨hwhole, -, hdrive⟩ := plain_calls_disturb_nothing s
  refine ⟨s, s', s.world, d, x, caller, ⟨hcall, (hwhole 9 "same" _ s' _ hcall).1⟩, rfl, hplain, rfl, rfl, ?_⟩
  rcases hdrive s.world d x .proceed caller [] rfl rfl hplain rfl 2 t ht with
    ⟨-, z, r, hz, ⟨top, htop, -⟩, -⟩ | ⟨k, hk, u, w', hu, hw, -, hkeeps⟩
  · -- after two steps the call has returned
    rw [hz] at hy
    cases hy
    rw [hnone] at htop
    cases top <;> cases htop
  · refine ⟨k, hk, u, w', hu, hw, fun x hx => ?_⟩
    obtain ⟨x', hx', -, -, -, hsent, -⟩ := hkeeps x hx
    exact ⟨x', hx', hsent⟩

end YieldMachine
