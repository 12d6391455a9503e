import YieldMachine.Proofs.Delegation.Inner
import YieldMachine.Proofs.Machine.Body
import YieldMachine.Proofs.Machine.Loop
import YieldMachine.Proofs.Schedule

/-!
Suspending and resuming loses nothing: the calls on a generator of the machine do together what the
uninterrupted loop does in one go (`suspension_faithful`). Whenever the loop is at an instruction, the calls
are at the same one, and the generator holds nothing but its pair and its largest key (`Aligned`). One
instruction, together with the suspension and the resumption that it may bring, keeps this
(`perform_answers`), so the calls simulate the loop (`simulates`).
-/

namespace YieldMachine

/-- The next step of the drive runs an instruction of the body of `g`. -/
def Machine.runsInstruction (g : GeneratorId) (s : Drive.State Nat Execution Output) : Bool :=
  match s.2.focus with
  | .body x .proceed => x.frame.instruction?.isSome && s.2.current == g
  | _ => false

/-- A generator of the machine while its body runs. -/
def Generator.underway (depth : Nat) (f : Function) (args : List Value) (largest : Option Int64)
    (pair : Value × Value) : Generator Nat Execution :=
  { Generator.fresh depth f args with
    lifecycle := ⟨true, false, false⟩
    key := pair.1
    value := pair.2
    largestKey := largest
    locked := true }

/-- A generator that walks a table and holds this frame meanwhile. -/
def Generator.walking {H F : Type} (y : Generator H F) (t : Table Value) (pending : List Key)
    (frame : F) : Generator H F :=
  { y with
    lifecycle := ⟨true, false, true⟩
    delegation := some (.table t pending)
    frame := some frame }

/-- The pair of a call that produced one, as a report. -/
def Report.ofPair (p : Value × Value) : Report := ⟨true, p.1, p.2⟩

namespace Loop

/-- The last pair noted, which is the generator's pair. -/
def lastPair (s : Loop) : Value × Value := s.trace.getLast?.getD (.null, .null)

/-- The calls that correspond to the loop, where the generator is `y` and `focus` comes next. -/
def view (g : GeneratorId) (s : Loop) (y : Generator Nat Execution) (focus : Focus Execution) :
    Schedule Nat Execution Output :=
  ⟨(s.world.replace g y, ⟨g, none, focus, []⟩), s.inputs, s.trace.map .ofPair, s.count⟩

end Loop

/-- How the end of a loop, with this execution, shows in the generator. -/
def Ending.ShownBy (y : Generator Nat Execution) (x : Execution) : Ending → Prop
  | .waiting => y.In .suspended ∧ ∃ x', y.frame = some x' ∧ x'.steps = x.steps
  | .returned v => y.In .finished ∧ y.returnValue = some v ∧ y.lastError = none
  | .failed e => y.In .finished ∧ y.returnValue = none ∧ y.lastError = some (.executionFailed e)
  | .strayed => False

namespace Fidelity

open Drive

variable {m : Machine} {g : GeneratorId} {x : Execution} {y z : Generator Nat Execution} {s : Loop}

/-- The machine's calls on `g`, one after the other. -/
abbrev calls (m : Machine) (g : GeneratorId) :=
  Schedule.step m.engine (Machine.runsInstruction g) g

/-! ### Single steps -/

theorem step_quiet {focus : Focus Execution} {t : Drive.State Nat Execution Output}
    (h : step m.engine (s.world.replace g y, ⟨g, none, focus, []⟩) = .next t)
    (hquiet : ∀ x, focus ≠ .body x .proceed) :
    calls m g (s.view g y focus) = .next ⟨t, s.inputs, s.trace.map .ofPair, s.count⟩ := by
  have hcount : Machine.runsInstruction g (s.world.replace g y, ⟨g, none, focus, []⟩) = false := by
    rw [Machine.runsInstruction]
    split
    · next hfocus => exact absurd hfocus (hquiet _)
    · rfl
  rw [Loop.view, calls, Schedule.step_next h, hcount]
  rfl

/-- A step of the body that answers something other than an instruction. -/
theorem step_reply {reply : Reply} {action : Action Nat Execution}
    (h : m.step s.world.heap s.world.state x reply = (s.world.heap, s.world.state, action))
    (hreply : reply ≠ .proceed) :
    calls m g (s.view g y (.body x reply)) =
      .next ⟨perform m.engine (s.world.replace g y) ⟨g, none, .body x reply, []⟩ action,
        s.inputs, s.trace.map .ofPair, s.count⟩ :=
  step_quiet (step_body rfl h) fun _ hfocus => hreply (Focus.body.inj hfocus).2

theorem step_push (v : Value) :
    calls m g (s.view g y (.body x (.value v))) = .next (s.view g y (.body (x.push v) .proceed)) := by
  have hpush : m.step s.world.heap s.world.state x (.value v) =
      (s.world.heap, s.world.state, .silent (x.push v)) := rfl
  exact step_reply hpush nofun

variable {w : World Nat Execution Output} {i : Input} {is : List Input} {rs : List Report} {n : Nat}

/-- A settled generator whose drive ends is unlocked. -/
theorem halt_settled (r : Except GeneratorError Bool) :
    step m.engine (w.replace g y, ⟨g, none, .settled r, []⟩) =
      .halt (w.replace g (y.setLock false), r) := by
  rw [step_halt (.of_none rfl rfl) rfl, World.unlock, World.modify_replace]

theorem step_lastCall (hz : w.generator? g = some z) (r : Except GeneratorError Bool) :
    calls m g ⟨(w.replace g y, ⟨g, none, .settled r, []⟩), [], rs, n⟩ =
      .halt (w.replace g (y.setLock false), rs ++ [⟨World.produced r, y.key, y.value⟩], n) :=
  Schedule.step_last (x := y.setLock false) (halt_settled r) (World.generator?_replace_self hz _)

theorem step_nextCall (hz : w.generator? g = some z) (r : Except GeneratorError Bool)
    (hs : y.isStarted = true) :
    calls m g ⟨(w.replace g y, ⟨g, none, .settled r, []⟩), i :: is, rs, n⟩ =
      .next ⟨(w.replace g (y.setLock true), ⟨g, none, .enter i.sent?, []⟩), is,
        rs ++ [⟨World.produced r, y.key, y.value⟩], n⟩ := by
  have hy : (w.replace g (y.setLock false)).generator? g = some (y.setLock false) :=
    World.generator?_replace_self hz _
  have hopen : (w.replace g (y.setLock false)).open? g i =
      some (w.replace g (y.setLock true), ⟨g, none, .enter i.sent?, []⟩) := by
    have hs' : (y.setLock false).isStarted = true := hs
    rw [World.open_eq hy rfl, World.lock, World.modify_replace, turnTo, if_pos hs']
    rfl
  exact Schedule.step_call (x := y.setLock false) (halt_settled r) hy hopen

/-- Once the generator is finished, the call under way and all after it give no pair. -/
theorem spent_ends (hz : w.generator? g = some z) (hs : y.isStarted = true)
    (hf : y.isFinished = true) {r : Except GeneratorError Bool} (hr : World.produced r = false) :
    Ends (calls m g) ⟨(w.replace g y, ⟨g, none, .settled r, []⟩), is, rs, n⟩
      (w.replace g (y.setLock false), rs ++ List.replicate (is.length + 1) ⟨false, y.key, y.value⟩,
        n) := by
  induction is generalizing y r rs with
  | nil =>
    have hlast : calls m g ⟨(w.replace g y, ⟨g, none, .settled r, []⟩), [], rs, n⟩ = _ :=
      step_lastCall hz r
    rw [hr] at hlast
    exact .halt hlast
  | cons i is ih =>
    have hnext : calls m g ⟨(w.replace g y, ⟨g, none, .settled r, []⟩), i :: is, rs, n⟩ = _ :=
      step_nextCall hz r hs
    rw [hr] at hnext
    have hf' : (y.setLock true).isFinished = true := hf
    have henter : step m.engine (w.replace g (y.setLock true), ⟨g, none, .enter i.sent?, []⟩) =
        .next (w.replace g (y.setLock true), ⟨g, none, .settled (.ok false), []⟩) := by
      rw [step_enter rfl (World.generator?_replace_self hz _), enter, if_pos hf']
    have hrest : Ends (calls m g)
        ⟨(w.replace g (y.setLock true), ⟨g, none, .settled (.ok false), []⟩), is,
          rs ++ [⟨false, y.key, y.value⟩], n⟩ _ := ih (y := y.setLock true) hs hf rfl
    rw [List.append_assoc, List.singleton_append] at hrest
    exact .next hnext (.next (Schedule.step_next henter) hrest)

/-! ### Between two pairs -/

theorem await_nothing {a : Awaiting} (hx : x.frame.awaiting = .nothing) :
    (x.await a).await .nothing = x := by
  obtain ⟨steps, depth, ⟨f, args, locals, stack, pc, awaiting⟩, callers⟩ := x
  obtain rfl : awaiting = .nothing := hx
  rfl

variable {depth : Nat} {f : Function} {args : List Value} {largest : Option Int64}
  {pair : Value × Value}

/-- A paused generator is taken up again. -/
theorem enter_paused (hz : w.generator? g = some z)
    (hf : y.isFinished = false) (hd : y.delegation = none) (hs : y.isStarted = true)
    (hp : y.lifecycle.suspended = true) (hframe : y.frame = some x) (sent : Option Value) :
    step m.engine (w.replace g y, ⟨g, none, .enter sent, []⟩) =
      .next (w.replace g (y.deliver sent).release, ⟨g, none, .body x .resume, []⟩) := by
  have hframe' : (y.deliver sent).frame = some x := by cases sent <;> exact hframe
  rw [step_enter rfl (World.generator?_replace_self hz y), enter, hd]
  simp only [hf, hs, hp, Bool.false_eq_true, if_false, Bool.not_true, if_true, World.modify_replace]
  rw [resume_replace_self hz hframe']

/-- A yield that no input answers: the generator stays paused. -/
theorem yield_waits (hz : s.world.generator? g = some z) (hinputs : s.inputs = []) :
    Ends (calls m g) (s.view g (.underway depth f args largest pair) (.body x .reported))
      (s.world.replace g (((Generator.underway depth f args largest pair).hold (x.await .sent)).setLock
        false), (s.trace ++ [pair]).map .ofPair, s.count) := by
  refine .next (step_reply rfl (by nofun)) ?_
  simp only [perform, World.modify_replace, List.map_append, List.map_cons, List.map_nil]
  rw [hinputs]
  exact .halt (step_lastCall hz (.ok true))

/-- A yield that the next input answers: the body goes on with the input's value, and the generator is as
it was. -/
theorem yield_goesOn (hz : s.world.generator? g = some z)
    (hinputs : s.inputs = i :: is) (hx : x.frame.awaiting = .nothing) :
    Reaches (calls m g) (s.view g (.underway depth f args largest pair) (.body x .reported)) 5
      (Loop.view g { s with inputs := is, trace := s.trace ++ [pair] }
        (.underway depth f args largest pair) (.body (x.push (i.sent?.getD .null)) .proceed)) := by
  let y := Generator.underway depth f args largest pair
  let s' : Loop := { s with inputs := is, trace := s.trace ++ [pair] }
  have hsuspend : calls m g (s.view g y (.body x .reported)) =
      .next (s.view g (y.hold (x.await .sent)) (.settled (.ok true))) := by
    rw [step_reply rfl (by simp)]
    simp only [perform, World.modify_replace]
    rfl
  have hcall : calls m g (s.view g (y.hold (x.await .sent)) (.settled (.ok true))) =
      .next (s'.view g (y.hold (x.await .sent)) (.enter i.sent?)) := by
    rw [Loop.view, hinputs, step_nextCall hz (.ok true) rfl]
    simp only [Loop.view, s', List.map_append, List.map_cons, List.map_nil]
    rfl
  have henter : calls m g (s'.view g (y.hold (x.await .sent)) (.enter i.sent?)) =
      .next (s'.view g ((y.hold (x.await .sent)).deliver i.sent?).release
        (.body (x.await .sent) .resume)) := by
    exact step_quiet (enter_paused hz rfl rfl rfl rfl rfl i.sent?) (by simp)
  have hwake : calls m g (s'.view g ((y.hold (x.await .sent)).deliver i.sent?).release
        (.body (x.await .sent) .resume)) =
      .next (s'.view g y (.body x (.value (i.sent?.getD .null)))) := by
    have hstep : m.step s'.world.heap s'.world.state (x.await .sent) .resume =
        (s'.world.heap, s'.world.state, .takeSent ((x.await .sent).await .nothing)) := rfl
    rw [await_nothing hx] at hstep
    rw [step_reply hstep (by simp)]
    simp only [perform, World.modify_replace, World.generator?_replace_self (w := s'.world) hz]
    cases i.sent? <;> rfl
  exact .next hsuspend (.next hcall (.next henter (.next hwake (.single (step_push _)))))

/-! ### Walking a table -/

/-- The table has no entry: the body goes on with null. -/
theorem walk_skips (hz : s.world.generator? g = some z) :
    Reaches (calls m g) (s.view g (.underway depth f args largest pair) (.body x .accepted)) 3
      (s.view g (.underway depth f args largest pair) (.body (x.push .null) .proceed)) := by
  let y := Generator.underway depth f args largest pair
  have hask : calls m g (s.view g y (.body x .accepted)) =
      .next (s.view g y (.body x (.delegating false))) := by
    rw [step_reply rfl (by simp)]
    simp only [perform, World.generator?_replace_self hz]
    rfl
  have htake : calls m g (s.view g y (.body x (.delegating false))) =
      .next (s.view g y (.body x (.value .null))) := by
    rw [step_reply rfl (by simp)]
    simp only [perform, World.generator?_replace_self hz, World.modify_replace]
    rfl
  exact .next hask (.next htake (.single (step_push _)))

/-- The table has given its first pair: the generator pauses. -/
theorem walk_pauses (hz : s.world.generator? g = some z) (pair : Value × Value) (t : Table Value)
    (keys : List Key) :
    Reaches (calls m g)
      (s.view g ((Generator.underway depth f args largest pair).beginDelegation (.table t keys)
        pair.1 pair.2) (.body x .accepted)) 2
      (s.view g ((Generator.underway depth f args largest pair).walking t keys
        (x.await .delegationResult)) (.settled (.ok true))) := by
  let y := (Generator.underway depth f args largest pair).beginDelegation (.table t keys) pair.1 pair.2
  have hask : calls m g (s.view g y (.body x .accepted)) =
      .next (s.view g y (.body x (.delegating true))) := by
    rw [step_reply rfl (by simp)]
    simp only [perform, World.generator?_replace_self hz]
    rfl
  have hsuspend : calls m g (s.view g y (.body x (.delegating true))) =
      .next (s.view g (y.hold (x.await .delegationResult)) (.settled (.ok true))) := by
    rw [step_reply rfl (by simp)]
    simp only [perform, World.modify_replace]
    rfl
  exact .next hask (.single hsuspend)

variable {t : Table Value}

/-- The next input makes a generator that walks a table go on. -/
theorem walk_called (hz : s.world.generator? g = some z) (hinputs : s.inputs = i :: is)
    (keys : List Key) :
    calls m g (s.view g ((Generator.underway depth f args largest pair).walking t keys x)
        (.settled (.ok true))) =
      .next (Loop.view g { s with inputs := is, trace := s.trace ++ [pair] }
        ((Generator.underway depth f args largest pair).walking t keys x) (.enter i.sent?)) := by
  rw [Loop.view, hinputs, step_nextCall hz (.ok true) rfl]
  simp only [Loop.view, List.map_append, List.map_cons, List.map_nil]
  rfl

/-- It gives the entry at the next key. -/
theorem walk_enters (hz : s.world.generator? g = some z) {k : Key} {v : Value} {keys : List Key}
    (hv : t.get? k = some v) (sent : Option Value) :
    calls m g (s.view g ((Generator.underway depth f args largest pair).walking t (k :: keys) x)
        (.enter sent)) =
      .next (s.view g ((Generator.underway depth f args largest (k.toValue, v)).walking t keys x)
        (.settled (.ok true))) := by
  refine step_quiet ?_ (by simp)
  rw [step_enter rfl (World.generator?_replace_self hz _), enter]
  simp only [Generator.isFinished, Generator.walking, Bool.false_eq_true, if_false, Delegation.visit,
    hv, advanced, World.modify_replace]
  rfl

/-- After the last key the body goes on with null. -/
theorem walk_leaves (hz : s.world.generator? g = some z) (hx : x.frame.awaiting = .nothing)
    (sent : Option Value) :
    Reaches (calls m g) (s.view g ((Generator.underway depth f args largest pair).walking t []
        (x.await .delegationResult)) (.enter sent)) 3
      (s.view g (.underway depth f args largest pair) (.body (x.push .null) .proceed)) := by
  let y := Generator.underway depth f args largest pair
  let paused := (y.walking t [] (x.await .delegationResult)).endDelegation .null
  have hleave : calls m g (s.view g (y.walking t [] (x.await .delegationResult)) (.enter sent)) =
      .next (s.view g paused.release (.body (x.await .delegationResult) .resume)) := by
    refine step_quiet ?_ (by simp)
    rw [step_enter rfl (World.generator?_replace_self hz _), enter]
    simp only [Generator.isFinished, Generator.walking, Bool.false_eq_true, if_false, Delegation.visit,
      advanced, World.modify_replace]
    exact congrArg _ (resume_replace_self (y := paused) hz rfl)
  have hwake : calls m g (s.view g paused.release (.body (x.await .delegationResult) .resume)) =
      .next (s.view g y (.body x (.value .null))) := by
    have hstep : m.step s.world.heap s.world.state (x.await .delegationResult) .resume =
        (s.world.heap, s.world.state, .takeResult ((x.await .delegationResult).await .nothing)) := rfl
    rw [await_nothing hx] at hstep
    rw [step_reply hstep (by simp)]
    simp only [perform, World.modify_replace, World.generator?_replace_self hz]
    rfl
  exact .next hleave (.next hwake (.single (step_push _)))

/-! ### The loop and the calls side by side -/

/-- What the loop and the calls have in common at their ends. There were `total` calls; those that found no
pair report the last one. -/
structure Faithful (g : GeneratorId) (total : Nat) (q : Loop × Ending)
    (p : World Nat Execution Output × List Report × Nat) : Prop where
  reports : p.2.1 = q.1.trace.map .ofPair ++
    List.replicate (total - q.1.trace.length) ⟨false, q.1.lastPair.1, q.1.lastPair.2⟩
  heap : p.1.heap = q.1.world.heap
  output : p.1.state = q.1.world.state
  others : ∀ g', g' ≠ g → p.1.generator? g' = q.1.world.generator? g'
  count : p.2.2 = q.1.count
  ending : ∃ y, p.1.generator? g = some y ∧ q.2.ShownBy y q.1.execution

/-- The loop is at an instruction, and so are the calls. -/
structure Aligned (depth : Nat) (f : Function) (args : List Value) (g : GeneratorId) (total : Nat)
    (s : Loop) (S : Schedule Nat Execution Output) : Prop where
  view : S = s.view g (.underway depth f args s.largestKey s.lastPair) (.body s.execution .proceed)
  present : ∃ z, s.world.generator? g = some z
  total : s.trace.length + s.inputs.length + 1 = total

/-- The calls do what the loop does next. -/
def Answers (m : Machine) (depth : Nat) (f : Function) (args : List Value) (g : GeneratorId)
    (total : Nat) (S : Schedule Nat Execution Output) : Transition Loop (Loop × Ending) → Prop
  | .next s => ∃ n S', Reaches (calls m g) S n S' ∧ Aligned depth f args g total s S'
  | .halt q => q.2 ≠ .strayed → ∃ p, Ends (calls m g) S p ∧ Faithful g total q p

variable {total : Nat} {S S' : Schedule Nat Execution Output}

theorem Answers.of_reaches {T : Transition Loop (Loop × Ending)} (h : Reaches (calls m g) S n S')
    (hT : Answers m depth f args g total S' T) : Answers m depth f args g total S T := by
  cases T with
  | next s =>
    obtain ⟨k, S₁, hreach, haligned⟩ := hT
    exact ⟨n + k, S₁, h.trans hreach, haligned⟩
  | halt q =>
    intro hq
    obtain ⟨p, hp, hfaithful⟩ := hT hq
    exact ⟨p, h.ends_iff.mpr hp, hfaithful⟩

theorem lastPair_append (s : Loop) (p : Value × Value) :
    Loop.lastPair { s with trace := s.trace ++ [p] } = p := by
  simp [Loop.lastPair]

/-- The calls have run out at a pair: the generator is suspended. -/
theorem faithful_waiting {q : Loop} (hz : q.world.generator? g = some z)
    (htotal : q.trace.length = total) (hin : y.In .suspended) (hframe : y.frame = some x)
    (hsteps : x.steps = q.execution.steps) :
    Faithful g total (q, .waiting) (q.world.replace g y, q.trace.map .ofPair, q.count) where
  reports := by simp [htotal]
  heap := rfl
  output := rfl
  others g' hg := World.generator?_replace_of_ne hg y
  count := rfl
  ending := ⟨y, World.generator?_replace_self hz y, hin, x, hframe, hsteps⟩

/-- A yield. -/
theorem yield_answers {k v : Value} (hz : s.world.generator? g = some z)
    (htotal : s.trace.length + s.inputs.length + 1 = total) (hx : x.frame.awaiting = .nothing) :
    Answers m depth f args g total
      (s.view g (.underway depth f args (Generator.raiseKey s.largestKey k) (k, v))
        (.body x .reported)) (s.yieldPair k v x) := by
  let q : Loop := { s with
    execution := x, trace := s.trace ++ [(k, v)], largestKey := Generator.raiseKey s.largestKey k }
  have hlength : q.trace.length + s.inputs.length = total := by
    rw [List.length_append, List.length_singleton]
    omega
  have hlast : q.lastPair = (k, v) := lastPair_append s (k, v)
  cases hinputs : s.inputs with
  | nil =>
    have hyield : s.yieldPair k v x = .halt (q, .waiting) := by simp only [Loop.yieldPair, hinputs, q]
    rw [hinputs] at hlength
    rw [hyield]
    exact fun _ => ⟨_, yield_waits hz hinputs,
      faithful_waiting (q := q) hz hlength ⟨rfl, rfl, rfl, rfl⟩ rfl rfl⟩
  | cons i is =>
    have hyield : s.yieldPair k v x =
        .next { q with inputs := is, execution := x.push (i.sent?.getD .null) } := by
      simp only [Loop.yieldPair, hinputs, q]
    rw [hinputs] at hlength
    rw [hyield]
    refine ⟨5, _, yield_goesOn hz hinputs hx, ?_, ⟨z, hz⟩, hlength⟩
    have hlast' : Loop.lastPair { q with
        inputs := is, execution := x.push (i.sent?.getD .null) } = (k, v) := hlast
    rw [hlast']
    rfl

/-- The calls have run out while a table is walked. -/
theorem walk_waits (hz : s.world.generator? g = some z) (hinputs : s.inputs = [])
    (htotal : s.trace.length + s.inputs.length + 1 = total) (keys : List Key)
    (ps : List (Value × Value)) :
    Answers m depth f args g total
      (s.view g ((Generator.underway depth f args largest pair).walking t keys
        (x.await .delegationResult)) (.settled (.ok true))) (Loop.walk x (pair :: ps) s) := by
  let q : Loop := { s with execution := x, trace := s.trace ++ [pair] }
  let y := (Generator.underway depth f args largest pair).walking t keys (x.await .delegationResult)
  have hwalk : Loop.walk x (pair :: ps) s = .halt (q, .waiting) := by
    simp only [Loop.walk, hinputs, q]
  have hlength : q.trace.length = total := by
    rw [hinputs] at htotal
    simpa [q] using htotal
  have hlast : calls m g (s.view g y (.settled (.ok true))) =
      .halt (q.world.replace g (y.setLock false), q.trace.map .ofPair, q.count) := by
    rw [Loop.view, hinputs, step_lastCall hz (.ok true), List.map_append]
    rfl
  rw [hwalk]
  intro _
  exact ⟨_, .halt hlast,
    faithful_waiting (q := q) (y := y.setLock false) hz hlength ⟨rfl, rfl, rfl, rfl⟩ rfl rfl⟩

/-- From its first pair on, a table is walked as in the loop. -/
theorem walk_answers {es : List (Key × Value)} (hes : ∀ e ∈ es, t.get? e.1 = some e.2)
    (hz : s.world.generator? g = some z) (htotal : s.trace.length + s.inputs.length + 1 = total)
    (hx : x.frame.awaiting = .nothing) :
    Answers m depth f args g total
      (s.view g ((Generator.underway depth f args s.largestKey pair).walking t (es.map Prod.fst)
        (x.await .delegationResult)) (.settled (.ok true)))
      (Loop.walk x (pair :: es.map fun e => (e.1.toValue, e.2)) s) := by
  induction es generalizing s pair with
  | nil =>
    cases hinputs : s.inputs with
    | nil => exact walk_waits hz hinputs htotal [] []
    | cons i is =>
      let s' : Loop := { s with inputs := is, trace := s.trace ++ [pair] }
      have hwalk : Loop.walk x [pair] s = .next { s' with execution := x.push .null } := by
        simp only [Loop.walk, hinputs, s']
      have hlast : Loop.lastPair { s' with execution := x.push .null } = pair := lastPair_append s pair
      simp only [List.map_nil]
      rw [hwalk]
      refine Answers.of_reaches (.next (walk_called hz hinputs []) (walk_leaves (s := s') hz hx i.sent?)) ?_
      refine ⟨0, _, .refl _, ?_, ⟨z, hz⟩, ?_⟩
      · rw [hlast]
        rfl
      · simp only [hinputs, List.length_cons] at htotal
        simp only [s', List.length_append, List.length_singleton]
        omega
  | cons e es ih =>
    cases hinputs : s.inputs with
    | nil => exact walk_waits hz hinputs htotal _ _
    | cons i is =>
      let s' : Loop := { s with inputs := is, trace := s.trace ++ [pair] }
      have hwalk : Loop.walk x (pair :: (e :: es).map fun e => (e.1.toValue, e.2)) s =
          Loop.walk x ((e.1.toValue, e.2) :: es.map fun e => (e.1.toValue, e.2)) s' := by
        rw [Loop.walk]
        simp only [hinputs]
        rfl
      have htotal' : s'.trace.length + s'.inputs.length + 1 = total := by
        simp only [hinputs, List.length_cons] at htotal
        simp only [s', List.length_append, List.length_singleton]
        omega
      have hvalue := hes e List.mem_cons_self
      rw [hwalk]
      refine Answers.of_reaches (.next (walk_called hz hinputs _)
        (.single (walk_enters (s := s') hz hvalue i.sent?))) ?_
      exact ih (fun e' he' => hes e' (List.mem_cons_of_mem _ he')) (s := s') hz htotal'

/-- The body delegates to a table. -/
theorem delegate_answers {source : Value} (hz : s.world.generator? g = some z)
    (htotal : s.trace.length + s.inputs.length + 1 = total) (hx : x.frame.awaiting = .nothing)
    {id : AllocationId} (ht : s.world.heap.deref source = .array id t) (hcoherent : t.Coherent)
    (focus : Focus Execution) :
    Answers m depth f args g total
      ⟨delegate (s.world.replace g (.underway depth f args s.largestKey s.lastPair))
        ⟨g, none, focus, []⟩ source x, s.inputs, s.trace.map .ofPair, s.count⟩
      (Loop.walk x (t.toList.map fun e => (e.1.toValue, e.2)) s) := by
  have hsource : Delegation.ofValue s.world.heap source = .ok (.table t (t.toList.map Prod.fst)) := by
    simp only [Delegation.ofValue, ht]
    rfl
  have hget : ∀ e ∈ t.toList, t.get? e.1 = some e.2 := fun e he => hcoherent.get?_of_mem he
  rw [delegate, World.replace_heap, hsource]
  cases hentries : t.toList with
  | nil =>
    simp only [List.map_nil, Delegation.visit, delegated, World.modify_replace]
    refine Answers.of_reaches (walk_skips hz) ?_
    exact ⟨0, _, .refl _, rfl, ⟨z, hz⟩, htotal⟩
  | cons e es =>
    rw [hentries] at hget
    simp only [List.map_cons, Delegation.visit, delegated, World.modify_replace,
      hget e List.mem_cons_self, Option.getD_some]
    refine Answers.of_reaches (walk_pauses hz (e.1.toValue, e.2) t _) ?_
    exact walk_answers (fun e' he' => hget e' (List.mem_cons_of_mem _ he')) hz htotal hx

/-- The body has ended, and the generator with it. -/
theorem spent_answers {ending : Ending} {r : Except GeneratorError Bool}
    (hz : s.world.generator? g = some z) (htotal : s.trace.length + s.inputs.length + 1 = total)
    (hr : World.produced r = false) (hs : y.isStarted = true) (hf : y.isFinished = true)
    (hpair : (y.key, y.value) = s.lastPair) (hending : ending.ShownBy (y.setLock false) s.execution) :
    Answers m depth f args g total (s.view g y (.settled r)) (.halt (s, ending)) := by
  intro _
  refine ⟨_, spent_ends hz hs hf hr, ?_, rfl, rfl, ?_, rfl, y.setLock false, ?_, hending⟩
  · have hleft : total - s.trace.length = s.inputs.length + 1 := by omega
    simp only [hleft, ← hpair]
  · exact fun g' hg => World.generator?_replace_of_ne hg _
  · exact World.generator?_replace_self hz _

/-- What an instruction asks for is done in the calls as in the loop. -/
theorem perform_answers {action : Action Nat Execution} (hz : s.world.generator? g = some z)
    (htotal : s.trace.length + s.inputs.length + 1 = total) (hheap : s.world.heap.Sound)
    (ha : action.Sound) (focus : Focus Execution) :
    Answers m depth f args g total
      ⟨perform m.engine (s.world.replace g (.underway depth f args s.largestKey s.lastPair))
        ⟨g, none, focus, []⟩ action, s.inputs, s.trace.map .ofPair, s.count⟩ (s.perform action) := by
  cases action with
  | silent x => exact ⟨0, _, .refl _, rfl, ⟨z, hz⟩, htotal⟩
  | yieldPair k v x =>
    simp only [perform, World.modify_replace]
    exact yield_answers hz htotal ha.frame.awaiting
  | yieldValue v x =>
    simp only [perform, World.modify_replace]
    exact yield_answers (k := .int s.automaticKey) hz htotal ha.frame.awaiting
  | delegate source x =>
    simp only [perform, Loop.perform]
    split
    · next id t ht =>
      have hcoherent : t.Coherent := hheap.deref ha.1 id t ht
      exact delegate_answers hz htotal ha.2.frame.awaiting ht hcoherent focus
    · exact fun h => absurd rfl h
  | create handle f' args' x =>
    simp only [perform, World.create_replace hz]
    let s' : Loop := { s with world := (s.world.create handle f' args').2 }
    have hne : g ≠ s.world.generators.size := by
      rintro rfl
      rw [World.generator?_size] at hz
      cases hz
    have hz' : s'.world.generator? g = some z := by
      rw [World.generator?_create, if_neg hne, hz]
    refine Answers.of_reaches (.single (step_push (s := s') _)) ?_
    exact ⟨0, _, .refl _, rfl, ⟨z, hz'⟩, htotal⟩
  | finish v =>
    let y := Generator.underway depth f args s.largestKey s.lastPair
    have hcomplete : (s.world.replace g y).complete m.engine g v =
        s.world.replace g (y.setReturn v).terminate := World.complete_replace_self hz rfl v
    simp only [perform, hcomplete, y]
    exact spent_answers (y := (y.setReturn v).terminate) hz htotal rfl rfl rfl rfl
      ⟨⟨rfl, rfl, rfl⟩, rfl, rfl⟩
  | fail e =>
    let y := Generator.underway depth f args s.largestKey s.lastPair
    have hfail : (s.world.replace g y).fail m.engine g (.executionFailed e) =
        s.world.replace g (y.terminate.setError (.executionFailed e)) :=
      World.fail_replace_self hz (fun _ _ => rfl) _
    simp only [perform, fail, hfail, y]
    exact spent_answers (y := y.terminate.setError (.executionFailed e)) hz htotal rfl rfl rfl rfl
      ⟨⟨rfl, rfl, rfl⟩, rfl, rfl⟩
  | _ => exact ha.elim

/-- The calls run the same instruction as the loop. -/
theorem step_instruction {heap : Heap} {out : Output} {action : Action Nat Execution}
    (h : m.advance s.world.heap s.world.state s.execution = (heap, out, action)) :
    calls m g (s.view g y (.body s.execution .proceed)) =
      .next ⟨perform m.engine ((s.ran heap out).world.replace g y)
        ⟨g, none, .body s.execution .proceed, []⟩ action, s.inputs, s.trace.map .ofPair,
        (s.ran heap out).count⟩ := by
  have hstep : step m.engine (s.world.replace g y, ⟨g, none, .body s.execution .proceed, []⟩) =
      .next (perform m.engine ((s.ran heap out).world.replace g y)
        ⟨g, none, .body s.execution .proceed, []⟩ action) := step_body rfl h
  rw [Loop.view, calls, Schedule.step_next hstep]
  simp [Machine.runsInstruction, Loop.ran]

/-- The calls simulate the loop, as long as it does not stray. -/
theorem simulates (hm : m.Sound) :
    Simulates (Loop.step m) (calls m g) (Faithful g total) fun s S =>
      Aligned depth f args g total s S ∧ s.Sound ∧ ∀ q, ¬ Ends (Loop.step m) s (q, .strayed) := by
  rintro s S ⟨⟨rfl, ⟨z, hz⟩, htotal⟩, hsound, hstraight⟩
  rcases hadvance : m.advance s.world.heap s.world.state s.execution with ⟨heap, out, action⟩
  obtain ⟨hcells, haction⟩ := hm.advance hsound.execution s.world.heap s.world.state
  rw [hadvance] at hcells haction
  have hheap : (s.ran heap out).world.heap.Sound := fun v hv => hsound.heap v (hcells ▸ hv)
  have hloop : s.step m = (s.ran heap out).perform action := by simp only [Loop.step, hadvance]
  have hfirst := step_instruction (g := g)
    (y := .underway depth f args s.largestKey s.lastPair) hadvance
  have hanswers : Answers m depth f args g total _ ((s.ran heap out).perform action) :=
    perform_answers (s := s.ran heap out) hz htotal hheap haction (.body s.execution .proceed)
  rw [← hloop] at hanswers
  constructor
  · intro s' hs'
    rw [hs'] at hanswers
    obtain ⟨n, S', hreach, haligned⟩ := hanswers
    refine ⟨n, S', .next hfirst hreach, haligned, hsound.step hm hs', ?_⟩
    exact fun q hq => hstraight q (.next hs' hq)
  · intro q hq
    rw [hq] at hanswers
    obtain ⟨p, hp, hfaithful⟩ := hanswers fun hstrayed =>
      hstraight q.1 (.halt (by rw [hq, ← hstrayed]))
    exact ⟨p, .next hfirst hp, hfaithful⟩

end Fidelity

open Fidelity in
/-- Suspending and resuming changes nothing. The calls on a fresh generator of the machine, the first
without a value and the others with or without one, return just when the uninterrupted loop ends that
starts with the same body, arguments and inputs, provided that the loop delegates to tables only. Then both
give the same pairs, leave the same heap, output and generators, end in the same way and run the same number
of instructions. The tables in the program and its inputs are coherent, as all operations leave them. -/
theorem suspension_faithful {m : Machine} {w : World Nat Execution Output} {g : GeneratorId}
    {depth : Nat} {f : Function} {args : List Value} {is : List Input} (hm : m.Sound) (hf : f.Sound)
    (hargs : ∀ v ∈ args, v.Sound) (hheap : w.heap.Sound)
    (his : ∀ i ∈ is, ∀ v, i.sent? = some v → v.Sound)
    (hg : w.generator? g = some (.fresh depth f args))
    (hstraight : ∀ q, ¬ Ends (Loop.step m) (.start w depth f args is) (q, .strayed)) :
    (∀ rs w', w.Called m.engine g (.next :: is) rs w' →
      ∃ n q, w.Counted m.engine (Machine.runsInstruction g) g .next is rs n w' ∧
        Ends (Loop.step m) (.start w depth f args is) q ∧ Faithful g (is.length + 1) q (w', rs, n)) ∧
      ∀ q, Ends (Loop.step m) (.start w depth f args is) q →
        ∃ rs n w', w.Called m.engine g (.next :: is) rs w' ∧
          w.Counted m.engine (Machine.runsInstruction g) g .next is rs n w' ∧
          Faithful g (is.length + 1) q (w', rs, n) := by
  let x : Generator Nat Execution := .fresh depth f args
  let s₀ : Drive.State Nat Execution Output :=
    (w.replace g (x.setLock true), ⟨g, none, .enter none, []⟩)
  have hopen : w.open? g .next = some s₀ := by
    rw [World.open_eq hg rfl]
    conv => lhs; rw [← World.replace_eq_self hg, World.lock, World.modify_replace]
    rfl
  -- The first step enters the body; from there the calls simulate the loop.
  have hstart : calls m g ⟨s₀, is, [], 0⟩ = .next (Loop.view g (.start w depth f args is)
      (.underway depth f args none (.null, .null)) (.body (Machine.execution depth f args) .proceed)) := by
    have henter : Drive.step m.engine s₀ = .next (w.replace g (x.setLock true).begin,
        ⟨g, none, .body (Machine.execution depth f args) .proceed, []⟩) := by
      rw [Drive.step_enter rfl (World.generator?_replace_self hg _), ← World.modify_replace]
      rfl
    exact Schedule.step_next henter
  have haligned : Aligned depth f args g (is.length + 1) (.start w depth f args is) _ :=
    ⟨rfl, ⟨x, hg⟩, by simp [Loop.start]⟩
  have hsound : (Loop.start w depth f args is).Sound :=
    ⟨fun frame hframe => List.mem_singleton.mp hframe ▸ Frame.sound_ofCall hf hargs, hheap, his⟩
  have halike := (simulates hm).endAlike ⟨haligned, hsound, hstraight⟩
  constructor
  · intro rs w' hcalled
    obtain ⟨n, hends⟩ := Schedule.ends_of_called (Machine.runsInstruction g) hcalled hopen [] 0
    obtain ⟨q, hq, hfaithful⟩ := halike.back _ (hends.of_next hstart)
    exact ⟨n, q, ⟨s₀, hopen, hends⟩, hq, hfaithful⟩
  · intro q hq
    obtain ⟨⟨w', rs, n⟩, hp, hfaithful⟩ := halike.there _ hq
    have hends : Ends (calls m g) ⟨s₀, is, [], 0⟩ (w', rs, n) := .next hstart hp
    exact ⟨rs, n, w', Schedule.called_of_ends hopen hends, ⟨s₀, hopen, hends⟩, hfaithful⟩

open Fidelity in
/-- A body that yields, echoes what it is sent, walks a table and returns. -/
theorem suspension_faithful_of_echoer :
    ∃ (m : Machine) (w : World Nat Execution Output) (f : Function) (q : Loop) (v : Value)
      (rs : List Report) (n : Nat) (w' : World Nat Execution Output),
      Ends (Loop.step m) (.start w 0 f [] [.send (.text "a"), .next]) (q, .returned v) ∧
        q.trace.length = 2 ∧ q.world.state.text = "a" ∧
        w.Called m.engine 0 [.next, .send (.text "a"), .next] rs w' ∧
        Faithful 0 3 (q, .returned v) (w', rs, n) := by
  let m : Machine := ⟨.empty, .standard⟩
  let f : Function := ⟨"echoer", 0, 0, #[.const (.int 1), .yield, .echo, .newArray, .const (.int 7),
    .arrayPush, .yieldFrom, .ret]⟩
  let w : World Nat Execution Output := ⟨.empty, .captured "", #[.fresh 0 f []]⟩
  let s := Loop.start w 0 f [] [.send (.text "a"), .next]
  have hrun : ((run (Loop.step m) 20 s).any fun q => match q.2 with
      | .returned _ => q.1.trace.length == 2 && q.1.world.state.text == "a"
      | _ => false) = true := by decide +kernel
  obtain ⟨⟨q, ending⟩, hq, hending⟩ := (Option.any_eq_true ..).mp hrun
  cases ending with
  | returned v =>
    simp only [Bool.and_eq_true, beq_iff_eq] at hending
    have hends := ends_of_run hq
    have hplain : ∀ v ∈ f.constants, v.asTable? = none := by decide +kernel
    have hm : m.Sound := by
      intro id f hf
      simp [m, Registry.get?, Registry.empty] at hf
    have hargs : ∀ v ∈ ([] : List Value), v.Sound := nofun
    have hheap : w.heap.Sound := by
      intro v hv
      simp [w, Heap.empty] at hv
    have hinputs : ∀ i ∈ s.inputs, ∀ v, i.sent? = some v → v.asTable? = none := by
      rintro i hi v hv
      rcases List.mem_cons.mp hi with rfl | hi
      · exact Option.some.inj hv ▸ rfl
      · obtain rfl := List.mem_singleton.mp hi
        cases hv
    have hstraight : ∀ q', ¬ Ends (Loop.step m) s (q', .strayed) := by
      intro q' hq'
      cases hends.unique hq'
    obtain ⟨rs, n, w', hcalled, -, hfaithful⟩ := (suspension_faithful (g := 0) hm
      (fun v hv => .of_plain (hplain v hv)) hargs hheap
      (fun i hi v hv => .of_plain (hinputs i hi v hv)) rfl hstraight).2 _ hends
    exact ⟨m, w, f, q, v, rs, n, w', hends, hending.1, hending.2, hcalled, hfaithful⟩
  | _ => cases hending

end YieldMachine
