import YieldMachine.Proofs.Calls
import YieldMachine.Proofs.Machine.Soundness

/-!
The instruction loop without interruption: a yield notes its pair down and takes the next input at once,
instead of suspending, and a delegation to a table notes all entries. Nothing is saved or restored on the
way.
-/

namespace YieldMachine

/-- How an uninterrupted run ends. -/
inductive Ending where
  /-- The inputs have run out at a yield. -/
  | waiting
  | returned (v : Value)
  | failed (e : BodyError)
  /-- The body delegates to something other than a table. -/
  | strayed

/-- The state of the loop: what it has noted so far and the inputs that are still to come. -/
structure Loop where
  world : World Nat Execution Output
  execution : Execution
  largestKey : Option Int64
  inputs : List Input
  trace : List (Value × Value)
  /-- Instructions run so far. -/
  count : Nat

namespace Loop

/-- The body of a function from its start. -/
def start (w : World Nat Execution Output) (depth : Nat) (f : Function) (arguments : List Value)
    (inputs : List Input) : Loop :=
  ⟨w, Machine.execution depth f arguments, none, inputs, [], 0⟩

def automaticKey (s : Loop) : Int64 :=
  match s.largestKey with
  | none => 0
  | some n => if saturatingSucc n < 0 then 0 else saturatingSucc n

/-- Notes the pairs one by one, each at the cost of one input whose value is ignored, and goes on with
null. -/
def walk (x : Execution) : List (Value × Value) → Loop → Transition Loop (Loop × Ending)
  | [], s => .next { s with execution := x.push .null }
  | p :: ps, s =>
    match s.inputs with
    | [] => .halt ({ s with execution := x, trace := s.trace ++ [p] }, .waiting)
    | _ :: is => walk x ps { s with trace := s.trace ++ [p], inputs := is }

/-- Notes the pair of a yield and goes on with the value of the next input. -/
def yieldPair (s : Loop) (k v : Value) (x : Execution) : Transition Loop (Loop × Ending) :=
  let s := { s with
    execution := x, trace := s.trace ++ [(k, v)], largestKey := Generator.raiseKey s.largestKey k }
  match s.inputs with
  | [] => .halt (s, .waiting)
  | i :: is => .next { s with inputs := is, execution := x.push (i.sent?.getD .null) }

/-- Carries out what an instruction asks for. -/
def perform (s : Loop) : Action Nat Execution → Transition Loop (Loop × Ending)
  | .silent x => .next { s with execution := x }
  | .yieldPair k v x => s.yieldPair k v x
  | .yieldValue v x => s.yieldPair (.int s.automaticKey) v x
  | .delegate source x =>
    match s.world.heap.deref source with
    | .array _ t => walk x (t.toList.map fun e => (e.1.toValue, e.2)) s
    | _ => .halt (s, .strayed)
  | .create depth f arguments x =>
    let (g, w) := s.world.create depth f arguments
    .next { s with world := w, execution := x.push (.generator g) }
  | .finish v => .halt (s, .returned v)
  | .fail e => .halt (s, .failed e)
  -- No instruction asks for anything else.
  | _ => .halt (s, .strayed)

/-- The next instruction has been run. -/
def ran (s : Loop) (heap : Heap) (out : Output) : Loop :=
  { s with
    world := { s.world with heap := heap, state := out }
    count := s.count + if s.execution.frame.instruction?.isSome then 1 else 0 }

def step (m : Machine) (s : Loop) : Transition Loop (Loop × Ending) :=
  let (heap, out, action) := m.advance s.world.heap s.world.state s.execution
  (s.ran heap out).perform action

/-- The tables at hand are coherent, and no frame awaits anything. -/
structure Sound (s : Loop) : Prop where
  execution : s.execution.Sound
  heap : s.world.heap.Sound
  inputs : ∀ i ∈ s.inputs, ∀ v, i.sent? = some v → v.Sound

variable {m : Machine} {s s' : Loop} {x : Execution}

theorem Sound.walk (hs : s.Sound) (hx : x.Sound) {ps : List (Value × Value)}
    (h : walk x ps s = .next s') : s'.Sound := by
  induction ps generalizing s with
  | nil =>
    obtain rfl := Transition.next.inj h
    exact ⟨hx.push Value.sound_null, hs.heap, hs.inputs⟩
  | cons p ps ih =>
    rw [Loop.walk] at h
    split at h
    · cases h
    · next i is hi =>
      have hrest : Sound { s with trace := s.trace ++ [p], inputs := is } :=
        ⟨hs.execution, hs.heap, fun j hj => hs.inputs j (hi ▸ List.mem_cons_of_mem _ hj)⟩
      exact ih hrest h

theorem Sound.yieldPair (hs : s.Sound) (hx : x.Sound) {k v : Value}
    (h : s.yieldPair k v x = .next s') : s'.Sound := by
  rw [Loop.yieldPair] at h
  simp only at h
  split at h
  · cases h
  · next i is hi =>
    obtain rfl := Transition.next.inj h
    refine ⟨hx.push ?_, hs.heap, fun j hj => hs.inputs j (hi ▸ List.mem_cons_of_mem _ hj)⟩
    cases hsent : i.sent? with
    | none => exact Value.sound_null
    | some u => exact hs.inputs i (hi ▸ List.mem_cons_self) u hsent

theorem Sound.perform (hs : s.Sound) {action : Action Nat Execution} (ha : action.Sound)
    (h : s.perform action = .next s') : s'.Sound := by
  cases action with
  | silent x =>
    obtain rfl := Transition.next.inj h
    exact ⟨ha, hs.heap, hs.inputs⟩
  | yieldPair k v x => exact hs.yieldPair ha h
  | yieldValue v x => exact hs.yieldPair ha h
  | delegate source x =>
    simp only [Loop.perform] at h
    split at h
    · exact hs.walk ha.2 h
    · cases h
  | create depth f args x =>
    obtain rfl := Transition.next.inj h
    exact ⟨ha.push (.of_plain rfl), hs.heap, hs.inputs⟩
  | _ => cases h

theorem Sound.step (hm : m.Sound) (hs : s.Sound) (h : s.step m = .next s') : s'.Sound := by
  obtain ⟨hcells, haction⟩ := hm.advance hs.execution s.world.heap s.world.state
  have hran (out : Output) : (s.ran (m.advance s.world.heap s.world.state s.execution).1 out).Sound :=
    ⟨hs.execution, fun v hv => hs.heap v (hcells ▸ hv), hs.inputs⟩
  exact (hran _).perform haction h

end Loop

end YieldMachine
