import Mathlib.Logic.Relation
import YieldMachine.Proofs.Calls
import YieldMachine.Proofs.Likeness.Drive
import YieldMachine.World.Reclaim

/-!
What an operation can come to. The generators that a generator and the values sent to it lead to are the footprint of
its driver. In a world where every name is one of the world and no constant leads to a generator, the generators of a
footprint stand for themselves: the world is alike to itself by them alone (`World.Closed.alike`). So whatever stands
outside the footprint, operations give the same answers and the worlds develop in parallel (`World.operate_alike`).
-/

namespace YieldMachine

/-! ### Requests -/

/-- What its driver does with a generator. -/
inductive Request where
  | next
  | tryNext
  | send (v : Value)
  | trySend (v : Value)
  | close

namespace Request

def on (g : GeneratorId) : Request → Operation Nat Output
  | .next => .next g
  | .tryNext => .tryNext g
  | .send v => .send g v
  | .trySend v => .trySend g v
  | .close => .close g

/-- The value that is sent, if there is one. -/
def sent : Request → List Value
  | .send v | .trySend v => [v]
  | _ => []

inductive Alike (K : Correspondence) : Request → Request → Prop where
  | next : Alike K .next .next
  | tryNext : Alike K .tryNext .tryNext
  | send {v v' : Value} (hv : v.Alike K v') : Alike K (.send v) (.send v')
  | trySend {v v' : Value} (hv : v.Alike K v') : Alike K (.trySend v) (.trySend v')
  | close : Alike K .close .close

theorem Alike.mono {K K' : Correspondence} {r r' : Request} (hK : K.GrowsTo K') (h : r.Alike K r') :
    r.Alike K' r' := by
  cases h with
  | next => exact .next
  | tryNext => exact .tryNext
  | send hv => exact .send (hv.mono hK)
  | trySend hv => exact .trySend (hv.mono hK)
  | close => exact .close

theorem alike_self {K : Correspondence} {r : Request} (h : ∀ v ∈ r.sent, v.Alike K v) : r.Alike K r := by
  cases r with
  | next => exact .next
  | tryNext => exact .tryNext
  | send v => exact .send (h v List.mem_cons_self)
  | trySend v => exact .trySend (h v List.mem_cons_self)
  | close => exact .close

end Request

namespace World

variable {m : Machine} {K : Correspondence} {w w' : World Nat Execution Output} {g g' : GeneratorId}

theorem advance_alike (hm : m.Inert K) (h : w.Alike K w') (hg : K.generator g g') {i i' : Input}
    (hi : Option.Rel (Value.Alike K) i.sent? i'.sent?) (fuel : Nat) :
    Option.Rel (fun q q' => q.2 = q'.2 ∧ ∃ K', Parallel K w w' K' q.1 q'.1)
      (w.advance m.engine fuel g i) (w'.advance m.engine fuel g' i') := by
  obtain ⟨x, x', hx, hx', hxx'⟩ := h.generators hg
  simp only [advance, open?, hx, hx', hxx'.locked]
  split
  · exact .none
  · have hlocked := Parallel.modify h hg fun hy => hy.setLock true
    refine optionRel_imp (Drive.run_alike hm hlocked.alike (Drive.turnTo_alike hxx' hg hi .nil) fuel) ?_
    rintro q q' - ⟨heq, K', hK'⟩
    exact ⟨heq, K', hlocked.trans hK'⟩

theorem close_alike (h : w.Alike K w') (hg : K.generator g g') :
    Parallel K w w' K (w.close m.engine g) (w'.close m.engine g') := by
  obtain ⟨x, x', hx, hx', hxx'⟩ := h.generators hg
  simp only [close, hx, hx', hxx'.isFinished, finish_machine]
  split
  · exact .refl h
  · exact .modify h hg fun hy => hy.terminate

/-- Alike requests get the same answer, and leave worlds that are alike again. -/
theorem operate_alike (hm : m.Inert K) (h : w.Alike K w') (hg : K.generator g g') {r r' : Request}
    (hr : r.Alike K r') (fuel : Nat) :
    Option.Rel (fun p p' => p.1 = p'.1 ∧ ∃ K', Parallel K w w' K' p.2 p'.2)
      (w.operate m.engine fuel (r.on g)) (w'.operate m.engine fuel (r'.on g')) := by
  have hmap (i i' : Input) (hi : Option.Rel (Value.Alike K) i.sent? i'.sent?)
      (f : Except GeneratorError Bool → Answer) :
      Option.Rel (fun p p' => p.1 = p'.1 ∧ ∃ K', Parallel K w w' K' p.2 p'.2)
        ((w.advance m.engine fuel g i).map fun q => (f q.2, q.1))
        ((w'.advance m.engine fuel g' i').map fun q => (f q.2, q.1)) := by
    have hadvance := advance_alike hm h hg hi fuel
    generalize w.advance m.engine fuel g i = q, w'.advance m.engine fuel g' i' = q' at hadvance
    cases hadvance with
    | none => exact .none
    | some hq => exact .some ⟨congrArg f hq.1, hq.2⟩
  cases hr with
  | next => exact hmap .next .next .none fun r => .moved (produced r)
  | tryNext => exact hmap .next .next .none Answer.tried
  | send hv => exact hmap (.send _) (.send _) (.some hv) fun r => .moved (produced r)
  | trySend hv => exact hmap (.send _) (.send _) (.some hv) Answer.tried
  | close => exact .some ⟨rfl, K, close_alike h hg⟩

end World

/-! ### Footprints -/

/-- What one gets to from name to name. -/
def Handle.Reaches (names : Handle → List Handle) : Handle → Handle → Prop :=
  Relation.ReflTransGen fun h h' => h' ∈ names h

/-- One does not get out of a list that has what its members name. -/
theorem Handle.Reaches.mem {names : Handle → List Handle} {l : List Handle} {h h' : Handle}
    (hl : ∀ i ∈ l, ∀ j ∈ names i, j ∈ l) (hh : Reaches names h h') (hmem : h ∈ l) : h' ∈ l := by
  induction hh with
  | refl => exact hmem
  | tail _ hnamed ih => exact hl _ ih _ hnamed

namespace World

/-- A generator leads to what it holds, and a cell to what is in it. -/
def Leads (m : Machine) (w : World Nat Execution Output) : Handle → Handle → Prop :=
  Handle.Reaches (w.namedBy m.engine)

/-- The generators that a generator, or a value sent to it, leads to. -/
def Footprint (m : Machine) (w : World Nat Execution Output) (g : GeneratorId) (sent : List Value)
    (g' : GeneratorId) : Prop :=
  ∃ h ∈ Handle.generator g :: sent.flatMap Value.handles, w.Leads m h (.generator g')

/-- The functions that there are: those of the machine, of the generators and of their held frames. -/
inductive Uses (m : Machine) (w : World Nat Execution Output) : Function → Prop where
  | machine {id : FunctionId} {f : Function} (h : m.registry.get? id = some f) : Uses m w f
  | generator {g : GeneratorId} {x : Generator Nat Execution} (h : w.generator? g = some x) : Uses m w x.function
  | frame {g : GeneratorId} {x : Generator Nat Execution} {y : Execution} {z : Frame}
      (h : w.generator? g = some x) (hy : x.frame = some y) (hz : z ∈ y.frame :: y.callers) :
      Uses m w z.function

/-- No constant of a function leads to a generator. -/
def Innocent (m : Machine) (w : World Nat Execution Output) : Prop :=
  ∀ f, w.Uses m f → ∀ v ∈ f.constants, ∀ h ∈ v.handles, ∀ g, ¬ w.Leads m h (.generator g)

/-- What there is in the world stands for itself. -/
def names (w : World Nat Execution Output) : Correspondence where
  generator g g' := g = g' ∧ g < w.generators.size
  allocation i i' := i = i' ∧ i < w.heap.nextAllocation
  cell c c' := c = c'
  generator_iff h h' := by rw [h.1, h'.1]
  allocation_iff h h' := by rw [h.1, h'.1]
  cell_iff h h' := by rw [h, h']

/-- Of the generators only those of `P` stand for themselves, and of the cells those that lead to no other ones. -/
def share (m : Machine) (w : World Nat Execution Output) (P : GeneratorId → Prop) : Correspondence where
  generator g g' := g = g' ∧ g < w.generators.size ∧ P g
  allocation i i' := i = i' ∧ i < w.heap.nextAllocation
  cell c c' := c = c' ∧ ∀ g, w.Leads m (.cell c) (.generator g) → P g
  generator_iff h h' := by rw [h.1, h'.1]
  allocation_iff h h' := by rw [h.1, h'.1]
  cell_iff h h' := by rw [h.1, h'.1]

/-- Every name in the world is one of the world. -/
structure Closed (m : Machine) (w : World Nat Execution Output) : Prop where
  machine : m.Inert w.names
  world : w.Alike w.names w

section Closed

variable {m : Machine} {w : World Nat Execution Output} {P : GeneratorId → Prop} {v v' : Value}

theorem share_value (h : v.Alike w.names v') (hP : ∀ i ∈ v.handles, ∀ g, w.Leads m i (.generator g) → P g) :
    v.Alike (w.share m P) v' :=
  h.imp (fun g _ hi hg => ⟨hg.1, hg.2, hP _ hi g .refl⟩) (fun _ _ hi hc => ⟨hc, hP _ hi⟩) fun _ _ => id

theorem Innocent.inert (h : w.Innocent m) {f : Function} (huses : w.Uses m f)
    (hf : f.Inert w.names) : f.Inert (w.share m P) :=
  fun v hv => share_value (hf v hv) fun i hi g hl => absurd hl (h f huses v hv i hi g)

/-- Generators that lead to no others stand for themselves. -/
theorem Closed.alike (h : w.Closed m) (hinnocent : w.Innocent m)
    (hP : ∀ g g', P g → w.Leads m (.generator g) (.generator g') → P g') : w.Alike (w.share m P) w := by
  refine ⟨⟨?_, h.world.heap.allocations⟩, ?_⟩
  · rintro c c' ⟨rfl, hc⟩
    exact share_value (h.world.heap.cells rfl) fun i hi g hl => hc g (.head hi hl)
  · rintro g g' ⟨rfl, hlt, hg⟩
    obtain ⟨x, x', hx, hx', hxx'⟩ := h.world.generators ⟨rfl, hlt⟩
    refine ⟨x, x', hx, hx', hxx'.imp (hinnocent.inert (.generator hx))
      (fun y hy z hz => hinnocent.inert (.frame hx hy hz)) fun v v' hsub hv => ?_⟩
    refine share_value hv fun i hi g' hl => hP g g' hg (.head ?_ hl)
    rw [namedBy, hx]
    exact hsub hi

theorem Closed.inert (h : w.Closed m) (hinnocent : w.Innocent m) : m.Inert (w.share m P) :=
  fun id f hf => hinnocent.inert (.machine hf) (h.machine id f hf)

theorem Footprint.closed {g : GeneratorId} {sent : List Value} (a b : GeneratorId)
    (ha : w.Footprint m g sent a) (hl : w.Leads m (.generator a) (.generator b)) : w.Footprint m g sent b := by
  obtain ⟨i, hi, ha⟩ := ha
  exact ⟨i, hi, ha.trans hl⟩

theorem Footprint.self {g : GeneratorId} {sent : List Value} : w.Footprint m g sent g :=
  ⟨_, List.mem_cons_self, .refl⟩

theorem Footprint.value {g : GeneratorId} {sent : List Value} (hv : v ∈ sent)
    (h : v.Alike w.names v') : v.Alike (w.share m (w.Footprint m g sent)) v' :=
  share_value h fun i hi _ hl => ⟨i, List.mem_cons_of_mem _ (List.mem_flatMap.mpr ⟨v, hv, hi⟩), hl⟩

/-- What is new is in the world, too. -/
theorem Closed.parallel (h : w.Closed m) {K : Correspondence} {u : World Nat Execution Output}
    (hK : Parallel w.names w w K u u) : u.Closed m := by
  have hsame : K = u.names := by
    ext a a'
    · exact (hK.generator a a').trans (Correspondence.shifted_same hK.left.size)
    · exact (hK.allocation a a').trans (Correspondence.shifted_same hK.left.allocation)
    · rw [hK.cell]
      rfl
  rw [hsame] at hK
  exact ⟨h.machine.mono hK.grows, hK.alike⟩

/-- Requests keep to the names of the world. -/
theorem Closed.operate (h : w.Closed m) {g : GeneratorId} (hg : g < w.generators.size) {r : Request}
    (hr : ∀ v ∈ r.sent, v.Alike w.names v) {fuel : Nat} {answer : Answer}
    {u : World Nat Execution Output} (ho : w.operate m.engine fuel (r.on g) = some (answer, u)) : u.Closed m := by
  have hself : w.names.generator g g := ⟨rfl, hg⟩
  have hrel := operate_alike h.machine h.world hself (Request.alike_self hr) fuel
  rw [ho] at hrel
  cases hrel with
  | some hp =>
    obtain ⟨-, K, hK⟩ := hp
    exact h.parallel hK

end Closed

end World

end YieldMachine
