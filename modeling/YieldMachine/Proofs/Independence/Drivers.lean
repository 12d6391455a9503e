import YieldMachine.Proofs.Independence.Exchange

/-!
Independent drivers. Where no generator is within the reach of two drivers, none of them finds out about the others:
two turns may change places, and in whatever order the drivers take their turns each gets what it gets alone
(`independent_drivers`). Within reach is also what a finished generator returned and what a driver sends: the reach of
arguments, frames, sources and pairs does not suffice (`results_and_sent_values_lead`).
-/

namespace YieldMachine

namespace World

/-- The drivers of `gs` hold values that name only what there is, and the generators lead, with what their drivers
hold, to different ones. -/
structure Independent (m : Machine) (w : World Nat Execution Output) (gs : List GeneratorId)
    (hand : GeneratorId → List Value) : Prop where
  present : ∀ g ∈ gs, g < w.generators.size
  known : ∀ g ∈ gs, ∀ v ∈ hand g, v.Alike w.names v
  apart : ∀ g ∈ gs, ∀ g' ∈ gs, g ≠ g' → ∀ a, w.Footprint m g (hand g) a → ¬ w.Footprint m g' (hand g') a

variable {m : Machine} {w : World Nat Execution Output} {gs : List GeneratorId} {hand : GeneratorId → List Value}
  {π : GeneratorId → Policy} {g : GeneratorId} {r : Request}

/-- Drivers are independent if there are lists of what they get to that have no member in common. -/
theorem independent_of_lists (reach : GeneratorId → List Handle) (hpresent : ∀ g ∈ gs, g < w.generators.size)
    (hknown : ∀ g ∈ gs, ∀ v ∈ hand g, v.Alike w.names v)
    (hroots : ∀ g ∈ gs, ∀ i ∈ Handle.generator g :: (hand g).flatMap Value.handles, i ∈ reach g)
    (hreach : ∀ g ∈ gs, ∀ i ∈ reach g, ∀ j ∈ w.namedBy m.engine i, j ∈ reach g)
    (hapart : ∀ g ∈ gs, ∀ g' ∈ gs, g ≠ g' → ∀ i ∈ reach g, i ∉ reach g') : w.Independent m gs hand := by
  have hmem : ∀ g ∈ gs, ∀ a, w.Footprint m g (hand g) a → Handle.generator a ∈ reach g := by
    rintro g hg a ⟨i, hi, hl⟩
    exact hl.mem (hreach g hg) (hroots g hg i hi)
  exact ⟨hpresent, hknown, fun g hg g' hg' hne a ha ha' =>
    hapart g hg g' hg' hne _ (hmem g hg a ha) (hmem g' hg' a ha')⟩

theorem Independent.holds (h : w.Independent m gs hand) (hclosed : w.Closed m) (hinnocent : w.Innocent m)
    (hg : g ∈ gs) (hr : r.sent ⊆ hand g) : Holds m (w.Footprint m g (hand g)) w g r where
  inert := hclosed.inert hinnocent
  alike := hclosed.alike hinnocent Footprint.closed
  own := ⟨rfl, h.present g hg, Footprint.self⟩
  request := Request.alike_self fun v hv => Footprint.value (hr hv) (h.known g hg v (hr hv))

/-- Alone, each driver starts from the world itself. -/
theorem Independent.drivers (h : w.Independent m gs hand) (hclosed : w.Closed m) (hinnocent : w.Innocent m)
    (hπ : ∀ g ∈ gs, (π g).Uniform (w.share m (w.Footprint m g (hand g)))) :
    Apart m π gs (fun g => ⟨w.share m (w.Footprint m g (hand g)), w, []⟩) w fun _ => [] where
  beside g hg := by
    have hholds := h.holds (r := .next) hclosed hinnocent hg (List.nil_subset _)
    exact ⟨hholds.inert, hπ g hg, hholds.alike, hholds.own, .nil⟩
  apart g hg g' hg' hne := by
    rintro a a' b ⟨rfl, -, ha⟩ ⟨rfl, -, ha'⟩
    exact h.apart g hg g' hg' hne _ ha ha'

theorem Extends.keeps {P : GeneratorId → Prop} {K : Correspondence} (h : Extends (w.share m P) w w K) : K.Keeps w where
  generator hg := (h.generator hg).imp_left And.left
  allocation hi := (h.allocation hi).imp_left And.left
  cell hc := by
    rw [h.cell] at hc
    exact hc.1

end World

/-- Drivers of independent generators do not interfere. Two turns may change places: they get the same answers, lead
to the same generators up to the names of new ones, and only what they print changes places too. A turn leaves a world
in which every name is one of that world again. In whatever order the drivers take their turns, each gets what it gets
alone. -/
theorem independent_drivers {m : Machine} {w : World Nat Execution Output} {gs : List GeneratorId}
    {hand : GeneratorId → List Value} (hclosed : w.Closed m) (hinnocent : w.Innocent m)
    (h : w.Independent m gs hand) (fuel : Nat) :
    (∀ g ∈ gs, ∀ g' ∈ gs, g ≠ g' → ∀ r r' : Request, r.sent ⊆ hand g → r'.sent ⊆ hand g' →
      Option.Rel (w.Swapped m fuel g r g' r') (w.inTurn m fuel g r g' r') (w.inTurn m fuel g' r' g r)) ∧
    (∀ g ∈ gs, ∀ r : Request, r.sent ⊆ hand g → ∀ answer u,
      w.operate m.engine fuel (r.on g) = some (answer, u) → u.Closed m) ∧
    ∀ (π : GeneratorId → Policy) (order : List GeneratorId), order ⊆ gs →
      (∀ g ∈ gs, (π g).Uniform (w.share m (w.Footprint m g (hand g)))) →
      (w.serve m fuel π (fun _ => []) order = none →
        ∃ g ∈ gs, w.alone m fuel (π g) g [] (order.count g) = none) ∧
      ∀ p, w.serve m fuel π (fun _ => []) order = some p → ∀ g ∈ gs, ∃ q K,
        w.alone m fuel (π g) g [] (order.count g) = some q ∧ K.Keeps w ∧
          List.Forall₂ (Receipt.Alike K) q.1 (p.1 g) := by
  refine ⟨fun g hg g' hg' hne r r' hr hr' => ?_, fun g hg r hr answer u ho => ?_, fun π order horder hπ => ?_⟩
  · exact World.exchange hclosed (h.holds hclosed hinnocent hg hr) (h.holds hclosed hinnocent hg' hr')
      (h.apart g hg g' hg' hne)
  · exact hclosed.operate (h.present g hg) (fun v hv => h.known g hg v (hr hv)) ho
  · obtain ⟨hnone, hsome⟩ := (h.drivers hclosed hinnocent hπ).serve horder fuel
    refine ⟨hnone, fun p hp g hg => ?_⟩
    obtain ⟨q, K, hq, hextends, hlog⟩ := hsome p hp g hg
    exact ⟨q, K, hq, hextends.keeps, hlog⟩

/-! ### Paths that cross -/

namespace Crossing

def counter : Function := ⟨"counter", 0, 0, #[.const (.int 1), .yield, .pop, .const (.int 2), .yield, .ret]⟩

/-- Returns what is sent to it. -/
def keeper : Function := ⟨"keeper", 0, 0, #[.const .null, .yield, .ret]⟩

/-- Delegates to its argument, and then to what that returned. -/
def fetcher : Function := ⟨"fetcher", 1, 0, #[.loadArg 0, .yieldFrom, .yieldFrom, .ret]⟩

def forwarder : Function := ⟨"forwarder", 1, 0, #[.loadArg 0, .yieldFrom, .ret]⟩

/-- Delegates to what is sent to it. -/
def taker : Function := ⟨"taker", 0, 0, #[.const .null, .yield, .yieldFrom, .ret]⟩

def machine : Machine := ⟨.empty, .standard⟩

/-- The keeper has returned a counter, to which the forwarder delegates, and the fetcher delegates to the keeper. -/
def world : World Nat Execution Output := ⟨.empty, .captured "",
  #[(((Generator.fresh 0 keeper []).yieldValue .null).setReturn (.generator 1)).terminate, .fresh 0 counter [],
    .fresh 0 fetcher [.generator 0], .fresh 0 forwarder [.generator 1], .fresh 0 taker [], .fresh 0 counter []]⟩

theorem closed : world.Closed machine := by
  have hinert {f : Function} (hf : ∀ v ∈ f.constants, v.isAtom = true) :
      f.Inert world.names := fun v hv => .atom (hf v hv)
  have hname {g : GeneratorId} (hg : g < 6) :
      (Value.generator g).Alike world.names (.generator g) :=
    .generator ⟨rfl, hg⟩
  refine ⟨fun id f hf => ?_, ⟨fun {c c'} _ => .atom rfl, fun i i' hi => absurd hi.2 (Nat.not_lt_zero i)⟩, ?_⟩
  · cases hf
  · rintro g _ ⟨rfl, hlt⟩
    match g, hlt with
    | 0, _ =>
      have hfresh := Generator.Alike.fresh 0 (hinert (f := keeper) (by decide)) .nil
      exact ⟨_, _, rfl, rfl, ((hfresh.yieldValue (.null _)).setReturn (hname (by decide))).terminate⟩
    | 1, _ => exact ⟨_, _, rfl, rfl, .fresh 0 (hinert (by decide)) .nil⟩
    | 2, _ => exact ⟨_, _, rfl, rfl, .fresh 0 (hinert (by decide)) (.cons (hname (by decide)) .nil)⟩
    | 3, _ => exact ⟨_, _, rfl, rfl, .fresh 0 (hinert (by decide)) (.cons (hname (by decide)) .nil)⟩
    | 4, _ => exact ⟨_, _, rfl, rfl, .fresh 0 (hinert (by decide)) .nil⟩
    | 5, _ => exact ⟨_, _, rfl, rfl, .fresh 0 (hinert (by decide)) .nil⟩

theorem innocent : world.Innocent machine := by
  have hfresh : ∀ x ∈ world.generators, x.frame.isNone = true ∧ ∀ v ∈ x.function.constants, v.isAtom = true := by
    decide
  intro f hf v hv i hi
  have hatom : v.isAtom = true := by
    cases hf with
    | machine h => cases h
    | generator h => exact (hfresh _ (Array.mem_of_getElem? h)).2 v hv
    | frame h hy =>
      have hnone := (hfresh _ (Array.mem_of_getElem? h)).1
      rw [hy] at hnone
      cases hnone
  rw [Value.handles_of_isAtom hatom] at hi
  cases hi

/-- The drivers of the forwarder, of the taker and of the other counter do not meet. -/
theorem independent : world.Independent machine [3, 4, 5] fun g => if g = 4 then [.int 7] else [] := by
  refine World.independent_of_lists (fun g => if g = 3 then [.generator 3, .generator 1] else [.generator g])
    (by decide) (fun g hg v hv => .atom ?_) (by decide) (by decide) (by decide)
  revert g v
  decide

end Crossing

namespace Policy

/-- Makes certain requests, and then always the next one. -/
def ofList (rs : List Request) : Policy := fun log => rs[log.length]?.getD .next

/-- Sends back the value that came last. -/
def echo : Policy := fun log => (log.getLast?.map fun x => Request.send x.state.value).getD .next

theorem uniform_ofList {K : Correspondence} {rs : List Request} (h : ∀ r ∈ rs, r.Alike K r) :
    (ofList rs).Uniform K := by
  intro K' hK log log' hlog
  rw [ofList, ofList, hlog.length_eq]
  cases hr : rs[log'.length]? with
  | none => exact .next
  | some r => exact (h r (List.mem_of_getElem? hr)).mono hK

theorem uniform_echo (K : Correspondence) : echo.Uniform K := by
  intro K' hK log log' hlog
  rw [echo, echo, List.getLast?_eq_getElem?, List.getLast?_eq_getElem?, ← hlog.length_eq]
  rcases forall₂_getElem? hlog (log.length - 1) with ⟨hx, hx'⟩ | ⟨x, x', hx, hx', halike⟩
  · rw [hx, hx']
    exact .next
  · rw [hx, hx']
    exact .send halike.state.value

end Policy

open Crossing in
/-- Beside the driver of the forwarder, which sends back what it gets, the taker fails by a number sent to it. -/
theorem independent_drivers_of_crossing :
    world.Closed machine ∧ world.Innocent machine ∧
    world.Independent machine [3, 4, 5] (fun g => if g = 4 then [.int 7] else []) ∧
    Option.Rel (world.Swapped machine 40 4 (.send (.int 7)) 3 .next)
      (world.inTurn machine 40 4 (.send (.int 7)) 3 .next) (world.inTurn machine 40 3 .next 4 (.send (.int 7))) ∧
    ∃ (π : GeneratorId → Policy) (p : (GeneratorId → List Receipt) × World Nat Execution Output)
      (q : List Receipt × World Nat Execution Output) (K : Correspondence),
      π 3 = .echo ∧ world.serve machine 40 π (fun _ => []) [3, 5, 4, 3, 4] = some p ∧
      world.alone machine 40 .echo 3 [] 2 = some q ∧ K.Keeps world ∧
      List.Forall₂ (Receipt.Alike K) q.1 (p.1 3) := by
  obtain ⟨hswap, -, hserve⟩ := independent_drivers closed innocent independent 40
  let π : GeneratorId → Policy := fun g => if g = 4 then .ofList [.next, .send (.int 7)] else .echo
  have hπ : ∀ g ∈ [3, 4, 5], (π g).Uniform
      (world.share machine (world.Footprint machine g (if g = 4 then [.int 7] else []))) := by
    intro g _
    by_cases hg : g = 4
    · rw [show π g = .ofList [.next, .send (.int 7)] from if_pos hg]
      exact Policy.uniform_ofList (List.forall_mem_cons.mpr ⟨.next, List.forall_mem_singleton.mpr (.send (.atom rfl))⟩)
    · rw [show π g = .echo from if_neg hg]
      exact Policy.uniform_echo _
  have hreturns : (world.serve machine 40 π (fun _ => []) [3, 5, 4, 3, 4]).isSome = true := by decide +kernel
  obtain ⟨p, hp⟩ := Option.isSome_iff_exists.mp hreturns
  obtain ⟨q, K, hq, hK, hlog⟩ := (hserve π [3, 5, 4, 3, 4] (by decide) hπ).2 p hp 3 List.mem_cons_self
  exact ⟨closed, innocent, independent, hswap 4 (by decide) 3 (by decide) (by decide) _ _ (by simp [Request.sent])
    (by simp [Request.sent]), π, p, q, K, rfl, hp, hq, hK, hlog⟩

/-! ### What else leads to a generator -/

/-- What a generator names as long as it runs: its arguments, its pair, its source and its held frame. -/
def Generator.shown (m : Machine) (x : Generator Nat Execution) : List Handle :=
  (x.arguments ++ [x.key, x.value] ++ (x.frame.map m.engine.held).getD []).flatMap Value.handles ++
    (x.delegation.map Delegation.handles).getD []

namespace World

def shownBy (m : Machine) (w : World Nat Execution Output) : Handle → List Handle
  | .cell c => (w.heap.target c).handles
  | .generator g => ((w.generator? g).map (·.shown m)).getD []

theorem Same.alike {w : World Nat Execution Output} {K : Correspondence}
    {p p' : Receipt × Receipt × World Nat Execution Output} (h : Same w K p p') {g : GeneratorId}
    (hg : g < w.generators.size) {x : Generator Nat Execution} (hx : p.2.2.generator? g = some x) :
    ∃ x', p'.2.2.generator? g = some x' ∧ x.Alike K x' := by
  obtain ⟨g', hg'⟩ := h.left g (Array.getElem?_eq_some_iff.mp hx).1
  obtain ⟨y, x', hy, hx', halike⟩ := h.world.generators hg'
  obtain rfl : g = g' := (h.keeps.generator hg').resolve_right fun hnew => Nat.not_lt.mpr hnew.1 hg
  obtain rfl : y = x := Option.some.inj (hy.symm.trans hx)
  exact ⟨x', hx', halike⟩

/-- Turns that leave different numbers in a generator may not change places. -/
theorem not_swapped {m : Machine} {fuel : Nat} {w : World Nat Execution Output} {o o' : GeneratorId} {r r' : Request}
    {a b : Option (Receipt × Receipt × World Nat Execution Output)} {g : GeneratorId} (hg : g < w.generators.size)
    {k l : Int64} (hne : k ≠ l)
    (ha : (a.bind fun p => (p.2.2.generator? g).bind (·.value.asInt?)) = some k)
    (hb : (b.bind fun p => (p.2.2.generator? g).bind (·.value.asInt?)) = some l) :
    ¬ Option.Rel (w.Swapped m fuel o r o' r') a b := by
  intro hrel
  cases hrel with
  | none => cases ha
  | @some p p' hp =>
    obtain ⟨⟨K, hsame⟩, -⟩ := hp
    rw [Option.bind_some] at ha hb
    obtain ⟨x, hx, hk⟩ := Option.bind_eq_some_iff.mp ha
    obtain ⟨x', hx', halike⟩ := hsame.alike hg hx
    have hvalue := halike.value.asInt
    rw [hx', Option.bind_some, ← hvalue, hk] at hb
    exact hne (Option.some.inj hb)

end World

open Crossing in
/-- The fetcher and the forwarder have nothing in common while they run, nor have the taker and the counter; but the
keeper returned the forwarder's counter, and the other counter may be sent to the taker. Their turns may not change
places. -/
theorem results_and_sent_values_lead :
    world.Closed machine ∧ world.Innocent machine ∧ (∀ g < 6, world.isLocked g = false) ∧
    ((∀ i, Handle.Reaches (world.shownBy machine) (.generator 2) i →
        ¬ Handle.Reaches (world.shownBy machine) (.generator 3) i) ∧
      ¬ Option.Rel (world.Swapped machine 40 2 .next 3 .next)
        (world.inTurn machine 40 2 .next 3 .next) (world.inTurn machine 40 3 .next 2 .next)) ∧
    (∀ i, Handle.Reaches (world.shownBy machine) (.generator 4) i →
        ¬ Handle.Reaches (world.shownBy machine) (.generator 5) i) ∧
      ¬ Option.Rel (world.Swapped machine 40 4 (.send (.generator 5)) 5 .next)
        (world.inTurn machine 40 4 (.send (.generator 5)) 5 .next)
        (world.inTurn machine 40 5 .next 4 (.send (.generator 5))) := by
  have hapart {g g' : GeneratorId} {l r : List Handle} (hg : .generator g ∈ l) (hg' : .generator g' ∈ r)
      (hl : ∀ i ∈ l, ∀ j ∈ world.shownBy machine i, j ∈ l) (hr : ∀ i ∈ r, ∀ j ∈ world.shownBy machine i, j ∈ r)
      (hne : ∀ i ∈ l, i ∉ r) (i : Handle) (hi : Handle.Reaches (world.shownBy machine) (.generator g) i) :
      ¬ Handle.Reaches (world.shownBy machine) (.generator g') i :=
    fun hi' => hne i (hi.mem hl hg) (hi'.mem hr hg')
  refine ⟨closed, innocent, by decide, ⟨?_, ?_⟩, ?_, ?_⟩
  · exact hapart (l := [.generator 2, .generator 0]) (r := [.generator 3, .generator 1]) (by decide) (by decide)
      (by decide) (by decide) (by decide)
  · exact World.not_swapped (g := 2) (k := 1) (l := 2) (by decide) (by decide) (by decide +kernel) (by decide +kernel)
  · exact hapart (l := [.generator 4]) (r := [.generator 5]) (by decide) (by decide) (by decide) (by decide) (by decide)
  · exact World.not_swapped (g := 4) (k := 1) (l := 2) (by decide) (by decide) (by decide +kernel) (by decide +kernel)

end YieldMachine
