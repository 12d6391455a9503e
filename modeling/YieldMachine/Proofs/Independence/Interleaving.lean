import Mathlib.Logic.Function.Basic
import YieldMachine.Proofs.Independence.Footprint

/-!
Drivers that take turns. A driver decides by the receipts that it has got what to do next. Beside the world that all
drivers share each has one of its own, in which it is alone; as long as no generator of the common world is within the
reach of two drivers, a turn keeps them apart (`World.Apart.step`). So in whatever order they take their turns, each
driver gets what it gets alone (`World.Apart.serve`).
-/

namespace YieldMachine

/-! ### Turns -/

/-- What a driver gets of its turn: the answer, and the generator as it is afterwards. -/
structure Receipt where
  answer : Answer
  state : Generator Nat Execution

structure Receipt.Alike (K : Correspondence) (x x' : Receipt) : Prop where
  answer : x'.answer = x.answer
  state : x.state.Alike K x'.state

theorem Receipt.Alike.mono {K K' : Correspondence} {x x' : Receipt} (hK : K.GrowsTo K') (h : x.Alike K x') :
    x.Alike K' x' := ⟨h.answer, h.state.mono hK⟩

/-- What a driver does next, by the receipts that it has got. -/
abbrev Policy := List Receipt → Request

/-- After receipts that differ in names only the driver makes requests that differ in these names only. -/
def Policy.Uniform (K : Correspondence) (π : Policy) : Prop :=
  ∀ K', K.GrowsTo K' → ∀ log log', List.Forall₂ (Receipt.Alike K') log log' → (π log).Alike K' (π log')

theorem Policy.Uniform.mono {K K' : Correspondence} {π : Policy} (hK : K.GrowsTo K') (h : π.Uniform K) : π.Uniform K' :=
  fun K'' hK' => h K'' (hK.trans hK')

namespace World

/-- A driver takes its turn. -/
def turn (m : Machine) (fuel : Nat) (w : World Nat Execution Output) (g : GeneratorId) (r : Request) :
    Option (Receipt × World Nat Execution Output) :=
  (w.operate m.engine fuel (r.on g)).bind fun (answer, v) => (v.generator? g).map fun x => (⟨answer, x⟩, v)

/-- The drivers take their turns in the given order; none if one of them cannot end its own. -/
def serve (m : Machine) (fuel : Nat) (π : GeneratorId → Policy) (w : World Nat Execution Output)
    (logs : GeneratorId → List Receipt) :
    List GeneratorId → Option ((GeneratorId → List Receipt) × World Nat Execution Output)
  | [] => some (logs, w)
  | g :: order => (w.turn m fuel g (π g (logs g))).bind fun (x, v) =>
      v.serve m fuel π (Function.update logs g (logs g ++ [x])) order

/-- A driver takes so many turns while nobody else does. -/
def alone (m : Machine) (fuel : Nat) (π : Policy) (g : GeneratorId) (w : World Nat Execution Output)
    (log : List Receipt) : Nat → Option (List Receipt × World Nat Execution Output)
  | 0 => some (log, w)
  | n + 1 => (w.turn m fuel g (π log)).bind fun (x, v) => v.alone m fuel π g (log ++ [x]) n

variable {m : Machine} {K K' : Correspondence} {w w' v v' : World Nat Execution Output} {g : GeneratorId}
  {r r' : Request} {P Q : GeneratorId → Prop} {fuel : Nat}

theorem turn_alike (hm : m.Inert K) (h : w.Alike K w') (hg : K.generator g g) (hr : r.Alike K r') (fuel : Nat) :
    Option.Rel (fun p p' => ∃ K', Parallel K w w' K' p.2 p'.2 ∧ p.1.Alike K' p'.1)
      (w.turn m fuel g r) (w'.turn m fuel g r') := by
  have hoperate := operate_alike hm h hg hr fuel
  rw [turn, turn]
  generalize w.operate m.engine fuel (r.on g) = p, w'.operate m.engine fuel (r'.on g) = p' at hoperate
  cases hoperate with
  | none => exact .none
  | @some p p' hp =>
    obtain ⟨hanswer, K', hK'⟩ := hp
    obtain ⟨x, x', hx, hx', hxx'⟩ := hK'.alike.generators (hK'.grows.generator hg)
    simp only [Option.bind_some, hx, hx', Option.map_some]
    exact .some ⟨K', hK', hanswer.symm, hxx'⟩

/-! ### Worlds that others have changed -/

theorem Confined.imp (h : Confined P w v) (hPQ : ∀ g, P g → Q g) : Confined Q w v :=
  { h with kept := fun g hlt hout => h.kept g hlt fun hP => hout (hPQ g hP) }

/-- Worlds stay alike while both change elsewhere. -/
theorem Alike.of_confined (h : w.Alike K w') (hv : Confined P w v) (hv' : Confined Q w' v')
    (hout : ∀ g g', K.generator g g' → ¬ P g ∧ ¬ Q g') : v.Alike K v' where
  heap := by
    refine ⟨fun {c c'} hc => ?_, fun i i' hi => ?_⟩
    · rw [Heap.target, Heap.target, hv.cells, hv'.cells]
      exact h.heap.cells hc
    · obtain ⟨hlt, hlt'⟩ := h.heap.allocations i i' hi
      exact ⟨Nat.lt_of_lt_of_le hlt hv.allocation, Nat.lt_of_lt_of_le hlt' hv'.allocation⟩
  generators {g g'} hg := by
    obtain ⟨x, x', hx, hx', hxx'⟩ := h.generators hg
    obtain ⟨hlt, hlt'⟩ := h.lt g g' hg
    obtain ⟨hP, hQ⟩ := hout g g' hg
    exact ⟨x, x', (hv.kept g hlt hP).trans hx, (hv'.kept g' hlt' hQ).trans hx', hxx'⟩

/-- From a correspondence another one has grown, and only what the worlds did not have is paired anew. -/
structure Extends (K : Correspondence) (w w' : World Nat Execution Output) (K' : Correspondence) : Prop where
  grows : K.GrowsTo K'
  generator : ∀ {g g'}, K'.generator g g' →
    K.generator g g' ∨ w.generators.size ≤ g ∧ w'.generators.size ≤ g'
  allocation : ∀ {i i'}, K'.allocation i i' →
    K.allocation i i' ∨ w.heap.nextAllocation ≤ i ∧ w'.heap.nextAllocation ≤ i'
  cell : K'.cell = K.cell

theorem Extends.refl (K : Correspondence) (w w' : World Nat Execution Output) : Extends K w w' K :=
  ⟨.refl K, .inl, .inl, rfl⟩

theorem Parallel.extends (h : Parallel K w w' K' v v') : Extends K w w' K' := by
  refine ⟨h.grows, fun {g g'} hg => ((h.generator g g').mp hg).imp_right ?_,
    fun {i i'} hi => ((h.allocation i i').mp hi).imp_right Correspondence.shifted_le, h.cell⟩
  exact Correspondence.shifted_le

theorem Extends.trans {K'' : Correspondence} (h : Extends K w w' K') (h' : Extends K' v v' K'')
    (hv : Confined P w v) (hv' : Confined Q w' v') : Extends K w w' K'' where
  grows := h.grows.trans h'.grows
  generator hg := by
    rcases h'.generator hg with hg | ⟨hle, hle'⟩
    · exact h.generator hg
    · exact .inr ⟨Nat.le_trans hv.size hle, Nat.le_trans hv'.size hle'⟩
  allocation hi := by
    rcases h'.allocation hi with hi | ⟨hle, hle'⟩
    · exact h.allocation hi
    · exact .inr ⟨Nat.le_trans hv.allocation hle, Nat.le_trans hv'.allocation hle'⟩
  cell := h'.cell.trans h.cell

/-! ### Drivers apart -/

/-- The world that a driver has to itself, what it got there, and what there stands for what of the common world. -/
structure Side where
  names : Correspondence
  world : World Nat Execution Output
  log : List Receipt

/-- As far as the driver of `g` gets, its own world is like the common one, in which it got the receipts of `log`. -/
structure Beside (m : Machine) (π : Policy) (g : GeneratorId) (s : Side) (w : World Nat Execution Output)
    (log : List Receipt) : Prop where
  inert : m.Inert s.names
  uniform : π.Uniform s.names
  alike : s.world.Alike s.names w
  own : s.names.generator g g
  receipts : List.Forall₂ (Receipt.Alike s.names) s.log log

/-- Each driver is beside the common world, and no two get to the same generator of it. -/
structure Apart (m : Machine) (π : GeneratorId → Policy) (gs : List GeneratorId) (side : GeneratorId → Side)
    (w : World Nat Execution Output) (logs : GeneratorId → List Receipt) : Prop where
  beside : ∀ g ∈ gs, Beside m (π g) g (side g) w (logs g)
  apart : ∀ g ∈ gs, ∀ g' ∈ gs, g ≠ g' → ∀ {a a' b}, (side g).names.generator a b → ¬ (side g').names.generator a' b

section Apart

variable {π : GeneratorId → Policy} {gs : List GeneratorId} {side : GeneratorId → Side}
  {logs : GeneratorId → List Receipt}

/-- After a turn in the common world and in the driver's own, the drivers are still apart. -/
theorem Apart.step (h : Apart m π gs side w logs) (hg : g ∈ gs)
    (hK' : Parallel (side g).names (side g).world w K' v v') {x x' : Receipt} (hx : x.Alike K' x') :
    Apart m π gs (Function.update side g ⟨K', v, (side g).log ++ [x]⟩) v'
      (Function.update logs g (logs g ++ [x'])) := by
  have hnew {i : GeneratorId} (hi : i ∈ gs) (hne : i ≠ g) {a a' b : GeneratorId} (hb : K'.generator a b)
      (hb' : (side i).names.generator a' b) : False := by
    rcases hK'.extends.generator hb with hold | ⟨-, hle⟩
    · exact h.apart g hg i hi hne.symm hold hb'
    · exact Nat.not_lt.mpr hle ((h.beside i hi).alike.lt a' b hb').2
  refine ⟨fun i hi => ?_, fun i hi j hj hne a a' b hb hb' => ?_⟩
  · by_cases hig : i = g
    · have hbeside := h.beside g hg
      rw [hig, Function.update_self, Function.update_self]
      exact ⟨hbeside.inert.mono hK'.grows, hbeside.uniform.mono hK'.grows, hK'.alike,
        hK'.grows.generator hbeside.own,
        List.rel_append (hbeside.receipts.imp fun _ _ hx => hx.mono hK'.grows) (.cons hx .nil)⟩
    · have hbeside := h.beside i hi
      rw [Function.update_of_ne hig, Function.update_of_ne hig]
      refine { hbeside with alike := hbeside.alike.of_confined (.refl (fun _ => False) _) hK'.right fun a a' ha => ?_ }
      refine ⟨id, ?_⟩
      rintro ⟨b, hb⟩
      exact h.apart g hg i hi (Ne.symm hig) hb ha
  · by_cases hig : i = g
    · have hjg : j ≠ g := fun hjg => hne (hig.trans hjg.symm)
      rw [hig, Function.update_self] at hb
      rw [Function.update_of_ne hjg] at hb'
      exact hnew hj hjg hb hb'
    · rw [Function.update_of_ne hig] at hb
      by_cases hjg : j = g
      · rw [hjg, Function.update_self] at hb'
        exact hnew hi hig hb' hb
      · rw [Function.update_of_ne hjg] at hb'
        exact h.apart i hi j hj hne hb hb'

/-- In whatever order drivers take their turns, each gets what it gets alone; and if alone none stops, none does. -/
theorem Apart.serve (h : Apart m π gs side w logs) {order : List GeneratorId} (horder : order ⊆ gs) (fuel : Nat) :
    (w.serve m fuel π logs order = none →
      ∃ g ∈ gs, (side g).world.alone m fuel (π g) g (side g).log (order.count g) = none) ∧
    ∀ p, w.serve m fuel π logs order = some p → ∀ g ∈ gs, ∃ q K',
      (side g).world.alone m fuel (π g) g (side g).log (order.count g) = some q ∧
        Extends (side g).names (side g).world w K' ∧ List.Forall₂ (Receipt.Alike K') q.1 (p.1 g) := by
  induction order generalizing side w logs with
  | nil =>
    refine ⟨nofun, fun p hp g hg => ⟨_, (side g).names, rfl, .refl .., ?_⟩⟩
    obtain rfl := Option.some.inj hp
    exact (h.beside g hg).receipts
  | cons o order ih =>
    have ho : o ∈ gs := horder List.mem_cons_self
    have hrest : order ⊆ gs := fun g hg => horder (List.mem_cons_of_mem _ hg)
    have hbeside := h.beside o ho
    have hrequest := hbeside.uniform _ (.refl _) _ _ hbeside.receipts
    have hturn := turn_alike hbeside.inert hbeside.alike hbeside.own hrequest fuel
    have hown : (side o).world.alone m fuel (π o) o (side o).log ((o :: order).count o) =
        ((side o).world.turn m fuel o (π o (side o).log)).bind fun p =>
          p.2.alone m fuel (π o) o ((side o).log ++ [p.1]) (order.count o) := by
      rw [List.count_cons_self]
      rfl
    rw [World.serve]
    generalize (side o).world.turn m fuel o (π o (side o).log) = s, w.turn m fuel o (π o (logs o)) = s' at hturn hown
    cases hturn with
    | none => exact ⟨fun _ => ⟨o, ho, hown⟩, nofun⟩
    | @some p p' hp =>
      obtain ⟨K', hK', hreceipt⟩ := hp
      obtain ⟨hnone, hsome⟩ := ih (h.step ho hK' hreceipt) hrest
      rw [Option.bind_some] at hown
      refine ⟨fun hstops => ?_, fun q hq g hg => ?_⟩
      · obtain ⟨g, hg, hstops⟩ := hnone hstops
        refine ⟨g, hg, ?_⟩
        by_cases hgo : g = o
        · rw [hgo, Function.update_self] at hstops
          rw [hgo, hown]
          exact hstops
        · rw [Function.update_of_ne hgo] at hstops
          rw [List.count_cons_of_ne (Ne.symm hgo)]
          exact hstops
      · obtain ⟨q', K'', hq', hextends, hlog⟩ := hsome q hq g hg
        by_cases hgo : g = o
        · obtain rfl := hgo
          rw [Function.update_self] at hq' hextends
          exact ⟨q', K'', hown.trans hq', hK'.extends.trans hextends hK'.left hK'.right, hlog⟩
        · rw [Function.update_of_ne hgo] at hq' hextends
          rw [List.count_cons_of_ne (Ne.symm hgo)]
          exact ⟨q', K'', hq', (Extends.refl ..).trans hextends (.refl (fun _ => False) _) hK'.right, hlog⟩

end Apart

end World

end YieldMachine
