import Mathlib.Data.Option.Basic
import YieldMachine.Proofs.Likeness.Machine
import YieldMachine.Proofs.World.Update
import YieldMachine.World.Basic

/-!
Worlds that differ in names only. Two worlds are alike by a correspondence if the generators that it pairs are
alike and so are the cells; the other generators of the two worlds may be anything. Changes that are made to both alike
take them in parallel (`World.Parallel`) to worlds that are alike again, by a correspondence that has grown by
what is new in both: a change of two generators that stand for each other, a new generator in each, and what a step of
the machine leaves of the heap and the output.
-/

namespace YieldMachine

/-! ### Generators -/

inductive Delegation.Alike (K : Correspondence) : Delegation → Delegation → Prop where
  | table {t t' : Table Value} (pending : List Key) (ht : t.Alike K t') :
      Alike K (.table t pending) (.table t' pending)
  | child {g g' : GeneratorId} (hg : K.generator g g') : Alike K (.child g) (.child g')

inductive Delegation.Outcome.Alike (K : Correspondence) : Outcome → Outcome → Prop where
  | pair {k k' v v' : Value} (hk : k.Alike K k') (hv : v.Alike K v') : Alike K (.pair k v) (.pair k' v')
  | exhausted {v v' : Value} (hv : v.Alike K v') : Alike K (.exhausted v) (.exhausted v')
  | failed (e : DelegationError) : Alike K (.failed e) (.failed e)

structure Generator.Alike (K : Correspondence) (x x' : Generator Nat Execution) : Prop where
  handle : x'.handle = x.handle
  function : x'.function = x.function
  inert : x.function.Inert K
  arguments : ValuesAlike K x.arguments x'.arguments
  lifecycle : x'.lifecycle = x.lifecycle
  key : x.key.Alike K x'.key
  value : x.value.Alike K x'.value
  largestKey : x'.largestKey = x.largestKey
  delegation : Option.Rel (Delegation.Alike K) x.delegation x'.delegation
  sent : x.sent.Alike K x'.sent
  delegationResult : x.delegationResult.Alike K x'.delegationResult
  frame : Option.Rel (Execution.Alike K) x.frame x'.frame
  returnValue : Option.Rel (Value.Alike K) x.returnValue x'.returnValue
  lastError : x'.lastError = x.lastError
  locked : x'.locked = x.locked

/-! ### Other correspondences

Another correspondence does as well if it does for the constants and for the values that name no more than the whole. -/

section Imp

variable {K K' : Correspondence}

theorem optionRel_imp {α β : Type} {R Q : α → β → Prop} {a : Option α} {b : Option β} (h : Option.Rel R a b)
    (hRQ : ∀ x y, a = some x → R x y → Q x y) : Option.Rel Q a b := by
  cases h with
  | none => exact .none
  | some h => exact .some (hRQ _ _ rfl h)

theorem Table.Alike.imp {t t' : Table Value} (h : t.Alike K t')
    (hv : ∀ v v' : Value, v.handles ⊆ t.handles → v.Alike K v' → v.Alike K' v') : t.Alike K' t' := by
  refine ⟨forall₂_imp_mem h.entries fun e he e' hee' => ⟨hee'.1, hv _ _ ?_ hee'.2⟩, h.index, h.cursor⟩
  rw [Table.handles_eq]
  exact fun i hi => List.mem_flatMap.mpr ⟨e, he, hi⟩

theorem Delegation.Alike.imp {d d' : Delegation} (h : d.Alike K d')
    (hv : ∀ v v' : Value, v.handles ⊆ d.handles → v.Alike K v' → v.Alike K' v') : d.Alike K' d' := by
  cases h with
  | table pending ht => exact .table pending (ht.imp hv)
  | child hg =>
    cases hv _ _ (List.Subset.refl _) (.generator hg) with
    | generator hg => exact .child hg
    | atom h => cases h

/-- What a generator of the machine names. -/
def Generator.names (x : Generator Nat Execution) : List Handle :=
  (x.arguments ++ [x.key, x.value, x.sent, x.delegationResult] ++ x.returnValue.toList ++
    (x.frame.map Execution.values).getD []).flatMap Value.handles ++ (x.delegation.map Delegation.handles).getD []

theorem Generator.Alike.imp {x x' : Generator Nat Execution} (h : x.Alike K x')
    (hf : x.function.Inert K → x.function.Inert K')
    (hframe : ∀ y, x.frame = some y → ∀ z ∈ y.frame :: y.callers, z.function.Inert K → z.function.Inert K')
    (hv : ∀ v v' : Value, v.handles ⊆ x.names → v.Alike K v' → v.Alike K' v') : x.Alike K' x' := by
  have hmem : ∀ v ∈ x.arguments ++ [x.key, x.value, x.sent, x.delegationResult] ++ x.returnValue.toList ++
      (x.frame.map Execution.values).getD [], ∀ v', v.Alike K v' → v.Alike K' v' := by
    refine fun v hm v' => hv v v' fun i hi => ?_
    exact List.mem_append_left _ (List.mem_flatMap.mpr ⟨v, hm, hi⟩)
  refine ⟨h.handle, h.function, hf h.inert, ?_, h.lifecycle, ?_, ?_, h.largestKey, ?_, ?_, ?_, ?_, ?_, h.lastError,
    h.locked⟩
  · exact forall₂_imp_mem h.arguments fun v hm => hmem v (by simp [hm])
  · exact hmem _ (by simp) _ h.key
  · exact hmem _ (by simp) _ h.value
  · refine optionRel_imp h.delegation fun d d' hd hdd' => hdd'.imp fun v v' hsub => hv v v' fun i hi => ?_
    exact List.mem_append_right _ (by simpa [hd] using hsub hi)
  · exact hmem _ (by simp) _ h.sent
  · exact hmem _ (by simp) _ h.delegationResult
  · refine optionRel_imp h.frame fun y y' hy hyy' => hyy'.imp (hframe y hy) fun v hm => hmem v ?_
    exact List.mem_append_right _ (by simpa [hy] using hm)
  · exact optionRel_imp h.returnValue fun v v' hr => hmem v (by simp [hr]) v'

theorem Generator.Alike.mono {x x' : Generator Nat Execution} (hK : K.GrowsTo K') (h : x.Alike K x') :
    x.Alike K' x' :=
  h.imp (·.mono hK) (fun _ _ _ _ => (·.mono hK)) fun _ _ _ hv => hv.mono hK

end Imp

namespace Generator.Alike

variable {K : Correspondence} {x x' : Generator Nat Execution} {k k' v v' : Value}

theorem isStarted (h : x.Alike K x') : x'.isStarted = x.isStarted := congrArg Lifecycle.started h.lifecycle

theorem isFinished (h : x.Alike K x') : x'.isFinished = x.isFinished := congrArg Lifecycle.finished h.lifecycle

theorem isDelegating (h : x.Alike K x') : x'.isDelegating = x.isDelegating := by
  have hd := h.delegation
  rw [Generator.isDelegating, Generator.isDelegating]
  generalize x.delegation = d, x'.delegation = d' at hd
  cases hd <;> rfl

theorem fresh (depth : Nat) {f : Function} {args args' : List Value} (hf : f.Inert K)
    (hargs : ValuesAlike K args args') : (Generator.fresh depth f args).Alike K (.fresh depth f args') :=
  ⟨rfl, rfl, hf, hargs, rfl, .null K, .null K, rfl, .none, .null K, .null K, .none, .none, rfl, rfl⟩

theorem setPair (h : x.Alike K x') (hk : k.Alike K k') (hv : v.Alike K v') :
    (x.setPair k v).Alike K (x'.setPair k' v') := { h with key := hk, value := hv }

theorem raiseKey_alike (largest : Option Int64) (hk : k.Alike K k') : raiseKey largest k = raiseKey largest k' := by
  cases hk <;> rfl

theorem yieldPair (h : x.Alike K x') (hk : k.Alike K k') (hv : v.Alike K v') :
    (x.yieldPair k v).Alike K (x'.yieldPair k' v') := by
  have hlargest : raiseKey x'.largestKey k' = raiseKey x.largestKey k := by
    rw [h.largestKey, raiseKey_alike _ hk]
  exact { h with largestKey := hlargest, key := hk, value := hv }

theorem yieldValue (h : x.Alike K x') (hv : v.Alike K v') : (x.yieldValue v).Alike K (x'.yieldValue v') := by
  have hkey : x'.automaticKey = x.automaticKey := by rw [automaticKey, automaticKey, h.largestKey]
  rw [Generator.yieldValue, Generator.yieldValue, hkey]
  exact h.yieldPair (.atom rfl) hv

theorem setDelegation (h : x.Alike K x') {d d' : Delegation} (hd : d.Alike K d') :
    Generator.Alike K { x with delegation := some d } { x' with delegation := some d' } :=
  { h with delegation := .some hd }

theorem beginDelegation (h : x.Alike K x') {d d' : Delegation} (hd : d.Alike K d') (hk : k.Alike K k')
    (hv : v.Alike K v') : (x.beginDelegation d k v).Alike K (x'.beginDelegation d' k' v') := by
  have hlifecycle : { x'.lifecycle with suspended := true } = { x.lifecycle with suspended := true } := by
    rw [h.lifecycle]
  exact { h with delegation := .some hd, key := hk, value := hv, lifecycle := hlifecycle }

theorem skipDelegation (h : x.Alike K x') (hv : v.Alike K v') :
    (x.skipDelegation v).Alike K (x'.skipDelegation v') := { h with delegationResult := hv }

theorem endDelegation (h : x.Alike K x') (hv : v.Alike K v') :
    (x.endDelegation v).Alike K (x'.endDelegation v') := { h with delegation := .none, delegationResult := hv }

theorem clearSent (h : x.Alike K x') : x.clearSent.Alike K x'.clearSent := { h with sent := .null K }

theorem clearResult (h : x.Alike K x') : x.clearResult.Alike K x'.clearResult :=
  { h with delegationResult := .null K }

theorem begin (h : x.Alike K x') : x.begin.Alike K x'.begin := by
  have hlifecycle : { x'.lifecycle with started := true } = { x.lifecycle with started := true } := by
    rw [h.lifecycle]
  exact { h with lifecycle := hlifecycle }

theorem deliver (h : x.Alike K x') {sent sent' : Option Value} (hs : Option.Rel (Value.Alike K) sent sent') :
    (x.deliver sent).Alike K (x'.deliver sent') := by
  cases hs with
  | none => exact h
  | some hv => exact { h with sent := hv }

theorem release (h : x.Alike K x') : x.release.Alike K x'.release := by
  have hlifecycle : { x'.lifecycle with suspended := false } = { x.lifecycle with suspended := false } := by
    rw [h.lifecycle]
  exact { h with frame := .none, lifecycle := hlifecycle }

theorem hold (h : x.Alike K x') {y y' : Execution} (hy : y.Alike K y') : (x.hold y).Alike K (x'.hold y') := by
  have hlifecycle : { x'.lifecycle with suspended := true } = { x.lifecycle with suspended := true } := by
    rw [h.lifecycle]
  exact { h with frame := .some hy, lifecycle := hlifecycle }

theorem terminate (h : x.Alike K x') : x.terminate.Alike K x'.terminate :=
  { h with frame := .none, delegation := .none, lifecycle := rfl }

theorem setReturn (h : x.Alike K x') (hv : v.Alike K v') : (x.setReturn v).Alike K (x'.setReturn v') :=
  { h with returnValue := .some hv }

theorem setError (h : x.Alike K x') (e : GeneratorError) : (x.setError e).Alike K (x'.setError e) :=
  { h with lastError := rfl }

theorem setLock (h : x.Alike K x') (b : Bool) : (x.setLock b).Alike K (x'.setLock b) := { h with locked := rfl }

theorem outcome (h : x.Alike K x') (r : Except GeneratorError Bool) :
    (x.outcome r).Alike K (x'.outcome r) := by
  have hreturn := h.returnValue
  have hended : (x.outcome (.ok false)).Alike K (x'.outcome (.ok false)) := by
    simp only [Generator.outcome]
    rw [h.lastError, h.function]
    generalize x.returnValue = result, x'.returnValue = result' at hreturn
    cases hreturn with
    | some hv => exact .exhausted hv
    | none =>
      cases x.lastError with
      | none => exact .exhausted (.null K)
      | some e => exact .failed _
  cases r with
  | ok b =>
    cases b with
    | true => exact .pair h.key h.value
    | false => exact hended
  | error e => exact hended

end Generator.Alike

/-! ### Worlds -/

/-- The generators and the cells that stand for each other are alike. -/
structure World.Alike (K : Correspondence) (w w' : World Nat Execution Output) : Prop where
  heap : w.heap.Alike K w'.heap
  generators : ∀ {g g'}, K.generator g g' →
    ∃ x x', w.generator? g = some x ∧ w'.generator? g' = some x' ∧ x.Alike K x'

/-- Only generators of `P` and new ones differ between the worlds. -/
structure World.Confined (P : GeneratorId → Prop) (w v : World Nat Execution Output) : Prop where
  kept : ∀ g, g < w.generators.size → ¬ P g → v.generator? g = w.generator? g
  size : w.generators.size ≤ v.generators.size
  cells : v.heap.cells = w.heap.cells
  allocation : w.heap.nextAllocation ≤ v.heap.nextAllocation

/-- From two worlds with the pairs of `K` two others have come, which are alike by `K'`: as many generators and
allocations were made in both and are paired in the order in which they were made, the same was printed, and nothing
else has changed. -/
structure World.Parallel (K : Correspondence) (w w' : World Nat Execution Output) (K' : Correspondence)
    (v v' : World Nat Execution Output) : Prop where
  generator : ∀ g g', K'.generator g g' ↔
    K.generator g g' ∨ Correspondence.shifted w.generators.size w'.generators.size v.generators.size g g'
  generators : v.generators.size + w'.generators.size = v'.generators.size + w.generators.size
  allocation : ∀ i i', K'.allocation i i' ↔ K.allocation i i' ∨
    Correspondence.shifted w.heap.nextAllocation w'.heap.nextAllocation v.heap.nextAllocation i i'
  allocations : v.heap.nextAllocation + w'.heap.nextAllocation = v'.heap.nextAllocation + w.heap.nextAllocation
  cell : K'.cell = K.cell
  left : World.Confined (fun g => ∃ g', K.generator g g') w v
  right : World.Confined (fun g' => ∃ g, K.generator g g') w' v'
  printed : ∃ text, v.state = w.state.print text ∧ v'.state = w'.state.print text
  alike : World.Alike K' v v'

namespace World

variable {K K' K'' : Correspondence} {w w' v v' u u' : World Nat Execution Output} {g g' : GeneratorId}

theorem Alike.lt (h : w.Alike K w') (g g' : GeneratorId) (hg : K.generator g g') :
    g < w.generators.size ∧ g' < w'.generators.size := by
  obtain ⟨x, x', hx, hx', -⟩ := h.generators hg
  exact ⟨(Array.getElem?_eq_some_iff.mp hx).1, (Array.getElem?_eq_some_iff.mp hx').1⟩

theorem Confined.refl (P : GeneratorId → Prop) (w : World Nat Execution Output) : Confined P w w :=
  ⟨fun _ _ _ => rfl, Nat.le_refl _, rfl, Nat.le_refl _⟩

theorem Parallel.grows (h : Parallel K w w' K' v v') : K.GrowsTo K' :=
  ⟨fun hg => (h.generator _ _).mpr (.inl hg), fun hi => (h.allocation _ _).mpr (.inl hi), fun hc => h.cell ▸ hc⟩

theorem Parallel.refl (h : w.Alike K w') : Parallel K w w' K w w' where
  generator _ _ := ⟨.inl, fun hg => hg.resolve_right Correspondence.shifted_none⟩
  generators := Nat.add_comm ..
  allocation _ _ := ⟨.inl, fun hi => hi.resolve_right Correspondence.shifted_none⟩
  allocations := Nat.add_comm ..
  cell := rfl
  left := .refl _ w
  right := .refl _ w'
  printed := ⟨"", (Output.print_empty _).symm, (Output.print_empty _).symm⟩
  alike := h

/-- What was not there before is out of the reach of the first changes. -/
theorem Confined.trans {P Q : GeneratorId → Prop} (h : Confined P w v) (h' : Confined Q v u)
    (hPQ : ∀ g, Q g → P g ∨ w.generators.size ≤ g) : Confined P w u := by
  refine ⟨fun g hlt hout => ?_, Nat.le_trans h.size h'.size, h'.cells.trans h.cells,
    Nat.le_trans h.allocation h'.allocation⟩
  refine (h'.kept g (Nat.lt_of_lt_of_le hlt h.size) fun hQ => ?_).trans (h.kept g hlt hout)
  rcases hPQ g hQ with hP | hle
  · exact hout hP
  · omega

theorem Parallel.trans (h : Parallel K w w' K' v v') (h' : Parallel K' v v' K'' u u') :
    Parallel K w w' K'' u u' where
  generator g g' := by
    rw [h'.generator, h.generator, or_assoc,
      ← Correspondence.shifted_trans h.left.size h'.left.size h.generators]
  generators := Correspondence.together_trans h.generators h'.generators
  allocation i i' := by
    rw [h'.allocation, h.allocation, or_assoc,
      ← Correspondence.shifted_trans h.left.allocation h'.left.allocation h.allocations]
  allocations := Correspondence.together_trans h.allocations h'.allocations
  cell := h'.cell.trans h.cell
  left := by
    refine h.left.trans h'.left ?_
    rintro g ⟨g', hg⟩
    exact ((h.generator g g').mp hg).imp (fun hg => ⟨g', hg⟩) fun hs => hs.1
  right := by
    refine h.right.trans h'.right ?_
    rintro g' ⟨g, hg⟩
    refine ((h.generator g g').mp hg).imp (fun hg => ⟨g, hg⟩) fun hs => ?_
    obtain ⟨hle, -, hsame⟩ := hs
    omega
  printed := by
    obtain ⟨text, htext, htext'⟩ := h.printed
    obtain ⟨more, hmore, hmore'⟩ := h'.printed
    exact ⟨text ++ more, by rw [hmore, htext, Output.print_print], by rw [hmore', htext', Output.print_print]⟩
  alike := h'.alike

theorem Confined.modify {P : GeneratorId → Prop} (hg : P g)
    (f : Generator Nat Execution → Generator Nat Execution) : Confined P w (w.modify g f) := by
  refine ⟨fun i _ hout => generator?_modify_of_ne ?_ f, by simp, rfl, Nat.le_refl _⟩
  rintro rfl
  exact hout hg

/-- Two generators that stand for each other change alike. -/
theorem Parallel.modify (h : w.Alike K w') (hg : K.generator g g')
    {f f' : Generator Nat Execution → Generator Nat Execution}
    (hf : ∀ {x x' : Generator Nat Execution}, x.Alike K x' → (f x).Alike K (f' x')) :
    Parallel K w w' K (w.modify g f) (w'.modify g' f') :=
  { Parallel.refl h with
    generator := fun i i' => by
      rw [generators_size_modify]
      exact (Parallel.refl h).generator i i'
    generators := by
      rw [generators_size_modify, generators_size_modify]
      exact Nat.add_comm ..
    left := .modify ⟨g', hg⟩ f
    right := .modify ⟨g, hg⟩ f'
    alike := by
      refine ⟨h.heap, fun {i i'} hi => ?_⟩
      obtain ⟨x, x', hx, hx', hxx'⟩ := h.generators hi
      have hiff := K.generator_iff hi hg
      by_cases hsame : i = g
      · obtain rfl := hsame
        obtain rfl := hiff.mp rfl
        exact ⟨f x, f' x', by rw [generator?_modify_self, hx]; rfl,
          by rw [generator?_modify_self, hx']; rfl, hf hxx'⟩
      · have hsame' : i' ≠ g' := fun he => hsame (hiff.mpr he)
        exact ⟨x, x', (generator?_modify_of_ne hsame f).trans hx,
          (generator?_modify_of_ne hsame' f').trans hx', hxx'⟩ }

/-- Two new generators stand for each other. -/
theorem Parallel.create (h : w.Alike K w') (depth : Nat) {f : Function} {args args' : List Value}
    (hf : f.Inert K) (hargs : ValuesAlike K args args') :
    ∃ K', Parallel K w w' K' (w.create depth f args).2 (w'.create depth f args').2 ∧
      K'.generator w.generators.size w'.generators.size := by
  have hgrows := K.growsTo_create h.lt
  have hsize : (w.create depth f args).2.generators.size = w.generators.size + 1 := by simp [World.create]
  have hsize' : (w'.create depth f args').2.generators.size = w'.generators.size + 1 := by simp [World.create]
  have hpair : (K.create _ _ h.lt).generator w.generators.size w'.generators.size := .inr ⟨rfl, rfl⟩
  refine ⟨K.create w.generators.size w'.generators.size h.lt, ?_, hpair⟩
  exact
    { Parallel.refl h with
      generator := fun i i' => by
        rw [hsize, Correspondence.shifted_one]
        rfl
      generators := by omega
      left := ⟨fun i hlt _ => (generator?_create ..).trans (if_neg (Nat.ne_of_lt hlt)), by omega, rfl, Nat.le_refl _⟩
      right := ⟨fun i hlt _ => (generator?_create ..).trans (if_neg (Nat.ne_of_lt hlt)), by omega, rfl, Nat.le_refl _⟩
      alike := by
        refine ⟨⟨fun hc => (h.heap.cells hc).mono hgrows, h.heap.allocations⟩, ?_⟩
        rintro i i' (hi | ⟨rfl, rfl⟩)
        · obtain ⟨x, x', hx, hx', hxx'⟩ := h.generators hi
          obtain ⟨hlt, hlt'⟩ := h.lt i i' hi
          exact ⟨x, x', ((generator?_create ..).trans (if_neg (Nat.ne_of_lt hlt))).trans hx,
            ((generator?_create ..).trans (if_neg (Nat.ne_of_lt hlt'))).trans hx', hxx'.mono hgrows⟩
        · exact ⟨_, _, (generator?_create ..).trans (if_pos rfl), (generator?_create ..).trans (if_pos rfl),
            .fresh depth (hf.mono hgrows) (ValuesAlike.mono hgrows hargs)⟩ }

/-- What a step of the machine does to the stores. -/
theorem Parallel.allocate (h : w.Alike K w') {heap heap' : Heap} {out out' : Output} {text : String}
    (hheap : Heap.Allocates K K' w.heap w'.heap heap heap') (hout : out = w.state.print text)
    (hout' : out' = w'.state.print text) :
    Parallel K w w' K' { w with heap := heap, state := out } { w' with heap := heap', state := out' } where
  generator g g' := by
    rw [hheap.generator]
    exact (Parallel.refl h).generator g g'
  generators := Nat.add_comm ..
  allocation := hheap.allocation
  allocations := hheap.together
  cell := hheap.cell
  left := ⟨fun _ _ _ => rfl, Nat.le_refl _, hheap.left.1, hheap.left.2⟩
  right := ⟨fun _ _ _ => rfl, Nat.le_refl _, hheap.right, Correspondence.together_le hheap.together hheap.left.2⟩
  printed := ⟨text, hout, hout'⟩
  alike := by
    refine ⟨hheap.alike, fun {g g'} hg => ?_⟩
    rw [hheap.generator] at hg
    obtain ⟨x, x', hx, hx', hxx'⟩ := h.generators hg
    exact ⟨x, x', hx, hx', hxx'.mono hheap.grows⟩

end World

end YieldMachine
