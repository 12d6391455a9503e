import YieldMachine.Machine.Basic
import YieldMachine.Proofs.Likeness.Value
import YieldMachine.Proofs.Machine.Limits

/-!
Executions that differ in names only. Run on stores that are alike by a correspondence, alike executions take
alike steps: they print the same, fail alike, and make new allocations at the same time, which from then on stand
for each other (`Machine.step_alike`). The functions that they run are the same ones, so a constant has to stand for
itself.
-/

namespace YieldMachine

/-- The constants of a function stand for themselves. -/
def Function.Inert (K : Correspondence) (f : Function) : Prop := ∀ v ∈ f.constants, v.Alike K v

abbrev ValuesAlike (K : Correspondence) : List Value → List Value → Prop := List.Forall₂ (Value.Alike K)

structure Frame.Alike (K : Correspondence) (x x' : Frame) : Prop where
  function : x'.function = x.function
  inert : x.function.Inert K
  arguments : ValuesAlike K x.arguments x'.arguments
  locals : ValuesAlike K x.locals.toList x'.locals.toList
  stack : ValuesAlike K x.stack x'.stack
  pc : x'.pc = x.pc
  awaiting : x'.awaiting = x.awaiting

structure Execution.Alike (K : Correspondence) (x x' : Execution) : Prop where
  steps : x'.steps = x.steps
  depth : x'.depth = x.depth
  frame : x.frame.Alike K x'.frame
  callers : List.Forall₂ (Frame.Alike K) x.callers x'.callers

inductive Effect.Alike (K : Correspondence) : Effect → Effect → Prop where
  | go {x x' : Frame} (hx : x.Alike K x') : Alike K (.go x) (.go x')
  | echo {x x' : Frame} (text : String) (hx : x.Alike K x') : Alike K (.echo text x) (.echo text x')
  | yieldValue {v v' : Value} {x x' : Frame} (hv : v.Alike K v') (hx : x.Alike K x') :
      Alike K (.yieldValue v x) (.yieldValue v' x')
  | yieldPair {k k' v v' : Value} {x x' : Frame} (hk : k.Alike K k') (hv : v.Alike K v')
      (hx : x.Alike K x') : Alike K (.yieldPair k v x) (.yieldPair k' v' x')
  | yieldFrom {v v' : Value} {x x' : Frame} (hv : v.Alike K v') (hx : x.Alike K x') :
      Alike K (.yieldFrom v x) (.yieldFrom v' x')
  | call {args args' : List Value} {x x' : Frame} (f : FunctionId) (hargs : ValuesAlike K args args')
      (hx : x.Alike K x') : Alike K (.call f args x) (.call f args' x')
  | ret {v v' : Value} (hv : v.Alike K v') : Alike K (.ret v) (.ret v')

inductive Reply.Alike (K : Correspondence) : Reply → Reply → Prop where
  | value {v v' : Value} (hv : v.Alike K v') : Alike K (.value v) (.value v')
  | proceed : Alike K .proceed .proceed
  | resume : Alike K .resume .resume
  | reported : Alike K .reported .reported
  | accepted : Alike K .accepted .accepted
  | refused (e : DelegationError) : Alike K (.refused e) (.refused e)
  | delegating (active : Bool) : Alike K (.delegating active) (.delegating active)

inductive Action.Alike (K : Correspondence) : Action Nat Execution → Action Nat Execution → Prop where
  | silent {x x' : Execution} (hx : x.Alike K x') : Alike K (.silent x) (.silent x')
  | yieldPair {k k' v v' : Value} {x x' : Execution} (hk : k.Alike K k') (hv : v.Alike K v')
      (hx : x.Alike K x') : Alike K (.yieldPair k v x) (.yieldPair k' v' x')
  | yieldValue {v v' : Value} {x x' : Execution} (hv : v.Alike K v') (hx : x.Alike K x') :
      Alike K (.yieldValue v x) (.yieldValue v' x')
  | delegate {v v' : Value} {x x' : Execution} (hv : v.Alike K v') (hx : x.Alike K x') :
      Alike K (.delegate v x) (.delegate v' x')
  | askDelegating {x x' : Execution} (hx : x.Alike K x') : Alike K (.askDelegating x) (.askDelegating x')
  | takeSent {x x' : Execution} (hx : x.Alike K x') : Alike K (.takeSent x) (.takeSent x')
  | takeResult {x x' : Execution} (hx : x.Alike K x') : Alike K (.takeResult x) (.takeResult x')
  | create {f : Function} {args args' : List Value} {x x' : Execution} (depth : Nat) (hf : f.Inert K)
      (hargs : ValuesAlike K args args') (hx : x.Alike K x') :
      Alike K (.create depth f args x) (.create depth f args' x')
  | suspend {x x' : Execution} (hx : x.Alike K x') : Alike K (.suspend x) (.suspend x')
  | finish {v v' : Value} (hv : v.Alike K v') : Alike K (.finish v) (.finish v')
  | fail (e : BodyError) : Alike K (.fail e) (.fail e)

/-! ### Lists side by side -/

section Lists

variable {α β : Type} {R : α → β → Prop} {as : List α} {bs : List β}

theorem forall₂_getElem? (h : List.Forall₂ R as bs) (n : Nat) :
    (as[n]? = none ∧ bs[n]? = none) ∨ ∃ a b, as[n]? = some a ∧ bs[n]? = some b ∧ R a b := by
  induction h generalizing n with
  | nil => exact .inl ⟨rfl, rfl⟩
  | cons h _ ih =>
    cases n with
    | zero => exact .inr ⟨_, _, rfl, rfl, h⟩
    | succ n => exact ih n

theorem forall₂_imp_mem {Q : α → β → Prop} (h : List.Forall₂ R as bs)
    (hRQ : ∀ a ∈ as, ∀ b, R a b → Q a b) : List.Forall₂ Q as bs := by
  induction h with
  | nil => exact .nil
  | cons h _ ih =>
    exact .cons (hRQ _ List.mem_cons_self _ h) (ih fun a ha => hRQ a (List.mem_cons_of_mem _ ha))

theorem forall₂_set {a : α} {b : β} (h : List.Forall₂ R as bs) (hab : R a b) (n : Nat) :
    List.Forall₂ R (as.set n a) (bs.set n b) := by
  induction h generalizing n with
  | nil => exact .nil
  | cons h hs ih =>
    cases n with
    | zero => exact .cons hab hs
    | succ n => exact .cons h (ih n)

end Lists

/-! ### Other correspondences

Another correspondence does as well if it does for the constants and for the values. -/

section Imp

variable {K K' : Correspondence}

theorem Function.Inert.mono {f : Function} (hK : K.GrowsTo K') (h : f.Inert K) : f.Inert K' :=
  fun v hv => (h v hv).mono hK

theorem ValuesAlike.mono {vs vs' : List Value} (hK : K.GrowsTo K') (h : ValuesAlike K vs vs') :
    ValuesAlike K' vs vs' :=
  h.imp fun _ _ hv => hv.mono hK

theorem Frame.Alike.imp {x x' : Frame} (h : x.Alike K x') (hf : x.function.Inert K → x.function.Inert K')
    (hv : ∀ v ∈ x.values, ∀ v', v.Alike K v' → v.Alike K' v') : x.Alike K' x' where
  function := h.function
  inert := hf h.inert
  arguments := forall₂_imp_mem h.arguments fun v hm => hv v (by simp [Frame.values, hm])
  locals := forall₂_imp_mem h.locals fun v hm => hv v (by simp [Frame.values, Array.mem_toList_iff.mp hm])
  stack := forall₂_imp_mem h.stack fun v hm => hv v (by simp [Frame.values, hm])
  pc := h.pc
  awaiting := h.awaiting

theorem Frame.Alike.mono {x x' : Frame} (hK : K.GrowsTo K') (h : x.Alike K x') : x.Alike K' x' :=
  h.imp (·.mono hK) fun _ _ _ hv => hv.mono hK

theorem Reply.Alike.mono {r r' : Reply} (hK : K.GrowsTo K') (h : r.Alike K r') : r.Alike K' r' := by
  cases h with
  | value hv => exact .value (hv.mono hK)
  | proceed => exact .proceed
  | resume => exact .resume
  | reported => exact .reported
  | accepted => exact .accepted
  | refused e => exact .refused e
  | delegating active => exact .delegating active

theorem Execution.Alike.imp {x x' : Execution} (h : x.Alike K x')
    (hf : ∀ y ∈ x.frame :: x.callers, y.function.Inert K → y.function.Inert K')
    (hv : ∀ v ∈ x.values, ∀ v', v.Alike K v' → v.Alike K' v') : x.Alike K' x' where
  steps := h.steps
  depth := h.depth
  frame := by
    refine h.frame.imp (hf _ List.mem_cons_self) fun v hm => hv v ?_
    exact List.mem_flatMap.mpr ⟨_, List.mem_cons_self, hm⟩
  callers := by
    refine forall₂_imp_mem h.callers fun y hy y' hyy' => ?_
    refine hyy'.imp (hf y (List.mem_cons_of_mem _ hy)) fun v hm => hv v ?_
    exact List.mem_flatMap.mpr ⟨y, List.mem_cons_of_mem _ hy, hm⟩

theorem Execution.Alike.mono {x x' : Execution} (hK : K.GrowsTo K') (h : x.Alike K x') : x.Alike K' x' :=
  ⟨h.steps, h.depth, h.frame.mono hK, h.callers.imp fun _ _ hx => hx.mono hK⟩

end Imp

/-! ### Results side by side -/

/-- The same fault, or related results. -/
def ResultsAlike {α β : Type} (R : α → β → Prop) : Except Fault α → Except Fault β → Prop
  | .error f, .error f' => f = f'
  | .ok a, .ok b => R a b
  | _, _ => False

theorem ResultsAlike.bind {α β α' β' : Type} {R : α → α' → Prop} {Q : β → β' → Prop} {a : Except Fault α}
    {a' : Except Fault α'} {f : α → Except Fault β} {f' : α' → Except Fault β'} (h : ResultsAlike R a a')
    (hf : ∀ b b', R b b' → ResultsAlike Q (f b) (f' b')) : ResultsAlike Q (a >>= f) (a' >>= f') := by
  cases a with
  | error e =>
    cases a' with
    | error e' => exact h
    | ok b' => cases h
  | ok b =>
    cases a' with
    | error e' => cases h
    | ok b' => exact hf b b' h

/-- Heaps before and after a step that may have made allocations: each new one stands for one of the other heap. -/
structure Heap.Allocates (K K' : Correspondence) (h h' h₁ h₁' : Heap) : Prop where
  grows : K.GrowsTo K'
  generator : K'.generator = K.generator
  cell : K'.cell = K.cell
  left : h₁.cells = h.cells ∧ h.nextAllocation ≤ h₁.nextAllocation
  right : h₁'.cells = h'.cells
  together : h₁.nextAllocation + h'.nextAllocation = h₁'.nextAllocation + h.nextAllocation
  allocation : ∀ i i', K'.allocation i i' ↔
    K.allocation i i' ∨ Correspondence.shifted h.nextAllocation h'.nextAllocation h₁.nextAllocation i i'
  alike : h₁.Alike K' h₁'

namespace Heap

variable {K : Correspondence} {h h' : Heap}

theorem Alike.allocates (hh : h.Alike K h') : Allocates K K h h' h h' :=
  ⟨.refl K, rfl, rfl, ⟨rfl, Nat.le_refl _⟩, rfl, Nat.add_comm ..,
    fun _ _ => ⟨.inl, fun hi => hi.resolve_right Correspondence.shifted_none⟩, hh⟩

/-- Two new tables stand for each other. -/
theorem Alike.newArray (hh : h.Alike K h') {t t' : Table Value} (ht : t.Alike K t') :
    ∃ K', Allocates K K' h h' (h.newArray t).2 (h'.newArray t').2 ∧
      (h.newArray t).1.Alike K' (h'.newArray t').1 := by
  have hgrows := K.growsTo_allocate hh.allocations
  refine ⟨K.allocate h.nextAllocation h'.nextAllocation hh.allocations, ⟨hgrows, rfl, rfl,
    ⟨rfl, Nat.le_succ _⟩, rfl, ?_, fun i i' => or_congr_right Correspondence.shifted_one.symm,
    fun hc => (hh.cells hc).mono hgrows, ?_⟩, .ofTable (.inr ⟨rfl, rfl⟩) (ht.mono hgrows)⟩
  · exact Correspondence.together_one ..
  · rintro i i' (hi | ⟨rfl, rfl⟩)
    · obtain ⟨hlt, hlt'⟩ := hh.allocations i i' hi
      exact ⟨Nat.lt_succ_of_lt hlt, Nat.lt_succ_of_lt hlt'⟩
    · exact ⟨Nat.lt_succ_self _, Nat.lt_succ_self _⟩

end Heap

/-! ### Instructions -/

namespace Frame

variable {K : Correspondence} {x x' : Frame} {h h' : Heap} {v v' : Value}

namespace Alike

theorem withStack (hx : x.Alike K x') {vs vs' : List Value} (hvs : ValuesAlike K vs vs') :
    Frame.Alike K { x with stack := vs } { x' with stack := vs' } :=
  ⟨hx.function, hx.inert, hx.arguments, hx.locals, hvs, hx.pc, hx.awaiting⟩

theorem push (hx : x.Alike K x') (hv : v.Alike K v') : (x.push v).Alike K (x'.push v') :=
  hx.withStack (.cons hv hx.stack)

theorem underflow (hx : x.Alike K x') : x.underflow = x'.underflow := by
  rw [Frame.underflow, Frame.underflow, hx.function, hx.pc]

theorem pop (hx : x.Alike K x') :
    ResultsAlike (fun p p' => p.1.Alike K p'.1 ∧ p.2.Alike K p'.2) x.pop x'.pop := by
  have hstack := hx.stack
  rw [Frame.pop, Frame.pop]
  generalize x.stack = vs, x'.stack = vs' at hstack
  cases hstack with
  | nil => exact hx.underflow
  | cons hv hvs => exact ⟨hv, hx.withStack hvs⟩

theorem popMany (hx : x.Alike K x') (n : Nat) :
    ResultsAlike (fun p p' => ValuesAlike K p.1 p'.1 ∧ p.2.Alike K p'.2) (x.popMany n) (x'.popMany n) := by
  rw [Frame.popMany, Frame.popMany, ← hx.stack.length_eq]
  split
  · exact ⟨List.rel_reverse (List.forall₂_take n hx.stack), hx.withStack (List.forall₂_drop n hx.stack)⟩
  · exact hx.underflow

theorem jump (hx : x.Alike K x') (target : Nat) :
    ResultsAlike (Frame.Alike K) (x.jump target) (x'.jump target) := by
  rw [Frame.jump, Frame.jump, hx.function]
  split
  · exact ⟨rfl, hx.inert, hx.arguments, hx.locals, hx.stack, rfl, hx.awaiting⟩
  · rfl

theorem store (hx : x.Alike K x') (hv : v.Alike K v') (i : Nat) :
    ResultsAlike (Frame.Alike K) (x.store i v) (x'.store i v') := by
  have hsize : x.locals.size = x'.locals.size := by simpa using hx.locals.length_eq
  rw [Frame.store, Frame.store, hsize, hx.function]
  split
  · refine ⟨rfl, hx.inert, hx.arguments, ?_, hx.stack, hx.pc, hx.awaiting⟩
    simpa using forall₂_set hx.locals hv i
  · rfl

/-- An operator on two values that does not tell alike ones apart. -/
theorem binary (hx : x.Alike K x') (hh : h.Alike K h') {f : Value → Value → Except Fault Value}
    (hf : ∀ {a a' b b'}, a.Alike K a' → b.Alike K b' → f a b = f a' b')
    (hatom : ∀ a b v, f a b = .ok v → v.isAtom = true) :
    ResultsAlike (Frame.Alike K) (x.binary h f) (x'.binary h' f) := by
  refine hx.pop.bind fun ⟨b, y⟩ ⟨b', y'⟩ hp => hp.2.pop.bind fun ⟨a, z⟩ ⟨a', z'⟩ hq => ?_
  simp only
  rw [← hf (hh.deref hq.1) (hh.deref hp.1)]
  cases hv : f (h.deref a) (h.deref b) with
  | error e => rfl
  | ok v => exact hq.2.push (.atom (hatom _ _ _ hv))

/-- The change of a table that is made a new one. -/
theorem changeTop (hx : x.Alike K x') (hh : h.Alike K h') (operator : String)
    {f f' : Table Value → Except Fault (Table Value)}
    (hf : ∀ {t t' : Table Value}, t.Alike K t' → ResultsAlike (Table.Alike K) (f t) (f' t')) :
    ResultsAlike (fun p p' => ∃ K', Heap.Allocates K K' h h' p.1 p'.1 ∧ p.2.Alike K' p'.2)
      (x.changeTop h operator f) (x'.changeTop h' operator f') := by
  have hstack := hx.stack
  rw [Frame.changeTop, Frame.changeTop]
  generalize x.stack = vs, x'.stack = vs' at hstack
  cases hstack with
  | nil => exact hx.underflow
  | @cons v v' vs vs' hv hvs =>
    cases hv with
    | array hi hindex hcursor hkeys hvalues =>
      refine (hf ⟨entriesAlike_of_values hkeys hvalues, hindex, hcursor⟩).bind fun t t' ht => ?_
      obtain ⟨K', hK', hv⟩ := hh.newArray ht
      exact ⟨K', hK', (hx.mono hK'.grows).withStack (.cons hv (ValuesAlike.mono hK'.grows hvs))⟩
    | @atom v hatom => cases v <;> first | rfl | cases hatom
    | _ => rfl

theorem append (hx : x.Alike K x') (hh : h.Alike K h') :
    ResultsAlike (fun p p' => ∃ K', Heap.Allocates K K' h h' p.1 p'.1 ∧ p.2.Alike K' p'.2)
      (x.append h) (x'.append h') := by
  refine hx.pop.bind fun p p' hp => hp.2.changeTop hh "[]" fun {t t'} ht => ?_
  rw [Table.push?, Table.push?, ht.nextIndex]
  cases t'.nextIndex? with
  | none => rfl
  | some n => exact ht.insert hp.1 _

theorem insert (hx : x.Alike K x') (hh : h.Alike K h') :
    ResultsAlike (fun p p' => ∃ K', Heap.Allocates K K' h h' p.1 p'.1 ∧ p.2.Alike K' p'.2)
      (x.insert h) (x'.insert h') := by
  refine hx.pop.bind fun ⟨v, y⟩ ⟨v', y'⟩ hp => hp.2.pop.bind fun ⟨k, z⟩ ⟨k', z'⟩ hq => ?_
  simp only
  rw [hh.key hq.1]
  cases h'.key? k' with
  | none => exact congrArg Fault.invalidArrayKey hq.1.typeName
  | some key => exact hq.2.changeTop hh "[]=" fun ht => ht.insert hp.1 key

end Alike

/-- Alike frames execute an instruction alike. -/
theorem execute_alike (hx : x.Alike K x') (hh : h.Alike K h') (i : Instruction)
    (hi : ∀ v, i = .const v → v.Alike K v) :
    ResultsAlike (fun p p' => ∃ K', Heap.Allocates K K' h h' p.1 p'.1 ∧ p.2.Alike K' p'.2)
      (x.execute h i) (x'.execute h' i) := by
  have hsame {e e' : Effect} (he : e.Alike K e') :
      ∃ K', Heap.Allocates K K' h h' h h' ∧ e.Alike K' e' := ⟨K, hh.allocates, he⟩
  have hgo {y y' : Frame} (hy : y.Alike K y') := hsame (.go hy)
  cases i with
  | const v => exact hgo (hx.push (hi v rfl))
  | loadArg i =>
    rw [execute, execute]
    rcases forall₂_getElem? hx.arguments i with ⟨hv, hv'⟩ | ⟨v, v', hv, hv', halike⟩
    · rw [hv, hv', hx.function]
      rfl
    · rw [hv, hv']
      exact hgo (hx.push halike)
  | loadLocal i =>
    rw [execute, execute, ← Array.getElem?_toList, ← Array.getElem?_toList]
    rcases forall₂_getElem? hx.locals i with ⟨hv, hv'⟩ | ⟨v, v', hv, hv', halike⟩
    · rw [hv, hv', hx.function]
      rfl
    · rw [hv, hv']
      exact hgo (hx.push halike)
  | storeLocal i => exact hx.pop.bind fun p p' hp => (hp.2.store hp.1 i).bind fun y y' hy => hgo hy
  | pop => exact hx.pop.bind fun p p' hp => hgo hp.2
  | dup => exact hx.pop.bind fun p p' hp => hgo (hx.push hp.1)
  | add =>
    exact (hx.binary hh Arithmetic.add_alike Arithmetic.add_isAtom).bind fun y y' hy => hgo hy
  | sub =>
    exact (hx.binary hh Arithmetic.sub_alike Arithmetic.sub_isAtom).bind fun y y' hy => hgo hy
  | lt =>
    exact (hx.binary hh Arithmetic.lt_alike Arithmetic.lt_isAtom).bind fun y y' hy => hgo hy
  | eq =>
    exact (hx.binary hh Arithmetic.eq_alike Arithmetic.eq_isAtom).bind fun y y' hy => hgo hy
  | jump target => exact (hx.jump target).bind fun y y' hy => hgo hy
  | jumpIfFalse target =>
    refine hx.pop.bind ?_
    rintro ⟨v, y⟩ ⟨v', y'⟩ hp
    simp only
    rw [hh.isTruthy hp.1]
    split
    · exact hgo hp.2
    · exact (hp.2.jump target).bind fun z z' hz => hgo hz
  | newArray =>
    obtain ⟨K', hK', hv⟩ := hh.newArray (.empty K)
    exact ⟨K', hK', .go ((hx.mono hK'.grows).push hv)⟩
  | arrayPush =>
    refine (hx.append hh).bind ?_
    rintro p p' ⟨K', hK', hp⟩
    exact ⟨K', hK', .go hp⟩
  | arraySet =>
    refine (hx.insert hh).bind ?_
    rintro p p' ⟨K', hK', hp⟩
    exact ⟨K', hK', .go hp⟩
  | yield => exact hx.pop.bind fun p p' hp => hsame (.yieldValue hp.1 hp.2)
  | yieldPair =>
    exact hx.pop.bind fun p p' hp => hp.2.pop.bind fun q q' hq => hsame (.yieldPair hq.1 hp.1 hq.2)
  | yieldFrom => exact hx.pop.bind fun p p' hp => hsame (.yieldFrom hp.1 hp.2)
  | instantiate f n => exact (hx.popMany n).bind fun p p' hp => hsame (.call f hp.1 hp.2)
  | echo =>
    refine hx.pop.bind ?_
    rintro ⟨v, y⟩ ⟨v', y'⟩ hp
    simp only
    rw [hh.display hp.1]
    exact hsame (.echo _ hp.2)
  | ret =>
    have hstack := hx.stack
    refine hsame (.ret ?_)
    generalize x.stack = vs, x'.stack = vs' at hstack
    cases hstack with
    | nil => exact .null K
    | cons hv hvs => exact hv
  | throw message => rfl

end Frame

/-! ### Steps of the machine -/

namespace Machine

variable {m : Machine} {K : Correspondence} {x x' : Execution} {heap heap' : Heap} {out out' : Output}

/-- The constants of the machine's functions stand for themselves. -/
def Inert (K : Correspondence) (m : Machine) : Prop := ∀ id f, m.registry.get? id = some f → f.Inert K

theorem Inert.mono {K' : Correspondence} (hK : K.GrowsTo K') (h : m.Inert K) : m.Inert K' :=
  fun id f hf => (h id f hf).mono hK

theorem ofCall_alike {f : Function} {args args' : List Value} (hf : f.Inert K)
    (hargs : ValuesAlike K args args') : (Frame.ofCall f args).Alike K (.ofCall f args') := by
  refine ⟨rfl, hf, hargs, ?_, .nil, rfl, rfl⟩
  refine List.forall₂_same.mpr fun v hv => ?_
  rw [Frame.ofCall, Array.toList_replicate] at hv
  obtain rfl := List.eq_of_mem_replicate hv
  exact .null K

theorem withFrame_alike (hx : x.Alike K x') {y y' : Frame} (hy : y.Alike K y') :
    Execution.Alike K { x with frame := y } { x' with frame := y' } :=
  ⟨hx.steps, hx.depth, hy, hx.callers⟩

theorem ret_alike (hx : x.Alike K x') {v v' : Value} (hv : v.Alike K v') :
    (x.ret v).Alike K (x'.ret v') := by
  have hcallers := hx.callers
  rw [Execution.ret, Execution.ret]
  generalize x.callers = frames, x'.callers = frames' at hcallers
  cases hcallers with
  | nil => exact .finish hv
  | cons hy hys => exact .silent ⟨hx.steps, congrArg (· - 1) hx.depth, hy.push hv, hys⟩

theorem call_alike (hm : m.Inert K) (hx : x.Alike K x') (id : FunctionId) {args args' : List Value}
    (hargs : ValuesAlike K args args') : (m.call x id args).Alike K (m.call x' id args') := by
  rw [call, call, hx.depth]
  cases hf : m.registry.get? id with
  | none => exact .fail _
  | some f =>
    simp only
    split
    · exact .fail _
    · split
      · exact .create _ (hm id f hf) hargs hx
      · exact .silent ⟨hx.steps, rfl, ofCall_alike (hm id f hf) hargs, .cons hx.frame hx.callers⟩

/-- Steps that print the same and go on alike, perhaps after new allocations. -/
def StepsAlike (K : Correspondence) (heap heap' : Heap) (out out' : Output)
    (p p' : Heap × Output × Action Nat Execution) : Prop :=
  ∃ K' text, Heap.Allocates K K' heap heap' p.1 p'.1 ∧ p.2.1 = out.print text ∧
    p'.2.1 = out'.print text ∧ p.2.2.Alike K' p'.2.2

theorem stepsAlike_silently (hh : heap.Alike K heap') {a a' : Action Nat Execution} (ha : a.Alike K a') :
    StepsAlike K heap heap' out out' (heap, out, a) (heap', out', a') :=
  ⟨K, "", hh.allocates, (Output.print_empty out).symm, (Output.print_empty out').symm, ha⟩

theorem apply_alike (hm : m.Inert K) (hx : x.Alike K x') {e e' : Effect} (he : e.Alike K e')
    (out out' : Output) : ∃ text, (m.apply out x e).1 = out.print text ∧
      (m.apply out' x' e').1 = out'.print text ∧ (m.apply out x e).2.Alike K (m.apply out' x' e').2 := by
  have hnothing : out = out.print "" ∧ out' = out'.print "" :=
    ⟨(Output.print_empty out).symm, (Output.print_empty out').symm⟩
  cases he with
  | go hy => exact ⟨"", hnothing.1, hnothing.2, .silent (withFrame_alike hx hy)⟩
  | echo text hy => exact ⟨text, rfl, rfl, .silent (withFrame_alike hx hy)⟩
  | yieldValue hv hy => exact ⟨"", hnothing.1, hnothing.2, .yieldValue hv (withFrame_alike hx hy)⟩
  | yieldPair hk hv hy => exact ⟨"", hnothing.1, hnothing.2, .yieldPair hk hv (withFrame_alike hx hy)⟩
  | yieldFrom hv hy => exact ⟨"", hnothing.1, hnothing.2, .delegate hv (withFrame_alike hx hy)⟩
  | call f hargs hy => exact ⟨"", hnothing.1, hnothing.2, call_alike hm (withFrame_alike hx hy) f hargs⟩
  | ret hv => exact ⟨"", hnothing.1, hnothing.2, ret_alike hx hv⟩

theorem constant_alike (hx : x.Alike K x') {i : Instruction} (hi : x.frame.instruction? = some i) (v : Value)
    (hv : i = .const v) : v.Alike K v := by
  refine hx.frame.inert v (List.mem_filterMap.mpr ⟨i, ?_, ?_⟩)
  · exact Array.mem_toList_iff.mpr (Array.mem_of_getElem? hi)
  · rw [hv]
    rfl

theorem advance_alike (hm : m.Inert K) (hh : heap.Alike K heap') (hx : x.Alike K x') :
    StepsAlike K heap heap' out out' (m.advance heap out x) (m.advance heap' out' x') := by
  have hinstruction : x'.frame.instruction? = x.frame.instruction? := by
    rw [Frame.instruction?, Frame.instruction?, hx.frame.function, hx.frame.pc]
  rw [advance, advance, hinstruction]
  cases hi : x.frame.instruction? with
  | none => exact stepsAlike_silently hh (ret_alike hx (.null K))
  | some i =>
    have htick : x.tick.Alike K x'.tick :=
      ⟨by rw [Execution.tick, Execution.tick, hx.steps], hx.depth, hx.frame, hx.callers⟩
    have hexceeded : m.exceeded? x'.tick = m.exceeded? x.tick := by
      rw [exceeded?, exceeded?, htick.steps]
    simp only [hexceeded]
    cases m.exceeded? x.tick with
    | some b => exact stepsAlike_silently hh (.fail _)
    | none =>
      have hpassed : Frame.Alike K { x.frame with pc := x.frame.pc + 1 } { x'.frame with pc := x'.frame.pc + 1 } :=
        ⟨hx.frame.function, hx.frame.inert, hx.frame.arguments, hx.frame.locals, hx.frame.stack,
          congrArg (· + 1) hx.frame.pc, hx.frame.awaiting⟩
      have hexecute := Frame.execute_alike hpassed hh i (constant_alike hx hi)
      simp only [Execution.tick] at hexecute ⊢
      cases he : ({ x.frame with pc := x.frame.pc + 1 } : Frame).execute heap i <;>
        cases he' : ({ x'.frame with pc := x'.frame.pc + 1 } : Frame).execute heap' i <;>
        rw [he, he'] at hexecute
      case error.error f f' =>
        obtain rfl : f = f' := hexecute
        exact stepsAlike_silently hh (.fail _)
      case ok.ok p p' =>
        obtain ⟨K', hK', heffect⟩ := hexecute
        obtain ⟨text, htext, htext', haction⟩ :=
          apply_alike (hm.mono hK'.grows) (htick.mono hK'.grows) heffect out out'
        exact ⟨K', text, hK', htext, htext', haction⟩
      all_goals cases hexecute

/-- Alike executions take alike steps. -/
theorem step_alike (m : Machine) (out out' : Output) (hm : m.Inert K) (hh : heap.Alike K heap')
    (hx : x.Alike K x') {reply reply' : Reply} (hr : reply.Alike K reply') :
    StepsAlike K heap heap' out out' (m.step heap out x reply) (m.step heap' out' x' reply') := by
  have hawait (a : Awaiting) : (x.await a).Alike K (x'.await a) :=
    withFrame_alike hx ⟨hx.frame.function, hx.frame.inert, hx.frame.arguments, hx.frame.locals,
      hx.frame.stack, hx.frame.pc, rfl⟩
  cases hr with
  | proceed => exact advance_alike hm hh hx
  | resume =>
    refine stepsAlike_silently hh ?_
    rw [wake, wake, hx.frame.awaiting]
    cases x.frame.awaiting with
    | nothing => exact .silent hx
    | sent => exact .takeSent (hawait _)
    | delegationResult => exact .takeResult (hawait _)
  | reported => exact stepsAlike_silently hh (.suspend (hawait _))
  | accepted => exact stepsAlike_silently hh (.askDelegating hx)
  | refused e => exact stepsAlike_silently hh (.fail _)
  | delegating active =>
    cases active with
    | true => exact stepsAlike_silently hh (.suspend (hawait _))
    | false => exact stepsAlike_silently hh (.takeResult hx)
  | value hv => exact stepsAlike_silently hh (.silent (withFrame_alike hx (hx.frame.push hv)))

end Machine

end YieldMachine
