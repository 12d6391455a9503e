import YieldMachine.Machine.Basic
import YieldMachine.Proofs.Table.Coherence

/-!
What holds of every execution: the tables in it are coherent, and none of its frames awaits anything while
it runs. Instructions keep this up (`Machine.Sound.advance`), and they never ask for what only a paused
body asks for.
-/

namespace YieldMachine

/-- The table of a value, if it is one, is coherent. -/
def Value.Sound (v : Value) : Prop := ∀ id t, v = .array id t → t.Coherent

def Heap.Sound (h : Heap) : Prop := ∀ v ∈ h.cells, v.Sound

def Function.Sound (f : Function) : Prop := ∀ v ∈ f.constants, v.Sound

structure Frame.Sound (x : Frame) : Prop where
  function : x.function.Sound
  arguments : ∀ v ∈ x.arguments, v.Sound
  locals : ∀ v ∈ x.locals, v.Sound
  stack : ∀ v ∈ x.stack, v.Sound
  awaiting : x.awaiting = .nothing

def Execution.Sound (x : Execution) : Prop := ∀ frame ∈ x.frame :: x.callers, frame.Sound

def Machine.Sound (m : Machine) : Prop := ∀ id f, m.registry.get? id = some f → f.Sound

def Effect.Sound : Effect → Prop
  | .go frame | .echo _ frame | .yieldValue _ frame | .yieldPair _ _ frame => frame.Sound
  | .yieldFrom source frame => source.Sound ∧ frame.Sound
  | .call _ arguments frame => (∀ v ∈ arguments, v.Sound) ∧ frame.Sound
  | .ret v => v.Sound

/-- What the next instruction asks for: never to suspend, and nothing that a paused body asks for. -/
def Action.Sound : Action Nat Execution → Prop
  | .silent x | .yieldPair _ _ x | .yieldValue _ x | .create _ _ _ x => x.Sound
  | .delegate source x => source.Sound ∧ x.Sound
  | .finish _ | .fail _ => True
  | .askDelegating _ | .takeSent _ | .takeResult _ | .suspend _ => False

theorem ok_of_bind {ε α β : Type} {a : Except ε α} {f : α → Except ε β} {b : β}
    (h : a >>= f = .ok b) : ∃ x, a = .ok x ∧ f x = .ok b := by
  cases a with
  | error e => cases h
  | ok x => exact ⟨x, rfl, h⟩

namespace Value

theorem Sound.of_plain {v : Value} (h : v.asTable? = none) : v.Sound := by
  rintro id t rfl
  cases h

theorem sound_null : Value.null.Sound := .of_plain rfl

end Value

theorem Heap.Sound.deref {h : Heap} (hs : h.Sound) {v : Value} (hv : v.Sound) :
    (h.deref v).Sound := by
  cases v with
  | reference c =>
    rw [Heap.deref, Heap.target]
    cases hc : h.cells[c]? with
    | none => exact Value.sound_null
    | some u => exact hs u (Array.mem_of_getElem? hc)
  | _ => exact hv

namespace Frame

variable {x x' : Frame} {h h' : Heap} {v : Value}

theorem Sound.push (hx : x.Sound) (hv : v.Sound) : (x.push v).Sound :=
  ⟨hx.function, hx.arguments, hx.locals, List.forall_mem_cons.mpr ⟨hv, hx.stack⟩, hx.awaiting⟩

theorem sound_ofCall {f : Function} {args : List Value} (hf : f.Sound)
    (hargs : ∀ v ∈ args, v.Sound) : (ofCall f args).Sound := by
  refine ⟨hf, hargs, ?_, nofun, rfl⟩
  intro v hv
  obtain ⟨-, rfl⟩ := Array.mem_replicate.mp hv
  exact Value.sound_null

theorem Sound.pop (hx : x.Sound) (hp : x.pop = .ok (v, x')) : v.Sound ∧ x'.Sound := by
  rw [Frame.pop] at hp
  split at hp
  · next u rest hstack =>
    obtain ⟨rfl, rfl⟩ := Prod.mk.inj (Except.ok.inj hp)
    have hall := hstack ▸ hx.stack
    exact ⟨hall _ List.mem_cons_self, hx.function, hx.arguments, hx.locals,
      fun w hw => hall w (List.mem_cons_of_mem _ hw), hx.awaiting⟩
  · cases hp

theorem Sound.popMany (hx : x.Sound) {n : Nat} {vs : List Value}
    (hp : x.popMany n = .ok (vs, x')) : (∀ v ∈ vs, v.Sound) ∧ x'.Sound := by
  rw [Frame.popMany] at hp
  split at hp
  · obtain ⟨rfl, rfl⟩ := Prod.mk.inj (Except.ok.inj hp)
    refine ⟨?_, hx.function, hx.arguments, hx.locals, ?_, hx.awaiting⟩
    · intro w hw
      exact hx.stack w (List.mem_of_mem_take (List.mem_reverse.mp hw))
    · intro w hw
      exact hx.stack w (List.mem_of_mem_drop hw)
  · cases hp

theorem Sound.jump (hx : x.Sound) {target : Nat} (hj : x.jump target = .ok x') : x'.Sound := by
  rw [Frame.jump] at hj
  split at hj
  · obtain rfl := Except.ok.inj hj
    exact ⟨hx.function, hx.arguments, hx.locals, hx.stack, hx.awaiting⟩
  · cases hj

theorem Sound.store (hx : x.Sound) (hv : v.Sound) {i : Nat} (hs : x.store i v = .ok x') :
    x'.Sound := by
  rw [Frame.store] at hs
  split at hs
  · obtain rfl := Except.ok.inj hs
    refine ⟨hx.function, hx.arguments, ?_, hx.stack, hx.awaiting⟩
    intro w hw
    rcases Array.mem_or_eq_of_mem_setIfInBounds hw with hmem | rfl
    · exact hx.locals w hmem
    · exact hv
  · cases hs

/-- The results of a binary operation are no tables. -/
theorem Sound.binary (hx : x.Sound) {f : Value → Value → Except Fault Value}
    (hf : ∀ a b v, f a b = .ok v → v.asTable? = none) (hb : x.binary h f = .ok x') : x'.Sound := by
  obtain ⟨⟨b, x₁⟩, hpop, hb⟩ := ok_of_bind hb
  obtain ⟨⟨a, x₂⟩, hpop', hb⟩ := ok_of_bind hb
  obtain ⟨w, hw, hb⟩ := ok_of_bind hb
  obtain rfl := Except.ok.inj hb
  exact ((hx.pop hpop).2.pop hpop').2.push (.of_plain (hf _ _ _ hw))

/-- A change that keeps tables coherent. -/
theorem Sound.changeTop (hx : x.Sound) {operator : String}
    {f : Table Value → Except Fault (Table Value)}
    (hf : ∀ t t', f t = .ok t' → t.Coherent → t'.Coherent)
    (hc : x.changeTop h operator f = .ok (h', x')) : h'.cells = h.cells ∧ x'.Sound := by
  rw [Frame.changeTop] at hc
  split at hc
  · next id t rest hstack =>
    obtain ⟨t', ht', hc⟩ := ok_of_bind hc
    obtain ⟨rfl, rfl⟩ := Prod.mk.inj (Except.ok.inj hc)
    have hall := hstack ▸ hx.stack
    refine ⟨rfl, hx.function, hx.arguments, hx.locals, List.forall_mem_cons.mpr ⟨?_, ?_⟩, hx.awaiting⟩
    · intro id' u hu
      obtain ⟨-, rfl⟩ := Value.array.inj hu
      exact hf t t' ht' (hall _ List.mem_cons_self id t rfl)
    · exact fun w hw => hall w (List.mem_cons_of_mem _ hw)
  · cases hc
  · cases hc

end Frame

namespace Arithmetic

variable {a b v : Value}

theorem inFloats_plain {operator : String} {f : Binary64 → Binary64 → Value}
    (hf : ∀ x y, (f x y).asTable? = none) (h : inFloats operator f a b = .ok v) :
    v.asTable? = none := by
  rw [inFloats] at h
  split at h
  · exact Except.ok.inj h ▸ hf _ _
  · cases h

theorem add_plain (h : add a b = .ok v) : v.asTable? = none := by
  rw [add] at h
  split at h
  · exact Except.ok.inj h ▸ rfl
  · exact inFloats_plain (fun _ _ => rfl) h

theorem sub_plain (h : sub a b = .ok v) : v.asTable? = none := by
  rw [sub] at h
  split at h
  · exact Except.ok.inj h ▸ rfl
  · exact inFloats_plain (fun _ _ => rfl) h

theorem lt_plain (h : lt a b = .ok v) : v.asTable? = none := by
  unfold lt at h
  split at h
  · exact Except.ok.inj h ▸ rfl
  · exact Except.ok.inj h ▸ rfl
  · exact inFloats_plain (fun _ _ => rfl) h

theorem eq_plain (h : eq a b = .ok v) : v.asTable? = none := Except.ok.inj h ▸ rfl

end Arithmetic

namespace Frame

variable {x x' : Frame} {h h' : Heap}

theorem Sound.append (hx : x.Sound) (ha : x.append h = .ok (h', x')) :
    h'.cells = h.cells ∧ x'.Sound := by
  obtain ⟨⟨v, x₁⟩, hpop, ha⟩ := ok_of_bind ha
  refine (hx.pop hpop).2.changeTop ?_ ha
  intro t t' ht hcoherent
  cases hpush : t.push? v with
  | none => simp [hpush] at ht
  | some p =>
    obtain ⟨n, u⟩ := p
    simp only [hpush] at ht
    obtain rfl := Except.ok.inj ht
    exact hcoherent.push hpush

theorem Sound.insert (hx : x.Sound) (hi : x.insert h = .ok (h', x')) :
    h'.cells = h.cells ∧ x'.Sound := by
  obtain ⟨⟨v, x₁⟩, hpop, hi⟩ := ok_of_bind hi
  obtain ⟨⟨offset, x₂⟩, hpop', hi⟩ := ok_of_bind hi
  simp only at hi
  split at hi
  · next k hk =>
    refine ((hx.pop hpop).2.pop hpop').2.changeTop ?_ hi
    intro t t' ht hcoherent
    exact Except.ok.inj ht ▸ hcoherent.insert k v
  · cases hi

/-- An instruction that only changes its frame. -/
theorem effect_go {a : Except Fault Frame} {effect : Effect} (ha : ∀ x', a = .ok x' → x'.Sound)
    (he : (do let x' ← a; return (h, Effect.go x')) = Except.ok (h', effect)) :
    h'.cells = h.cells ∧ effect.Sound := by
  obtain ⟨x', hx', he⟩ := ok_of_bind he
  obtain ⟨rfl, rfl⟩ := Prod.mk.inj (Except.ok.inj he)
  exact ⟨rfl, ha x' hx'⟩

/-- Every instruction keeps frames sound and the heap's cells as they are. -/
theorem Sound.execute (hx : x.Sound) {i : Instruction} (hi : ∀ v, i.constant? = some v → v.Sound)
    {effect : Effect} (he : x.execute h i = .ok (h', effect)) :
    h'.cells = h.cells ∧ effect.Sound := by
  cases i with
  | const v =>
    obtain ⟨rfl, rfl⟩ := Prod.mk.inj (Except.ok.inj he)
    exact ⟨rfl, hx.push (hi v rfl)⟩
  | loadArg i =>
    simp only [Frame.execute] at he
    split at he
    · next v hv =>
      obtain ⟨rfl, rfl⟩ := Prod.mk.inj (Except.ok.inj he)
      exact ⟨rfl, hx.push (hx.arguments v (List.mem_of_getElem? hv))⟩
    · cases he
  | loadLocal i =>
    simp only [Frame.execute] at he
    split at he
    · next v hv =>
      obtain ⟨rfl, rfl⟩ := Prod.mk.inj (Except.ok.inj he)
      exact ⟨rfl, hx.push (hx.locals v (Array.mem_of_getElem? hv))⟩
    · cases he
  | storeLocal i =>
    obtain ⟨⟨v, x₁⟩, hpop, he⟩ := ok_of_bind he
    exact effect_go (fun _ => (hx.pop hpop).2.store (hx.pop hpop).1) he
  | pop =>
    obtain ⟨⟨v, x₁⟩, hpop, he⟩ := ok_of_bind he
    obtain ⟨rfl, rfl⟩ := Prod.mk.inj (Except.ok.inj he)
    exact ⟨rfl, (hx.pop hpop).2⟩
  | dup =>
    obtain ⟨⟨v, x₁⟩, hpop, he⟩ := ok_of_bind he
    obtain ⟨rfl, rfl⟩ := Prod.mk.inj (Except.ok.inj he)
    exact ⟨rfl, hx.push (hx.pop hpop).1⟩
  | add => exact effect_go (fun _ => hx.binary fun _ _ _ => Arithmetic.add_plain) he
  | sub => exact effect_go (fun _ => hx.binary fun _ _ _ => Arithmetic.sub_plain) he
  | lt => exact effect_go (fun _ => hx.binary fun _ _ _ => Arithmetic.lt_plain) he
  | eq => exact effect_go (fun _ => hx.binary fun _ _ _ => Arithmetic.eq_plain) he
  | jump target => exact effect_go (fun _ => hx.jump) he
  | jumpIfFalse target =>
    obtain ⟨⟨v, x₁⟩, hpop, he⟩ := ok_of_bind he
    simp only at he
    split at he
    · obtain ⟨rfl, rfl⟩ := Prod.mk.inj (Except.ok.inj he)
      exact ⟨rfl, (hx.pop hpop).2⟩
    · exact effect_go (fun _ => (hx.pop hpop).2.jump) he
  | newArray =>
    obtain ⟨rfl, rfl⟩ := Prod.mk.inj (Except.ok.inj he)
    refine ⟨rfl, hx.push ?_⟩
    intro id t ht
    obtain ⟨-, rfl⟩ := Value.array.inj ht
    exact .empty
  | arrayPush =>
    obtain ⟨⟨h₁, x₁⟩, happend, he⟩ := ok_of_bind he
    obtain ⟨rfl, rfl⟩ := Prod.mk.inj (Except.ok.inj he)
    exact hx.append happend
  | arraySet =>
    obtain ⟨⟨h₁, x₁⟩, hinsert, he⟩ := ok_of_bind he
    obtain ⟨rfl, rfl⟩ := Prod.mk.inj (Except.ok.inj he)
    exact hx.insert hinsert
  | yield =>
    obtain ⟨⟨v, x₁⟩, hpop, he⟩ := ok_of_bind he
    obtain ⟨rfl, rfl⟩ := Prod.mk.inj (Except.ok.inj he)
    exact ⟨rfl, (hx.pop hpop).2⟩
  | yieldPair =>
    obtain ⟨⟨v, x₁⟩, hpop, he⟩ := ok_of_bind he
    obtain ⟨⟨k, x₂⟩, hpop', he⟩ := ok_of_bind he
    obtain ⟨rfl, rfl⟩ := Prod.mk.inj (Except.ok.inj he)
    exact ⟨rfl, ((hx.pop hpop).2.pop hpop').2⟩
  | yieldFrom =>
    obtain ⟨⟨source, x₁⟩, hpop, he⟩ := ok_of_bind he
    obtain ⟨rfl, rfl⟩ := Prod.mk.inj (Except.ok.inj he)
    exact ⟨rfl, hx.pop hpop⟩
  | instantiate f n =>
    obtain ⟨⟨args, x₁⟩, hpop, he⟩ := ok_of_bind he
    obtain ⟨rfl, rfl⟩ := Prod.mk.inj (Except.ok.inj he)
    exact ⟨rfl, hx.popMany hpop⟩
  | echo =>
    obtain ⟨⟨v, x₁⟩, hpop, he⟩ := ok_of_bind he
    obtain ⟨rfl, rfl⟩ := Prod.mk.inj (Except.ok.inj he)
    exact ⟨rfl, (hx.pop hpop).2⟩
  | ret =>
    obtain ⟨rfl, rfl⟩ := Prod.mk.inj (Except.ok.inj he)
    refine ⟨rfl, ?_⟩
    cases hstack : x.stack with
    | nil => exact Value.sound_null
    | cons v rest => exact hx.stack v (hstack ▸ List.mem_cons_self)
  | throw message => cases he

end Frame

namespace Execution

variable {x : Execution} {v : Value}

theorem Sound.frame (hx : x.Sound) : x.frame.Sound := hx _ List.mem_cons_self

theorem Sound.withFrame (hx : x.Sound) {frame : Frame} (hframe : frame.Sound) :
    Execution.Sound { x with frame := frame } := by
  intro y hy
  rcases List.mem_cons.mp hy with rfl | hy
  · exact hframe
  · exact hx y (List.mem_cons_of_mem _ hy)

theorem Sound.push (hx : x.Sound) (hv : v.Sound) : (x.push v).Sound :=
  hx.withFrame (hx.frame.push hv)

theorem Sound.tick (hx : x.Sound) : x.tick.Sound := hx

theorem Sound.ret (hx : x.Sound) (hv : v.Sound) : (x.ret v).Sound := by
  rw [Execution.ret]
  cases hcallers : x.callers with
  | nil => trivial
  | cons caller rest =>
    have hall : ∀ frame ∈ x.frame :: caller :: rest, frame.Sound := by
      rw [← hcallers]
      exact hx
    intro y hy
    rcases List.mem_cons.mp hy with rfl | hy
    · exact (hall caller (List.mem_cons_of_mem _ List.mem_cons_self)).push hv
    · exact hall y (List.mem_cons_of_mem _ (List.mem_cons_of_mem _ hy))

end Execution

namespace Machine

variable {m : Machine} {x : Execution}

theorem Sound.call (hm : m.Sound) (hx : x.Sound) (id : FunctionId) {args : List Value}
    (hargs : ∀ v ∈ args, v.Sound) : (m.call x id args).Sound := by
  rw [Machine.call]
  split
  · trivial
  · next f hf =>
    split
    · trivial
    · split
      · exact hx
      · intro y hy
        rcases List.mem_cons.mp hy with rfl | hy
        · exact Frame.sound_ofCall (hm id f hf) hargs
        · exact hx y hy

theorem Sound.apply (hm : m.Sound) (hx : x.Sound) (out : Output) {effect : Effect}
    (he : effect.Sound) : (m.apply out x effect).2.Sound := by
  cases effect with
  | go frame => exact hx.withFrame he
  | echo text frame => exact hx.withFrame he
  | yieldValue v frame => exact hx.withFrame he
  | yieldPair k v frame => exact hx.withFrame he
  | yieldFrom source frame => exact ⟨he.1, hx.withFrame he.2⟩
  | call f args frame => exact hm.call (hx.withFrame he.2) f he.1
  | ret v => exact hx.ret he

/-- One instruction keeps an execution sound and the heap's cells as they are. -/
theorem Sound.advance (hm : m.Sound) (hx : x.Sound) (heap : Heap) (out : Output) :
    (m.advance heap out x).1.cells = heap.cells ∧ (m.advance heap out x).2.2.Sound := by
  rw [Machine.advance]
  cases hi : x.frame.instruction? with
  | none => exact ⟨rfl, hx.ret Value.sound_null⟩
  | some i =>
    have hconst (v : Value) (hv : i.constant? = some v) : v.Sound := by
      refine hx.frame.function v (List.mem_filterMap.mpr ⟨i, ?_, hv⟩)
      exact Array.mem_toList_iff.mpr (Array.mem_of_getElem? hi)
    simp only
    split
    · exact ⟨rfl, trivial⟩
    · split
      · exact ⟨rfl, trivial⟩
      · next heap' effect he =>
        have hframe : ({ x.frame with pc := x.frame.pc + 1 } : Frame).Sound :=
          ⟨hx.frame.function, hx.frame.arguments, hx.frame.locals, hx.frame.stack, hx.frame.awaiting⟩
        obtain ⟨hcells, heffect⟩ := hframe.execute hconst he
        exact ⟨hcells, hm.apply hx.tick out heffect⟩

end Machine

end YieldMachine
