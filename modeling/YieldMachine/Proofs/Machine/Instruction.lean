import YieldMachine.Machine.Basic

/-!
What instructions have in common. An instruction keeps the activation that runs it, its counter within the body,
and only the yield instructions ask to pause the body. If it fails, it does so by none of the machine's limits, and
by an underflow only if the stack held fewer values than it needs (`Frame.execute_settles`). The limits are the
machine's own, checked before or by the calls that an instruction asks for (`Machine.advances`). So an underflow
that the machine reports names the function of the innermost frame and the instruction at its counter
(`Machine.step_underflow`).
-/

namespace YieldMachine

/-- Faults by which the machine cuts a run short. -/
def Fault.isLimit : Fault → Bool
  | .budgetExceeded _ | .callDepthExceeded _ => true
  | _ => false

/-- The fault or the result, whichever there is, is as it should be. -/
def Settles {α : Type} (P : Fault → Prop) (Q : α → Prop) : Except Fault α → Prop
  | .error f => P f
  | .ok a => Q a

theorem Settles.bind {α β : Type} {P : Fault → Prop} {Q : α → Prop} {R : β → Prop}
    {a : Except Fault α} {f : α → Except Fault β} (ha : Settles P Q a)
    (hf : ∀ b, Q b → Settles P R (f b)) : Settles P R (a >>= f) := by
  cases a with
  | error e => exact ha
  | ok b => exact hf b ha

theorem Settles.imp {α : Type} {P P' : Fault → Prop} {Q Q' : α → Prop} {a : Except Fault α} (ha : Settles P Q a)
    (hP : ∀ e, P e → P' e) (hQ : ∀ b, Q b → Q' b) : Settles P' Q' a := by
  cases a with
  | error e => exact hP e ha
  | ok b => exact hQ b ha

namespace Instruction

/-- How many values an instruction needs on the stack. -/
def operands : Instruction → Nat
  | .const _ | .loadArg _ | .loadLocal _ | .jump _ | .newArray | .ret | .throw _ => 0
  | .storeLocal _ | .pop | .dup | .jumpIfFalse _ | .yield | .yieldFrom | .echo => 1
  | .add | .sub | .lt | .eq | .arrayPush | .yieldPair => 2
  | .arraySet => 3
  | .instantiate _ count => count

/-- What a body that pauses at an instruction awaits. -/
def awaits : Instruction → Awaiting
  | .yield | .yieldPair => .sent
  | .yieldFrom => .delegationResult
  | _ => .nothing

theorem isYield_iff (i : Instruction) : i.isYield = true ↔ i.awaits ≠ .nothing := by
  cases i <;> simp [isYield, awaits]

end Instruction

namespace Effect

/-- The frame that goes on, if the instruction did not return. -/
def frame? : Effect → Option Frame
  | .go frame | .echo _ frame | .yieldValue _ frame | .yieldPair _ _ frame => some frame
  | .yieldFrom _ frame | .call _ _ frame => some frame
  | .ret _ => none

def isYield : Effect → Bool
  | .yieldValue .. | .yieldPair .. | .yieldFrom .. => true
  | _ => false

/-- What a body that pauses for an effect awaits. -/
def awaits : Effect → Awaiting
  | .yieldValue .. | .yieldPair .. => .sent
  | .yieldFrom .. => .delegationResult
  | .go _ | .echo .. | .call .. | .ret _ => .nothing

theorem isYield_iff (e : Effect) : e.isYield = true ↔ e.awaits ≠ .nothing := by
  cases e <;> simp [isYield, awaits]

end Effect

namespace Frame

variable {x y : Frame} {k n : Nat}

/-- Both frames are the same activation, and await the same. -/
structure Stays (x y : Frame) : Prop where
  function : y.function = x.function
  arguments : y.arguments = x.arguments
  locals : y.locals.size = x.locals.size
  awaiting : y.awaiting = x.awaiting

/-- The frame `x` becomes `y` by giving `k` of its values. -/
structure Gives (x : Frame) (k : Nat) (y : Frame) : Prop extends Stays x y where
  pc : y.pc = x.pc
  stack : y.stack.length + k = x.stack.length

theorem gives_zero (x : Frame) : x.Gives 0 x := ⟨⟨rfl, rfl, rfl, rfl⟩, rfl, rfl⟩

/-- A fault of an instruction of `x` that needs `n` values, when the counter has passed it: no limit, and an
underflow only if `x` has fewer values. -/
structure Faults (x : Frame) (n : Nat) (e : Fault) : Prop where
  regular : e.isLimit = false
  short : ∀ name pc, e = .stackUnderflow name pc →
    name = x.function.name ∧ pc = x.pc - 1 ∧ x.stack.length < n

/-! ### Parts of instructions -/

theorem underflow_faults (h : x.Gives k y) (hy : y.stack = []) (hn : k < n) : x.Faults n y.underflow := by
  have hstack := h.stack
  rw [hy, List.length_nil] at hstack
  refine ⟨rfl, ?_⟩
  intro name pc he
  rw [underflow, h.function, h.pc] at he
  cases he
  exact ⟨rfl, rfl, by omega⟩

theorem pop_settles (h : x.Gives k y) (hn : k < n) :
    Settles (x.Faults n) (fun p => x.Gives (k + 1) p.2) y.pop := by
  unfold pop
  split
  · next v rest hy =>
    have hstack := h.stack
    rw [hy, List.length_cons] at hstack
    exact ⟨⟨h.function, h.arguments, h.locals, h.awaiting⟩, h.pc, by simp only; omega⟩
  · next hy => exact underflow_faults h hy hn

theorem popMany_settles (x : Frame) (n : Nat) :
    Settles (x.Faults n) (fun p => x.Gives n p.2) (x.popMany n) := by
  unfold popMany
  split
  · next hle =>
    refine ⟨⟨rfl, rfl, rfl, rfl⟩, rfl, ?_⟩
    simp only [List.length_drop]
    omega
  · next hle =>
    refine ⟨rfl, ?_⟩
    intro name pc he
    cases he
    exact ⟨rfl, rfl, by omega⟩

theorem jump_settles (h : x.Stays y) (target : Nat) :
    Settles (x.Faults n) (fun z => x.Stays z ∧ z.pc ≤ x.function.body.size) (y.jump target) := by
  unfold jump
  split
  · next hle => exact ⟨⟨h.function, h.arguments, h.locals, h.awaiting⟩, h.function ▸ hle⟩
  · exact ⟨rfl, nofun⟩

theorem store_settles (h : x.Gives k y) (i : Nat) (v : Value) :
    Settles (x.Faults n) (fun z => x.Gives k z) (y.store i v) := by
  unfold store
  split
  · refine ⟨⟨h.function, h.arguments, ?_, h.awaiting⟩, h.pc, h.stack⟩
    rw [← h.locals]
    exact Array.size_setIfInBounds
  · exact ⟨rfl, nofun⟩

/-- An operator that fails does so by a mismatch of types. -/
abbrev Mismatches (r : Except Fault Value) : Prop :=
  Settles (fun e => ∃ operator left right, e = .typeMismatch operator left right) (fun _ => True) r

theorem inFloats_mismatches (operator : String) (g : Binary64 → Binary64 → Value) (a b : Value) :
    Mismatches (Arithmetic.inFloats operator g a b) := by
  unfold Arithmetic.inFloats
  split
  · trivial
  · exact ⟨_, _, _, rfl⟩

theorem add_mismatches (a b : Value) : Mismatches (Arithmetic.add a b) := by
  unfold Arithmetic.add
  split
  · trivial
  · exact inFloats_mismatches ..

theorem sub_mismatches (a b : Value) : Mismatches (Arithmetic.sub a b) := by
  unfold Arithmetic.sub
  split
  · trivial
  · exact inFloats_mismatches ..

theorem lt_mismatches (a b : Value) : Mismatches (Arithmetic.lt a b) := by
  unfold Arithmetic.lt
  split
  · trivial
  · trivial
  · exact inFloats_mismatches ..

theorem eq_mismatches (a b : Value) : Mismatches (Arithmetic.eq a b) := trivial

theorem Mismatches.faults {r : Except Fault Value} (h : Mismatches r) : Settles (x.Faults n) (fun _ => True) r := by
  cases r with
  | ok v => trivial
  | error e =>
    obtain ⟨operator, left, right, rfl⟩ := h
    exact ⟨rfl, nofun⟩

theorem binary_settles (x : Frame) (h : Heap) {g : Value → Value → Except Fault Value}
    (hg : ∀ a b, Mismatches (g a b)) :
    Settles (x.Faults 2) (fun z => x.Stays z ∧ z.pc = x.pc) (x.binary h g) := by
  unfold binary
  apply (pop_settles x.gives_zero (Nat.zero_lt_two)).bind
  intro p hp
  apply (pop_settles hp Nat.one_lt_two).bind
  intro q hq
  apply (hg _ _).faults.bind
  intro v _
  exact ⟨⟨hq.function, hq.arguments, hq.locals, hq.awaiting⟩, hq.pc⟩

theorem changeTop_settles (h : x.Gives k y) (hn : k < n) (heap : Heap) (operator : String)
    {g : Table Value → Except Fault (Table Value)} (hg : ∀ t, Settles (x.Faults n) (fun _ => True) (g t)) :
    Settles (x.Faults n) (fun p => x.Stays p.2 ∧ p.2.pc = x.pc) (y.changeTop heap operator g) := by
  unfold changeTop
  split
  · apply (hg _).bind
    intro t _
    exact ⟨⟨h.function, h.arguments, h.locals, h.awaiting⟩, h.pc⟩
  · exact ⟨rfl, nofun⟩
  · next hy => exact underflow_faults h hy hn

theorem append_settles (x : Frame) (h : Heap) :
    Settles (x.Faults 2) (fun p => x.Stays p.2 ∧ p.2.pc = x.pc) (x.append h) := by
  unfold append
  apply (pop_settles x.gives_zero Nat.zero_lt_two).bind
  intro p hp
  apply changeTop_settles hp Nat.one_lt_two
  intro t
  split
  · trivial
  · exact ⟨rfl, nofun⟩

theorem insert_settles (x : Frame) (h : Heap) :
    Settles (x.Faults 3) (fun p => x.Stays p.2 ∧ p.2.pc = x.pc) (x.insert h) := by
  unfold insert
  apply (pop_settles x.gives_zero (by omega)).bind
  intro p hp
  apply (pop_settles hp (by omega)).bind
  intro q hq
  simp only
  split
  · apply changeTop_settles hq (by omega)
    intro t
    trivial
  · exact ⟨rfl, nofun⟩

/-! ### Whole instructions -/

/-- What an instruction of the frame `x` comes to: the frame that goes on is the same activation, its counter is
left alone or has jumped within the body, and the body pauses as the instruction says. -/
structure Follows (x : Frame) (i : Instruction) (e : Effect) : Prop where
  stays : ∀ y, e.frame? = some y → x.Stays y
  pc : ∀ y, e.frame? = some y → y.pc = x.pc ∨ e = .go y ∧ y.pc ≤ x.function.body.size
  awaits : e.awaits = i.awaits

theorem follows_of_frame {i : Instruction} {e : Effect} (he : e.frame? = some y) (ha : e.awaits = i.awaits)
    (hy : x.Stays y) (hpc : y.pc = x.pc) : x.Follows i e := by
  refine ⟨?_, ?_, ha⟩
  · intro z hz
    obtain rfl := Option.some.inj (he.symm.trans hz)
    exact hy
  · intro z hz
    obtain rfl := Option.some.inj (he.symm.trans hz)
    exact .inl hpc

theorem follows_of_jump {i : Instruction} (ha : i.awaits = .nothing) (hy : x.Stays y)
    (hpc : y.pc ≤ x.function.body.size) : x.Follows i (.go y) := by
  refine ⟨?_, ?_, ha.symm⟩
  · rintro z ⟨⟩
    exact hy
  · rintro z ⟨⟩
    exact .inr ⟨rfl, hpc⟩

theorem stays_push (h : x.Stays y) (v : Value) : x.Stays (y.push v) :=
  ⟨h.function, h.arguments, h.locals, h.awaiting⟩

/-- Every instruction reports an underflow only for want of its operands, and keeps its activation. -/
theorem execute_settles (x : Frame) (h : Heap) (i : Instruction) :
    Settles (x.Faults i.operands) (fun p => x.Follows i p.2) (x.execute h i) := by
  have hself := x.gives_zero
  have hpush (v : Value) : x.Stays (x.push v) := stays_push hself.toStays v
  -- Most instructions pop one value first.
  have hpop : Settles (x.Faults 1) (fun p => x.Gives 1 p.2) x.pop := pop_settles hself Nat.zero_lt_one
  cases i with
  | const v => exact follows_of_frame rfl rfl (hpush v) rfl
  | loadArg i =>
    rw [execute]
    split
    · next v hv => exact follows_of_frame rfl rfl (hpush v) rfl
    · exact ⟨rfl, nofun⟩
  | loadLocal i =>
    rw [execute]
    split
    · next v hv => exact follows_of_frame rfl rfl (hpush v) rfl
    · exact ⟨rfl, nofun⟩
  | storeLocal i =>
    apply hpop.bind
    intro p hp
    apply (store_settles hp i p.1).bind
    intro z hz
    exact follows_of_frame rfl rfl hz.toStays hz.pc
  | pop =>
    apply hpop.bind
    intro p hp
    exact follows_of_frame rfl rfl hp.toStays hp.pc
  | dup =>
    apply hpop.bind
    intro p hp
    exact follows_of_frame rfl rfl (hpush p.1) rfl
  | add =>
    apply (binary_settles x h add_mismatches).bind
    intro z hz
    exact follows_of_frame rfl rfl hz.1 hz.2
  | sub =>
    apply (binary_settles x h sub_mismatches).bind
    intro z hz
    exact follows_of_frame rfl rfl hz.1 hz.2
  | lt =>
    apply (binary_settles x h lt_mismatches).bind
    intro z hz
    exact follows_of_frame rfl rfl hz.1 hz.2
  | eq =>
    apply (binary_settles x h eq_mismatches).bind
    intro z hz
    exact follows_of_frame rfl rfl hz.1 hz.2
  | jump target =>
    apply (jump_settles hself.toStays target).bind
    intro z hz
    exact follows_of_jump rfl hz.1 hz.2
  | jumpIfFalse target =>
    apply hpop.bind
    intro p hp
    simp only
    split
    · exact follows_of_frame rfl rfl hp.toStays hp.pc
    · apply (jump_settles hp.toStays target).bind
      intro z hz
      exact follows_of_jump rfl hz.1 hz.2
  | newArray => exact follows_of_frame rfl rfl (hpush _) rfl
  | arrayPush =>
    apply (append_settles x h).bind
    intro p hp
    exact follows_of_frame rfl rfl hp.1 hp.2
  | arraySet =>
    apply (insert_settles x h).bind
    intro p hp
    exact follows_of_frame rfl rfl hp.1 hp.2
  | yield =>
    apply hpop.bind
    intro p hp
    exact follows_of_frame rfl rfl hp.toStays hp.pc
  | yieldPair =>
    apply (pop_settles hself Nat.zero_lt_two).bind
    intro p hp
    apply (pop_settles hp Nat.one_lt_two).bind
    intro q hq
    exact follows_of_frame rfl rfl hq.toStays hq.pc
  | yieldFrom =>
    apply hpop.bind
    intro p hp
    exact follows_of_frame rfl rfl hp.toStays hp.pc
  | instantiate f count =>
    apply (popMany_settles x count).bind
    intro p hp
    exact follows_of_frame rfl rfl hp.toStays hp.pc
  | echo =>
    apply hpop.bind
    intro p hp
    exact follows_of_frame rfl rfl hp.toStays hp.pc
  | ret => exact ⟨nofun, nofun, rfl⟩
  | throw message => exact ⟨rfl, nofun⟩

/-- What an instruction leaves as it was: the function of its frame; and it pauses if it is a yield. -/
structure Keeps (f : Function) (i : Instruction) (e : Effect) : Prop where
  function : ∀ y, e.frame? = some y → y.function = f
  isYield : e.isYield = i.isYield

/-- Every instruction keeps the function of its frame and fails by no limit. -/
theorem execute_regular {f : Function} (hx : x.function = f) (h : Heap) (i : Instruction) :
    Settles (fun e => e.isLimit = false) (fun p => Keeps f i p.2) (x.execute h i) := by
  apply (execute_settles x h i).imp
  · intro e he
    exact he.regular
  · intro p hp
    refine ⟨fun y hy => (hp.stays y hy).function.trans hx, ?_⟩
    rw [Bool.eq_iff_iff, Effect.isYield_iff, hp.awaits, Instruction.isYield_iff]

/-- The instruction at `pc` of the function of this name is next in the frame, and needs more values than there
are. -/
structure Lacks (x : Frame) (name : String) (pc : Nat) : Prop where
  function : x.function.name = name
  next : x.pc = pc
  within : pc < x.function.body.size
  short : ∃ i, x.function.body[pc]? = some i ∧ x.stack.length < i.operands

end Frame

namespace Machine

/-- What running the next instruction comes to. -/
inductive Advances (m : Machine) (heap : Heap) (out : Output) (x : Execution) :
    Heap × Output × Action Nat Execution → Prop where
  | ends (hi : x.frame.instruction? = none) : Advances m heap out x (heap, out, x.ret .null)
  | exceeds {i : Instruction} {b : Nat} (hi : x.frame.instruction? = some i)
      (hb : m.exceeded? x.tick = some b) :
      Advances m heap out x (heap, out, .fail (.fault (.budgetExceeded b)))
  | faults {i : Instruction} {f : Fault} (hi : x.frame.instruction? = some i)
      (hb : m.exceeded? x.tick = none)
      (he : ({ x.frame with pc := x.frame.pc + 1 } : Frame).execute heap i = .error f)
      (hf : f.isLimit = false) : Advances m heap out x (heap, out, .fail (.fault f))
  | executes {i : Instruction} {heap' : Heap} {e : Effect} (hi : x.frame.instruction? = some i)
      (hb : m.exceeded? x.tick = none)
      (he : ({ x.frame with pc := x.frame.pc + 1 } : Frame).execute heap i = .ok (heap', e))
      (hk : Frame.Keeps x.frame.function i e) :
      Advances m heap out x (heap', m.apply out x.tick e)

theorem advances (m : Machine) (heap : Heap) (out : Output) (x : Execution) :
    m.Advances heap out x (m.advance heap out x) := by
  rw [advance]
  cases hi : x.frame.instruction? with
  | none => exact .ends hi
  | some i =>
    simp only
    cases hb : m.exceeded? x.tick with
    | some b => exact .exceeds hi hb
    | none =>
      have hregular := Frame.execute_regular (x := { x.frame with pc := x.frame.pc + 1 })
        (f := x.frame.function) rfl heap i
      simp only
      cases he : ({ x.frame with pc := x.frame.pc + 1 } : Frame).execute heap i with
      | error f =>
        rw [he] at hregular
        simp only [Execution.tick, he]
        exact .faults hi hb he hregular
      | ok p =>
        rw [he] at hregular
        simp only [Execution.tick, he]
        exact .executes hi hb he hregular

/-! ### Underflows -/

variable {m : Machine} {heap : Heap} {out : Output} {x : Execution} {reply : Reply} {name : String} {pc : Nat}

theorem ret_ne_fail (x : Execution) (v : Value) (e : BodyError) : x.ret v ≠ .fail e := by
  unfold Execution.ret
  split <;> exact nofun

theorem call_ne_underflow (m : Machine) (x : Execution) (id : FunctionId) (args : List Value) :
    m.call x id args ≠ .fail (.fault (.stackUnderflow name pc)) := by
  unfold call
  split
  · exact nofun
  · split
    · exact nofun
    · split <;> exact nofun

/-- An underflow is reported where an instruction begins, and it names this instruction. -/
theorem step_underflow (h : (m.step heap out x reply).2.2 = .fail (.fault (.stackUnderflow name pc))) :
    reply = .proceed ∧ x.frame.Lacks name pc := by
  cases reply with
  | proceed =>
    refine ⟨rfl, ?_⟩
    change (m.advance heap out x).2.2 = _ at h
    have hcases := m.advances heap out x
    generalize m.advance heap out x = result at hcases h
    cases hcases with
    | ends hi => exact (ret_ne_fail _ _ _ h).elim
    | exceeds hi hb => cases h
    | @faults i f hi hb he hf =>
      cases h
      have hfaults := Frame.execute_settles { x.frame with pc := x.frame.pc + 1 } heap i
      rw [he] at hfaults
      obtain ⟨rfl, rfl, hlength⟩ := hfaults.short _ _ rfl
      obtain ⟨hwithin, -⟩ := Array.getElem?_eq_some_iff.mp hi
      exact ⟨rfl, rfl, hwithin, i, hi, hlength⟩
    | @executes i heap' e hi hb he hk =>
      cases e with
      | call f args y => exact (call_ne_underflow _ _ _ _ h).elim
      | ret v => exact (ret_ne_fail _ _ _ h).elim
      | go | echo | yieldValue | yieldPair | yieldFrom => cases h
  | resume =>
    simp only [step, wake] at h
    split at h <;> cases h
  | delegating active => cases active <;> cases h
  | reported | accepted | refused e | value v => cases h

end Machine

end YieldMachine
