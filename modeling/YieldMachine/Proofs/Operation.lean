import YieldMachine.Proofs.Drive.Move

/-!
Operations on the generators of a world and the worlds that they lead to. An invariant that fresh generators
have and all moves keep holds of every generator of every world that operations build up from nothing
(`LocalInvariant.reachable`), and during each advance (`LocalInvariant.reaches`).
-/

namespace YieldMachine

variable {H F S : Type}

/-- What a user does with generators. -/
inductive Operation (H S : Type) where
  | create (handle : H) (function : Function) (arguments : List Value)
  | next (g : GeneratorId)
  | tryNext (g : GeneratorId)
  | send (g : GeneratorId) (v : Value)
  | trySend (g : GeneratorId) (v : Value)
  | close (g : GeneratorId)
  | rewind (g : GeneratorId)
  | pairs (g : GeneratorId) (max : Nat)
  /-- Takes the lock of a shared generator, or gives it back. -/
  | setLock (g : GeneratorId) (b : Bool)
  /-- Anything that leaves the generators alone. -/
  | elsewhere (heap : Heap) (state : S)

inductive Answer where
  | done
  | created (g : GeneratorId)
  | moved (b : Bool)
  | tried (r : Except GeneratorError Bool)
  | rewound (r : Except GeneratorError Unit)
  | listed (ps : List (Value × Value))

namespace World

/-- Carries out an operation; none if its generator is missing or being driven, or if an advance does not
end within `fuel` steps. -/
def operate (E : Engine H F S) (fuel : Nat) (w : World H F S) :
    Operation H S → Option (Answer × World H F S)
  | .create handle f args => let (g, w) := w.create handle f args; some (.created g, w)
  | .next g => (w.advance E fuel g .next).map fun (w, r) => (.moved (produced r), w)
  | .tryNext g => (w.advance E fuel g .next).map fun (w, r) => (.tried r, w)
  | .send g v => (w.advance E fuel g (.send v)).map fun (w, r) => (.moved (produced r), w)
  | .trySend g v => (w.advance E fuel g (.send v)).map fun (w, r) => (.tried r, w)
  | .close g => some (.done, w.close E g)
  | .rewind g => (w.generator? g).map fun x => (.rewound x.rewind, w)
  | .pairs g max => (w.pairs E fuel g max).map fun (ps, w) => (.listed ps, w)
  | .setLock g b => some (.done, w.modify g (·.setLock b))
  | .elsewhere heap state => some (.done, { w with heap := heap, state := state })

/-- Finitely many operations lead from the first world to the second. -/
inductive Operated (E : Engine H F S) : World H F S → World H F S → Prop where
  | refl (w : World H F S) : Operated E w w
  | step {w w₁ w₂ : World H F S} {op : Operation H S} {fuel : Nat} {a : Answer}
      (h : Operated E w w₁) (ho : w₁.operate E fuel op = some (a, w₂)) : Operated E w w₂

/-- The worlds that operations build up from one without generators. -/
def Reachable (E : Engine H F S) (w : World H F S) : Prop :=
  ∃ heap state, Operated E ⟨heap, state, #[]⟩ w

end World

theorem World.open_cases {w : World H F S} {g : GeneratorId} {input : Input} {s : Drive.State H F S}
    (h : w.open? g input = some s) :
    ∃ x, w.generator? g = some x ∧ x.locked = false ∧
      s = (w.lock g, Drive.turnTo x g input.sent? []) := by
  rw [open?] at h
  split at h
  · next x hx =>
    split at h
    · cases h
    · next hl => exact ⟨x, hx, by simpa using hl, (Option.some.inj h).symm⟩
  · cases h

namespace Drive

variable {E : Engine H F S} {w w' : World H F S} {g : GeneratorId} {s s' : State H F S}

theorem Moves.getLast?_chain {d d' : Drive F} (h : Moves w d w' d') :
    d'.chain.getLast? = d.chain.getLast? := by
  rcases h.chain with heq | ⟨g, -, heq, -⟩ | heq
  · rw [heq]
  · rw [heq, Drive.chain, List.getLast?_cons_cons]
  · rw [heq, Drive.chain, List.getLast?_cons_cons]

/-- The drive of a call on `g`, which ends its chain. -/
structure OnCall (g : GeneratorId) (s : State H F S) : Prop where
  chained : s.2.Chained s.1
  last : s.2.chain.getLast? = some g

theorem OnCall.step (h : OnCall g s) (hs : Drive.step E s = .next s') : OnCall g s' := by
  obtain ⟨hc, hmoves⟩ := step_moves h.chained hs
  exact ⟨hc, hmoves.getLast?_chain.trans h.last⟩

theorem OnCall.reaches {n : Nat} (h : OnCall g s) (hr : Reaches (Drive.step E) s n s') :
    OnCall g s' :=
  hr.invariant h fun _ _ => OnCall.step

/-- Where a call on `g` returns, the drive is at `g` and unlocks it. -/
theorem OnCall.halt {r : Except GeneratorError Bool} (h : OnCall g s)
    (hs : Drive.step E s = .halt (w, r)) :
    s.2.current = g ∧ s.2.focus = .settled r ∧ s.2.waiting = [] ∧ w = s.1.unlock g := by
  obtain ⟨⟨hfocus, -⟩, hwaiting, hw⟩ := halt_cases hs
  have hcurrent : s.2.current = g := by simpa [chain, hwaiting] using h.last
  exact ⟨hcurrent, hfocus, hwaiting, hcurrent ▸ hw⟩

/-- When a call on `g` returns, `g` is unlocked. -/
theorem OnCall.unlocked {r : Except GeneratorError Bool} (h : OnCall g s)
    (hs : Drive.step E s = .halt (w, r)) : ∃ x, w.generator? g = some x ∧ x.locked = false := by
  obtain ⟨rfl, -, -, rfl⟩ := h.halt hs
  obtain ⟨x, hx, -⟩ := h.chained.current
  exact ⟨x.setLock false, by simp [hx], rfl⟩

end Drive

namespace World

variable {w : World H F S} {g : GeneratorId} {input : Input} {s : Drive.State H F S}

theorem open_chained (h : w.open? g input = some s) : s.2.Chained s.1 ∧ s.2.chain = [g] := by
  obtain ⟨x, hx, -, rfl⟩ := open_cases h
  have hchain : (Drive.turnTo x g input.sent? []).chain = [g] := by
    simp [Drive.chain, Drive.turnTo_current, Drive.turnTo_waiting]
  refine ⟨⟨?_, ?_, ?_⟩, hchain⟩
  · rw [hchain]
    exact List.nodup_cons.mpr ⟨List.not_mem_nil, List.nodup_nil⟩
  · intro g' hg'
    rw [hchain] at hg'
    obtain rfl := List.mem_singleton.mp hg'
    exact ⟨x.setLock true, by simp [hx], rfl⟩
  · intro l hl
    rw [Drive.turnTo_waiting] at hl
    cases hl

theorem open_onCall (h : w.open? g input = some s) : Drive.OnCall g s := by
  obtain ⟨hc, hchain⟩ := open_chained h
  exact ⟨hc, by rw [hchain]; rfl⟩

end World

/-- A property of generators, by role, that fresh ones have and every move keeps. -/
structure LocalInvariant (I : Role → Generator H F → Prop) : Prop where
  fresh : ∀ h f args, I .idle (.fresh h f args)
  move : ∀ {r x r' x'}, Move r x r' x' → I r x → I r' x'

namespace LocalInvariant

variable {E : Engine H F S} {w w' : World H F S} {g : GeneratorId} {x : Generator H F}
  {I : Role → Generator H F → Prop}

/-- The invariant of all generators of a world that nobody drives. -/
def Resting (I : Role → Generator H F → Prop) (w : World H F S) : Prop :=
  ∀ g x, w.generator? g = some x → I .idle x

/-- The invariant of all generators during a drive. -/
def Driven (I : Role → Generator H F → Prop) (s : Drive.State H F S) : Prop :=
  s.2.Chained s.1 ∧ ∀ g x, s.1.generator? g = some x → I (s.2.role g) x

theorem step (hI : LocalInvariant I) {s s' : Drive.State H F S} (h : Driven I s)
    (hs : Drive.step E s = .next s') : Driven I s' := by
  obtain ⟨hc, hall⟩ := h
  obtain ⟨hc', hmoves⟩ := Drive.step_moves hc hs
  refine ⟨hc', ?_⟩
  intro g x' hx'
  cases hx : s.1.generator? g with
  | some x =>
    obtain ⟨y, hy, hm⟩ := hmoves.old g x hx
    obtain rfl : y = x' := Option.some.inj (hy.symm.trans hx')
    exact hI.move hm (hall g x hx)
  | none =>
    obtain ⟨hrole, k, f, args, rfl⟩ := hmoves.new g x' hx hx'
    rw [hrole]
    exact hI.fresh k f args

theorem modify (h : Resting I w) (hm : ∀ x, w.generator? g = some x → I .idle x → I .idle (f x)) :
    Resting I (w.modify g f) := by
  intro g' x' hx'
  by_cases hg : g' = g
  · subst hg
    rw [World.generator?_modify_self] at hx'
    obtain ⟨x, hx, rfl⟩ := Option.map_eq_some_iff.mp hx'
    exact hm x hx (h g' x hx)
  · rw [World.generator?_modify_of_ne hg] at hx'
    exact h g' x' hx'

/-- An advance begins as a drive of one generator. -/
theorem opened (hI : LocalInvariant I) (h : Resting I w) {input : Input} {s : Drive.State H F S}
    (hs : w.open? g input = some s) : Driven I s := by
  refine ⟨(World.open_chained hs).1, ?_⟩
  obtain ⟨x, hx, -, rfl⟩ := World.open_cases hs
  intro g' y hy
  have hrole : (Drive.turnTo x g input.sent? []).role g' = .idle := by
    rw [Drive.role, Drive.turnTo_waiting, Drive.turnTo_role]
    split <;> rfl
  rw [hrole]
  exact modify h (fun y _ hy => hI.move (.lock y true) hy) g' y hy

/-- The invariant holds in every state that an advance passes through. -/
theorem reaches (hI : LocalInvariant I) (h : Resting I w) {input : Input} {n : Nat}
    {s s' : Drive.State H F S} (hs : w.open? g input = some s)
    (hr : Reaches (Drive.step E) s n s') : Driven I s' :=
  hr.invariant (hI.opened h hs) fun _ _ => hI.step

/-- Where an advance ends, its generator has settled with the result. -/
theorem ends (hI : LocalInvariant I) (h : Resting I w) {input : Input} {s : Drive.State H F S}
    {r : Except GeneratorError Bool} (hs : w.open? g input = some s)
    (he : Ends (Drive.step E) s (w', r)) :
    Resting I w' ∧ ∃ x, w'.generator? g = some (x.setLock false) ∧ I (.settled r) x := by
  obtain ⟨n, t, hreach, ht⟩ := he.reaches
  obtain ⟨hc, hall⟩ := hI.reaches h hs hreach
  obtain ⟨rfl, hfocus, hwaiting, rfl⟩ := ((World.open_onCall hs).reaches hreach).halt ht
  obtain ⟨x, hx, -⟩ := hc.current
  have hsettled : I (.settled r) x := by
    have hrole := hall _ x hx
    rwa [Drive.role_current, hfocus] at hrole
  refine ⟨?_, x, by simp [hx], hsettled⟩
  intro g' y hy
  by_cases hg : g' = t.2.current
  · subst hg
    rw [World.generator?_unlock_self, hx] at hy
    obtain rfl := Option.some.inj hy
    exact hI.move (.unlock r x) hsettled
  · rw [World.generator?_unlock_of_ne hg] at hy
    have hrole := hall g' y hy
    rwa [Drive.role, if_neg (Ne.symm hg), hwaiting] at hrole

theorem advance (hI : LocalInvariant I) (h : Resting I w) {fuel : Nat} {input : Input}
    {r : Except GeneratorError Bool} (ha : w.advance E fuel g input = some (w', r)) :
    Resting I w' := by
  obtain ⟨s, hs, hrun⟩ := Option.bind_eq_some_iff.mp ha
  exact (hI.ends h hs (ends_of_run hrun)).1

theorem mapPairs (hI : LocalInvariant I) {α : Type} {f : World H F S → Value → Value → α}
    {fuel max : Nat} {as : List α} (h : Resting I w)
    (ha : w.mapPairs E fuel f g max = some (as, w')) : Resting I w' := by
  induction max generalizing w as with
  | zero =>
    obtain ⟨-, rfl⟩ := Prod.mk.inj (Option.some.inj ha)
    exact h
  | succ max ih =>
    obtain ⟨⟨w₁, r⟩, hadvance, hrest⟩ := Option.bind_eq_some_iff.mp ha
    have h₁ := hI.advance h hadvance
    simp only at hrest
    split at hrest
    · obtain ⟨⟨bs, w₂⟩, hpairs, heq⟩ := Option.map_eq_some_iff.mp hrest
      obtain ⟨-, rfl⟩ := Prod.mk.inj heq
      exact ih h₁ hpairs
    · obtain ⟨-, rfl⟩ := Prod.mk.inj (Option.some.inj hrest)
      exact h₁

theorem close (hI : LocalInvariant I) (h : Resting I w) : Resting I (w.close E g) := by
  rw [World.close]
  split
  · next x hx =>
    split
    · exact h
    · next hf =>
      intro g' y hy
      by_cases hg : g' = g
      · subst hg
        rw [World.generator?_finish_self, hx] at hy
        obtain rfl := Option.some.inj hy
        exact hI.move (.close (by simpa using hf)) (h g' x hx)
      · rw [World.generator?_finish_of_ne E hg] at hy
        exact h g' y hy
  · exact h

theorem create (hI : LocalInvariant I) (h : Resting I w) (handle : H) (f : Function)
    (args : List Value) : Resting I (w.create handle f args).2 := by
  intro g' y hy
  rw [World.generator?_create] at hy
  split at hy
  · obtain rfl := Option.some.inj hy
    exact hI.fresh handle f args
  · exact h g' y hy

theorem operate (hI : LocalInvariant I) {fuel : Nat} {op : Operation H S} {a : Answer}
    (h : Resting I w) (ho : w.operate E fuel op = some (a, w')) : Resting I w' := by
  have hadvance (input : Input) (g : GeneratorId) (answer : Except GeneratorError Bool → Answer)
      (ho : (w.advance E fuel g input).map (fun (w, r) => (answer r, w)) = some (a, w')) :
      Resting I w' := by
    obtain ⟨⟨w₁, r⟩, hw₁, heq⟩ := Option.map_eq_some_iff.mp ho
    obtain ⟨-, rfl⟩ := Prod.mk.inj heq
    exact hI.advance h hw₁
  cases op with
  | create handle f args =>
    obtain ⟨-, rfl⟩ := Prod.mk.inj (Option.some.inj ho)
    exact hI.create h handle f args
  | next g => exact hadvance .next g (fun r => .moved (World.produced r)) ho
  | tryNext g => exact hadvance .next g .tried ho
  | send g v => exact hadvance (.send v) g (fun r => .moved (World.produced r)) ho
  | trySend g v => exact hadvance (.send v) g .tried ho
  | close g =>
    obtain ⟨-, rfl⟩ := Prod.mk.inj (Option.some.inj ho)
    exact hI.close h
  | rewind g =>
    obtain ⟨x, -, heq⟩ := Option.map_eq_some_iff.mp ho
    obtain ⟨-, rfl⟩ := Prod.mk.inj heq
    exact h
  | pairs g max =>
    obtain ⟨⟨ps, w₁⟩, hw₁, heq⟩ := Option.map_eq_some_iff.mp ho
    obtain ⟨-, rfl⟩ := Prod.mk.inj heq
    exact hI.mapPairs h hw₁
  | setLock g b =>
    obtain ⟨-, rfl⟩ := Prod.mk.inj (Option.some.inj ho)
    exact modify h fun y _ hy => hI.move (.lock y b) hy
  | elsewhere heap state =>
    obtain ⟨-, rfl⟩ := Prod.mk.inj (Option.some.inj ho)
    exact h

theorem operated (hI : LocalInvariant I) (h : Resting I w) (ho : World.Operated E w w') :
    Resting I w' := by
  induction ho with
  | refl => exact h
  | step _ hop ih => exact hI.operate ih hop

/-- The invariant holds of every generator of a reachable world. -/
theorem reachable (hI : LocalInvariant I) (hw : World.Reachable E w) : Resting I w := by
  obtain ⟨heap, state, ho⟩ := hw
  refine hI.operated ?_ ho
  intro g x hx
  simp [World.generator?] at hx

end LocalInvariant

end YieldMachine
