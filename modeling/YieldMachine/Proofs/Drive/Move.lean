import YieldMachine.Proofs.Transition
import YieldMachine.Proofs.World.Update
import YieldMachine.World.Drive

/-!
What a drive can do to one generator. The generators of a drive form a chain of distinct, locked generators
(`Chained`), each in some `Role`. One step of the drive changes every generator by one `Move` and keeps the
chain (`step_moves`), so whatever all moves keep holds of every generator throughout a drive.
-/

namespace YieldMachine

variable {H F S : Type}

/-- Where a generator stands: it waits for whoever will turn to it, its body is being run, or it has just
been advanced with this result. -/
inductive Role where
  | idle
  | running
  | settled (result : Except GeneratorError Bool)

/-- A change that a drive, or someone outside, makes to a generator. -/
inductive Move : Role → Generator H F → Role → Generator H F → Prop where
  | stay (r : Role) (x : Generator H F) : Move r x r x
  | lock (x : Generator H F) (b : Bool) : Move .idle x .idle (x.setLock b)
  | rest (result : Except GeneratorError Bool) (x : Generator H F) : Move (.settled result) x .idle x
  | unlock (result : Except GeneratorError Bool) (x : Generator H F) :
      Move (.settled result) x .idle (x.setLock false)
  | spent {x : Generator H F} (hf : x.isFinished = true) : Move .idle x (.settled (.ok false)) x
  | start {x : Generator H F} (hf : x.isFinished = false) (hd : x.delegation = none)
      (hs : x.isStarted = false) : Move .idle x .running x.begin
  | resume {x : Generator H F} {frame : F} (hf : x.isFinished = false) (hd : x.delegation = none)
      (hs : x.isStarted = true) (hp : x.lifecycle.suspended = true) (hx : x.frame = some frame)
      (sent : Option Value) : Move .idle x .running (x.deliver sent).release
  | walk {x : Generator H F} {t : Table Value} {pending : List Key} {k v : Value} {rest : List Key}
      (hf : x.isFinished = false) (hd : x.delegation = some (.table t pending))
      (hv : Delegation.visit t pending = some ((k, v), rest)) :
      Move .idle x (.settled (.ok true)) ({ x with delegation := some (.table t rest) }.setPair k v)
  | forward {x : Generator H F} {c : GeneratorId} (hf : x.isFinished = false)
      (hd : x.delegation = some (.child c)) (k v : Value) :
      Move .idle x (.settled (.ok true)) (x.setPair k v)
  | leave {x : Generator H F} {d : Delegation} {frame : F} (hf : x.isFinished = false)
      (hd : x.delegation = some d) (hx : x.frame = some frame) (r : Value) :
      Move .idle x .running (x.endDelegation r).release
  | breakOff {x : Generator H F} {c : GeneratorId} (hf : x.isFinished = false)
      (hd : x.delegation = some (.child c)) (e : DelegationError) :
      Move .idle x (.settled (.error (.delegation e))) (x.terminate.setError (.delegation e))
  | yieldPair (x : Generator H F) (k v : Value) : Move .running x .running (x.yieldPair k v)
  | yieldValue (x : Generator H F) (v : Value) : Move .running x .running (x.yieldValue v)
  | delegate (x : Generator H F) (d : Delegation) (k v : Value) :
      Move .running x .running (x.beginDelegation d k v)
  | skip (x : Generator H F) (r : Value) : Move .running x .running (x.skipDelegation r)
  | takeSent (x : Generator H F) : Move .running x .running x.clearSent
  | takeResult (x : Generator H F) : Move .running x .running x.clearResult
  | pause (x : Generator H F) (frame : F) :
      Move .running x (.settled (.ok true)) (x.hold frame)
  | complete (x : Generator H F) (v : Value) :
      Move .running x (.settled (.ok false)) (x.setReturn v).terminate
  | fail (x : Generator H F) (e : BodyError) :
      Move .running x (.settled (.error (.executionFailed e)))
        (x.terminate.setError (.executionFailed e))
  | close {x : Generator H F} (hf : x.isFinished = false) : Move .idle x .idle x.terminate
  /-- A paused body without a frame has nothing left to run. -/
  | lapse {x : Generator H F} (hf : x.isFinished = false) (hs : x.isStarted = true)
      (hx : x.frame = none) (sent : Option Value) :
      Move .idle x (.settled (.ok false)) (x.deliver sent).terminate
  | lapseDelegating {x : Generator H F} {d : Delegation} (hf : x.isFinished = false)
      (hd : x.delegation = some d) (hx : x.frame = none) (r : Value) :
      Move .idle x (.settled (.ok false)) (x.endDelegation r).terminate
  /-- Nothing can be done with a started generator that is neither suspended nor delegating. -/
  | stuck {x : Generator H F} (hf : x.isFinished = false) (hs : x.isStarted = true)
      (hd : x.delegation = none) (hp : x.lifecycle.suspended = false) :
      Move .idle x (.settled (.ok false)) x

def Focus.role : Focus F → Role
  | .enter _ => .idle
  | .body .. => .running
  | .settled result => .settled result

def Wait.role : Wait F → Role
  | .inBody _ => .running
  | .paused => .idle

namespace Drive

/-- The generators of a drive, from the one in focus outwards. -/
def chain (d : Drive F) : List GeneratorId := d.current :: d.waiting.map Link.generator

def roleAmong (g : GeneratorId) : List (Link F) → Role
  | [] => .idle
  | l :: ls => if l.generator = g then l.wait.role else roleAmong g ls

def role (d : Drive F) (g : GeneratorId) : Role :=
  if d.current = g then d.focus.role else roleAmong g d.waiting

/-- The chain is of distinct, locked generators; one that waits between two pairs delegates to another
generator. -/
structure Chained (w : World H F S) (d : Drive F) : Prop where
  nodup : d.chain.Nodup
  locked : ∀ g ∈ d.chain, ∃ x, w.generator? g = some x ∧ x.locked = true
  paused : ∀ l ∈ d.waiting, l.wait = .paused →
    ∃ x c, w.generator? l.generator = some x ∧ x.isFinished = false ∧ x.delegation = some (.child c)

/-- Every generator makes one move and new ones are fresh; the chain shrinks at its head, or grows there by
a generator that nobody drove. -/
structure Moves (w : World H F S) (d : Drive F) (w' : World H F S) (d' : Drive F) : Prop where
  chain : d'.chain = d.chain ∨
    (∃ g x, d'.chain = g :: d.chain ∧ w.generator? g = some x ∧ x.locked = false) ∨
    d.chain = d.current :: d'.chain
  old : ∀ g x, w.generator? g = some x →
    ∃ x', w'.generator? g = some x' ∧ Move (d.role g) x (d'.role g) x'
  new : ∀ g x', w.generator? g = none → w'.generator? g = some x' →
    d'.role g = .idle ∧ ∃ h f args, x' = .fresh h f args

/-- The generator in focus, in role `r` so far, makes a move, and the chain stays as it is. -/
structure Turn (r : Role) (w : World H F S) (d : Drive F) (w' : World H F S) (d' : Drive F) :
    Prop where
  current : d'.current = d.current
  waiting : d'.waiting = d.waiting
  focus : ∀ x, w.generator? d.current = some x →
    ∃ x', w'.generator? d.current = some x' ∧ x'.locked = x.locked ∧ Move r x d'.focus.role x'
  others : ∀ g x, g ≠ d.current → w.generator? g = some x → w'.generator? g = some x
  new : ∀ g x', w.generator? g = none → w'.generator? g = some x' → ∃ h f args, x' = .fresh h f args

variable {E : Engine H F S} {w w' : World H F S} {d d' : Drive F} {r : Role} {x : Generator H F}

theorem roleAmong_of_not_mem {g : GeneratorId} {ls : List (Link F)}
    (h : g ∉ ls.map Link.generator) : roleAmong g ls = .idle := by
  induction ls with
  | nil => rfl
  | cons l ls ih =>
    simp only [List.map_cons, List.mem_cons, not_or] at h
    rw [roleAmong, if_neg (Ne.symm h.1), ih h.2]

theorem role_current (d : Drive F) : d.role d.current = d.focus.role := by simp [role]

theorem role_of_not_mem {g : GeneratorId} (h : g ∉ d.chain) : d.role g = .idle := by
  simp only [chain, List.mem_cons, not_or] at h
  rw [role, if_neg (Ne.symm h.1), roleAmong_of_not_mem h.2]

theorem Chained.current (h : Chained w d) :
    ∃ x, w.generator? d.current = some x ∧ x.locked = true :=
  h.locked _ List.mem_cons_self

theorem Chained.current_not_mem (h : Chained w d) : d.current ∉ d.waiting.map Link.generator :=
  (List.nodup_cons.mp h.nodup).1

theorem Chained.not_mem_of_none (h : Chained w d) {g : GeneratorId} (hg : w.generator? g = none) :
    g ∉ d.chain := by
  intro hmem
  obtain ⟨x, hx, -⟩ := h.locked g hmem
  rw [hg] at hx
  cases hx

theorem Chained.not_mem_of_unlocked (h : Chained w d) {g : GeneratorId}
    (hx : w.generator? g = some x) (hl : x.locked = false) : g ∉ d.chain := by
  intro hmem
  obtain ⟨y, hy, hly⟩ := h.locked g hmem
  rw [hx] at hy
  cases hy
  rw [hl] at hly
  cases hly

/-! ### Turns of the generator in focus -/

/-- A turn that changes only the generator in focus. -/
theorem Turn.change {focus : Focus F} {resend : Option Value} (x' : Generator H F)
    (hx : w.generator? d.current = some x) (hx' : w'.generator? d.current = some x')
    (hothers : ∀ g, g ≠ d.current → w'.generator? g = w.generator? g)
    (hl : x'.locked = x.locked) (hm : Move r x focus.role x') :
    Turn r w d w' ⟨d.current, resend, focus, d.waiting⟩ where
  current := rfl
  waiting := rfl
  focus y hy := by
    obtain rfl : x = y := Option.some.inj (hx.symm.trans hy)
    exact ⟨x', hx', hl, hm⟩
  others g y hg hy := (hothers g hg).trans hy
  new g y hg hy := by
    by_cases hgc : g = d.current
    · rw [hgc, hx] at hg
      cases hg
    · rw [hothers g hgc, hg] at hy
      cases hy

theorem Turn.modify {focus : Focus F} {resend : Option Value} {f : Generator H F → Generator H F}
    (hx : w.generator? d.current = some x) (hl : (f x).locked = x.locked)
    (hm : Move r x focus.role (f x)) :
    Turn r w d (w.modify d.current f) ⟨d.current, resend, focus, d.waiting⟩ :=
  .change (f x) hx (by simp [hx]) (fun _ hg => World.generator?_modify_of_ne hg f) hl hm

/-- A turn that changes no generator. -/
theorem Turn.same {focus : Focus F} {resend : Option Value} (hx : w.generator? d.current = some x)
    (hm : Move r x focus.role x) : Turn r w d w ⟨d.current, resend, focus, d.waiting⟩ :=
  .change x hx hx (fun _ _ => rfl) rfl hm

theorem Turn.create {frame : F} (handle : H) (f : Function) (args : List Value) :
    Turn .running w d (w.create handle f args).2
      ⟨d.current, d.resend, .body frame (.value (.generator w.generators.size)), d.waiting⟩ := by
  have hold (g : GeneratorId) (x : Generator H F) (hx : w.generator? g = some x) :
      (w.create handle f args).2.generator? g = some x := by
    have hne : g ≠ w.generators.size := by
      rintro rfl
      rw [World.generator?_size] at hx
      cases hx
    rw [World.generator?_create, if_neg hne, hx]
  refine ⟨rfl, rfl, fun x hx => ⟨x, hold _ x hx, rfl, .stay _ x⟩, fun g x _ hx => hold g x hx, ?_⟩
  intro g x hnone hx
  rw [World.generator?_create] at hx
  split at hx
  · exact ⟨handle, f, args, (Option.some.inj hx).symm⟩
  · rw [hnone] at hx
    cases hx

theorem Turn.chain_eq (h : Turn r w d w' d') : d'.chain = d.chain := by
  rw [chain, chain, h.current, h.waiting]

theorem Turn.chained (h : Turn r w d w' d') (hc : Chained w d) : Chained w' d' where
  nodup := h.chain_eq ▸ hc.nodup
  locked g hg := by
    rw [h.chain_eq] at hg
    obtain ⟨x, hx, hl⟩ := hc.locked g hg
    by_cases hgc : g = d.current
    · subst hgc
      obtain ⟨x', hx', hl', -⟩ := h.focus x hx
      exact ⟨x', hx', hl'.trans hl⟩
    · exact ⟨x, h.others g x hgc hx, hl⟩
  paused l hl hp := by
    rw [h.waiting] at hl
    obtain ⟨x, c, hx, hf, hd⟩ := hc.paused l hl hp
    have hne : l.generator ≠ d.current := fun he =>
      hc.current_not_mem (he ▸ List.mem_map_of_mem hl)
    exact ⟨x, c, h.others _ x hne hx, hf, hd⟩

theorem Turn.moves (h : Turn r w d w' d') (hr : d.focus.role = r) (hc : Chained w d) :
    Moves w d w' d' where
  chain := .inl h.chain_eq
  old g x hx := by
    by_cases hgc : g = d.current
    · subst hgc
      obtain ⟨x', hx', -, hm⟩ := h.focus x hx
      refine ⟨x', hx', ?_⟩
      rw [role_current, hr, ← h.current, role_current]
      exact hm
    · refine ⟨x, h.others g x hgc hx, ?_⟩
      have hrole : d'.role g = d.role g := by
        rw [role, role, h.current, h.waiting, if_neg (Ne.symm hgc), if_neg (Ne.symm hgc)]
      rw [hrole]
      exact .stay _ x
  new g x' hg hx' := by
    refine ⟨?_, h.new g x' hg hx'⟩
    exact role_of_not_mem (h.chain_eq ▸ hc.not_mem_of_none hg)

/-! ### The functions of the drive as turns -/

/-- Taking up a paused body after a change `f` that leaves the frame alone. -/
theorem resume_turn {f : Generator H F → Generator H F} (hx : w.generator? d.current = some x)
    (hframe : (f x).frame = x.frame) (hlock : (f x).locked = x.locked)
    (hsome : ∀ frame, x.frame = some frame → Move .idle x .running (f x).release)
    (hnone : x.frame = none → Move .idle x (.settled (.ok false)) (f x).terminate) :
    Turn .idle w d (resume E (w.modify d.current f) d).1 (resume E (w.modify d.current f) d).2 := by
  have hothers : ∀ g, g ≠ d.current → (w.modify d.current f).generator? g = w.generator? g :=
    fun _ hg => World.generator?_modify_of_ne hg f
  cases hc : x.frame with
  | some frame =>
    have hread : ((w.modify d.current f).generator? d.current).bind (·.frame) = some frame := by
      simp [hx, hframe, hc]
    simp only [resume, hread]
    refine .change (f x).release hx (by simp [hx]) (fun g hg => ?_) hlock (hsome frame hc)
    rw [World.generator?_modify_of_ne hg, hothers g hg]
  | none =>
    have hread : ((w.modify d.current f).generator? d.current).bind (·.frame) = none := by
      simp [hx, hframe, hc]
    simp only [resume, hread]
    refine .change (f x).terminate hx (by simp [hx]) (fun g hg => ?_) hlock (hnone hc)
    rw [World.generator?_finish_of_ne E hg, hothers g hg]

theorem fail_turn {e : GeneratorError} (hx : w.generator? d.current = some x)
    (hm : Move r x (.settled (.error e)) (x.terminate.setError e)) :
    Turn r w d (fail E w d e).1 (fail E w d e).2 :=
  .change (x.terminate.setError e) hx (by simp [fail, hx])
    (fun _ hg => World.generator?_fail_of_ne E e hg) rfl hm

theorem advanced_turn {c : GeneratorId} (hx : w.generator? d.current = some x)
    (hf : x.isFinished = false) (hd : x.delegation = some (.child c)) (o : Delegation.Outcome) :
    Turn .idle w d (advanced E w d o).1 (advanced E w d o).2 := by
  cases o with
  | pair k v => exact .modify hx rfl (.forward hf hd k v)
  | exhausted v =>
    exact resume_turn hx rfl rfl (fun _ hframe => .leave hf hd hframe v)
      fun hframe => .lapseDelegating hf hd hframe v
  | failed e => exact fail_turn hx (.breakOff hf hd e)

theorem delegated_turn (hx : w.generator? d.current = some x) (frame : F) (source : Delegation)
    (o : Delegation.Outcome) :
    Turn .running w d (delegated w d frame source o).1 (delegated w d frame source o).2 := by
  cases o with
  | pair k v => exact .modify hx rfl (.delegate x source k v)
  | exhausted v => exact .modify hx rfl (.skip x v)
  | failed e => exact .same hx (.stay _ x)

/-! ### Moving along the chain -/

theorem turnTo_current (x : Generator H F) (g : GeneratorId) (sent : Option Value)
    (ls : List (Link F)) : (turnTo x g sent ls).current = g := by
  rw [turnTo]
  split <;> rfl

theorem turnTo_waiting (x : Generator H F) (g : GeneratorId) (sent : Option Value)
    (ls : List (Link F)) : (turnTo x g sent ls).waiting = ls := by
  rw [turnTo]
  split <;> rfl

theorem turnTo_role (x : Generator H F) (g : GeneratorId) (sent : Option Value)
    (ls : List (Link F)) : (turnTo x g sent ls).focus.role = .idle := by
  rw [turnTo]
  split <;> rfl

theorem descend_cases {g : GeneratorId} {sent : Option Value} {wait : Wait F}
    (h : descend w d g sent wait = some (w', d')) :
    ∃ x, w.generator? g = some x ∧ x.locked = false ∧ w' = w.lock g ∧
      d' = turnTo x g sent (⟨d.current, d.resend, wait⟩ :: d.waiting) := by
  rw [descend] at h
  split at h
  · next x hx =>
    split at h
    · cases h
    · next hl =>
      obtain ⟨rfl, rfl⟩ := Prod.mk.inj (Option.some.inj h)
      exact ⟨x, hx, by simpa using hl, rfl, rfl⟩
  · cases h

theorem turnTo_chain (x : Generator H F) (g : GeneratorId) (sent resend : Option Value)
    (wait : Wait F) : (turnTo x g sent (⟨d.current, resend, wait⟩ :: d.waiting)).chain = g :: d.chain := by
  simp [chain, turnTo_current, turnTo_waiting]

/-- The chain with an unlocked generator before the one in focus. -/
theorem Chained.descend (hc : Chained w d) {g : GeneratorId} (hx : w.generator? g = some x)
    (hl : x.locked = false) (sent resend : Option Value) {wait : Wait F}
    (hpaused : wait = .paused →
      ∃ x c, w.generator? d.current = some x ∧ x.isFinished = false ∧ x.delegation = some (.child c)) :
    Chained (w.lock g) (turnTo x g sent (⟨d.current, resend, wait⟩ :: d.waiting)) := by
  have hout := hc.not_mem_of_unlocked hx hl
  have hkeep (g' : GeneratorId) (hg' : g' ∈ d.chain) :
      (w.lock g).generator? g' = w.generator? g' :=
    World.generator?_lock_of_ne fun he => hout (he ▸ hg')
  constructor
  · rw [turnTo_chain]
    exact List.nodup_cons.mpr ⟨hout, hc.nodup⟩
  · intro g' hg'
    rw [turnTo_chain] at hg'
    rcases List.mem_cons.mp hg' with rfl | hg'
    · exact ⟨x.setLock true, by simp [hx], rfl⟩
    · rw [hkeep g' hg']
      exact hc.locked g' hg'
  · intro l hmem hp
    rw [turnTo_waiting] at hmem
    rcases List.mem_cons.mp hmem with rfl | hmem
    · rw [hkeep _ List.mem_cons_self]
      exact hpaused hp
    · rw [hkeep _ (List.mem_cons_of_mem _ (List.mem_map_of_mem hmem))]
      exact hc.paused l hmem hp

/-- The drive moves on to another generator, which is locked from then on. -/
theorem descend_moves {g : GeneratorId} {sent : Option Value} {wait : Wait F}
    (h : descend w d g sent wait = some (w', d')) (hc : Chained w d)
    (hrole : d.focus.role = wait.role)
    (hpaused : wait = .paused →
      ∃ x c, w.generator? d.current = some x ∧ x.isFinished = false ∧ x.delegation = some (.child c)) :
    Chained w' d' ∧ Moves w d w' d' := by
  obtain ⟨x, hx, hl, rfl, rfl⟩ := descend_cases h
  refine ⟨hc.descend hx hl sent d.resend hpaused, .inr (.inl ⟨g, x, turnTo_chain .., hx, hl⟩), ?_, ?_⟩
  · intro g' y hy
    by_cases hg : g' = g
    · subst hg
      obtain rfl : x = y := Option.some.inj (hx.symm.trans hy)
      refine ⟨x.setLock true, by simp [hx], ?_⟩
      rw [role_of_not_mem (hc.not_mem_of_unlocked hx hl), role, turnTo_current, if_pos rfl, turnTo_role]
      exact .lock x true
    · refine ⟨y, (World.generator?_lock_of_ne hg).trans hy, ?_⟩
      have hsame : (turnTo x g sent (⟨d.current, d.resend, wait⟩ :: d.waiting)).role g' =
          d.role g' := by
        rw [role, turnTo_current, turnTo_waiting, if_neg (Ne.symm hg), roleAmong, role, hrole]
      rw [hsame]
      exact .stay _ y
  · intro g' y hnone hy
    by_cases hg : g' = g
    · rw [hg, hx] at hnone
      cases hnone
    · rw [World.generator?_lock_of_ne hg, hnone] at hy
      cases hy

/-- The chain without the generator in focus. -/
theorem Chained.tail (hc : Chained w d) {link : Link F} {ls : List (Link F)}
    (hw : d.waiting = link :: ls) (focus : Focus F) :
    Chained (w.unlock d.current) ⟨link.generator, link.resend, focus, ls⟩ := by
  have hchain : d.chain = d.current :: link.generator :: ls.map Link.generator := by
    simp [chain, hw]
  have hnodup := hchain ▸ hc.nodup
  have hkeep (g : GeneratorId) (hg : g ∈ link.generator :: ls.map Link.generator) :
      (w.unlock d.current).generator? g = w.generator? g :=
    World.generator?_unlock_of_ne fun he => (List.nodup_cons.mp hnodup).1 (he ▸ hg)
  constructor
  · exact (List.nodup_cons.mp hnodup).2
  · intro g hg
    rw [hkeep g hg]
    exact hc.locked g (hchain ▸ List.mem_cons_of_mem _ hg)
  · intro l hl hp
    rw [hkeep _ (List.mem_cons_of_mem _ (List.mem_map_of_mem hl))]
    exact hc.paused l (hw ▸ List.mem_cons_of_mem _ hl) hp

theorem handOver_turn (E : Engine H F S) (result : Except GeneratorError Bool) {link : Link F}
    {ls : List (Link F)} (hc : Chained w d) (hw : d.waiting = link :: ls) :
    Turn link.wait.role (w.unlock d.current) ⟨link.generator, link.resend, .settled result, ls⟩
      (handOver E w d.current result link ls).1 (handOver E w d.current result link ls).2 := by
  have hne : link.generator ≠ d.current := fun he =>
    hc.current_not_mem (by rw [hw, ← he]; exact List.mem_cons_self)
  obtain ⟨x, hx, -⟩ := (hc.tail hw (.settled result)).current
  simp only [handOver]
  cases hwait : link.wait with
  | paused =>
    obtain ⟨y, c, hy, hf, hd⟩ := hc.paused link (hw ▸ List.mem_cons_self) hwait
    rw [← World.generator?_unlock_of_ne hne] at hy
    exact advanced_turn hy hf hd _
  | inBody frame => exact delegated_turn hx frame _ _

/-- The generator in focus hands over to the one that waits for it and is unlocked. -/
theorem handOver_moves {result : Except GeneratorError Bool} {link : Link F} {ls : List (Link F)}
    (hc : Chained w d) (hfocus : d.focus.role = .settled result) (hw : d.waiting = link :: ls) :
    Chained (handOver E w d.current result link ls).1 (handOver E w d.current result link ls).2 ∧
      Moves w d (handOver E w d.current result link ls).1
        (handOver E w d.current result link ls).2 := by
  have hturn := handOver_turn E result hc hw
  have htail := hc.tail hw (.settled result)
  revert hturn
  generalize handOver E w d.current result link ls = s'
  obtain ⟨w', d'⟩ := s'
  intro hturn
  refine ⟨hturn.chained htail, .inr (.inr ?_), ?_, ?_⟩
  · rw [hturn.chain_eq]
    simp [chain, hw]
  · intro g x hx
    by_cases hg : g = d.current
    · subst hg
      have hout : d.current ∉ link.generator :: ls.map Link.generator := by
        simpa [hw] using hc.current_not_mem
      have hidle : d'.role d.current = .idle := role_of_not_mem (hturn.chain_eq ▸ hout)
      refine ⟨x.setLock false, hturn.others _ _ (List.ne_of_not_mem_cons hout) (by simp [hx]), ?_⟩
      rw [role_current, hfocus, hidle]
      exact .unlock result x
    · have hx' : (w.unlock d.current).generator? g = some x :=
        (World.generator?_unlock_of_ne hg).trans hx
      by_cases hlink : g = link.generator
      · subst hlink
        obtain ⟨x', hx'', -, hm⟩ := hturn.focus x hx'
        refine ⟨x', hx'', ?_⟩
        rw [role, if_neg (Ne.symm hg), hw, roleAmong, if_pos rfl, role, hturn.current, if_pos rfl]
        exact hm
      · refine ⟨x, hturn.others g x hlink hx', ?_⟩
        rw [role, if_neg (Ne.symm hg), hw, roleAmong, if_neg (Ne.symm hlink), role, hturn.current,
          if_neg (Ne.symm hlink), hturn.waiting]
        exact .stay _ x
  · intro g x' hnone hx'
    have hg : g ≠ d.current := fun he => hc.not_mem_of_none hnone (he ▸ List.mem_cons_self)
    have hnone' : (w.unlock d.current).generator? g = none :=
      (World.generator?_unlock_of_ne hg).trans hnone
    refine ⟨role_of_not_mem ?_, hturn.new g x' hnone' hx'⟩
    exact hturn.chain_eq ▸ htail.not_mem_of_none hnone'

/-! ### One step -/

theorem step_enter {sent : Option Value} (hfocus : d.focus = .enter sent)
    (hx : w.generator? d.current = some x) : step E (w, d) = .next (enter E w d x sent) := by
  simp only [step, hfocus, hx]

theorem step_body {frame : F} {reply : Reply} {heap : Heap} {state : S} {action : Action H F}
    (hfocus : d.focus = .body frame reply)
    (hE : E.step w.heap w.state frame reply = (heap, state, action)) :
    step E (w, d) = .next (perform E { w with heap := heap, state := state } d action) := by
  simp only [step, hfocus, hE]

/-- The generator in focus has settled, and no value is kept back for it. -/
def Done (d : Drive F) (result : Except GeneratorError Bool) : Prop :=
  d.focus = .settled result ∧ ∀ v b, d.resend = some v → result ≠ .ok b

theorem Done.of_none {result : Except GeneratorError Bool} (hfocus : d.focus = .settled result)
    (hnone : d.resend = none) : d.Done result :=
  ⟨hfocus, fun v _ hv => by rw [hnone] at hv; cases hv⟩

theorem step_resend {v : Value} {b : Bool} (hfocus : d.focus = .settled (.ok b))
    (hv : d.resend = some v) :
    step E (w, d) = .next (w, { d with resend := none, focus := .enter (some v) }) := by
  simp only [step, hfocus, hv]

theorem step_handOver {result : Except GeneratorError Bool} {link : Link F} {ls : List (Link F)}
    (h : d.Done result) (hw : d.waiting = link :: ls) :
    step E (w, d) = .next (handOver E w d.current result link ls) := by
  obtain ⟨hfocus, hkeep⟩ := h
  simp only [step, hfocus, hw]

theorem step_halt {result : Except GeneratorError Bool} (h : d.Done result) (hw : d.waiting = []) :
    step E (w, d) = .halt (w.unlock d.current, result) := by
  obtain ⟨hfocus, hkeep⟩ := h
  simp only [step, hfocus, hw]

/-- A settled generator goes on with a value kept back for it, or is done. -/
theorem settled_cases {result : Except GeneratorError Bool} (hfocus : d.focus = .settled result) :
    (∃ v b, d.focus = .settled (.ok b) ∧ d.resend = some v) ∨ d.Done result := by
  cases result with
  | error e => exact .inr ⟨hfocus, fun _ _ _ => nofun⟩
  | ok b =>
    cases hv : d.resend with
    | some v => exact .inl ⟨v, b, hfocus, rfl⟩
    | none => exact .inr ⟨hfocus, by simp [hv]⟩

/-- A drive halts in a settled generator that nobody waits for. -/
theorem halt_cases {s : State H F S} {r : Result H F S} (h : step E s = .halt r) :
    s.2.Done r.2 ∧ s.2.waiting = [] ∧ r.1 = s.1.unlock s.2.current := by
  obtain ⟨w, d⟩ := s
  cases hfocus : d.focus with
  | enter sent =>
    cases hx : w.generator? d.current <;> simp [step, hfocus, hx] at h
  | body frame reply => simp [step, hfocus] at h
  | settled result =>
    rcases settled_cases hfocus with ⟨v, b, hok, hv⟩ | hdone
    · rw [step_resend hok hv] at h
      cases h
    · cases hw : d.waiting with
      | cons link ls =>
        rw [step_handOver hdone hw] at h
        cases h
      | nil =>
        rw [step_halt hdone hw] at h
        obtain rfl := Transition.halt.inj h
        exact ⟨hdone, rfl, rfl⟩

theorem Turn.keeps (h : Turn r w d w' d') (hr : d.focus.role = r) (hc : Chained w d) :
    Chained w' d' ∧ Moves w d w' d' :=
  ⟨h.chained hc, h.moves hr hc⟩

theorem enter_moves {sent : Option Value} (hc : Chained w d) (hfocus : d.focus.role = .idle)
    (hx : w.generator? d.current = some x) :
    Chained (enter E w d x sent).1 (enter E w d x sent).2 ∧
      Moves w d (enter E w d x sent).1 (enter E w d x sent).2 := by
  rw [enter]
  split
  · next hf => exact (Turn.same hx (.spent hf)).keeps hfocus hc
  · next hf =>
    have hf : x.isFinished = false := by simpa using hf
    split
    · next t pending hd =>
      split
      · next k v rest hv =>
        have hturn : Turn .idle w d
            ((w.modify d.current fun x => { x with delegation := some (.table t rest) }).modify
              d.current (·.setPair k v))
            ⟨d.current, d.resend, .settled (.ok true), d.waiting⟩ := by
          have hm := Move.walk hf hd hv
          refine .change _ hx ?_ (fun g hg => ?_) ?_ hm
          · simp [hx]
          · rw [World.generator?_modify_of_ne hg, World.generator?_modify_of_ne hg]
          · rfl
        exact hturn.keeps hfocus hc
      · have hturn := resume_turn (E := E) (f := (·.endDelegation .null)) hx rfl rfl
          (fun _ hframe => .leave hf hd hframe .null) fun hframe => .lapseDelegating hf hd hframe .null
        exact hturn.keeps hfocus hc
    · next g hd =>
      split
      · next s' hs' => exact descend_moves hs' hc hfocus fun _ => ⟨x, g, hx, hf, hd⟩
      · exact (fail_turn hx (.breakOff hf hd .alreadyRunning)).keeps hfocus hc
    · next hd =>
      split
      · next hs =>
        have hs : x.isStarted = false := by simpa using hs
        have hturn : Turn .idle w d (start E w d x).1 (start E w d x).2 :=
          .change x.begin hx (by simp [start, hx])
            (fun g hg => by simp [start, World.generator?_modify_of_ne hg]) rfl (.start hf hd hs)
        exact hturn.keeps hfocus hc
      · next hs =>
        have hs : x.isStarted = true := by simpa using hs
        split
        · next hp =>
          have hturn := resume_turn (E := E) (f := (·.deliver sent)) hx (by cases sent <;> rfl)
            (by cases sent <;> rfl) (fun _ hframe => .resume hf hd hs hp hframe sent)
            fun hframe => .lapse hf hs hframe sent
          exact hturn.keeps hfocus hc
        · next hp => exact (Turn.same hx (.stuck hf hs hd (by simpa using hp))).keeps hfocus hc

theorem delegate_moves {source : Value} {frame : F} (hc : Chained w d)
    (hfocus : d.focus.role = .running) :
    Chained (delegate w d source frame).1 (delegate w d source frame).2 ∧
      Moves w d (delegate w d source frame).1 (delegate w d source frame).2 := by
  obtain ⟨x, hx, -⟩ := hc.current
  rw [delegate]
  split
  · exact (Turn.same hx (.stay _ x)).keeps hfocus hc
  · split
    · exact (delegated_turn hx _ _ _).keeps hfocus hc
    · exact (delegated_turn hx _ _ _).keeps hfocus hc
  · split
    · next s' hs' => exact descend_moves hs' hc hfocus fun h => by cases h
    · exact (delegated_turn hx _ _ _).keeps hfocus hc

theorem perform_moves (E : Engine H F S) (action : Action H F) (hc : Chained w d)
    (hfocus : d.focus.role = .running) :
    Chained (perform E w d action).1 (perform E w d action).2 ∧
      Moves w d (perform E w d action).1 (perform E w d action).2 := by
  obtain ⟨x, hx, -⟩ := hc.current
  cases action with
  | silent frame => exact (Turn.same hx (.stay _ x)).keeps hfocus hc
  | yieldPair k v frame => exact (Turn.modify hx rfl (.yieldPair x k v)).keeps hfocus hc
  | yieldValue v frame => exact (Turn.modify hx rfl (.yieldValue x v)).keeps hfocus hc
  | delegate source frame => exact delegate_moves hc hfocus
  | askDelegating frame => exact (Turn.same hx (.stay _ x)).keeps hfocus hc
  | takeSent frame => exact (Turn.modify hx rfl (.takeSent x)).keeps hfocus hc
  | takeResult frame => exact (Turn.modify hx rfl (.takeResult x)).keeps hfocus hc
  | create handle f args frame => exact (Turn.create handle f args).keeps hfocus hc
  | suspend frame => exact (Turn.modify hx rfl (.pause x frame)).keeps hfocus hc
  | finish v =>
    have hturn : Turn .running w d (w.complete E d.current v)
        ⟨d.current, d.resend, .settled (.ok false), d.waiting⟩ :=
      .change (x.setReturn v).terminate hx (by simp [hx])
        (fun g hg => World.generator?_complete_of_ne E v hg) rfl (.complete x v)
    exact hturn.keeps hfocus hc
  | fail e => exact (fail_turn hx (.fail x e)).keeps hfocus hc

/-- One step of a drive keeps the chain, and each generator makes one move. -/
theorem step_moves {s' : State H F S} (hc : Chained w d) (h : step E (w, d) = .next s') :
    Chained s'.1 s'.2 ∧ Moves w d s'.1 s'.2 := by
  cases hfocus : d.focus with
  | enter sent =>
    have hrole : d.focus.role = .idle := by rw [hfocus]; rfl
    obtain ⟨x, hx, -⟩ := hc.current
    rw [step_enter hfocus hx] at h
    obtain rfl := Transition.next.inj h
    exact enter_moves hc hrole hx
  | body frame reply =>
    have hrole : d.focus.role = .running := by rw [hfocus]; rfl
    -- The body's own step touches the heap and the engine's state only.
    rcases hE : E.step w.heap w.state frame reply with ⟨heap, state, action⟩
    rw [step_body hfocus hE] at h
    obtain rfl := Transition.next.inj h
    have hc' : Chained { w with heap := heap, state := state } d := ⟨hc.nodup, hc.locked, hc.paused⟩
    obtain ⟨hkeep, hmoves⟩ := perform_moves E action hc' hrole
    exact ⟨hkeep, hmoves.chain, hmoves.old, hmoves.new⟩
  | settled result =>
    have hrole : d.focus.role = .settled result := by rw [hfocus]; rfl
    obtain ⟨x, hx, -⟩ := hc.current
    rcases settled_cases hfocus with ⟨v, b, hok, hv⟩ | hdone
    · rw [step_resend hok hv] at h
      obtain rfl := Transition.next.inj h
      exact (Turn.same hx (.rest result x)).keeps hrole hc
    · cases hw : d.waiting with
      | cons link ls =>
        rw [step_handOver hdone hw] at h
        obtain rfl := Transition.next.inj h
        exact handOver_moves hc hrole hw
      | nil =>
        rw [step_halt hdone hw] at h
        cases h

end Drive
end YieldMachine
