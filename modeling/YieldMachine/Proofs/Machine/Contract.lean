import YieldMachine.Proofs.History.Advance
import YieldMachine.Proofs.Session.YieldFrom

/-!
The contract between the machine and the generators of its bodies. Whenever a body of the machine is called, it
gives its generator exactly one pair if it pauses, and none if it returns or fails. So a generator of the machine
is given one pair in every advance that succeeds and none in any other, and between advances shows the pair of its
last success (`pairs_follow_successes`). The proof keeps a balance (`Machine.posts_credit`): where the body stands
tells whether the generator has been given its pair in the advance under way (`Drive.Position.credit`).
-/

namespace YieldMachine

variable {H F S : Type}

/-- Whether a generator that stands so has been given a pair since it was entered, and whether the pair came from a
source. -/
def Drive.Position.credit (y : Generator H F) : Drive.Position F → List Bool
  | .engaged _ .reported => [false]
  | .engaged _ .accepted | .engaged _ (.delegating _) => if y.isDelegating then [true] else []
  | .over => if y.isFinished then [] else [y.isDelegating]
  | _ => []

theorem Drive.Position.credit_over {y : Generator H F} (hf : y.isFinished = false) :
    (Drive.Position.over : Drive.Position F).credit y = [y.isDelegating] := by
  simp [Drive.Position.credit, hf]

namespace Machine

open Drive

variable {m : Machine} {E : Engine H F S} {x : Execution} {y y' : Generator (Nat ⊕ H) (Execution ⊕ F)}
  {p p' : Position (Execution ⊕ F)} {rs : List Posting}

/-- The source that a body has named is noted as the generator's pair just when it has given one. -/
theorem answered_credit (hd : y.delegation = none) (frame : Execution ⊕ F) (source : Delegation)
    (o : Delegation.Outcome) :
    (Position.engaged frame o.reply).credit (y.answered source o) = (o.postings .opening).map Posting.fromSource := by
  cases o with
  | pair k v => rfl
  | exhausted r => simp [Delegation.Outcome.reply, Position.credit, Generator.answered, Generator.skipDelegation,
      Generator.isDelegating, hd, Delegation.Outcome.postings]
  | failed e => rfl

/-- A body of the machine that has been given its pair pauses at once, and one that has not does not pause. -/
theorem says_credit {heap heap' : Heap} {state state' : Output × S} {reply : Reply}
    {action : Action (Nat ⊕ H) (Execution ⊕ F)}
    (hE : (m.engine.sum E).step heap state (.inl x) reply = (heap', state', action))
    (h : Says y action rs p y') (hx : Attuned x y reply) (hf : y.isFinished = false) :
    p.credit y' = (Position.engaged (.inl x) reply).credit y ++ rs.map Posting.fromSource := by
  obtain rfl : (m.step heap state.1 x reply).2.2.map .inl .inl = action :=
    congrArg (fun r => r.2.2) hE
  -- Only the instruction at hand can give a pair; all other replies are followed by one fixed action.
  cases reply with
  | proceed =>
    obtain ⟨hd, -⟩ := hx
    have hask : (m.step heap state.1 x .proceed).2.2.OfInstruction := advance_ofInstruction ..
    revert h
    generalize (m.step heap state.1 x .proceed).2.2 = a at hask
    intro h
    cases hask with
    | delegate named z =>
      cases h with
      | delegate _ _ source o => exact answered_credit hd _ source o
      | await => rfl
      | quiet hq => cases hq
    | yieldPair =>
      cases h with
      | yieldPair => rfl
      | quiet hq => cases hq
    | yieldValue =>
      cases h with
      | yieldValue => rfl
      | quiet hq => cases hq
    | silent | create | finish | fail =>
      cases h with
      | quiet _ hperforms => cases hperforms; rfl
  | resume =>
    have hwake : (m.step heap state.1 x .resume).2.2 = wake x := rfl
    rw [hwake, wake] at h
    split at h
    all_goals
      cases h with
      | quiet _ hperforms => cases hperforms; rfl
  | reported =>
    cases h with
    | quiet _ hperforms =>
      cases hperforms
      have hheld : (y.hold (.inl (x.await .sent))).isDelegating = false := by
        simp [Generator.isDelegating, Generator.hold, hx.1]
      rw [Position.credit_over (y := y.hold _) hf, hheld]
      rfl
  | accepted =>
    cases h with
    | quiet _ hperforms => cases hperforms; exact (List.append_nil _).symm
  | refused e =>
    cases h with
    | quiet _ hperforms => cases hperforms; rfl
  | delegating active =>
    obtain ⟨hactive, -⟩ := hx
    cases active with
    | true =>
      cases h with
      | quiet _ hperforms =>
        cases hperforms
        rw [Position.credit_over (y := y.hold _) hf, Position.credit, ← hactive]
        exact congrArg (fun b => [b]) hactive.symm
    | false =>
      cases h with
      | quiet _ hperforms =>
        cases hperforms
        rw [Position.credit, ← hactive]
        rfl
  | value v =>
    cases h with
    | quiet _ hperforms => cases hperforms; rfl

/-- What a generator of the machine is given adds to its credit, until it has had its turn. -/
theorem posts_credit (h : Posts (m.engine.sum E) p y rs p' y') (hp : p ≠ .over) (hy : AttunedAt y p)
    (hf : p.inBody = true → y.isFinished = false) :
    p'.credit y' = p.credit y ++ rs.map Posting.fromSource := by
  cases h with
  | aside hby =>
    cases hby with
    | stay => exact (List.append_nil _).symm
    | lock | close => rfl
    | rest => exact absurd rfl hp
  | ended hf' => exact if_pos hf'
  | called hr =>
    obtain rfl | rfl := hr
    · rfl
    · rfl
  | relayed hf' hd => rw [Position.credit, hf', hd]; rfl
  | answered frame source o =>
    obtain ⟨x, rfl, hd, -⟩ := hy
    exact answered_credit hd _ source o
  | acted hE hsays =>
    obtain ⟨x, rfl, hx⟩ := hy
    exact says_credit hE hsays hx (hf rfl)

/-! ### The balance of a run -/

/-- The generator, if it is there, is one of the machine's. -/
def Owns (q : Moment (Nat ⊕ H) (Execution ⊕ F) (Output × S)) (g : GeneratorId) : Prop :=
  ∀ y, q.world.generator? g = some y → ∃ depth, y.handle = .inl depth

/-- What the generator has been given in the advance under way, as its position tells. -/
def creditAt (q : Moment (Nat ⊕ H) (Execution ⊕ F) (Output × S)) (g : GeneratorId) : List Bool :=
  (q.world.generator? g).elim [] fun y => (q.position g).credit y

variable {q q' : Moment (Nat ⊕ H) (Execution ⊕ F) (Output × S)} {g : GeneratorId} {r : Except GeneratorError Bool}

theorem creditAt_of_some (hy : q.world.generator? g = some y) : creditAt q g = (q.position g).credit y := by
  rw [creditAt, hy]
  rfl

theorem creditAt_outside (hp : q.position g = .outside) : creditAt q g = [] := by
  rw [creditAt, hp]
  cases q.world.generator? g <;> rfl

theorem creditAt_called {frame : Execution ⊕ F} {reply : Reply} (hp : q.position g = .engaged frame reply)
    (hr : reply = .proceed ∨ reply = .resume) : creditAt q g = [] := by
  rw [creditAt, hp]
  obtain rfl | rfl := hr <;> cases q.world.generator? g <;> rfl

/-- An advance that has succeeded has given a pair. -/
theorem creditAt_success (hk : q.Kept) (hg : g ∉ q.gone) (hy : q.world.generator? g = some y)
    (hr : q.role g = .settled (.ok true)) : creditAt q g = [y.isDelegating] := by
  have hfits := hk.fits g y hy hg
  rw [hr] at hfits
  have hf : y.isFinished = false := by simp [Generator.isFinished, hfits.1]
  rw [creditAt_of_some hy, Moment.position_of_settled hr, Position.credit_over hf]

/-- An advance that has ended without success has given none. -/
theorem creditAt_failure (hk : q.Kept) (hg : g ∉ q.gone) (hr : q.role g = .settled r) (hne : r ≠ .ok true) :
    creditAt q g = [] := by
  cases hy : q.world.generator? g with
  | none => rw [creditAt, hy]; rfl
  | some y =>
    have hfits := hk.fits g y hy hg
    rw [hr] at hfits
    have hf : y.isFinished = true := by
      cases r with
      | error e => simp [Generator.isFinished, hfits.1.1]
      | ok b =>
        cases b with
        | true => exact absurd rfl hne
        | false => simp [Generator.isFinished, hfits.1.1]
    rw [creditAt_of_some hy, Moment.position_of_settled hr]
    exact if_pos hf

theorem Owns.of_handle {depth : Nat} (hy : q.world.generator? g = some y) (hdepth : y.handle = .inl depth) :
    Owns q g := by
  intro y' hy'
  exact ⟨depth, Option.some.inj (hy.symm.trans hy') ▸ hdepth⟩

theorem Owns.before (h : Owns q' g) (n : Moment.Next (m.engine.sum E) q q') (hk : q.Kept) (hg : g ∉ q'.gone) :
    Owns q g := by
  intro y hy
  obtain ⟨y', hy', hpassage⟩ := n.passage hk hg hy
  obtain ⟨depth, hdepth⟩ := h y' hy'
  exact ⟨depth, (passage_handle hpassage).symm.trans hdepth⟩

/-- What a step gives to a generator of the machine adds to its credit. -/
theorem next_credit (n : Moment.Next (m.engine.sum E) q q') (hq : q.Run (m.engine.sum E)) (hg : g ∉ q'.gone)
    (hm : Owns q' g) (hp : q.position g ≠ .over) :
    creditAt q' g = creditAt q g ++ (q.postings (m.engine.sum E) q' g).map Posting.fromSource := by
  have hk := Moment.kept hq
  have hgone : g ∉ q.gone := fun hgone => hg (n.gone_subset hgone)
  cases hy : q.world.generator? g with
  | none =>
    rw [Moment.postings_of_absent hk hy, creditAt_outside (Moment.position_of_absent hk hy)]
    cases hy' : q'.world.generator? g with
    | none => rw [creditAt, hy']; rfl
    | some y' => rw [creditAt_outside (n.newborn hk hy hy').1]; rfl
  | some y =>
    obtain ⟨depth, hdepth⟩ := hm.before n hk hg y hy
    have htune := inTune hq hgone hy
    rw [InTune, hdepth] at htune
    obtain ⟨y', hy', hposts⟩ := n.posts hk hg hy
    rw [creditAt_of_some hy, creditAt_of_some hy']
    refine posts_credit hposts hp htune fun hin => ?_
    obtain ⟨z, hz, hf⟩ := hk.unfinished hgone hin
    exact Option.some.inj (hy.symm.trans hz) ▸ hf

/-- What is given until a generator has had its turn adds to its credit. -/
theorem turn_credit (h : Moment.Turn (m.engine.sum E) g q rs q') (hq : q.Run (m.engine.sum E)) (hg : g ∉ q'.gone)
    (hm : Owns q' g) : creditAt q' g = creditAt q g ++ rs.map Posting.fromSource := by
  induction h with
  | refl => exact (List.append_nil _).symm
  | next h n hnot ih =>
    have hq₁ := hq.later h.later
    have hk₁ := Moment.kept hq₁
    rw [next_credit n hq₁ hg hm hnot, ih (fun hgone => hg (n.gone_subset hgone)) (hm.before n hk₁ hg),
      List.map_append, List.append_assoc]

/-- Whoever has had its turn with success was given one pair. -/
theorem turn_success (h : Moment.Turn (m.engine.sum E) g q rs q') (hq : q.Run (m.engine.sum E)) (hg : g ∉ q'.gone)
    (hm : Owns q' g) (hnone : creditAt q g = []) (hy : q'.world.generator? g = some y)
    (hr : q'.role g = .settled (.ok true)) :
    ∃ p, rs = [p] ∧ p.fromSource = y.isDelegating ∧ y.pair = p.pair := by
  have hk' := Moment.kept (hq.later h.later)
  have hbalance := turn_credit h hq hg hm
  rw [creditAt_success hk' hg hy hr, hnone, List.nil_append, eq_comm, List.map_eq_singleton_iff] at hbalance
  obtain ⟨p, rfl, hp⟩ := hbalance
  refine ⟨p, rfl, hp, ?_⟩
  rw [← Moment.pair_of_some hy, h.pair (Moment.kept hq) hg]
  rfl

/-- Whoever has had its turn without success was given none. -/
theorem turn_failure (h : Moment.Turn (m.engine.sum E) g q rs q') (hq : q.Run (m.engine.sum E)) (hg : g ∉ q'.gone)
    (hm : Owns q' g) (hnone : creditAt q g = []) (hr : q'.role g = .settled r) (hne : r ≠ .ok true) :
    rs = [] ∧ q'.pair g = q.pair g := by
  have hk' := Moment.kept (hq.later h.later)
  have hbalance := turn_credit h hq hg hm
  rw [creditAt_failure hk' hg hr hne, hnone, List.nil_append, eq_comm, List.map_eq_nil_iff] at hbalance
  subst hbalance
  exact ⟨rfl, h.pair (Moment.kept hq) hg⟩

/-- As long as no advance succeeds, a generator shows the same pair whenever it has not been given another in the
advance under way. -/
theorem fruitless_pair (h : Moment.Fruitless (m.engine.sum E) g q q') (hq : q.Run (m.engine.sum E))
    (hg : g ∉ q'.gone) (hm : Owns q' g) (hrest : creditAt q' g = [] ∨ q'.position g = .over) :
    q'.pair g = q.pair g := by
  obtain ⟨rs, h⟩ := h
  induction h with
  | refl => rfl
  | @next q₁ q₂ rs h n hbarren ih =>
    have hq₁ := hq.later h.later
    have hk₁ := Moment.kept hq₁
    have hbefore := ih (fun hgone => hg (n.gone_subset hgone)) (hm.before n hk₁ hg)
    by_cases hover : q₁.position g = .over
    · rw [n.pair hk₁ hg, n.quiet_of_over hk₁ hg hover]
      exact hbefore (.inr hover)
    · -- Whatever the step ends, it is no success, so neither it nor the advance before it gave anything.
      have hnone : creditAt q₂ g = [] := by
        refine hrest.elim id fun hp => ?_
        obtain ⟨r, hr⟩ := Moment.role_of_over hp
        refine creditAt_failure (hk₁.next n) hg hr ?_
        rintro rfl
        exact hover (Moment.position_of_settled (hbarren hr))
      have hbalance := next_credit n hq₁ hg hm hover
      rw [hnone, eq_comm, List.append_eq_nil_iff, List.map_eq_nil_iff] at hbalance
      rw [n.pair hk₁ hg, hbalance.2]
      exact hbefore (.inl hbalance.1)

end Machine

/-- A body of the machine keeps its contract, and pairs change on success only. From the moment that the body of one
of the machine's generators is called to the moment that its turn is over, the generator is given exactly one pair if
the body has paused: the body has yielded it, or it is the first pair of a source to which the generator then
delegates. If the body has returned or failed, the generator is given none. In all, an advance of the generator, from
when someone turns to it to its result, gives exactly one pair if it succeeds, and if not leaves the pair as it was.
So a generator shows the pair of its last success whenever its body is not being run; in particular a call on it that
gives no pair leaves what it shows. A fresh generator that is sent a value is advanced twice in one call. -/
theorem pairs_follow_successes (m : Machine) (E : Engine H F S) :
    (∀ (q q' : Moment (Nat ⊕ H) (Execution ⊕ F) (Output × S)) g y depth, q.Run (m.engine.sum E) → g ∉ q'.gone →
      q'.world.generator? g = some y → y.handle = .inl depth →
      (∀ frame reply rs r, q.position g = .engaged frame reply → reply = .proceed ∨ reply = .resume →
        Moment.Turn (m.engine.sum E) g q rs q' → q'.role g = .settled r →
        (r = .ok true → ∃ p, rs = [p] ∧ p.manner ≠ .relay ∧ (p.manner = .opening ↔ y.isDelegating = true) ∧
          y.pair = p.pair) ∧
        (r ≠ .ok true → rs = [])) ∧
      (∀ rs r, q.position g = .outside → Moment.Turn (m.engine.sum E) g q rs q' → q'.role g = .settled r →
        (r = .ok true → ∃ p, rs = [p] ∧ y.pair = p.pair) ∧
        (r ≠ .ok true → rs = [] ∧ y.pair = q.pair g)) ∧
      (Moment.Fruitless (m.engine.sum E) g q q' → q'.AtRest g → y.pair = q.pair g)) ∧
    ∀ (w w' : World (Nat ⊕ H) (Execution ⊕ F) (Output × S)) fuel g input r x depth, w.Reachable (m.engine.sum E) →
      w.generator? g = some x → x.handle = .inl depth → input.sent? = none ∨ x.isStarted = true →
      w.advance (m.engine.sum E) fuel g input = some (w', r) → r ≠ .ok true →
      ∃ x', w'.generator? g = some x' ∧ x'.pair = x.pair := by
  constructor
  · intro q q' g y depth hq hg hy hdepth
    have hm := Machine.Owns.of_handle hy hdepth
    rw [← Moment.pair_of_some hy]
    refine ⟨fun frame reply rs r hp hreply hturn hr => ⟨?_, fun hne => ?_⟩,
      fun rs r hp hturn hr => ⟨?_, fun hne => ?_⟩, fun hbarren hrest => ?_⟩
    · rintro rfl
      obtain ⟨p, rfl, hsource, hpair⟩ :=
        Machine.turn_success hturn hq hg hm (Machine.creditAt_called hp hreply) hy hr
      have hrelay := (hturn.inBody (Moment.kept hq) hg (by rw [hp]; rfl)).2 p List.mem_cons_self
      refine ⟨p, rfl, hrelay, ?_, (Moment.pair_of_some hy).trans hpair⟩
      rw [← hsource]
      exact Posting.opening_iff hrelay
    · exact (Machine.turn_failure hturn hq hg hm (Machine.creditAt_called hp hreply) hr hne).1
    · rintro rfl
      obtain ⟨p, hone, -, hpair⟩ := Machine.turn_success hturn hq hg hm (Machine.creditAt_outside hp) hy hr
      exact ⟨p, hone, (Moment.pair_of_some hy).trans hpair⟩
    · exact Machine.turn_failure hturn hq hg hm (Machine.creditAt_outside hp) hr hne
    · exact Machine.fruitless_pair hbarren hq hg hm (hrest.imp_left Machine.creditAt_outside)
  · intro w w' fuel g input r x depth hw hx hdepth hone ha hne
    obtain ⟨history, hrun⟩ := Moment.run_of_reachable hw
    obtain ⟨rs, q', hturn, hr, hg, rfl⟩ := Moment.turn_of_advance ha hx hone history
    obtain ⟨ls, hnotes⟩ := hturn.later.notes g
    obtain ⟨y, hy, hdepth'⟩ := hnotes.invariant (I := fun _ _ y => y.handle = .inl depth)
      (by intro _ _ _ _ _ _ hpassage hsame; exact (Machine.passage_handle hpassage).trans hsame)
      (Moment.kept hrun) hg hx hdepth
    have hm := Machine.Owns.of_handle hy hdepth'
    have hpair := (Machine.turn_failure hturn hrun hg hm (Machine.creditAt_outside rfl) hr hne).2
    rw [Moment.pair_of_some hy, Moment.pair_of_some hx] at hpair
    exact ⟨y.setLock false, by simp [hy], hpair⟩

/-- A body that yields from an empty table, then from one with an entry, and returns. The first call of `next` gives
the pair of the entry, and the second, which gives none, leaves it. -/
theorem pairs_follow_successes_of_walker :
    ∃ (m : Machine) (w w' : World (Nat ⊕ Unit) (Execution ⊕ Script.Frame) (Output × Script.Tally))
      (q : Moment (Nat ⊕ Unit) (Execution ⊕ Script.Frame) (Output × Script.Tally)) (rs : List Posting)
      (r : Except GeneratorError Bool) (history : History (Execution ⊕ Script.Frame))
      (y y' : Generator (Nat ⊕ Unit) (Execution ⊕ Script.Frame)),
      Moment.Turn (m.engine.sum (Script.engine ∅)) 0 ⟨w, none, history, []⟩ rs q ∧
        q.role 0 = .settled (.ok true) ∧ (q.world.unlock 0).generator? 0 = some y ∧ y.isDelegating = true ∧
        y.value.asInt? = some 7 ∧ (∃ p, rs = [p] ∧ y.pair = p.pair) ∧
        (q.world.unlock 0).advance (m.engine.sum (Script.engine ∅)) 30 0 .next = some (w', r) ∧ r ≠ .ok true ∧
        w'.generator? 0 = some y' ∧ y'.pair = y.pair := by
  let m : Machine := ⟨.empty, .standard⟩
  let E := m.engine.sum (Script.engine ∅)
  let f : Function := ⟨"walker", 0, 0, #[.newArray, .yieldFrom, .pop, .newArray, .const (.int 7), .arrayPush,
    .yieldFrom, .ret]⟩
  let w : World (Nat ⊕ Unit) (Execution ⊕ Script.Frame) (Output × Script.Tally) :=
    ⟨.empty, (.silent, .empty), #[.fresh (.inl 0) f []]⟩
  have hw : World.Operated E ⟨.empty, (.silent, .empty), #[]⟩ w :=
    .step (.refl _) (rfl : World.operate E 0 _ (.create (.inl 0) f []) = some _)
  have hcalls : ((w.advance E 30 0 .next).any fun t => World.produced t.2 &&
      ((t.1.generator? 0).any fun y => y.handle.isLeft && y.isDelegating && y.value.asInt? == some 7) &&
      (t.1.advance E 30 0 .next).any fun t' => !World.produced t'.2) = true := by decide +kernel
  obtain ⟨⟨w₁, r₁⟩, ha₁, hchecks⟩ := (Option.any_eq_true ..).mp hcalls
  simp only [Bool.and_eq_true] at hchecks
  obtain ⟨⟨hproduced, hshown⟩, hagain⟩ := hchecks
  obtain rfl := World.eq_of_produced hproduced
  obtain ⟨y, hy, hshows⟩ := (Option.any_eq_true ..).mp hshown
  simp only [Bool.and_eq_true, beq_iff_eq] at hshows
  obtain ⟨⟨hleft, hdelegating⟩, hseven⟩ := hshows
  obtain ⟨depth, hdepth⟩ := Sum.isLeft_iff.mp hleft
  obtain ⟨⟨w₂, r₂⟩, ha₂, hr₂⟩ := (Option.any_eq_true ..).mp hagain
  have hne : r₂ ≠ .ok true := by
    rintro rfl
    cases hr₂
  obtain ⟨history, hrun⟩ := Moment.run_of_reachable (E := E) ⟨_, _, hw⟩
  obtain ⟨rs, q, hturn, hr, hg, rfl⟩ := Moment.turn_of_advance ha₁ rfl (.inl rfl) history
  obtain ⟨z, hz, rfl⟩ := Option.map_eq_some_iff.mp ((World.generator?_unlock_self ..).symm.trans hy)
  obtain ⟨hmoments, hworlds⟩ := pairs_follow_successes m (Script.engine ∅)
  obtain ⟨-, hadvance, -⟩ := hmoments _ q 0 z depth hrun hg hz hdepth
  have hnext : w.operate E 30 (.next 0) = some (.moved true, q.world.unlock 0) := by
    rw [World.operate, ha₁]
    rfl
  obtain ⟨y', hy', hsame⟩ := hworlds _ w₂ 30 0 .next r₂ _ depth ⟨_, _, hw.step hnext⟩ hy hdepth (.inl rfl) ha₂ hne
  exact ⟨m, w, w₂, q, rs, r₂, history, _, y', hturn, hr, hy, hdelegating, hseven,
    (hadvance rs _ rfl hturn hr).1 rfl, ha₂, hne, hy', hsame⟩

end YieldMachine
