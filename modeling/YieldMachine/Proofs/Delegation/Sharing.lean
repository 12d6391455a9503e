import YieldMachine.Proofs.Delegation.Transparency
import YieldMachine.Proofs.Finality

/-!
One child, many outer generators. Any number of generators may do nothing but delegate to one shared child;
whoever of them is called, or if the child itself is, the child goes one pair further. So the calls together give
the pairs of the child alone, each of them once and in order, and an outer generator called when there are no
more ends with the child's result or with its failure (`shared_child_undivided`). This asks that the child's own
calls never come to an outer generator: one that they do come to ends by an error of its own
(`shared_child_recalled`).
-/

namespace YieldMachine

variable {H F S : Type}

namespace World

variable {E : Engine H F S} {w w' : World H F S} {ys : GeneratorId → Generator H F}
  {os : List GeneratorId} {g o : GeneratorId}

/-- Whether the calls return within `n` steps each and never come to `o`. -/
def sparesWithin (E : Engine H F S) (n : Nat) (o c : GeneratorId) (w : World H F S) :
    List Input → Bool
  | [] => true
  | i :: is =>
    (w.open? c i).all (holdsAlong (Drive.step E) (fun t => t.2.current != o) n) &&
      (w.advance E n c i).all fun (w, _) => sparesWithin E n o c w is

theorem spares_of_sparesWithin {n : Nat} {c : GeneratorId} {is : List Input}
    (h : w.sparesWithin E n o c is = true) : w.Spares E o c is := by
  induction is generalizing w with
  | nil => trivial
  | cons i is ih =>
    obtain ⟨halong, hrest⟩ := Bool.and_eq_true_iff.mp h
    constructor
    · intro s k t hs hr
      rw [hs, Option.all_some] at halong
      simpa using hr.of_holdsAlong halong
    · intro fuel w' r ha
      obtain ⟨s, hs, hrun⟩ := Option.bind_eq_some_iff.mp ha
      rw [hs, Option.all_some] at halong
      have ha' : w.advance E n c i = some (w', r) := by
        rw [advance, hs, Option.bind_some]
        exact run_of_holdsAlong (ends_of_run hrun) halong
      rw [ha', Option.all_some] at hrest
      exact ih hrest

/-- Calls on a finished generator give no pair. -/
theorem Called.over {is : List Input} {rs : List Report} {x : Generator H F}
    (h : w.Called E g is rs w') (hx : w.generator? g = some x) (hp : x.In .finished) :
    ∀ r ∈ rs, r.produced = false := by
  induction h with
  | nil => simp
  | cons ha _ _ ih =>
    obtain ⟨rfl, rfl⟩ := advance_of_finished hx hp ha
    exact List.forall_mem_cons.mpr ⟨rfl, ih hx⟩

/-- Other generators in the places of `os`. -/
def recast (w : World H F S) (ys : GeneratorId → Generator H F) : List GeneratorId → World H F S
  | [] => w
  | o :: os => (w.recast ys os).replace o (ys o)

theorem recast_heap (w : World H F S) (ys : GeneratorId → Generator H F) (os : List GeneratorId) :
    (w.recast ys os).heap = w.heap := by
  induction os with
  | nil => rfl
  | cons o os ih => exact ih

theorem recast_state (w : World H F S) (ys : GeneratorId → Generator H F) (os : List GeneratorId) :
    (w.recast ys os).state = w.state := by
  induction os with
  | nil => rfl
  | cons o os ih => exact ih

theorem generator?_recast (w : World H F S) (ys : GeneratorId → Generator H F)
    (os : List GeneratorId) (g : GeneratorId) :
    (w.recast ys os).generator? g =
      if g ∈ os then (w.generator? g).map (fun _ => ys g) else w.generator? g := by
  induction os with
  | nil => simp [recast]
  | cons o os ih =>
    rw [recast, replace]
    by_cases hg : g = o
    · subst hg
      rw [generator?_modify_self, ih]
      split <;> simp [Function.comp_def]
    · rw [generator?_modify_of_ne hg, ih]
      simp [hg]

theorem generator?_recast_of_not_mem (hg : g ∉ os) :
    (w.recast ys os).generator? g = w.generator? g := by
  rw [generator?_recast, if_neg hg]

theorem generator?_recast_of_mem {z : Generator H F} (ys : GeneratorId → Generator H F) (ho : o ∈ os)
    (hz : w.generator? o = some z) : (w.recast ys os).generator? o = some (ys o) := by
  rw [generator?_recast, if_pos ho, hz]
  rfl

/-- The world with the generators that it has. -/
theorem recast_eq_self (h : ∀ o ∈ os, w.generator? o = some (ys o)) : w.recast ys os = w := by
  refine ext_generator? (recast_heap ..) (recast_state ..) fun i => ?_
  rw [generator?_recast]
  split
  · next hi => simp [h i hi]
  · rfl

theorem setLock_recast (hg : g ∉ os) (b : Bool) :
    (w.recast ys os).modify g (·.setLock b) = (w.modify g (·.setLock b)).recast ys os := by
  refine ext_generator? ?_ ?_ fun i => ?_
  · exact (recast_heap w ys os).trans (recast_heap (w.modify g (·.setLock b)) ys os).symm
  · exact (recast_state w ys os).trans (recast_state (w.modify g (·.setLock b)) ys os).symm
  · by_cases hi : i = g
    · subst hi
      rw [generator?_modify_self, generator?_recast, if_neg hg, generator?_recast, if_neg hg,
        generator?_modify_self]
    · rw [generator?_modify_of_ne hi, generator?_recast, generator?_recast,
        generator?_modify_of_ne hi]

theorem replace_recast (ho : o ∈ os) (y : Generator H F) :
    (w.recast ys os).replace o y = w.recast (fun g => if g = o then y else ys g) os := by
  refine ext_generator? ?_ ?_ fun i => ?_
  · exact (recast_heap w ys os).trans (recast_heap ..).symm
  · exact (recast_state w ys os).trans (recast_state ..).symm
  · by_cases hi : i = o
    · subst hi
      rw [replace, generator?_modify_self, generator?_recast, generator?_recast, if_pos ho, if_pos ho]
      simp [Function.comp_def]
    · rw [generator?_replace_of_ne hi, generator?_recast, generator?_recast, if_neg hi]

end World

namespace Drive

variable {E : Engine H F S} {ys : GeneratorId → Generator H F} {os : List GeneratorId}
  {s s' : State H F S} {n : Nat}

/-- A drive that never comes to `os`, in whose places there are to be generators just as free. -/
structure Sparing (E : Engine H F S) (ys : GeneratorId → Generator H F) (os : List GeneratorId)
    (s : State H F S) : Prop where
  apart : ∀ o ∈ os, Apart E o s
  free : ∀ o ∈ os, ∀ z, s.1.generator? o = some z → z.locked = true → (ys o).locked = true

/-- The same drive with other generators in the places of `os`. -/
def recast (ys : GeneratorId → Generator H F) (os : List GeneratorId) (s : State H F S) :
    State H F S :=
  (s.1.recast ys os, s.2)

theorem Sparing.step (h : Sparing E ys os s) (hs : Drive.step E s = .next s') :
    Sparing E ys os s' := by
  refine ⟨fun o ho => (h.apart o ho).step hs, fun o ho z hz => ?_⟩
  obtain ⟨z', hz', -⟩ := (h.apart o ho).avoided
  obtain rfl : z' = z := Option.some.inj (((h.apart o ho).kept_step hz' hs).symm.trans hz)
  exact h.free o ho z' hz'

/-- What stands in the places of `os` does not steer the drive. -/
theorem Sparing.step_recast (h : Sparing E ys os s) (hs : Drive.step E s = .next s') :
    Drive.step E (recast ys os s) = .next (recast ys os s') := by
  induction os with
  | nil => exact hs
  | cons o os ih =>
    have hrest := ih ⟨fun p hp => h.apart p (List.mem_cons_of_mem _ hp),
      fun p hp => h.free p (List.mem_cons_of_mem _ hp)⟩
    have hapart := h.apart o List.mem_cons_self
    obtain ⟨z, hz, -⟩ := hapart.avoided
    -- The list may name a generator twice.
    have hz' : (s.1.recast ys os).generator? o = some (if o ∈ os then ys o else z) := by
      rw [World.generator?_recast, hz]
      split <;> rfl
    have hturn : s'.2.current ≠ o := hapart.current_step hs
    refine step_replace hz' ?_ hapart.outside hrest hturn
    intro hl
    split at hl
    · exact hl
    · exact h.free o List.mem_cons_self z hz hl

theorem Sparing.halt_recast {r : Result H F S} (h : Sparing E ys os s)
    (hs : Drive.step E s = .halt r) :
    Drive.step E (recast ys os s) = .halt (r.1.recast ys os, r.2) := by
  obtain ⟨w, r⟩ := r
  obtain ⟨hdone, hwaiting, rfl⟩ := halt_cases hs
  have hout : s.2.current ∉ os := fun hmem => (h.apart _ hmem).outside List.mem_cons_self
  rw [recast, step_halt (w := s.1.recast ys os) hdone hwaiting, World.unlock,
    World.setLock_recast hout]
  rfl

theorem Sparing.endAlike (h : Sparing E ys os s) :
    EndAlike (Drive.step E) (Drive.step E) (fun q q' => q' = (q.1.recast ys os, q.2)) s
      (recast ys os s) := by
  refine Simulates.endAlike (R := fun s t => Sparing E ys os s ∧ t = recast ys os s) ?_ ⟨h, rfl⟩
  rintro s t ⟨hs, rfl⟩
  constructor
  · intro s' hnext
    exact ⟨0, _, .single (hs.step_recast hnext), hs.step hnext, rfl⟩
  · intro r hhalt
    exact ⟨_, .halt (hs.halt_recast hhalt), rfl⟩

/-- The drive with other generators goes through the same generators. -/
theorem Sparing.reaches (h : Sparing E ys os s) {t : State H F S}
    (hr : Reaches (Drive.step E) (recast ys os s) n t) :
    ∃ t', Reaches (Drive.step E) s n t' ∧ t = recast ys os t' := by
  generalize hu : recast ys os s = u at hr
  induction hr generalizing s with
  | refl => exact ⟨s, .refl s, hu.symm⟩
  | next hstep _ ih =>
    subst hu
    cases hs : Drive.step E s with
    | halt r =>
      rw [h.halt_recast hs] at hstep
      cases hstep
    | next s' =>
      rw [h.step_recast hs] at hstep
      obtain rfl := Transition.next.inj hstep
      obtain ⟨t', hr', ht'⟩ := ih (h.step hs) rfl
      exact ⟨t', .next hs hr', ht'⟩

end Drive

namespace Forwarding

open Drive

variable {m : Machine} {E : Engine H F S}
  {v w : World (Nat ⊕ H) (Execution ⊕ F) (Output × S)} {os gs : List GeneratorId}
  {c g o : GeneratorId} {x y : Generator (Nat ⊕ H) (Execution ⊕ F)}
  {ys : GeneratorId → Generator (Nat ⊕ H) (Execution ⊕ F)}

/-- A fresh generator that delegates to `c` and does nothing else. -/
def Forwards (c : GeneratorId) (y : Generator (Nat ⊕ H) (Execution ⊕ F)) : Prop :=
  ∃ depth f rest, f.body = forwarding ∧ y = .fresh (.inl depth) f (.generator c :: rest)

/-- How an outer generator `y` stands to its child `x`, which others may call too. -/
inductive Attached (c : GeneratorId) (x y : Generator (Nat ⊕ H) (Execution ⊕ F)) : Prop where
  | fresh (h : Forwards c y)
  | waiting (hs : x.isStarted = true) (h : Waiting c y)
  | ended (h : Ended y x)

/-- The worlds differ in the outer generators `os` only, and those of `w` are attached to the child. -/
def Shared (os : List GeneratorId) (c : GeneratorId)
    (v w : World (Nat ⊕ H) (Execution ⊕ F) (Output × S)) : Prop :=
  ∃ x ys, w = v.recast ys os ∧ v.generator? c = some x ∧ x.locked = false ∧
    ∀ o ∈ os, (ys o).locked = false ∧ Attached c x (ys o)

def EndedIn (o c : GeneratorId) (v w : World (Nat ⊕ H) (Execution ⊕ F) (Output × S)) : Prop :=
  ∃ x y, v.generator? c = some x ∧ w.generator? o = some y ∧ Ended y x

/-- Calls on the child in `v` leave the free outer generators alone. -/
structure Unmoved (E : Engine H F S) (os : List GeneratorId) (c : GeneratorId) (v : World H F S)
    (n : Nat) : Prop where
  outside : c ∉ os
  free : ∀ o ∈ os, ∃ z, v.generator? o = some z ∧ z.locked = false
  spares : ∀ o ∈ os, v.Spares E o c (List.replicate n .next)

theorem Unmoved.avoided {E : Engine H F S} {v : World H F S} {n : Nat} (h : Unmoved E os c v n)
    (ho : o ∈ os) : Avoided E o c v (List.replicate n .next) := by
  obtain ⟨z, hz, -⟩ := h.free o ho
  exact ⟨z, hz, .inr (h.spares o ho)⟩

theorem Unmoved.ne {E : Engine H F S} {v : World H F S} {n : Nat} (h : Unmoved E os c v n)
    (ho : o ∈ os) : c ≠ o := fun he => h.outside (he ▸ ho)

theorem Unmoved.advance {E : Engine H F S} {v v' : World H F S} {n fuel : Nat}
    {r : Except GeneratorError Bool} (h : Unmoved E os c v (n + 1))
    (ha : v.advance E fuel c .next = some (v', r)) : Unmoved E os c v' n := by
  refine ⟨h.outside, fun o ho => ?_, fun o ho => (h.spares o ho).2 _ _ _ ha⟩
  obtain ⟨s, hs, hrun⟩ := Option.bind_eq_some_iff.mp ha
  obtain ⟨k, t, hreach, ht⟩ := (ends_of_run hrun).reaches
  obtain ⟨-, -, -, rfl⟩ := ((World.open_onCall hs).reaches hreach).halt ht
  obtain ⟨z, hz, hl⟩ := h.free o ho
  have hapart := (h.avoided ho).apart (h.ne ho) hs
  obtain ⟨x, -, -, rfl⟩ := World.open_cases hs
  have hne := Ne.symm (h.ne ho)
  have hz' := hapart.kept_reaches ((World.generator?_lock_of_ne hne).trans hz) hreach
  exact ⟨z, (World.generator?_unlock_of_ne hne).trans hz', hl⟩

theorem Unmoved.sparing {E : Engine H F S} {v : World H F S} {n : Nat} {s : State H F S}
    {ys : GeneratorId → Generator H F} (h : Unmoved E os c v (n + 1))
    (hs : v.open? c .next = some s) : Sparing E ys os s := by
  refine ⟨fun o ho => (h.avoided ho).apart (h.ne ho) hs, fun o ho z hz hl => ?_⟩
  obtain ⟨x, -, -, rfl⟩ := World.open_cases hs
  obtain ⟨z', hz', hl'⟩ := h.free o ho
  rw [World.generator?_lock_of_ne (Ne.symm (h.ne ho)), hz'] at hz
  obtain rfl := Option.some.inj hz
  rw [hl] at hl'
  cases hl'

/-- A call of the child begins alike whatever stands in the places of the outer generators. -/
theorem open_recast {E : Engine H F S} {v : World H F S} {n : Nat} {s : State H F S}
    {ys : GeneratorId → Generator H F} (h : Unmoved E os c v n) (hs : v.open? c .next = some s) :
    (v.recast ys os).open? c .next = some (Drive.recast ys os s) := by
  obtain ⟨x, hx, hl, rfl⟩ := World.open_cases hs
  rw [World.open_eq ((World.generator?_recast_of_not_mem h.outside).trans hx) hl, World.lock,
    World.setLock_recast h.outside]
  rfl

theorem Unmoved.avoided_recast {E : Engine H F S} {v : World H F S} {n : Nat}
    {ys : GeneratorId → Generator H F} {x : Generator H F} (h : Unmoved E os c v (n + 1))
    (hx : v.generator? c = some x) (hl : x.locked = false) (ho : o ∈ os) :
    Avoided E o c (v.recast ys os) [.next] := by
  obtain ⟨z, hz, -⟩ := h.free o ho
  have hopen := World.open_eq (i := .next) hx hl
  refine ⟨ys o, World.generator?_recast_of_mem _ ho hz, .inr ⟨fun s k t hs hr => ?_, fun _ _ _ _ => trivial⟩⟩
  rw [open_recast h hopen] at hs
  obtain rfl := Option.some.inj hs
  obtain ⟨t', hr', rfl⟩ := (h.sparing hopen).reaches hr
  exact (h.spares o ho).1 _ k t' hopen hr'

/-! ### One call -/

/-- A call of an outer generator, whoever has called the child before, is a call of the child. -/
theorem attached_call {i : Input} (hm : m.config.mode = .unbounded)
    (hrest : LocalInvariant.Resting Generator.FitsRole w)
    (havoided : Avoided (m.engine.sum E) o c w [i]) (hne : c ≠ o) (hi : i = .next)
    (hx : w.generator? c = some x) (hl : x.locked = false) (hy : w.generator? o = some y)
    (h : Attached c x y) :
    EndAlike (step (m.engine.sum E)) (step (m.engine.sum E)) (Followed o c)
      (w.lock c, turnTo x c i.sent? []) (w.lock o, turnTo y o i.sent? []) := by
  have hlock : w.lock o = w.replace o (y.setLock true) := by
    rw [World.lock, ← World.replace_eq_self hy, World.modify_replace, World.replace_eq_self hy]
  rw [hlock]
  cases h with
  | fresh hf =>
    obtain ⟨depth, f, rest, hf, rfl⟩ := hf
    exact first_call hm hf hrest havoided hne rfl hx hl (.inl hi) rfl
  | waiting hs hwaiting => exact waiting_call hm hrest havoided hne hx hl hs hwaiting
  | ended hended => exact ended_call hy hne hx hl hended

/-- What a call gave on the child in `v`, the first result, and on `g` in `w`. -/
structure Served (os : List GeneratorId) (c g : GeneratorId)
    (v w : World (Nat ⊕ H) (Execution ⊕ F) (Output × S))
    (q q' : Result (Nat ⊕ H) (Execution ⊕ F) (Output × S)) : Prop where
  shared : Shared os c q.1 q'.1
  produced : World.produced q'.2 = World.produced q.2
  pair : ∃ x y, q.1.generator? c = some x ∧ q'.1.generator? g = some y ∧
    (World.produced q.2 = true → y.key = x.key ∧ y.value = x.value)
  ended : ∀ o ∈ os, EndedIn o c v w ∨ g = o ∧ World.produced q.2 = false → EndedIn o c q.1 q'.1

theorem Linked.attached (h : Linked c y x) : Attached c x y := by
  cases h with
  | delegating hy hx => exact .waiting (by simp [Generator.isStarted, hx.1]) hy
  | spent h => exact .ended h

theorem Linked.ended (h : Linked c y x) (hf : x.isFinished = true) : Ended y x := by
  cases h with
  | delegating hy hx => simp [Generator.isFinished, hx.1] at hf
  | spent h => exact h

/-- The child after a call of it alone: started, as it was if it had finished, and finished if there was no
pair. The outer generators stay attached to it. -/
theorem child_after {s : State (Nat ⊕ H) (Execution ⊕ F) (Output × S)}
    {q : Result (Nat ⊕ H) (Execution ⊕ F) (Output × S)}
    (hrest : LocalInvariant.Resting Generator.FitsRole v) (hx : v.generator? c = some x)
    (hs : v.open? c .next = some s) (he : Ends (step (m.engine.sum E)) s q) :
    ∃ x', q.1.generator? c = some x' ∧ x'.locked = false ∧ (x.isFinished = true → x' = x) ∧
      (World.produced q.2 = false → x'.isFinished = true) ∧ ∀ y, Attached c x y → Attached c x' y := by
  obtain ⟨v', r⟩ := q
  obtain ⟨-, z, hz, hrole⟩ := Generator.fitsRole_invariant.ends hrest hs he
  have hsame (hf : x.isFinished = true) : z.setLock false = x := by
    obtain ⟨fuel, ha⟩ := (World.advance_iff hs).mpr he
    obtain ⟨rfl, -⟩ := World.advance_of_finished hx ((hrest c x hx).finished hf) ha
    exact Option.some.inj (hz.symm.trans hx)
  have hstarted : (z.setLock false).isStarted = true := by
    match r, hrole with
    | .ok true, hin => simp [Generator.isStarted, Generator.setLock, hin.1]
    | .ok false, ⟨hin, _⟩ => simp [Generator.isStarted, Generator.setLock, hin.1]
    | .error _, ⟨hin, _⟩ => simp [Generator.isStarted, Generator.setLock, hin.1]
  refine ⟨z.setLock false, hz, rfl, hsame, fun hr => (outcome_cases hrole hr).1, fun y hy => ?_⟩
  cases hy with
  | fresh h => exact .fresh h
  | waiting _ h => exact .waiting hstarted h
  | ended h => exact .ended ((hsame h.child).symm ▸ h)

/-- An outer generator in its place has ended with the child just when `EndedIn` says so. -/
theorem endedIn_recast {z : Generator (Nat ⊕ H) (Execution ⊕ F)} (ho : o ∈ os)
    (hz : v.generator? o = some z) (hx : v.generator? c = some x) :
    EndedIn o c v (v.recast ys os) ↔ Ended (ys o) x := by
  have hy := World.generator?_recast_of_mem ys ho hz
  constructor
  · rintro ⟨x', y, hx', hy', hended⟩
    obtain rfl := Option.some.inj (hx'.symm.trans hx)
    obtain rfl := Option.some.inj (hy'.symm.trans hy)
    exact hended
  · exact fun hended => ⟨x, ys o, hx, hy, hended⟩

/-- A call of the child itself. -/
theorem served_child {n : Nat} (hunmoved : Unmoved (m.engine.sum E) os c v (n + 1))
    (hrest : LocalInvariant.Resting Generator.FitsRole v)
    (hx : v.generator? c = some x) (hl : x.locked = false)
    (hys : ∀ o ∈ os, (ys o).locked = false ∧ Attached c x (ys o)) :
    EndAlike (step (m.engine.sum E)) (step (m.engine.sum E)) (Served os c c v (v.recast ys os))
      (v.lock c, turnTo x c none []) (Drive.recast ys os (v.lock c, turnTo x c none [])) := by
  have hopen : v.open? c .next = some (v.lock c, turnTo x c none []) := World.open_eq hx hl
  refine (hunmoved.sparing hopen).endAlike.imp fun q q' he _ hq' => ?_
  obtain ⟨x', hx', hl', hsame, -, hattached⟩ := child_after hrest hx hopen he
  obtain ⟨fuel, ha⟩ := (World.advance_iff hopen).mpr he
  subst hq'
  refine ⟨⟨x', ys, rfl, hx', hl', fun o ho => ⟨(hys o ho).1, hattached _ (hys o ho).2⟩⟩, rfl,
    ⟨x', x', hx', (World.generator?_recast_of_not_mem hunmoved.outside).trans hx',
      fun _ => ⟨rfl, rfl⟩⟩, ?_⟩
  rintro o ho (hended | ⟨rfl, -⟩)
  · obtain ⟨z, hz, -⟩ := hunmoved.free o ho
    obtain ⟨z', hz', -⟩ := (hunmoved.advance ha).free o ho
    have hended' := (endedIn_recast ho hz hx).mp hended
    exact (endedIn_recast ho hz' hx').mpr (hsame hended'.child ▸ hended')
  · exact absurd ho hunmoved.outside

/-- A call of an outer generator: the child is driven below it. -/
theorem served_outer {n : Nat} (hm : m.config.mode = .unbounded)
    (hunmoved : Unmoved (m.engine.sum E) os c v (n + 1))
    (hrest : LocalInvariant.Resting Generator.FitsRole v)
    (hrest' : LocalInvariant.Resting Generator.FitsRole (v.recast ys os))
    (hx : v.generator? c = some x) (hl : x.locked = false)
    (hys : ∀ o ∈ os, (ys o).locked = false ∧ Attached c x (ys o)) (ho : o ∈ os) :
    EndAlike (step (m.engine.sum E)) (step (m.engine.sum E)) (Served os c o v (v.recast ys os))
      (v.lock c, turnTo x c none []) ((v.recast ys os).lock o, turnTo (ys o) o none []) := by
  have hopen : v.open? c .next = some (v.lock c, turnTo x c none []) := World.open_eq hx hl
  obtain ⟨z, hz, -⟩ := hunmoved.free o ho
  have hcall := attached_call (E := E) (i := .next) hm hrest' (hunmoved.avoided_recast hx hl ho)
    (hunmoved.ne ho) rfl ((World.generator?_recast_of_not_mem hunmoved.outside).trans hx) hl
    (World.generator?_recast_of_mem _ ho hz) (hys o ho).2
  rw [World.lock, World.setLock_recast hunmoved.outside] at hcall
  refine ((hunmoved.sparing hopen).endAlike.trans hcall).imp ?_
  rintro q q' he - ⟨p, rfl, x', y, hw', hx', hxl, hyl, hlinked, hproduced, hpair⟩
  rw [World.generator?_recast_of_not_mem hunmoved.outside] at hx'
  obtain ⟨x₁, hx₁, -, hsame, hfinished, hattached⟩ := child_after hrest hx hopen he
  obtain rfl := Option.some.inj (hx₁.symm.trans hx')
  obtain ⟨fuel, ha⟩ := (World.advance_iff hopen).mpr he
  have hfree := (hunmoved.advance ha).free
  obtain ⟨q', r'⟩ := q'
  rw [World.replace_recast ho] at hw'
  subst hw'
  obtain ⟨z', hz', -⟩ := hfree o ho
  refine ⟨⟨x₁, _, rfl, hx', hxl, fun o' ho' => ?_⟩, hproduced,
    ⟨x₁, y, hx', ?_, hpair⟩, fun o' ho' hended => ?_⟩
  · by_cases h : o' = o
    · simpa [h] using ⟨hyl, hlinked.attached⟩
    · simpa [h] using ⟨(hys o' ho').1, hattached _ (hys o' ho').2⟩
  · simpa using World.generator?_recast_of_mem (fun g => if g = o then y else ys g) ho hz'
  · obtain ⟨u, hu, -⟩ := hunmoved.free o' ho'
    obtain ⟨u', hu', -⟩ := hfree o' ho'
    refine (endedIn_recast ho' hu' hx').mpr ?_
    by_cases h : o' = o
    · subst h
      simp only [if_true]
      refine hlinked.ended ?_
      rcases hended with hended | ⟨-, hr⟩
      · have hended' := (endedIn_recast ho' hu hx).mp hended
        exact hsame hended'.child ▸ hended'.child
      · exact hfinished hr
    · have hended' := (endedIn_recast ho' hu hx).mp
        (hended.resolve_right fun hg => h hg.1.symm)
      simpa only [if_neg h] using hsame hended'.child ▸ hended'

/-- A call of the child or of an outer generator serves the child's next pair. -/
theorem served {n : Nat} (hm : m.config.mode = .unbounded)
    (hunmoved : Unmoved (m.engine.sum E) os c v (n + 1))
    (hrest : LocalInvariant.Resting Generator.FitsRole v)
    (hrest' : LocalInvariant.Resting Generator.FitsRole w) (hshared : Shared os c v w)
    (hg : g = c ∨ g ∈ os) :
    ∃ s s', v.open? c .next = some s ∧ w.open? g .next = some s' ∧
      EndAlike (step (m.engine.sum E)) (step (m.engine.sum E)) (Served os c g v w) s s' := by
  obtain ⟨x, ys, rfl, hx, hl, hys⟩ := hshared
  have hopen : v.open? c .next = some (v.lock c, turnTo x c none []) := World.open_eq hx hl
  rcases hg with rfl | ho
  · exact ⟨_, _, hopen, open_recast hunmoved hopen, served_child hunmoved hrest hx hl hys⟩
  · obtain ⟨z, hz, -⟩ := hunmoved.free g ho
    exact ⟨_, _, hopen, World.open_eq (World.generator?_recast_of_mem _ ho hz) (hys g ho).1,
      served_outer hm hunmoved hrest hrest' hx hl hys ho⟩

/-! ### Any interleaving of calls -/

/-- Calls of the child alone led from `v` to `v'`, and as many calls of the generators `gs` from `w` to `w'`.
Each of the latter gave what the corresponding call of the child gave, and only the outer generators
differ. An outer generator that was called without a pair has ended with the child. -/
structure Undivided (os : List GeneratorId) (c : GeneratorId) (gs : List GeneratorId)
    (v w : World (Nat ⊕ H) (Execution ⊕ F) (Output × S)) (rs : List Report)
    (v' : World (Nat ⊕ H) (Execution ⊕ F) (Output × S)) (rs' : List Report)
    (w' : World (Nat ⊕ H) (Execution ⊕ F) (Output × S)) : Prop where
  pairs : rs'.map Report.pair? = rs.map Report.pair?
  stays : rs'.Pairwise fun r r' => r.produced = false → r'.produced = false
  heap : w'.heap = v'.heap
  state : w'.state = v'.state
  others : ∀ g, g ∉ os → w'.generator? g = v'.generator? g
  ended : ∀ o ∈ os, EndedIn o c v w ∨ (∃ r, (o, r) ∈ gs.zip rs' ∧ r.produced = false) →
    EndedIn o c v' w'

/-- Calls of the child alone return just when as many calls of `gs` do, and give the same pairs. -/
structure PolledAlike (E : Engine (Nat ⊕ H) (Execution ⊕ F) (Output × S)) (os : List GeneratorId)
    (c : GeneratorId) (v w : World (Nat ⊕ H) (Execution ⊕ F) (Output × S)) (gs : List GeneratorId) :
    Prop where
  there : ∀ rs v', v.Called E c (List.replicate gs.length .next) rs v' →
    ∃ rs' w', w.Polled E gs rs' w' ∧ Undivided os c gs v w rs v' rs' w'
  back : ∀ rs' w', w.Polled E gs rs' w' →
    ∃ rs v', v.Called E c (List.replicate gs.length .next) rs v' ∧ Undivided os c gs v w rs v' rs' w'

theorem pair?_eq_none {r : Report} : r.pair? = none ↔ r.produced = false := by
  cases hr : r.produced <;> simp [Report.pair?, hr]

variable {v₁ w₁ v' w' : World (Nat ⊕ H) (Execution ⊕ F) (Output × S)}
  {r r' : Except GeneratorError Bool} {rs rs' : List Report}

/-- One call more, before the others. -/
theorem Undivided.cons (h : Undivided os c gs v₁ w₁ rs v' rs' w')
    (hserved : Served os c g v w (v₁, r) (w₁, r')) (hx : v₁.generator? c = some x)
    (hy : w₁.generator? g = some y)
    (hover : World.produced r = false → ∀ q ∈ rs, q.produced = false) :
    Undivided os c (g :: gs) v w (⟨World.produced r, x.key, x.value⟩ :: rs) v'
      (⟨World.produced r', y.key, y.value⟩ :: rs') w' := by
  obtain ⟨x₁, y₁, hx₁, hy₁, hpair⟩ := hserved.pair
  obtain rfl := Option.some.inj (hx₁.symm.trans hx)
  obtain rfl := Option.some.inj (hy₁.symm.trans hy)
  refine ⟨?_, List.pairwise_cons.mpr ⟨?_, h.stays⟩, h.heap, h.state, h.others, fun o ho hended => ?_⟩
  · rw [List.map_cons, List.map_cons, h.pairs, pair?_eq_pair? hserved.produced hpair]
  · intro q' hq' hr'
    have hnone := hover (hserved.produced.symm.trans hr')
    have hmem : q'.pair? ∈ rs.map Report.pair? := h.pairs ▸ List.mem_map_of_mem hq'
    obtain ⟨q, hq, heq⟩ := List.mem_map.mp hmem
    exact pair?_eq_none.mp (heq ▸ pair?_eq_none.mpr (hnone q hq))
  · rcases hended with hended | ⟨q, hmem, hq⟩
    · exact h.ended o ho (.inl (hserved.ended o ho (.inl hended)))
    · rw [List.zip_cons_cons, List.mem_cons, Prod.mk.injEq] at hmem
      rcases hmem with ⟨rfl, rfl⟩ | hmem
      · exact h.ended o ho (.inl (hserved.ended o ho (.inr ⟨rfl, hserved.produced.symm.trans hq⟩)))
      · exact h.ended o ho (.inr ⟨q, hmem, hq⟩)

/-- Before any call. -/
theorem Shared.undivided (h : Shared os c v w) : Undivided os c [] v w [] v [] w := by
  obtain ⟨x, ys, rfl, -⟩ := h
  refine ⟨rfl, .nil, World.recast_heap .., World.recast_state ..,
    fun g hg => World.generator?_recast_of_not_mem hg, fun o ho hended => ?_⟩
  exact hended.resolve_right fun ⟨_, hmem, _⟩ => by cases hmem

/-- Once a call of the child gave no pair, none does. -/
theorem called_over {fuel : Nat} {is : List Input} (hrest : LocalInvariant.Resting Generator.FitsRole v)
    (ha : v.advance (m.engine.sum E) fuel c .next = some (v₁, r)) (hr : World.produced r = false)
    (hcalled : v₁.Called (m.engine.sum E) c is rs v') : ∀ q ∈ rs, q.produced = false := by
  obtain ⟨s, hs, hrun⟩ := Option.bind_eq_some_iff.mp ha
  obtain ⟨hrest₁, z, hz, hrole⟩ := Generator.fitsRole_invariant.ends hrest hs (ends_of_run hrun)
  exact hcalled.over hz ((hrest₁ c _ hz).finished (outcome_cases hrole hr).1)

theorem polledAlike (hm : m.config.mode = .unbounded)
    (hunmoved : Unmoved (m.engine.sum E) os c v gs.length)
    (hrest : LocalInvariant.Resting Generator.FitsRole v)
    (hrest' : LocalInvariant.Resting Generator.FitsRole w) (hshared : Shared os c v w)
    (hgs : ∀ g ∈ gs, g = c ∨ g ∈ os) : PolledAlike (m.engine.sum E) os c v w gs := by
  induction gs generalizing v w with
  | nil =>
    constructor
    · intro rs v' hcalled
      cases hcalled
      exact ⟨[], w, .nil w, hshared.undivided⟩
    · intro rs w' hpolled
      cases hpolled
      exact ⟨[], v, .nil v, hshared.undivided⟩
  | cons g gs ih =>
    obtain ⟨hg, hgs⟩ := List.forall_mem_cons.mp hgs
    obtain ⟨s, s', hs, hs', hend⟩ := served hm hunmoved hrest hrest' hshared hg
    have hnext {fuel fuel' : Nat} {v₁ w₁ : World (Nat ⊕ H) (Execution ⊕ F) (Output × S)}
        {r r' : Except GeneratorError Bool}
        (ha : v.advance (m.engine.sum E) fuel c .next = some (v₁, r))
        (ha' : w.advance (m.engine.sum E) fuel' g .next = some (w₁, r'))
        (hserved : Served os c g v w (v₁, r) (w₁, r')) :
        PolledAlike (m.engine.sum E) os c v₁ w₁ gs :=
      ih (hunmoved.advance ha) (Generator.fitsRole_invariant.advance hrest ha)
        (Generator.fitsRole_invariant.advance hrest' ha') hserved.shared hgs
    constructor
    · intro rs v' hcalled
      cases hcalled with
      | cons ha hx hcalled =>
        obtain ⟨⟨w₁, r'⟩, he', hserved⟩ := hend.there _ ((World.advance_iff hs).mp ⟨_, ha⟩)
        obtain ⟨fuel', ha'⟩ := (World.advance_iff hs').mpr he'
        obtain ⟨rs', w', hpolled, h⟩ := (hnext ha ha' hserved).there _ _ hcalled
        obtain ⟨-, y, -, hy, -⟩ := hserved.pair
        exact ⟨_, w', .cons ha' hy hpolled,
          h.cons hserved hx hy fun hr => called_over hrest ha hr hcalled⟩
    · intro rs' w' hpolled
      cases hpolled with
      | cons ha' hy hpolled =>
        obtain ⟨⟨v₁, r⟩, he, hserved⟩ := hend.back _ ((World.advance_iff hs').mp ⟨_, ha'⟩)
        obtain ⟨fuel, ha⟩ := (World.advance_iff hs).mpr he
        obtain ⟨rs, v', hcalled, h⟩ := (hnext ha ha' hserved).back _ _ hpolled
        obtain ⟨x, -, hx, -, -⟩ := hserved.pair
        exact ⟨_, v', .cons ha hx hcalled,
          h.cons hserved hx hy fun hr => called_over hrest ha hr hcalled⟩

end Forwarding

open Forwarding in
/-- Fresh generators of a machine without a budget delegate to one unlocked child, of any engine in any reachable
world, and do nothing else. However calls of `next` on them and on the child are interleaved, the child goes one
pair further with each: the calls return just when as many calls of the child alone do, they give its pairs in
its order, and whoever is called after the last pair ends with the child's result or error. The child's own calls
do not come to the outer generators. -/
theorem shared_child_undivided {m : Machine} (E : Engine H F S)
    {w : World (Nat ⊕ H) (Execution ⊕ F) (Output × S)} {os gs : List GeneratorId} {c : GeneratorId}
    {x : Generator (Nat ⊕ H) (Execution ⊕ F)} (hm : m.config.mode = .unbounded)
    (hw : w.Reachable (m.engine.sum E)) (hos : ∀ o ∈ os, ∃ y, w.generator? o = some y ∧ Forwards c y)
    (hx : w.generator? c = some x) (hl : x.locked = false) (hc : c ∉ os)
    (hspares : ∀ o ∈ os, w.Spares (m.engine.sum E) o c (List.replicate gs.length .next))
    (hgs : ∀ g ∈ gs, g = c ∨ g ∈ os) : PolledAlike (m.engine.sum E) os c w w gs := by
  have hrest := Generator.fitsRole_invariant.reachable hw
  have hfree : ∀ o ∈ os, ∃ y, w.generator? o = some y ∧ y.locked = false := by
    intro o ho
    obtain ⟨y, hy, depth, f, rest, -, rfl⟩ := hos o ho
    exact ⟨_, hy, rfl⟩
  refine polledAlike hm ⟨hc, hfree, hspares⟩ hrest hrest ?_ hgs
  -- Each outer generator stands in its own place.
  refine ⟨x, fun o => (w.generator? o).getD x, (World.recast_eq_self fun o ho => ?_).symm, hx, hl,
    fun o ho => ?_⟩
  · obtain ⟨y, hy, -⟩ := hos o ho
    simp [hy]
  · obtain ⟨y, hy, hforwards⟩ := hos o ho
    simp only [hy, Option.getD_some]
    exact ⟨by obtain ⟨depth, f, rest, -, rfl⟩ := hforwards; rfl, .fresh hforwards⟩

open Forwarding in
/-- A producer with one pair and two outer generators: the first gets the pair, and both end with the
producer's result. -/
theorem shared_child_undivided_of_producer :
    ∃ (E : Engine (Nat ⊕ Nat) (Execution ⊕ Execution) (Output × Output))
      (w : World (Nat ⊕ Nat) (Execution ⊕ Execution) (Output × Output)),
      w.Reachable E ∧ (∀ o ∈ [1, 2], w.Spares E o 0 (List.replicate 3 .next)) ∧
        PolledAlike E [1, 2] 0 w w [1, 2, 1] ∧
        ∃ rs w', w.Polled E [1, 2, 1] rs w' ∧ rs.map Report.produced = [true, false, false] ∧
          ([1, 2].map fun o => (w'.generator? o).bind (·.returnValue.bind Value.asInt?)) =
            [some 20, some 20] := by
  let E := (Machine.engine ⟨.empty, .standard⟩).sum (Machine.engine ⟨.empty, .standard⟩)
  let producer : Function := ⟨"producer", 0, 0, #[.const (.int 10), .yield, .const (.int 20), .ret]⟩
  let outer : Function := ⟨"outer", 1, 0, forwarding⟩
  let w : World (Nat ⊕ Nat) (Execution ⊕ Execution) (Output × Output) :=
    ⟨.empty, (.silent, .silent), #[.fresh (.inr 0) producer [], .fresh (.inl 0) outer [.generator 0],
      .fresh (.inl 0) outer [.generator 0]]⟩
  have hw : w.Reachable E := by
    refine ⟨.empty, (.silent, .silent), ?_⟩
    have hproducer := World.Operated.step (E := E) (.refl ⟨.empty, (.silent, .silent), #[]⟩)
      (rfl : World.operate E 0 _ (.create (.inr 0) producer []) = some _)
    have hfirst := hproducer.step
      (rfl : World.operate E 0 _ (.create (.inl 0) outer [.generator 0]) = some _)
    exact hfirst.step (rfl : World.operate E 0 _ (.create (.inl 0) outer [.generator 0]) = some _)
  have hspares : ∀ o ∈ [1, 2], w.Spares E o 0 (List.replicate 3 .next) := by
    intro o ho
    refine World.spares_of_sparesWithin (n := 20) ?_
    revert o
    decide +kernel
  have halike : PolledAlike E [1, 2] 0 w w [1, 2, 1] := by
    refine shared_child_undivided _ rfl hw ?_ (rfl : w.generator? 0 = some _) rfl (by decide) hspares
      (by decide)
    intro o ho
    have hforwards : Forwards 0 (.fresh (.inl 0) outer [.generator 0] :
        Generator (Nat ⊕ Nat) (Execution ⊕ Execution)) := ⟨0, outer, [], rfl, rfl⟩
    rw [List.mem_cons, List.mem_singleton] at ho
    rcases ho with rfl | rfl <;> exact ⟨_, rfl, hforwards⟩
  have hcall : (w.poll E 30 [1, 2, 1]).map (fun (rs, w') => (rs.map Report.produced,
      [1, 2].map fun o => (w'.generator? o).bind (·.returnValue.bind Value.asInt?))) =
        some ([true, false, false], [some 20, some 20]) := by decide +kernel
  obtain ⟨⟨rs, w'⟩, hpoll, hseen⟩ := Option.map_eq_some_iff.mp hcall
  obtain ⟨hproduced, hreturned⟩ := Prod.mk.inj hseen
  exact ⟨E, w, hw, hspares, halike, rs, w', World.polled_of_poll hpoll, hproduced, hreturned⟩

open Forwarding in
/-- A child whose own call comes back to the generator that delegates to it, while that one waits: it ends by the
refusal, and not by the child's failure. -/
theorem shared_child_recalled :
    ∃ (E : Engine (Nat ⊕ Nat) (Execution ⊕ Execution) (Output × Output))
      (w w' : World (Nat ⊕ Nat) (Execution ⊕ Execution) (Output × Output)) (rs : List Report)
      (x y x' y' : Generator (Nat ⊕ Nat) (Execution ⊕ Execution)),
      w.Reachable E ∧ w.generator? 0 = some x ∧ x.locked = false ∧ w.generator? 1 = some y ∧
        Forwards 0 y ∧ w.Polled E [1, 0, 1] rs w' ∧ rs.map Report.produced = [true, false, false] ∧
        w'.generator? 0 = some x' ∧ x'.lastError.isSome = true ∧ w'.generator? 1 = some y' ∧
        y'.lastError = some (.delegation .alreadyRunning) ∧ ¬ PassedOn x' y'.lastError := by
  let E := (Machine.engine ⟨.empty, .standard⟩).sum (Machine.engine ⟨.empty, .standard⟩)
  let child : Function :=
    ⟨"child", 1, 0, #[.const (.int 1), .yield, .pop, .loadArg 0, .yieldFrom, .ret]⟩
  let outer : Function := ⟨"outer", 1, 0, forwarding⟩
  let heap : Heap := ⟨#[.generator 1], 0⟩
  let w : World (Nat ⊕ Nat) (Execution ⊕ Execution) (Output × Output) :=
    ⟨heap, (.silent, .silent),
      #[.fresh (.inl 0) child [.reference 0], .fresh (.inl 0) outer [.generator 0]]⟩
  have hw : w.Reachable E := by
    refine ⟨heap, (.silent, .silent), ?_⟩
    have hchild := World.Operated.step (E := E) (.refl ⟨heap, (.silent, .silent), #[]⟩)
      (rfl : World.operate E 0 _ (.create (.inl 0) child [.reference 0]) = some _)
    exact hchild.step (rfl : World.operate E 0 _ (.create (.inl 0) outer [.generator 0]) = some _)
  have hcall : (w.poll E 40 [1, 0, 1]).map (fun (rs, w') => (rs.map Report.produced,
      (w'.generator? 0).map (·.lastError.isSome), (w'.generator? 1).map (·.lastError))) =
        some ([true, false, false], some true, some (some (.delegation .alreadyRunning))) := by
    decide +kernel
  obtain ⟨⟨rs, w'⟩, hpoll, hseen⟩ := Option.map_eq_some_iff.mp hcall
  obtain ⟨hproduced, hfailed, hrefused⟩ := Prod.mk.inj hseen |>.imp id Prod.mk.inj
  obtain ⟨x', hx', hfailed⟩ := Option.map_eq_some_iff.mp hfailed
  obtain ⟨y', hy', hrefused⟩ := Option.map_eq_some_iff.mp hrefused
  refine ⟨E, w, w', rs, _, _, x', y', hw, rfl, rfl, rfl, ⟨0, outer, [], rfl, rfl⟩,
    World.polled_of_poll hpoll, hproduced, hx', hfailed, hy', hrefused, ?_⟩
  rw [hrefused]
  nofun

end YieldMachine
