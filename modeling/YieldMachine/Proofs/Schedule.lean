import YieldMachine.Proofs.Calls

/-!
A sequence of calls on one generator as a single machine, which counts the steps that it takes in certain
states. It ends just when the calls do (`ends_of_called`, `called_of_ends`).
-/

namespace YieldMachine

variable {H F S : Type}

/-- A call under way, the inputs of the calls after it, and what was seen of the calls before it. -/
structure Schedule (H F S : Type) where
  state : Drive.State H F S
  inputs : List Input
  reports : List Report
  count : Nat

namespace Schedule

/-- Steps the drive of the call under way; when it halts, the next call begins. -/
def step (E : Engine H F S) (counts : Drive.State H F S → Bool) (g : GeneratorId)
    (s : Schedule H F S) : Transition (Schedule H F S) (World H F S × List Report × Nat) :=
  match Drive.step E s.state with
  | .next t => .next { s with state := t, count := s.count + if counts s.state then 1 else 0 }
  | .halt (w, r) =>
    let seen := (w.generator? g).map fun x => ⟨World.produced r, x.key, x.value⟩
    let reports := s.reports ++ seen.toList
    match s.inputs with
    | [] => .halt (w, reports, s.count)
    | i :: is =>
      match w.open? g i with
      | some t => .next ⟨t, is, reports, s.count⟩
      | none => .halt (w, reports, s.count)

variable {E : Engine H F S} {counts : Drive.State H F S → Bool} {g : GeneratorId}
  {s t : Drive.State H F S} {is : List Input} {rs : List Report} {n k : Nat} {w w' : World H F S}
  {x : Generator H F} {r : Except GeneratorError Bool}

theorem step_next (h : Drive.step E s = .next t) :
    step E counts g ⟨s, is, rs, n⟩ = .next ⟨t, is, rs, n + if counts s then 1 else 0⟩ := by
  simp only [step, h]

theorem step_last (h : Drive.step E s = .halt (w, r)) (hx : w.generator? g = some x) :
    step E counts g ⟨s, [], rs, n⟩ =
      .halt (w, rs ++ [⟨World.produced r, x.key, x.value⟩], n) := by
  simp only [step, h, hx, Option.map_some, Option.toList_some]

theorem step_call {i : Input} (h : Drive.step E s = .halt (w, r)) (hx : w.generator? g = some x)
    (hopen : w.open? g i = some t) :
    step E counts g ⟨s, i :: is, rs, n⟩ =
      .next ⟨t, is, rs ++ [⟨World.produced r, x.key, x.value⟩], n⟩ := by
  simp only [step, h, hx, hopen, Option.map_some, Option.toList_some]

theorem reaches_of_drive (counts : Drive.State H F S → Bool) (g : GeneratorId) (is : List Input)
    (rs : List Report) (h : Reaches (Drive.step E) s k t) (n : Nat) :
    ∃ n', Reaches (step E counts g) ⟨s, is, rs, n⟩ k ⟨t, is, rs, n'⟩ := by
  induction h generalizing n with
  | refl => exact ⟨n, .refl _⟩
  | next hs _ ih =>
    obtain ⟨n', hr⟩ := ih _
    exact ⟨n', .next (step_next hs) hr⟩

/-- Where the calls return, the schedule ends. -/
theorem ends_of_called (counts : Drive.State H F S → Bool) {i : Input}
    (h : w.Called E g (i :: is) rs w') (hs : w.open? g i = some s) (seen : List Report)
    (n : Nat) :
    ∃ n', Ends (step E counts g) ⟨s, is, seen, n⟩ (w', seen ++ rs, n') := by
  generalize his : i :: is = inputs at h
  induction h generalizing i is s seen n with
  | nil => cases his
  | @cons w w₁ w₂ j js rs fuel r x ha hx rest ih =>
    obtain ⟨rfl, rfl⟩ := List.cons.inj his
    obtain ⟨k, t, hreach, ht⟩ := ((World.advance_iff hs).mp ⟨_, ha⟩).reaches
    obtain ⟨n₁, hreach'⟩ := reaches_of_drive counts g is seen hreach n
    cases rest with
    | nil => exact ⟨n₁, hreach'.ends_iff.mpr (.halt (step_last ht hx))⟩
    | @cons _ _ _ j js rs' _ r' x' ha' hx' rest' =>
      obtain ⟨s₁, hs₁, -⟩ := Option.bind_eq_some_iff.mp ha'
      obtain ⟨n', he⟩ := ih hs₁ (seen ++ [⟨World.produced r, x.key, x.value⟩]) n₁ rfl
      refine ⟨n', hreach'.ends_iff.mpr (.next (step_call ht hx hs₁) ?_)⟩
      rwa [List.append_assoc, List.singleton_append] at he

/-- Where the schedule ends, the call under way and all after it have returned. -/
theorem returned_of_ends {q : Schedule H F S} {p : World H F S × List Report × Nat}
    (h : Ends (step E counts g) q p) (hcall : Drive.OnCall g q.state) :
    ∃ w r x rs, Ends (Drive.step E) q.state (w, r) ∧ w.generator? g = some x ∧
      w.Called E g q.inputs rs p.1 ∧
      p.2.1 = q.reports ++ ⟨World.produced r, x.key, x.value⟩ :: rs := by
  induction h with
  | @halt q p hq =>
    obtain ⟨s, is, seen, n⟩ := q
    cases hs : Drive.step E s with
    | next t =>
      rw [step_next hs] at hq
      cases hq
    | halt res =>
      obtain ⟨w, r⟩ := res
      obtain ⟨x, hx, hl⟩ := hcall.unlocked hs
      cases is with
      | nil =>
        rw [step_last hs hx] at hq
        obtain rfl := Transition.halt.inj hq
        exact ⟨w, r, x, [], .halt hs, hx, .nil w, rfl⟩
      | cons i is =>
        rw [step_call hs hx (World.open_eq hx hl)] at hq
        cases hq
  | @next q q' p hq e ih =>
    obtain ⟨s, is, seen, n⟩ := q
    cases hs : Drive.step E s with
    | next t =>
      rw [step_next hs] at hq
      obtain rfl := Transition.next.inj hq
      obtain ⟨w, r, x, rs, he, hrest⟩ := ih (hcall.step hs)
      exact ⟨w, r, x, rs, .next hs he, hrest⟩
    | halt res =>
      obtain ⟨w, r⟩ := res
      obtain ⟨x, hx, hl⟩ := hcall.unlocked hs
      cases is with
      | nil =>
        rw [step_last hs hx] at hq
        cases hq
      | cons i is =>
        have hopen := World.open_eq (i := i) hx hl
        rw [step_call hs hx hopen] at hq
        obtain rfl := Transition.next.inj hq
        obtain ⟨w', r', x', rs, he, hx', hcalled, heq⟩ := ih (World.open_onCall hopen)
        obtain ⟨fuel, ha⟩ := (World.advance_iff hopen).mpr he
        refine ⟨w, r, x, _, .halt hs, hx, .cons ha hx' hcalled, ?_⟩
        rw [heq, List.append_assoc, List.singleton_append]

theorem called_of_ends {i : Input} (hs : w.open? g i = some s)
    (h : Ends (step E counts g) ⟨s, is, [], n⟩ (w', rs, k)) : w.Called E g (i :: is) rs w' := by
  obtain ⟨w₁, r, x, rs', he, hx, hcalled, heq⟩ := returned_of_ends h (World.open_onCall hs)
  obtain ⟨fuel, ha⟩ := (World.advance_iff hs).mpr he
  simp only [List.nil_append] at heq
  rw [heq]
  exact .cons ha hx hcalled

end Schedule

/-- Calls on `g`, first with the input `i` and then with `is`, give these reports, lead from the first
world to the second and take `n` steps in states that count. -/
def World.Counted (E : Engine H F S) (counts : Drive.State H F S → Bool) (g : GeneratorId)
    (w : World H F S) (i : Input) (is : List Input) (rs : List Report) (n : Nat) (w' : World H F S) :
    Prop :=
  ∃ s, w.open? g i = some s ∧ Ends (Schedule.step E counts g) ⟨s, is, [], 0⟩ (w', rs, n)

end YieldMachine
