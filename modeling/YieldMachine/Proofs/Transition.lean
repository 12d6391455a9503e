import YieldMachine.Transition

/-!
Runs without fuel. `Ends step s r` says that the machine halts from `s` with `r`; it holds just when some
number of steps suffices (`ends_iff_run`), and steps taken on the way do not change it (`Reaches.ends_iff`).
Two runs `EndAlike` if either ends just when the other does, with related results; a simulation in which every
step is answered by at least one step shows this (`Simulates.endAlike`).
-/

namespace YieldMachine

variable {σ τ ρ κ : Type} {step : σ → Transition σ ρ} {s t u : σ} {r q : ρ} {n k : Nat}

inductive Ends (step : σ → Transition σ ρ) : σ → ρ → Prop where
  | halt {s : σ} {r : ρ} (h : step s = .halt r) : Ends step s r
  | next {s t : σ} {r : ρ} (h : step s = .next t) (e : Ends step t r) : Ends step s r

theorem run_of_next (h : step s = .next t) (n : Nat) : run step (n + 1) s = run step n t := by
  rw [run, h]

theorem run_of_halt (h : step s = .halt r) (n : Nat) : run step (n + 1) s = some r := by
  rw [run, h]

theorem ends_of_run (h : run step n s = some r) : Ends step s r := by
  induction n generalizing s with
  | zero => simp [run] at h
  | succ n ih =>
    cases hs : step s with
    | next t => exact .next hs (ih (by rw [← h, run_of_next hs]))
    | halt q =>
      rw [run_of_halt hs] at h
      exact .halt (by rw [hs, Option.some.inj h])

theorem Ends.run (h : Ends step s r) : ∃ n, run step n s = some r := by
  induction h with
  | halt hs => exact ⟨1, run_of_halt hs 0⟩
  | next hs _ ih =>
    obtain ⟨n, hn⟩ := ih
    exact ⟨n + 1, (run_of_next hs n).trans hn⟩

theorem ends_iff_run : Ends step s r ↔ ∃ n, run step n s = some r :=
  ⟨Ends.run, fun ⟨_, h⟩ => ends_of_run h⟩

/-- More fuel keeps a finished run. -/
theorem run_mono (h : run step n s = some r) (hle : n ≤ k) : run step k s = some r := by
  induction n generalizing s k with
  | zero => simp [run] at h
  | succ n ih =>
    obtain ⟨k, rfl⟩ : ∃ j, k = j + 1 := ⟨k - 1, by omega⟩
    cases hs : step s with
    | next t =>
      rw [run_of_next hs] at h ⊢
      exact ih h (by omega)
    | halt q => rwa [run_of_halt hs] at h ⊢

theorem Ends.unique (h : Ends step s r) (h' : Ends step s q) : r = q := by
  obtain ⟨n, hn⟩ := h.run
  obtain ⟨k, hk⟩ := h'.run
  have hn' := run_mono hn (Nat.le_max_left n k)
  rw [run_mono hk (Nat.le_max_right n k)] at hn'
  exact (Option.some.inj hn').symm

theorem Ends.of_next (h : Ends step s r) (hs : step s = .next t) : Ends step t r := by
  cases h with
  | halt hh => rw [hs] at hh; cases hh
  | next hn e =>
    rw [hs] at hn
    cases hn
    exact e

theorem Ends.of_halt (h : Ends step s r) (hs : step s = .halt q) : r = q :=
  h.unique (.halt hs)

/-! ### Steps on the way -/

theorem Reaches.single (h : step s = .next t) : Reaches step s 1 t := .next h (.refl t)

theorem Reaches.trans (h : Reaches step s n t) (h' : Reaches step t k u) :
    Reaches step s (n + k) u := by
  induction h with
  | refl => simpa using h'
  | next hs _ ih => simpa [Nat.add_right_comm] using Reaches.next hs (ih h')

/-- Of two states on the way, the nearer one leads to the other. -/
theorem Reaches.rest (h : Reaches step s n t) (h' : Reaches step s k u) (hle : n ≤ k) :
    Reaches step t (k - n) u := by
  induction h generalizing k with
  | refl => exact h'
  | next hs _ ih =>
    cases h' with
    | refl => simp at hle
    | next hs' hr =>
      obtain rfl := Transition.next.inj (hs.symm.trans hs')
      rw [Nat.add_sub_add_right]
      exact ih hr (Nat.le_of_succ_le_succ hle)

theorem Reaches.unique (h : Reaches step s n t) (h' : Reaches step s n u) : t = u := by
  have hrest := h.rest h' (Nat.le_refl n)
  rw [Nat.sub_self] at hrest
  cases hrest
  rfl

theorem Reaches.ends_iff (h : Reaches step s n t) : Ends step s r ↔ Ends step t r := by
  induction h with
  | refl => exact Iff.rfl
  | next hs _ ih => exact ⟨fun e => ih.mp (e.of_next hs), fun e => .next hs (ih.mpr e)⟩

/-- A state that is reached is the first one, or some step leads to it. -/
theorem Reaches.last (h : Reaches step s n u) : s = u ∨ ∃ k t, Reaches step s k t ∧ step t = .next u := by
  induction h with
  | refl => exact .inl rfl
  | @next s _ u n hs _ ih =>
    right
    rcases ih with rfl | ⟨k, t, hr, ht⟩
    · exact ⟨0, s, .refl s, hs⟩
    · exact ⟨k + 1, t, .next hs hr, ht⟩

/-- What every step keeps holds in every state reached. -/
theorem Reaches.invariant {I : σ → Prop} (h : Reaches step s n t) (hs : I s)
    (hstep : ∀ s t, I s → step s = .next t → I t) : I t := by
  induction h with
  | refl => exact hs
  | next hn _ ih => exact ih (hstep _ _ hs hn)

/-- The run ends within `n` steps, and `p` holds in every state on the way. -/
def holdsAlong (step : σ → Transition σ ρ) (p : σ → Bool) : Nat → σ → Bool
  | 0, _ => false
  | n + 1, s =>
    p s && match step s with
      | .next t => holdsAlong step p n t
      | .halt _ => true

theorem Reaches.of_holdsAlong {p : σ → Bool} (h : Reaches step s n t)
    (hp : holdsAlong step p k s = true) : p t = true := by
  induction h generalizing k with
  | refl s =>
    cases k with
    | zero => cases hp
    | succ k => exact (Bool.and_eq_true_iff.mp hp).1
  | next hs _ ih =>
    cases k with
    | zero => cases hp
    | succ k =>
      have hrest := (Bool.and_eq_true_iff.mp hp).2
      rw [hs] at hrest
      exact ih hrest

theorem run_of_holdsAlong {p : σ → Bool} (h : Ends step s r) (hp : holdsAlong step p n s = true) :
    run step n s = some r := by
  induction h generalizing n with
  | halt hs =>
    cases n with
    | zero => cases hp
    | succ n => exact run_of_halt hs n
  | next hs _ ih =>
    cases n with
    | zero => cases hp
    | succ n =>
      have hrest := (Bool.and_eq_true_iff.mp hp).2
      rw [hs] at hrest
      exact (run_of_next hs n).trans (ih hrest)

/-- A finished run reaches a state that halts. -/
theorem Ends.reaches (h : Ends step s r) : ∃ n t, Reaches step s n t ∧ step t = .halt r := by
  induction h with
  | halt hs => exact ⟨0, _, .refl _, hs⟩
  | next hs _ ih =>
    obtain ⟨n, t, hr, ht⟩ := ih
    exact ⟨n + 1, t, .next hs hr, ht⟩

/-! ### Runs that end alike -/

/-- Of two runs, either ends just when the other does, and then their results are related. -/
structure EndAlike (step : σ → Transition σ ρ) (step' : τ → Transition τ κ) (Q : ρ → κ → Prop)
    (s : σ) (x : τ) : Prop where
  there : ∀ r, Ends step s r → ∃ p, Ends step' x p ∧ Q r p
  back : ∀ p, Ends step' x p → ∃ r, Ends step s r ∧ Q r p

namespace EndAlike

variable {step' : τ → Transition τ κ} {Q : ρ → κ → Prop} {x y : τ} {p : κ}

theorem of_halt (h : step s = .halt r) (h' : step' x = .halt p) (hQ : Q r p) :
    EndAlike step step' Q s x where
  there _ e := ⟨p, .halt h', e.of_halt h ▸ hQ⟩
  back _ e := ⟨r, .halt h, e.of_halt h' ▸ hQ⟩

theorem of_reaches (h : Reaches step s n t) (h' : Reaches step' x k y)
    (ht : EndAlike step step' Q t y) : EndAlike step step' Q s x where
  there r e := by
    obtain ⟨p, hp, hQ⟩ := ht.there r (h.ends_iff.mp e)
    exact ⟨p, h'.ends_iff.mpr hp, hQ⟩
  back p e := by
    obtain ⟨r, hr, hQ⟩ := ht.back p (h'.ends_iff.mp e)
    exact ⟨r, h.ends_iff.mpr hr, hQ⟩

/-- The relation between the results may use that both runs ended with them. -/
theorem imp {Q' : ρ → κ → Prop} (h : EndAlike step step' Q s x)
    (hQ : ∀ r p, Ends step s r → Ends step' x p → Q r p → Q' r p) : EndAlike step step' Q' s x where
  there r e := by
    obtain ⟨p, hp, hr⟩ := h.there r e
    exact ⟨p, hp, hQ r p e hp hr⟩
  back p e := by
    obtain ⟨r, hr, hp⟩ := h.back p e
    exact ⟨r, hr, hQ r p hr e hp⟩

theorem trans {υ ι : Type} {step'' : υ → Transition υ ι} {Q' : κ → ι → Prop} {z : υ}
    (h : EndAlike step step' Q s x) (h' : EndAlike step' step'' Q' x z) :
    EndAlike step step'' (fun r i => ∃ p, Q r p ∧ Q' p i) s z where
  there r e := by
    obtain ⟨p, hp, hr⟩ := h.there r e
    obtain ⟨i, hi, hp'⟩ := h'.there p hp
    exact ⟨i, hi, p, hr, hp'⟩
  back i e := by
    obtain ⟨p, hp, hi⟩ := h'.back i e
    obtain ⟨r, hr, hp'⟩ := h.back p hp
    exact ⟨r, hr, p, hp', hi⟩

/-- Side by side, two runs come to `B` together as soon as one of them ends. -/
theorem reaches_together {φ : σ → τ} {I B : σ → Prop}
    (hstep : ∀ s, I s → ¬ B s → ∃ s', step s = .next s' ∧ step' (φ s) = .next (φ s') ∧ I s')
    (hs : I s) (h : (run step k s).isSome = true ∨ (run step' k (φ s)).isSome = true) :
    ∃ n t, Reaches step s n t ∧ Reaches step' (φ s) n (φ t) ∧ I t ∧ B t := by
  induction k generalizing s with
  | zero => simp [run] at h
  | succ k ih =>
    by_cases hB : B s
    · exact ⟨0, s, .refl _, .refl _, hs, hB⟩
    · obtain ⟨s', hs', hφ, hI⟩ := hstep s hs hB
      rw [run_of_next hs', run_of_next hφ] at h
      obtain ⟨n, t, hr, hr', ht⟩ := ih hI h
      exact ⟨n + 1, t, .next hs' hr, .next hφ hr', ht⟩

/-- Two runs that go side by side until `B` end alike if they do so from there. -/
theorem of_together {φ : σ → τ} {I B : σ → Prop}
    (hstep : ∀ s, I s → ¬ B s → ∃ s', step s = .next s' ∧ step' (φ s) = .next (φ s') ∧ I s')
    (hs : I s)
    (hB : ∀ n t, Reaches step s n t → I t → B t → EndAlike step step' Q t (φ t)) :
    EndAlike step step' Q s (φ s) where
  there r e := by
    obtain ⟨k, hk⟩ := e.run
    obtain ⟨n, t, hr, hr', hI, ht⟩ := reaches_together hstep hs (.inl (by rw [hk]; rfl))
    exact (of_reaches hr hr' (hB n t hr hI ht)).there r e
  back p e := by
    obtain ⟨k, hk⟩ := e.run
    obtain ⟨n, t, hr, hr', hI, ht⟩ := reaches_together hstep hs (.inr (by rw [hk]; rfl))
    exact (of_reaches hr hr' (hB n t hr hI ht)).back p e

end EndAlike

/-! ### Simulation -/

/-- Related states step together: the second machine answers a step by at least one step, and a halt by
ending with a related result. -/
def Simulates (step : σ → Transition σ ρ) (step' : τ → Transition τ κ) (Q : ρ → κ → Prop)
    (R : σ → τ → Prop) : Prop :=
  ∀ s t, R s t →
    (∀ s', step s = .next s' → ∃ n t', Reaches step' t (n + 1) t' ∧ R s' t') ∧
      ∀ r, step s = .halt r → ∃ p, Ends step' t p ∧ Q r p

namespace Simulates

variable {step' : τ → Transition τ κ} {Q : ρ → κ → Prop} {R : σ → τ → Prop} {x : τ}

theorem ends (hsim : Simulates step step' Q R) (h : Ends step s r) (hR : R s x) :
    ∃ p, Ends step' x p ∧ Q r p := by
  induction h generalizing x with
  | halt hs => exact (hsim _ _ hR).2 _ hs
  | next hs _ ih =>
    obtain ⟨n, y, hreach, hR'⟩ := (hsim _ _ hR).1 _ hs
    obtain ⟨p, hp, hQ⟩ := ih hR'
    exact ⟨p, hreach.ends_iff.mpr hp, hQ⟩

theorem run_of_reaches {y : τ} {p : κ} (h : Reaches step' x n y) (hp : run step' k x = some p) :
    run step' (k - n) y = some p := by
  induction h generalizing k with
  | refl => exact hp
  | next hs _ ih =>
    obtain ⟨k, rfl⟩ : ∃ j, k = j + 1 := by
      cases k with
      | zero => simp [run] at hp
      | succ k => exact ⟨k, rfl⟩
    rw [run_of_next hs] at hp
    simpa [Nat.succ_sub_succ] using ih hp

/-- Since each step is answered by at least one, the first machine ends whenever the second does. -/
theorem ends_back (hsim : Simulates step step' Q R) {p : κ} (h : Ends step' x p) (hR : R s x) :
    ∃ r, Ends step s r ∧ Q r p := by
  obtain ⟨k, hk⟩ := h.run
  clear h
  induction k using Nat.strongRecOn generalizing s x with
  | ind k ih =>
    cases hs : step s with
    | halt r =>
      obtain ⟨p', hp', hQ⟩ := (hsim _ _ hR).2 _ hs
      obtain rfl := (ends_of_run hk).unique hp'
      exact ⟨r, .halt hs, hQ⟩
    | next s' =>
      obtain ⟨n, y, hreach, hR'⟩ := (hsim _ _ hR).1 _ hs
      have hpos : 0 < k := by
        cases k with
        | zero => simp [run] at hk
        | succ k => omega
      obtain ⟨r, he, hQ⟩ := ih (k - (n + 1)) (by omega) hR' (run_of_reaches hreach hk)
      exact ⟨r, .next hs he, hQ⟩

/-- Simulation in lock step with progress makes runs end alike. -/
theorem endAlike (hsim : Simulates step step' Q R) (hR : R s x) : EndAlike step step' Q s x where
  there _ h := hsim.ends h hR
  back _ h := hsim.ends_back h hR

end Simulates

end YieldMachine
