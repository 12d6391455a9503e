import YieldMachine.Proofs.Drive.Embedding
import YieldMachine.Proofs.History.Moment

/-!
Drives within drives. A source that is driven on behalf of others goes as when it is called by itself
(`reaches_above`), and the same happens on the way (`Records.above`), until the call would return; then its result is
handed over (`step_above_halt`). So wherever a drive comes that began with a source, it is still within the call
of the source, or that call has returned (`reaches_above_cases`).
-/

namespace YieldMachine.Drive

variable {H F S : Type} {E : Engine H F S} {w : World H F S} {d : Drive F} {s s' t : State H F S}
  {base : List (Link F)} {n : Nat} {g o : GeneratorId}

/-- The same drive on behalf of those that wait. -/
def above (base : List (Link F)) (s : State H F S) : State H F S :=
  (s.1, { s.2 with waiting := s.2.waiting ++ base })

/-! ### Steps within the call of the source -/

theorem rebaseLinks_eq_append (v : Option Value) (base ls : List (Link F)) :
    rebaseLinks v base ls = rebaseLinks v [] ls ++ base := by
  induction ls with
  | nil => rfl
  | cons l ls ih => rw [rebaseLinks, rebaseLinks, ih, List.cons_append]

/-- Whatever the last generator keeps back, it can be said that it keeps it back. -/
theorem exists_rebase_eq (d : Drive F) : ∃ v, d.rebase v [] = d := by
  have hlinks (ls : List (Link F)) (hne : ls ≠ []) : ∃ v, rebaseLinks v [] ls = ls := by
    induction ls with
    | nil => exact absurd rfl hne
    | cons l ls ih =>
      cases ls with
      | nil => exact ⟨l.resend, rfl⟩
      | cons l' ls =>
        obtain ⟨v, hv⟩ := ih (by simp)
        exact ⟨v, by rw [rebaseLinks, hv]; rfl⟩
  obtain ⟨current, resend, focus, waiting⟩ := d
  cases waiting with
  | nil => exact ⟨resend, rfl⟩
  | cons l ls =>
    obtain ⟨v, hv⟩ := hlinks (l :: ls) (by simp)
    exact ⟨v, by rw [rebase, hv]; rfl⟩

theorem rebased_eq_above {v : Option Value} (h : s.2.rebase v [] = s.2) (base : List (Link F)) :
    rebased v base s = above base s := by
  have hwaiting : rebaseLinks v [] s.2.waiting = s.2.waiting := congrArg waiting h
  have hresend : (if s.2.waiting.isEmpty then v else s.2.resend) = s.2.resend := congrArg resend h
  simp only [rebased, rebase, above, rebaseLinks_eq_append v base, hwaiting, hresend]

/-- A step of the source's own drive is a step on behalf of those that wait. -/
theorem step_above (hs : step E s = .next s') (base : List (Link F)) :
    step E (above base s) = .next (above base s') := by
  by_cases hb : Bottomed s
  · obtain ⟨w, d⟩ := s
    obtain ⟨hw, result, hfocus⟩ := hb
    rcases settled_cases hfocus with ⟨v, b, hok, hv⟩ | hdone
    · rw [step_resend hok hv] at hs
      obtain rfl := Transition.next.inj hs
      exact step_resend (d := { d with waiting := d.waiting ++ base }) hok hv
    · rw [step_halt hdone hw] at hs
      cases hs
  · obtain ⟨v, hv⟩ := exists_rebase_eq s.2
    obtain ⟨t, ht, ht'⟩ := step_rebase (E := E) hb v base
    obtain rfl : s' = t := Transition.next.inj (hs.symm.trans ht)
    rwa [rebased_eq_above hv, rebased_eq_above (keepsBack_step hv hb hs)] at ht'

theorem reaches_above (h : Reaches (step E) s n t) (base : List (Link F)) :
    Reaches (step E) (above base s) n (above base t) := by
  induction h with
  | refl => exact .refl _
  | next hs _ ih => exact .next (step_above hs base) ih

/-- As long as the call of the source goes on, the drive is within it. -/
theorem reaches_above_within {k : Nat} (h : Reaches (step E) s n s') (hr : Reaches (step E) (above base s) k t)
    (hle : k ≤ n) : ∃ t', Reaches (step E) s k t' ∧ t = above base t' := by
  induction h generalizing k with
  | refl s =>
    obtain rfl : k = 0 := Nat.le_zero.mp hle
    cases hr
    exact ⟨s, .refl s, rfl⟩
  | next hs _ ih =>
    cases hr with
    | refl => exact ⟨_, .refl _, rfl⟩
    | next hs' hr =>
      obtain rfl := Transition.next.inj (hs'.symm.trans (step_above hs base))
      obtain ⟨t', hr', rfl⟩ := ih hr (Nat.le_of_succ_le_succ hle)
      exact ⟨t', .next hs hr', rfl⟩

/-! ### The return of that call -/

/-- What the one that waits makes of the advance of its source. -/
def received (E : Engine H F S) (w : World H F S) (source : GeneratorId) (y : Generator H F)
    (r : Except GeneratorError Bool) (link : Link F) (ls : List (Link F)) : State H F S :=
  match link.wait with
  | .paused => advanced E w ⟨link.generator, link.resend, .settled r, ls⟩ (y.outcome r)
  | .inBody frame =>
    delegated w ⟨link.generator, link.resend, .settled r, ls⟩ frame (.child source) (y.outcome r)

theorem step_above_halt {r : Except GeneratorError Bool} {y : Generator H F} (hs : step E s = .halt (w, r))
    (hy : w.generator? s.2.current = some y) (link : Link F) (ls : List (Link F)) :
    step E (above (link :: ls) s) = .next (received E w s.2.current y r link ls) := by
  obtain ⟨w₁, d⟩ := s
  obtain ⟨hdone, hwaiting, rfl⟩ := halt_cases hs
  simp only at hdone hwaiting hy
  obtain ⟨x, hx, rfl⟩ : ∃ x, w₁.generator? d.current = some x ∧ x.setLock false = y := by
    simpa using hy
  have hw : ({ d with waiting := d.waiting ++ link :: ls } : Drive F).waiting = link :: ls := by
    simp [hwaiting]
  rw [above, step_handOver (d := { d with waiting := d.waiting ++ link :: ls }) hdone hw]
  simp only [handOver, hx, Option.map_some, Option.getD_some, received]
  rfl

/-- A drive that began with a source is within the source's call, or that call has returned. -/
theorem reaches_above_cases (hr : Reaches (step E) (above base s) n t) :
    (∃ s', Reaches (step E) s n s' ∧ t = above base s') ∨
      ∃ k m s₁ q, Reaches (step E) s k s₁ ∧ step E s₁ = .halt q ∧
        Reaches (step E) (above base s₁) (m + 1) t := by
  induction n generalizing s with
  | zero =>
    cases hr
    exact .inl ⟨s, .refl s, rfl⟩
  | succ n ih =>
    cases hs : step E s with
    | halt q => exact .inr ⟨0, n, s, q, .refl s, hs, hr⟩
    | next s₁ =>
      cases hr with
      | next hs' hr' =>
        obtain rfl := Transition.next.inj (hs'.symm.trans (step_above hs base))
        rcases ih hr' with ⟨s', hs', rfl⟩ | ⟨k, m, s₂, q, hr₂, hq, hr''⟩
        · exact .inl ⟨s', .next hs hs', rfl⟩
        · exact .inr ⟨k + 1, m, s₂, q, .next hs hr₂, hq, hr''⟩

/-! ### What happens on the way -/

/-- Steps of a drive lead from the first state to the second, and this happens in them. -/
inductive Records (E : Engine H F S) (s : State H F S) : History F → State H F S → Prop where
  | refl : Records E s [] s
  | next {es : History F} {t t' : State H F S} (h : Records E s es t) (hs : step E t = .next t') :
      Records E s (es ++ events E t) t'

variable {es es' : History F}

theorem Records.single (hs : step E s = .next s') : Records E s (events E s) s' := .next .refl hs

theorem Records.trans {u : State H F S} (h : Records E s es t) (h' : Records E t es' u) :
    Records E s (es ++ es') u := by
  induction h' with
  | refl => rwa [List.append_nil]
  | next _ hs ih =>
    rw [← List.append_assoc]
    exact .next ih hs

theorem Records.reaches (h : Records E s es t) : ∃ n, Reaches (step E) s n t := by
  induction h with
  | refl => exact ⟨0, .refl s⟩
  | next _ hs ih =>
    obtain ⟨n, hr⟩ := ih
    exact ⟨n + 1, hr.trans (.single hs)⟩

theorem records_of_reaches (h : Reaches (step E) s n t) : ∃ es, Records E s es t := by
  induction h with
  | refl s => exact ⟨[], .refl⟩
  | next hs _ ih =>
    obtain ⟨es, hrecords⟩ := ih
    exact ⟨_, (Records.single hs).trans hrecords⟩

theorem events_above (hs : step E s = .next s') (base : List (Link F)) :
    events E (above base s) = events E s := by
  obtain ⟨w, d⟩ := s
  obtain ⟨w', d'⟩ := s'
  obtain ⟨w₁, hrecorded, -⟩ := step_recorded hs
  have habove : step E.recorded (w.logged, { d with waiting := d.waiting ++ base }) =
      .next (w₁, { d' with waiting := d'.waiting ++ base }) := step_above hrecorded base
  simp only [events, above, habove, hrecorded]
  rfl

theorem Records.above (h : Records E s es t) (base : List (Link F)) :
    Records E (above base s) es (above base t) := by
  induction h with
  | refl => exact .refl
  | @next es t t' _ hs ih =>
    rw [← events_above hs base]
    exact .next ih (step_above hs base)

/-- Nothing happens to a generator that does not act. -/
theorem events_of_ne (hs : step E s = .next s') (hg : g ≠ actor s.2 s'.2) : (events E s).of g = [] := by
  obtain ⟨w₁, -, -, hevents⟩ := step_recorded hs
  rw [hevents]
  exact History.of_map_of_ne hg _

/-- Nothing happens to a generator that the drive keeps apart from. -/
theorem Records.of_apart (h : Records E s es t) (ha : Apart E o s) : es.of o = [] := by
  induction h with
  | refl => rfl
  | @next es t t' hrecords hs ih =>
    obtain ⟨n, hr⟩ := hrecords.reaches
    have ht := ha.reaches hr
    rw [History.of_append, ih, List.nil_append]
    refine events_of_ne hs fun heq => ?_
    rw [actor] at heq
    split at heq
    · exact ht.current_step hs heq.symm
    · exact ht.outside (heq ▸ List.mem_cons_self)

end YieldMachine.Drive
