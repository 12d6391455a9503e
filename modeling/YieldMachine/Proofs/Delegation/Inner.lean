import YieldMachine.Proofs.Drive.Embedding
import YieldMachine.Proofs.Lifecycle

/-!
The drive of a child on behalf of the generator that delegates to it. It goes side by side with a drive of
the child alone until the child has settled (`Inner.endAlike`).
-/

namespace YieldMachine.Drive

variable {H F S : Type} {E : Engine H F S} {w : World H F S} {o c : GeneratorId}
  {sent : Option Value} {s s' : State H F S}

/-- A drive of `c` alone that keeps apart from `o` and has `sent` kept back for `c`. -/
structure Inner (E : Engine H F S) (o c : GeneratorId) (sent : Option Value) (s : State H F S) :
    Prop where
  apart : Apart E o s
  driven : LocalInvariant.Driven Generator.FitsRole s
  onCall : OnCall c s
  keeps : s.2.rebase sent [] = s.2

namespace Inner

theorem step (h : Inner E o c sent s) (hb : ¬ Bottomed s) (hs : Drive.step E s = .next s') :
    Inner E o c sent s' where
  apart := h.apart.step hs
  driven := Generator.fitsRole_invariant.step h.driven hs
  onCall := h.onCall.step hs
  keeps := keepsBack_step h.keeps hb hs

/-- At the bottom the child has settled and is still locked. -/
theorem bottom (h : Inner E o c sent s) (hb : Bottomed s) :
    ∃ w r x, s = (w, ⟨c, sent, .settled r, []⟩) ∧ w.generator? c = some x ∧ x.locked = true ∧
      x.FitsRole (.settled r) := by
  obtain ⟨w, ⟨g, v, focus, ls⟩⟩ := s
  obtain ⟨hls, r, hfocus⟩ := hb
  simp only at hls hfocus
  subst hls hfocus
  obtain rfl : g = c := Option.some.inj h.onCall.last
  obtain rfl : sent = v := congrArg Drive.resend h.keeps
  obtain ⟨x, hx, hl⟩ := h.onCall.chained.current
  have hrole := h.driven.2 g x hx
  rw [role_current] at hrole
  exact ⟨w, r, x, rfl, hx, hl, hrole⟩

/-- If the two drives end alike from where the child has settled, they end alike. -/
theorem endAlike {Q : Result H F S → Result H F S → Prop} {y : Generator H F} {base : List (Link F)}
    (h : Inner E o c sent s) (hy : y.locked = true)
    (hbottom : ∀ w r x, Inner E o c sent (w, ⟨c, sent, .settled r, []⟩) →
      w.generator? c = some x → x.locked = true → x.FitsRole (.settled r) →
      EndAlike (Drive.step E) (Drive.step E) Q (w, ⟨c, sent, .settled r, []⟩)
        (w.replace o y, ⟨c, none, .settled r, base⟩)) :
    EndAlike (Drive.step E) (Drive.step E) Q s (embed o y none base s) := by
  refine EndAlike.of_together (I := Inner E o c sent) (B := Bottomed) ?_ h ?_
  · intro s hs hb
    obtain ⟨s', hstep, hstep'⟩ := step_embed hs.apart hy hb none base
    exact ⟨s', hstep, hstep', hs.step hb hstep⟩
  · intro n t hreach hInner hb
    obtain ⟨w, r, x, rfl, hx, hl, hrole⟩ := hInner.bottom hb
    exact hbottom w r x hInner hx hl hrole

end Inner

/-- With a finished generator, a call ends without a pair. -/
theorem ends_finished {g : GeneratorId} {x : Generator H F} {r : Except GeneratorError Bool}
    (hx : w.generator? g = some x) (hf : x.isFinished = true) (hr : World.produced r = false)
    (sent : Option Value) :
    ∃ n t r', Reaches (step E) (w, ⟨g, sent, .settled r, []⟩) n t ∧
      step E t = .halt (w.unlock g, r') ∧ World.produced r' = false := by
  have hhalt (r : Except GeneratorError Bool) :
      step E (w, ⟨g, none, .settled r, []⟩) = .halt (w.unlock g, r) :=
    step_halt (.of_none rfl rfl) rfl
  cases r with
  | error e =>
    refine ⟨0, _, .error e, .refl _, step_halt ⟨rfl, fun _ _ _ => nofun⟩ rfl, rfl⟩
  | ok b =>
    cases sent with
    | none => exact ⟨0, _, .ok b, .refl _, hhalt _, hr⟩
    | some v =>
      -- The value kept back comes to a finished generator.
      have hresend : step E (w, ⟨g, some v, .settled (.ok b), []⟩) =
          .next (w, ⟨g, none, .enter (some v), []⟩) := step_resend rfl rfl
      have henter : step E (w, ⟨g, none, .enter (some v), []⟩) =
          .next (w, ⟨g, none, .settled (.ok false), []⟩) := by
        rw [step_enter rfl hx, enter, if_pos hf]
      exact ⟨2, _, .ok false, .next hresend (.single henter), hhalt _, rfl⟩

theorem step_turnTo_finished {g : GeneratorId} {x y : Generator H F}
    (hx : w.generator? g = some x) (hf : x.isFinished = true) (sent : Option Value)
    (ls : List (Link F)) :
    ∃ v, step E (w, turnTo y g sent ls) = .next (w, ⟨g, v, .settled (.ok false), ls⟩) := by
  rw [turnTo]
  split
  · exact ⟨none, by rw [step_enter rfl hx, enter, if_pos hf]⟩
  · exact ⟨sent, by rw [step_enter rfl hx, enter, if_pos hf]⟩

end YieldMachine.Drive
