import YieldMachine.Proofs.Calls
import YieldMachine.Session

/-!
A session in progress. What its user does with it goes on in steps: an advance is driven and a call of a function
runs its body, one instruction at a time, and nothing else happens meanwhile (`Session.Progress.Next`). The record of a
progress notes which generator was made by the body of which other. Whole calls and advances are such steps
(`later_call`, `later_advance`).
-/

namespace YieldMachine

/-- Which generator the next step of a drive makes, after the one whose body makes it. -/
def Drive.offspring {H F S : Type} (E : Engine H F S) (s : Drive.State H F S) :
    List (GeneratorId × GeneratorId) :=
  match s.2.focus with
  | .body frame reply =>
    match (E.step s.1.heap s.1.state frame reply).2.2 with
    | .create .. => [(s.2.current, s.1.generators.size)]
    | _ => []
  | _ => []

namespace Session

/-- What goes on in a session: nothing, an advance of a generator, or a call of a function. -/
inductive Activity where
  | idle
  | driving (d : Drive (Execution ⊕ Script.Frame))
  | calling (r : Record) (frame : Execution ⊕ Script.Frame) (reply : Reply)

/-- A session, what goes on in it, and which generators made which others. -/
structure Progress where
  session : Session
  activity : Activity
  made : List (GeneratorId × GeneratorId)

def setWorld (s : Session)
    (w : World (Nat ⊕ Unit) (Execution ⊕ Script.Frame) (Output × Script.Tally)) : Session :=
  { s with world := w }

namespace Progress

/-- One step of what a user does with a session. -/
inductive Next : Progress → Progress → Prop where
  | generator {s s' made name args g} (h : Session.generator s name args = .ok (g, s')) :
      Next ⟨s, .idle, made⟩ ⟨s', .idle, made⟩
  | scripted {s made} (name : String) (args : List Value) :
      Next ⟨s, .idle, made⟩ ⟨(s.scripted name args).2, .idle, made⟩
  /-- A call that is answered at once, since it runs no body. -/
  | answered {s s' made name args r} (h : Session.call s 0 name args = some (s', r)) :
      Next ⟨s, .idle, made⟩ ⟨s', .idle, made⟩
  | call {s made name f} (args : List Value) (hf : Session.function s name = .ok f)
      (hplain : f.isGenerator = false) (hlimit : s.machine.config.maxCallDepth ≠ 0) :
      Next ⟨s, .idle, made⟩
        ⟨s, .calling .silent (.inl (Machine.execution 1 f args)) .proceed, made⟩
  | body {s made r r' frame frame' reply reply' w'}
      (hs : Record.step (Session.engine s) (s.world, r, frame, reply) =
        .next (w', r', frame', reply')) :
      Next ⟨s, .calling r frame reply, made⟩ ⟨s.setWorld w', .calling r' frame' reply', made⟩
  | returned {s made r r' frame reply o w'}
      (hs : Record.step (Session.engine s) (s.world, r, frame, reply) = .halt (w', r', o)) :
      Next ⟨s, .calling r frame reply, made⟩ ⟨s.setWorld w', .idle, made⟩
  | advance {s made g input w' d} (hs : s.world.open? g input = some (w', d)) :
      Next ⟨s, .idle, made⟩ ⟨s.setWorld w', .driving d, made⟩
  | step {s made w' d d'} (hs : Drive.step (Session.engine s) (s.world, d) = .next (w', d')) :
      Next ⟨s, .driving d, made⟩
        ⟨s.setWorld w', .driving d', made ++ Drive.offspring s.engine (s.world, d)⟩
  | halt {s made w' d r} (hs : Drive.step (Session.engine s) (s.world, d) = .halt (w', r)) :
      Next ⟨s, .driving d, made⟩ ⟨s.setWorld w', .idle, made⟩
  | close {s made} (g : GeneratorId) : Next ⟨s, .idle, made⟩ ⟨s.close g, .idle, made⟩
  | setLock {s made} (g : GeneratorId) (b : Bool) :
      Next ⟨s, .idle, made⟩ ⟨s.setWorld (s.world.modify g (·.setLock b)), .idle, made⟩
  | reclaim {s made} (userHeld : List Handle) :
      Next ⟨s, .idle, made⟩ ⟨s.reclaim userHeld, .idle, made⟩
  /-- The user changes cells, or clears the output. -/
  | elsewhere {s made} (heap : Heap) (state : Output × Script.Tally) :
      Next ⟨s, .idle, made⟩ ⟨s.setWorld { s.world with heap := heap, state := state }, .idle, made⟩

/-- Steps lead from the first to the second. -/
inductive Later : Progress → Progress → Prop where
  | refl (p : Progress) : Later p p
  | next {p p₁ p₂ : Progress} (h : Later p p₁) (n : Next p₁ p₂) : Later p p₂

/-- The progress of sessions that begin without generators. -/
def Run (p : Progress) : Prop :=
  ∃ machine scripts heap state, Later ⟨⟨machine, scripts, ⟨heap, state, #[]⟩⟩, .idle, []⟩ p

variable {p p₁ p₂ : Progress} {s s' : Session} {made : List (GeneratorId × GeneratorId)}

theorem Later.trans (h : Later p p₁) (h' : Later p₁ p₂) : Later p p₂ := by
  induction h' with
  | refl => exact h
  | next _ n ih => exact .next ih n

theorem Run.later (h : p.Run) (h' : Later p p₁) : p₁.Run := by
  obtain ⟨machine, scripts, heap, state, hlater⟩ := h
  exact ⟨machine, scripts, heap, state, hlater.trans h'⟩

/-- The body of a called function goes on. -/
theorem later_body {n : Nat} {t t' : Record.State (Nat ⊕ Unit) (Execution ⊕ Script.Frame) (Output × Script.Tally)}
    (hr : Reaches (Record.step s.engine) t n t') :
    Later ⟨s.setWorld t.1, .calling t.2.1 t.2.2.1 t.2.2.2, made⟩
      ⟨s.setWorld t'.1, .calling t'.2.1 t'.2.2.1 t'.2.2.2, made⟩ := by
  induction hr with
  | refl => exact .refl _
  | next hs _ ih => exact Later.trans (.next (.refl _) (.body hs)) ih

/-- A whole call of a function. -/
theorem later_call {fuel : Nat} {name : String} {args : List Value} {r : Except BodyError Value}
    (h : s.call fuel name args = some (s', r)) : Later ⟨s, .idle, made⟩ ⟨s', .idle, made⟩ := by
  by_cases hbody : ∃ f, s.function name = .ok f ∧ s.machine.config.maxCallDepth ≠ 0 ∧ f.isGenerator = false
  · obtain ⟨f, hf, hlimit, hplain⟩ := hbody
    simp only [Session.call, hf, hlimit, hplain, if_false, Bool.false_eq_true] at h
    obtain ⟨⟨s₁, r₁, o⟩, hrun, heq⟩ := Option.map_eq_some_iff.mp h
    obtain ⟨⟨w, r₂, o'⟩, hrun, heq'⟩ := Option.map_eq_some_iff.mp hrun
    obtain ⟨n, t, hreach, hhalt⟩ := (ends_of_run hrun).reaches
    cases heq'
    cases heq
    refine Later.trans (.next (.refl _) (.call args hf hplain hlimit)) ?_
    exact .next (later_body hreach) (.returned hhalt)
  · -- The others give the same answer without any fuel.
    have hnow : s.call 0 name args = s.call fuel name args := by
      simp only [Session.call]
      cases hf : s.function name with
      | error e => rfl
      | ok f =>
        simp only
        split
        · rfl
        · next hlimit =>
          split
          · rfl
          · next hplain => exact absurd ⟨f, hf, hlimit, by simpa using hplain⟩ hbody
    exact .next (.refl _) (.answered (hnow.trans h))

theorem later_steps {n : Nat} {t t' : Drive.State (Nat ⊕ Unit) (Execution ⊕ Script.Frame) (Output × Script.Tally)}
    (hr : Reaches (Drive.step s.engine) t n t') :
    ∃ more, Later ⟨s.setWorld t.1, .driving t.2, made⟩ ⟨s.setWorld t'.1, .driving t'.2, made ++ more⟩ := by
  induction hr generalizing made with
  | refl => exact ⟨[], by simpa using Later.refl _⟩
  | @next t t₁ _ _ hs _ ih =>
    obtain ⟨more, hlater⟩ := ih
    refine ⟨Drive.offspring s.engine t ++ more, Later.trans (.next (.refl _) (.step hs)) ?_⟩
    rw [← List.append_assoc]
    exact hlater

/-- A whole advance of a generator. -/
theorem later_advance {fuel : Nat} {g : GeneratorId} {input : Input} {r : Except GeneratorError Bool}
    (h : s.advance fuel g input = some (s', r)) :
    ∃ more, Later ⟨s, .idle, made⟩ ⟨s', .idle, made ++ more⟩ := by
  obtain ⟨⟨w, r'⟩, ha, heq⟩ := Option.map_eq_some_iff.mp h
  cases heq
  obtain ⟨t, hopen, hrun⟩ := Option.bind_eq_some_iff.mp ha
  obtain ⟨n, t', hreach, hhalt⟩ := (ends_of_run hrun).reaches
  obtain ⟨more, hlater⟩ := later_steps hreach
  refine ⟨more, Later.trans (.next (.refl _) (.advance hopen)) (.next hlater ?_)⟩
  exact .halt hhalt

end Progress

end Session

end YieldMachine
