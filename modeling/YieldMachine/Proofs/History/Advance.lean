import YieldMachine.Proofs.Drive.Posting
import YieldMachine.Proofs.Finality
import YieldMachine.Proofs.History.Transcript

/-!
Advances as parts of runs, and the pairs that are given in them. A run that stops at the first result of a generator
is a `Turn` of it, and what the generator was given on the way is collected. Whatever it is given it shows
(`Along.pair`). A call on a generator is such a turn (`turn_of_advance`).
-/

namespace YieldMachine

variable {H F S : Type}

/-- The role of a generator that stands so. -/
def Drive.Position.Plays : Drive.Position F → Role → Prop
  | .outside, role => role = .idle
  | .awaiting _, role | .engaged .., role => role = .running
  | .over, role => ∃ r, role = .settled r

namespace Moment

/-- What a step of a run gives to a generator. -/
def postings (E : Engine H F S) (m m' : Moment H F S) (g : GeneratorId) : List Posting :=
  match m.drive with
  | some d => if m'.gone = m.gone then Drive.postings E (m.world, d) g else []
  | none => []

/-- Steps of a run, each as `R` allows, lead from the first moment to the second, and this is what `g` is given on
the way. -/
inductive Along (E : Engine H F S) (g : GeneratorId) (R : Moment H F S → Moment H F S → Prop) :
    Moment H F S → List Posting → Moment H F S → Prop where
  | refl (m : Moment H F S) : Along E g R m [] m
  | next {m m₁ m₂ : Moment H F S} {rs : List Posting} (h : Along E g R m rs m₁) (n : Next E m₁ m₂)
      (hR : R m₁ m₂) : Along E g R m (rs ++ m₁.postings E m₂ g) m₂

/-- On the way no advance of `g` ends before the last step. -/
abbrev Turn (E : Engine H F S) (g : GeneratorId) := Along E g fun m _ => m.position g ≠ .over

/-- On the way no advance of `g` succeeds. -/
def Fruitless (E : Engine H F S) (g : GeneratorId) (m m' : Moment H F S) : Prop :=
  ∃ rs, Along E g (fun m m' => m'.role g = .settled (.ok true) → m.role g = .settled (.ok true)) m rs m'

/-- The body of `g` is not being run. -/
def AtRest (m : Moment H F S) (g : GeneratorId) : Prop := m.position g = .outside ∨ m.position g = .over

/-- What the generator shows; null before it is made. -/
def pair (m : Moment H F S) (g : GeneratorId) : Value × Value :=
  (m.world.generator? g).elim (.null, .null) (·.pair)

variable {E : Engine H F S} {R : Moment H F S → Moment H F S → Prop} {m m' : Moment H F S} {g : GeneratorId}
  {x : Generator H F} {r : Except GeneratorError Bool} {rs : List Posting}

theorem pair_of_some (hx : m.world.generator? g = some x) : m.pair g = x.pair := by rw [pair, hx]; rfl

theorem Along.later (h : Along E g R m rs m') : Later E m m' := by
  induction h with
  | refl => exact .refl _
  | next _ n _ ih => exact .next ih n

/-! ### Positions and roles -/

theorem plays_focus (focus : Focus F) : focus.position.Plays focus.role := by
  cases focus with
  | settled r => exact ⟨r, rfl⟩
  | enter | body => rfl

theorem plays_among (g : GeneratorId) (ls : List (Link F)) :
    (Drive.positionAmong g ls).Plays (Drive.roleAmong g ls) := by
  induction ls with
  | nil => rfl
  | cons l ls ih =>
    rw [Drive.positionAmong, Drive.roleAmong]
    split
    · cases l.wait <;> rfl
    · exact ih

theorem position_of_absent (hk : m.Kept) (hnone : m.world.generator? g = none) : m.position g = .outside := by
  unfold position
  split
  · next d hd => exact Drive.position_of_not_mem ((hk.chained d hd).not_mem_of_none hnone)
  · rfl

theorem plays (m : Moment H F S) (g : GeneratorId) : (m.position g).Plays (m.role g) := by
  rw [position, role]
  split
  · rw [Drive.position, Drive.role]
    split
    · exact plays_focus _
    · exact plays_among g _
  · rfl

theorem position_of_settled (hr : m.role g = .settled r) : m.position g = .over := by
  have hplays := hr ▸ m.plays g
  generalize m.position g = p at hplays
  cases p with
  | outside | awaiting | engaged => cases hplays
  | _ => rfl

theorem role_of_over (hp : m.position g = .over) : ∃ r, m.role g = .settled r := by
  have hplays := m.plays g
  rw [hp] at hplays
  exact hplays

/-- A generator whose body is being run is there and not finished. -/
theorem Kept.unfinished (hk : m.Kept) (hg : g ∉ m.gone) (hp : (m.position g).inBody = true) :
    ∃ x, m.world.generator? g = some x ∧ x.isFinished = false := by
  have hplays := m.plays g
  cases hx : m.world.generator? g with
  | none => rw [position_of_absent hk hx] at hp; cases hp
  | some x =>
    refine ⟨x, rfl, ?_⟩
    have hfits := hk.fits g x hx hg
    generalize m.position g = p at hplays hp
    cases p with
    | awaiting | engaged =>
      rw [show m.role g = .running from hplays] at hfits
      exact hfits.unfinished
    | _ => cases hp

/-! ### What one step gives -/

theorem Next.driven_or_quiet (n : Next E m m') (g : GeneratorId) : Next.Driven E m m' ∨ m.postings E m' g = [] := by
  cases n with
  | step hs => exact .inl ⟨_, _, rfl, rfl, rfl, hs⟩
  | halt hs => exact .inr ((if_pos rfl).trans (Drive.postings_halt hs))
  | drop =>
    refine .inr ?_
    rw [postings]
    split
    · exact if_neg (by simp)
    · rfl
  | create | call | close | setLock | elsewhere => exact .inr rfl

/-- In every step of a run, a generator that stays is given what was read off. -/
theorem Next.posts (n : Next E m m') (hk : m.Kept) (hg : g ∉ m'.gone) (hx : m.world.generator? g = some x) :
    ∃ x', m'.world.generator? g = some x' ∧
      Drive.Posts E (m.position g) x (m.postings E m' g) (m'.position g) x' := by
  have hdriven : Next.Driven E m m' → ∃ x', m'.world.generator? g = some x' ∧
      Drive.Posts E (m.position g) x (m.postings E m' g) (m'.position g) x' := by
    rintro ⟨d, d', hd, hd', hgone, hs⟩
    have hgiven : m.postings E m' g = Drive.postings E (m.world, d) g := by rw [postings, hd]; exact if_pos hgone
    have hfits := hk.fits g x hx (hgone ▸ hg)
    unfold role at hfits
    rw [hgiven, position, position, hd, hd']
    rw [hd] at hfits
    exact Drive.step_posts (hk.chained d hd) hs hx hfits
  rcases n.driven_or_quiet g with hstep | hquiet
  · exact hdriven hstep
  · rcases n.bystands hg hx with hstep | ⟨-, x', hx', hby⟩
    · exact hdriven hstep
    · exact ⟨x', hx', hquiet ▸ .aside hby⟩

theorem postings_of_absent (hk : m.Kept) (hnone : m.world.generator? g = none) : m.postings E m' g = [] := by
  unfold postings
  split
  · next d hd => rw [Drive.postings_of_absent (hk.chained d hd) hnone, ite_self]
  · rfl

/-- A generator shows the last pair that it was given. -/
theorem Next.pair (n : Next E m m') (hk : m.Kept) (hg : g ∉ m'.gone) :
    m'.pair g = ((m.postings E m' g).getLast?.map Posting.pair).getD (m.pair g) := by
  cases hx : m.world.generator? g with
  | some x =>
    obtain ⟨x', hx', hposts⟩ := n.posts hk hg hx
    rw [pair_of_some hx, pair_of_some hx']
    exact hposts.pair
  | none =>
    rw [postings_of_absent hk hx]
    cases hx' : m'.world.generator? g with
    | none => simp [Moment.pair, hx, hx']
    | some x' =>
      obtain ⟨-, k, f, args, rfl⟩ := n.newborn hk hx hx'
      simp [Moment.pair, hx, hx', Generator.pair, Generator.fresh]

/-- A generator that has had its turn is given nothing. -/
theorem Next.quiet_of_over (n : Next E m m') (hk : m.Kept) (hg : g ∉ m'.gone) (hp : m.position g = .over) :
    m.postings E m' g = [] := by
  cases hx : m.world.generator? g with
  | none => exact postings_of_absent hk hx
  | some x =>
    obtain ⟨x', -, hposts⟩ := n.posts hk hg hx
    rw [hp] at hposts
    exact hposts.nil_of_over

theorem Along.pair (h : Along E g R m rs m') (hk : m.Kept) (hg : g ∉ m'.gone) :
    m'.pair g = (rs.getLast?.map Posting.pair).getD (m.pair g) := by
  induction h with
  | refl => rfl
  | next h n _ ih =>
    rw [n.pair (hk.later h.later) hg, ih fun hgone => hg (n.gone_subset hgone), List.getLast?_append]
    cases (postings E _ _ g).getLast? <;> rfl

/-- A body that is being run is run until the generator has had its turn, and passes nothing on. -/
theorem Turn.inBody (h : Turn E g m rs m') (hk : m.Kept) (hg : g ∉ m'.gone) (hp : (m.position g).inBody = true) :
    ((m'.position g).inBody = true ∨ m'.position g = .over) ∧ ∀ r ∈ rs, r.manner ≠ .relay := by
  induction h with
  | refl => exact ⟨.inl hp, by simp⟩
  | @next m₁ m₂ rs h n hnot ih =>
    obtain ⟨hbody, hrelay⟩ := ih fun hgone => hg (n.gone_subset hgone)
    have hin := hbody.resolve_right hnot
    have hk₁ := hk.later h.later
    obtain ⟨x, hx, -⟩ := hk₁.unfinished (fun hgone => hg (n.gone_subset hgone)) hin
    obtain ⟨x', -, hposts⟩ := n.posts hk₁ hg hx
    obtain ⟨hbody', hrelay'⟩ := hposts.inBody hin
    refine ⟨hbody', fun r hr => ?_⟩
    exact (List.mem_append.mp hr).elim (hrelay r) (hrelay' r)

/-! ### Calls -/

theorem Along.head {m₁ : Moment H F S} (n : Next E m m₁) (hR : R m m₁) (h : Along E g R m₁ rs m') :
    Along E g R m (m.postings E m₁ g ++ rs) m' := by
  induction h with
  | refl =>
    rw [List.append_nil]
    exact .next (.refl m) n hR
  | next _ n' hR' ih =>
    rw [← List.append_assoc]
    exact .next ih n' hR'

/-- A drive for which no value is kept back halts as soon as the generator called has had its turn. -/
theorem not_over_of_next {s s' : Drive.State H F S} (hs : Drive.step E s = .next s') (hcall : Drive.OnCall g s)
    (hkeep : s.2.rebase none [] = s.2) : ¬ Drive.Bottomed s ∧ s.2.position g ≠ .over := by
  have hbottom : ¬ Drive.Bottomed s := by
    rintro ⟨hwaiting, r, hfocus⟩
    have hnone : s.2.resend = none := by
      rw [← hkeep, Drive.rebase, hwaiting]
      rfl
    have hhalt : Drive.step E s = _ := Drive.step_halt (w := s.1) (.of_none hfocus hnone) hwaiting
    rw [hhalt] at hs
    cases hs
  refine ⟨hbottom, fun hover => ?_⟩
  obtain ⟨r, hr⟩ := role_of_over (m := ⟨s.1, some s.2, [], []⟩) hover
  obtain ⟨hcurrent, hfocus⟩ := Drive.role_eq_settled hr
  exact hbottom ⟨hcall.alone hcurrent, r, hfocus⟩

theorem turn_of_reaches {s t : Drive.State H F S} {n : Nat} (hr : Reaches (Drive.step E) s n t)
    (hcall : Drive.OnCall g s) (hkeep : s.2.rebase none [] = s.2) (history : History F) :
    ∃ rs history', Turn E g ⟨s.1, some s.2, history, []⟩ rs ⟨t.1, some t.2, history', []⟩ := by
  induction hr generalizing history with
  | refl s => exact ⟨[], history, .refl _⟩
  | next hs _ ih =>
    obtain ⟨hbottom, hover⟩ := not_over_of_next hs hcall hkeep
    obtain ⟨rs, history', hturn⟩ := ih (hcall.step hs) (Drive.keepsBack_step hkeep hbottom hs) _
    exact ⟨_, history', .head (.step hs List.not_mem_nil) hover hturn⟩

/-- A call on a generator is one advance of it, unless a fresh one is sent a value. -/
theorem turn_of_advance {w w' : World H F S} {fuel : Nat} {input : Input}
    (ha : w.advance E fuel g input = some (w', r)) (hx : w.generator? g = some x)
    (hone : input.sent? = none ∨ x.isStarted = true) (history : History F) :
    ∃ rs m', Turn E g ⟨w, none, history, []⟩ rs m' ∧ m'.role g = .settled r ∧ g ∉ m'.gone ∧
      w' = m'.world.unlock g := by
  obtain ⟨s, hs, hrun⟩ := Option.bind_eq_some_iff.mp ha
  obtain ⟨n, t, hreach, ht⟩ := (ends_of_run hrun).reaches
  have hcall := World.open_onCall hs
  obtain ⟨hcurrent, hfocus, -, hw⟩ := (hcall.reaches hreach).halt ht
  obtain ⟨x', hx', -, rfl⟩ := World.open_cases hs
  obtain rfl : x = x' := Option.some.inj (hx.symm.trans hx')
  have hkeep : (Drive.turnTo x g input.sent? [] : Drive F).rebase none [] = Drive.turnTo x g input.sent? [] := by
    rw [Drive.turnTo]
    split
    · rfl
    · next hfresh => rw [hone.resolve_right hfresh]; rfl
  obtain ⟨rs, history', hturn⟩ := turn_of_reaches hreach hcall hkeep history
  refine ⟨_, _, .head (.call List.not_mem_nil hs) (fun hover => by cases hover) hturn, ?_, List.not_mem_nil, hw⟩
  show t.2.role g = .settled r
  rw [← hcurrent, Drive.role_current, hfocus]
  rfl

end Moment

end YieldMachine
