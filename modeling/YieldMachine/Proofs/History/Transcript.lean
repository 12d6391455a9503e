import YieldMachine.Proofs.Drive.Passage
import YieldMachine.Proofs.History.Moment

/-!
What a run notes of one generator. The lines of all drives, one after the other, make up its transcript
(`Moment.Notes`). A property of transcript, position and generator that every passage keeps holds from then on
at every moment of the run (`Notes.invariant`), and from the start if fresh generators have it (`Notes.since`).
-/

namespace YieldMachine.Moment

variable {H F S : Type}

/-- What a step of a run notes of a generator. The drive stands still when someone is dropped. -/
def lines (E : Engine H F S) (m m' : Moment H F S) (g : GeneratorId) : List (Line H F) :=
  match m.drive with
  | some d => if m'.gone = m.gone then Drive.lines E (m.world, d) g else []
  | none => []

/-- Steps of a run lead from the first moment to the second, and these lines are noted of `g`. -/
inductive Notes (E : Engine H F S) (g : GeneratorId) :
    Moment H F S → List (Line H F) → Moment H F S → Prop where
  | refl (m : Moment H F S) : Notes E g m [] m
  | next {m m₁ m₂ : Moment H F S} {ls : List (Line H F)} (h : Notes E g m ls m₁)
      (n : Next E m₁ m₂) : Notes E g m (ls ++ m₁.lines E m₂ g) m₂

variable {E : Engine H F S} {m m₁ m' : Moment H F S} {g : GeneratorId} {x x' : Generator H F}
  {ls ls' : List (Line H F)}

@[simp] theorem lines_drive (w w' : World H F S) (d : Drive F) (drive' : Option (Drive F))
    (history history' : History F) (gone : List GeneratorId) :
    lines E ⟨w, some d, history, gone⟩ ⟨w', drive', history', gone⟩ g = Drive.lines E (w, d) g :=
  if_pos rfl

theorem Notes.later (h : Notes E g m ls m') : Later E m m' := by
  induction h with
  | refl => exact .refl _
  | next _ n ih => exact .next ih n

theorem Later.notes (h : Later E m m') (g : GeneratorId) : ∃ ls, Notes E g m ls m' := by
  induction h with
  | refl => exact ⟨[], .refl _⟩
  | next _ n ih =>
    obtain ⟨ls, hn⟩ := ih
    exact ⟨_, .next hn n⟩

theorem Notes.trans (h : Notes E g m ls m₁) (h' : Notes E g m₁ ls' m') :
    Notes E g m (ls ++ ls') m' := by
  induction h' with
  | refl => rwa [List.append_nil]
  | next _ n ih =>
    rw [← List.append_assoc]
    exact .next ih n

/-- A step of a drive notes its lines. -/
theorem Notes.step {w w' : World H F S} {d d' : Drive F} {history : History F}
    {gone : List GeneratorId} (hs : Drive.step E (w, d) = .next (w', d')) (hg : d'.current ∉ gone) :
    Notes E g ⟨w, some d, history, gone⟩ (Drive.lines E (w, d) g)
      ⟨w', some d', history ++ Drive.events E (w, d), gone⟩ := by
  have hone := Notes.next (g := g) (.refl ⟨w, some d, history, gone⟩) (.step hs hg)
  rwa [lines_drive, List.nil_append] at hone

theorem Next.gone_subset (n : Next E m m') : m.gone ⊆ m'.gone := by
  cases n with
  | drop => exact List.subset_cons_self ..
  | create | call | step | halt | close | setLock | elsewhere => exact List.Subset.refl _

/-- The step is one of the drive under way. -/
def Next.Driven (E : Engine H F S) (m m' : Moment H F S) : Prop :=
  ∃ d d', m.drive = some d ∧ m'.drive = some d' ∧ m'.gone = m.gone ∧
    Drive.step E (m.world, d) = .next (m'.world, d')

/-- In a step of a run that is none of the drive, a generator that stays is not the one to act. -/
theorem Next.bystands (n : Next E m m') (hg : g ∉ m'.gone) (hx : m.world.generator? g = some x) :
    Driven E m m' ∨ m.lines E m' g = [] ∧
      ∃ x', m'.world.generator? g = some x' ∧ Drive.Bystands (m.position g) x (m'.position g) x' := by
  cases n with
  | step hs hcurrent => exact .inl ⟨_, _, rfl, rfl, rfl, hs⟩
  | @create w history gone handle f args =>
    have hne : g ≠ w.generators.size := by
      rintro rfl
      rw [World.generator?_size] at hx
      cases hx
    exact .inr ⟨rfl, x, by rw [World.generator?_create, if_neg hne]; exact hx, .stay _ x⟩
  | @call w w' d history gone c input hc hs =>
    obtain ⟨y, hy, -, heq⟩ := World.open_cases hs
    obtain ⟨rfl, rfl⟩ := Prod.mk.inj heq
    refine .inr ⟨rfl, ?_⟩
    show ∃ x', (w.lock c).generator? g = some x' ∧
      Drive.Bystands .outside x ((Drive.turnTo y c input.sent? []).position g) x'
    by_cases he : g = c
    · subst he
      refine ⟨x.setLock true, by simp [show w.generator? g = some x from hx], ?_⟩
      rw [Drive.position_turnTo]
      exact .lock x true
    · refine ⟨x, (World.generator?_lock_of_ne he).trans hx, ?_⟩
      rw [Drive.position_turnTo_of_ne he]
      exact .stay _ x
  | @halt w w' d history gone r hs =>
    obtain ⟨⟨hfocus, -⟩, hwaiting, rfl⟩ := Drive.halt_cases hs
    simp only at hfocus hwaiting
    refine .inr ⟨by rw [lines_drive, Drive.lines_settled hfocus], ?_⟩
    show ∃ x', (w.unlock d.current).generator? g = some x' ∧ Drive.Bystands (d.position g) x .outside x'
    by_cases he : g = d.current
    · subst he
      refine ⟨x.setLock false, by simp [show w.generator? d.current = some x from hx], ?_⟩
      rw [Drive.position_current, hfocus]
      exact .rest x false
    · refine ⟨x, (World.generator?_unlock_of_ne he).trans hx, ?_⟩
      rw [Drive.position_of_not_mem (by simp [Drive.chain, hwaiting, he])]
      exact .stay _ x
  | @close w history gone c hc =>
    refine .inr ⟨rfl, ?_⟩
    show ∃ x', (w.close E c).generator? g = some x' ∧ Drive.Bystands .outside x .outside x'
    by_cases he : g = c
    · subst he
      cases hf : x.isFinished with
      | true =>
        have hsame : w.close E g = w :=
          (World.close_idle fun y hy => Option.some.inj (hx.symm.trans hy) ▸ hf).1
        exact ⟨x, hsame.symm ▸ hx, .stay _ x⟩
      | false =>
        rw [(World.close_unfinished hx hf).1]
        exact ⟨x.terminate, by simp [show w.generator? g = some x from hx], .close hf⟩
    · exact ⟨x, (World.generator?_close_of_ne he).trans hx, .stay _ x⟩
  | @drop m c hc hfree =>
    have he : g ≠ c := fun he => hg (he ▸ List.mem_cons_self)
    have hquiet : m.lines E ⟨m.world.drop E c, m.drive,
        m.history ++ (m.world.dropping E c).map (c, ·), c :: m.gone⟩ g = [] := by
      rw [lines]
      split
      · exact if_neg (by simp)
      · rfl
    exact .inr ⟨hquiet, x, (World.generator?_drop_of_ne he).trans hx, .stay _ x⟩
  | @setLock w history gone c b =>
    refine .inr ⟨rfl, ?_⟩
    show ∃ x', (w.modify c (·.setLock b)).generator? g = some x' ∧ Drive.Bystands .outside x .outside x'
    by_cases he : g = c
    · subst he
      exact ⟨x.setLock b, by simp [show w.generator? g = some x from hx], .lock x b⟩
    · exact ⟨x, (World.generator?_modify_of_ne he _).trans hx, .stay _ x⟩
  | elsewhere heap state => exact .inr ⟨rfl, x, hx, .stay _ x⟩

/-- A generator that stays makes a passage in every step of a run. -/
theorem Next.passage (n : Next E m m') (hk : m.Kept) (hg : g ∉ m'.gone)
    (hx : m.world.generator? g = some x) :
    ∃ x', m'.world.generator? g = some x' ∧
      Drive.Passage E (m.position g) x (m.lines E m' g) (m'.position g) x' := by
  rcases n.bystands hg hx with ⟨d, d', hd, hd', hgone, hs⟩ | ⟨hlines, x', hx', hby⟩
  · have hlines : m.lines E m' g = Drive.lines E (m.world, d) g := by rw [lines, hd]; exact if_pos hgone
    have hfits := hk.fits g x hx (hgone ▸ hg)
    unfold role at hfits
    rw [hlines, position, position, hd, hd']
    rw [hd] at hfits
    exact Drive.step_passages (hk.chained d hd) hs hx hfits
  · exact ⟨x', hx', hlines ▸ hby.passage⟩

/-- A new generator is fresh, and nobody has turned to it. -/
theorem Next.newborn (n : Next E m m') (hk : m.Kept) (hnone : m.world.generator? g = none)
    (hx' : m'.world.generator? g = some x') :
    m'.position g = .outside ∧ ∃ h f args, x' = .fresh h f args := by
  cases n with
  | create handle f args =>
    rw [World.generator?_create] at hx'
    split at hx'
    · exact ⟨rfl, handle, f, args, (Option.some.inj hx').symm⟩
    · rw [hnone] at hx'
      cases hx'
  | @step w w' d d' history gone hs hcurrent =>
    have hc := hk.chained d rfl
    obtain ⟨-, hmoves⟩ := Drive.step_moves hc hs
    have hout := hc.not_mem_of_none hnone
    refine ⟨Drive.position_of_not_mem ?_, (hmoves.new g x' hnone hx').2⟩
    rcases hmoves.chain with heq | ⟨c, y, heq, hy, -⟩ | heq
    · rwa [heq]
    · rw [heq]
      rintro (_ | hmem)
      · rw [hnone] at hy
        cases hy
      · exact hout ‹_›
    · exact fun hmem => hout (heq ▸ List.mem_cons_of_mem _ hmem)
  -- In all other steps, those that are not there do not come into being.
  | @call w w' d history gone c input hc hs =>
    obtain ⟨y, hy, -, heq⟩ := World.open_cases hs
    obtain ⟨rfl, rfl⟩ := Prod.mk.inj heq
    have he : g ≠ c := by
      rintro rfl
      rw [hnone] at hy
      cases hy
    rw [World.generator?_lock_of_ne he, hnone] at hx'
    cases hx'
  | @halt w w' d history gone r hs =>
    obtain ⟨-, -, rfl⟩ := Drive.halt_cases hs
    have he : g ≠ d.current := fun he =>
      (hk.chained d rfl).not_mem_of_none hnone (he ▸ List.mem_cons_self)
    rw [World.generator?_unlock_of_ne he, hnone] at hx'
    cases hx'
  | @close w history gone c hc =>
    by_cases he : g = c
    · subst he
      have hsame : w.close E g = w := (World.close_idle fun y hy => by rw [hnone] at hy; cases hy).1
      rw [hsame, hnone] at hx'
      cases hx'
    · rw [World.generator?_close_of_ne he, hnone] at hx'
      cases hx'
  | @drop m c hc hfree =>
    by_cases he : g = c
    · subst he
      rw [(World.drop_none hnone).1, hnone] at hx'
      cases hx'
    · rw [World.generator?_drop_of_ne he, hnone] at hx'
      cases hx'
  | @setLock w history gone c b =>
    by_cases he : g = c
    · subst he
      rw [World.generator?_modify_self, hnone] at hx'
      cases hx'
    · rw [World.generator?_modify_of_ne he, hnone] at hx'
      cases hx'
  | elsewhere heap state =>
    have hnone' := hx'.symm.trans hnone
    cases hnone'

/-- Nothing is noted of a generator that is not there. -/
theorem lines_of_absent (hk : m.Kept) (hnone : m.world.generator? g = none) :
    m.lines E m' g = [] := by
  unfold lines
  split
  · next d hd =>
    have hne : g ≠ d.current := fun he =>
      (hk.chained d hd).not_mem_of_none hnone (he ▸ List.mem_cons_self)
    rw [Drive.lines_of_ne hne, ite_self]
  · rfl

section Invariants

variable {I : List (Line H F) → Drive.Position F → Generator H F → Prop}

/-- What every passage keeps holds from then on. -/
theorem Notes.invariant (h : Notes E g m ls m')
    (hpassage : ∀ {ls p x ls' p' x'}, Drive.Passage E p x ls' p' x' → I ls p x → I (ls ++ ls') p' x')
    (hk : m.Kept) (hg : g ∉ m'.gone) (hx : m.world.generator? g = some x)
    (hI : I [] (m.position g) x) :
    ∃ x', m'.world.generator? g = some x' ∧ I ls (m'.position g) x' := by
  induction h with
  | refl => exact ⟨x, hx, hI⟩
  | next h n ih =>
    obtain ⟨y, hy, hIy⟩ := ih fun hgone => hg (n.gone_subset hgone)
    obtain ⟨x', hx', hp⟩ := n.passage (hk.later h.later) hg hy
    exact ⟨x', hx', hpassage hp hIy⟩

/-- What fresh generators have and every passage keeps holds at every moment of a run. -/
theorem Notes.since {heap : Heap} {state : S}
    (h : Notes E g ⟨⟨heap, state, #[]⟩, none, [], []⟩ ls m')
    (hfresh : ∀ k f args, I [] .outside (.fresh k f args))
    (hpassage : ∀ {ls p x ls' p' x'}, Drive.Passage E p x ls' p' x' → I ls p x → I (ls ++ ls') p' x')
    (hg : g ∉ m'.gone) (hx' : m'.world.generator? g = some x') : I ls (m'.position g) x' := by
  suffices hboth : g ∉ m'.gone → (m'.world.generator? g = none → ls = []) ∧
      ∀ x', m'.world.generator? g = some x' → I ls (m'.position g) x' from (hboth hg).2 x' hx'
  clear hg hx'
  generalize hm : (⟨⟨heap, state, #[]⟩, none, [], []⟩ : Moment H F S) = m at h
  have hstart : m.Kept := hm ▸ Kept.origin heap state
  induction h with
  | refl =>
    subst hm
    refine fun _ => ⟨fun _ => rfl, fun x' hx' => ?_⟩
    simp [World.generator?] at hx'
  | @next m₁ m₂ ls h n ih =>
    intro hg
    obtain ⟨habsent, hthere⟩ := ih fun hgone => hg (n.gone_subset hgone)
    have hk : m₁.Kept := hstart.later h.later
    cases hx : m₁.world.generator? g with
    | none =>
      rw [habsent hx, lines_of_absent hk hx]
      refine ⟨fun _ => rfl, fun x' hx' => ?_⟩
      obtain ⟨hposition, k, f, args, rfl⟩ := n.newborn hk hx hx'
      rw [hposition]
      exact hfresh k f args
    | some x =>
      obtain ⟨y, hy, hp⟩ := n.passage hk hg hx
      rw [hy]
      refine ⟨fun hnone => (by cases hnone), fun x' hx' => ?_⟩
      obtain rfl := Option.some.inj hx'
      exact hpassage hp (hthere x hx)

end Invariants

end YieldMachine.Moment
