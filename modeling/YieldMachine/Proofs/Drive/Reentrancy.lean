import YieldMachine.Proofs.Drive.Stride
import YieldMachine.Proofs.Lifecycle
import YieldMachine.Session

/-!
Re-entrancy. However the generators of a world name each other, a drive turns to unlocked generators only, so
its chain never meets itself, and what others keep locked stays as it is (`Stride.aside_iff`). A generator that
delegates to a locked one is refused, and the refusal ends it and, one after the other, all that wait for it,
up to the first body that catches it (`collapse`). So a drive that runs into a circle of delegations breaks
the circle (`reentrancy_safe`).
-/

namespace YieldMachine

variable {H F S : Type}

namespace World

/-- The generator `l` is `x` and locked. -/
def Locked (w : World H F S) (l : GeneratorId) (x : Generator H F) : Prop :=
  w.generator? l = some x ∧ x.locked = true

/-- The generator is finished, by an error. -/
def Failed (w : World H F S) (g : GeneratorId) : Prop :=
  ∃ x e, w.generator? g = some x ∧ x.isFinished = true ∧ x.lastError = some e

variable {w : World H F S} {g l : GeneratorId} {x y : Generator H F}

theorem locked_lock_iff (hx : w.generator? g = some x) (hl : x.locked = false) :
    (w.lock g).Locked l y ∧ l ≠ g ↔ w.Locked l y := by
  constructor
  · rintro ⟨⟨hy, hly⟩, hne⟩
    exact ⟨(generator?_lock_of_ne hne).symm.trans hy, hly⟩
  · rintro ⟨hy, hly⟩
    have hne : l ≠ g := by
      rintro rfl
      rw [hx] at hy
      cases hy
      rw [hl] at hly
      cases hly
    exact ⟨⟨(generator?_lock_of_ne hne).trans hy, hly⟩, hne⟩

theorem locked_unlock_iff : (w.unlock g).Locked l y ↔ w.Locked l y ∧ l ≠ g := by
  constructor
  · rintro ⟨hy, hly⟩
    have hne : l ≠ g := by
      rintro rfl
      rw [generator?_unlock_self] at hy
      obtain ⟨z, -, rfl⟩ := Option.map_eq_some_iff.mp hy
      cases hly
    exact ⟨⟨(generator?_unlock_of_ne hne).symm.trans hy, hly⟩, hne⟩
  · rintro ⟨⟨hy, hly⟩, hne⟩
    exact ⟨(generator?_unlock_of_ne hne).trans hy, hly⟩

end World

/-- How a generator that waits so ends when the one it delegates to is refused. -/
def Wait.refusal : Wait F → DelegationError → GeneratorError
  | .paused, e => .delegation e
  | .inBody _, e => .executionFailed (.delegation e)

/-- Whoever waits so passes a refusal on: between two pairs always, in a body that fails with it. -/
def Wait.Passes (E : Engine H F S) : Wait F → Prop
  | .paused => True
  | .inBody frame => ∀ heap s e, E.step heap s frame (.refused e) = (heap, s, .fail (.delegation e))

namespace Drive

variable {E : Engine H F S} {w w' : World H F S} {d d' : Drive F} {s s' : State H F S}
  {l c : GeneratorId} {x y : Generator H F}

/-! ### Locks -/

/-- The generator `l` is `x` and locked, but not by this drive. -/
def Aside (s : State H F S) (l : GeneratorId) (x : Generator H F) : Prop :=
  s.1.Locked l x ∧ l ∉ s.2.chain

theorem aside_congr (hchain : d'.chain = d.chain)
    (hsame : l ∉ d.chain → w'.generator? l = w.generator? l) :
    Aside (w', d') l y ↔ Aside (w, d) l y := by
  simp only [Aside, World.Locked, hchain]
  constructor
  · rintro ⟨⟨hy, hl⟩, hout⟩
    exact ⟨⟨hsame hout ▸ hy, hl⟩, hout⟩
  · rintro ⟨⟨hy, hl⟩, hout⟩
    exact ⟨⟨(hsame hout).trans hy, hl⟩, hout⟩

/-- A drive that moves on locks a generator that it has on its chain from then on. -/
theorem aside_turnTo {sent resend : Option Value} {wait : Wait F} (hx : w.generator? c = some x)
    (hl : x.locked = false) :
    Aside (w.lock c, turnTo x c sent (⟨d.current, resend, wait⟩ :: d.waiting)) l y ↔
      Aside (w, d) l y := by
  simp only [Aside, turnTo_chain, List.mem_cons, not_or]
  rw [← and_assoc, World.locked_lock_iff hx hl]

/-- A stride neither touches a generator that others keep locked, nor leaves one locked. -/
theorem Stride.aside_iff (h : Stride E w d w' d') : Aside (w', d') l y ↔ Aside (w, d) l y := by
  cases h with
  | act hx hact =>
    refine aside_congr rfl fun hout => World.generator?_replace_of_ne ?_ _
    exact List.ne_of_not_mem_cons hout
  | create hfocus hE =>
    simp only [Aside, World.Locked, World.generator?_create]
    split
    · next hl =>
      -- The new generator is not locked, and there was none in its place.
      subst hl
      have hnone := World.generator?_size w
      constructor
      · rintro ⟨⟨hy, hlocked⟩, -⟩
        obtain rfl := Option.some.inj hy
        cases hlocked
      · rintro ⟨⟨hy, -⟩, -⟩
        rw [hnone] at hy
        cases hy
    · exact Iff.rfl
  | resend => exact Iff.rfl
  | follow hfocus hy hl => exact aside_turnTo hy hl
  | delegate hfocus hE hy hl => exact aside_turnTo hy hl
  | @handOver result link ls x x' heap state focus hdone hw hx hne hact =>
    have hchain : d.chain = d.current :: link.generator :: ls.map Link.generator := by
      simp [chain, hw]
    have hunlocked : Aside (w.unlock d.current, ⟨link.generator, link.resend, focus, ls⟩) l y ↔
        Aside (w, d) l y := by
      simp only [Aside, hchain, World.locked_unlock_iff]
      simp only [chain, List.mem_cons, not_or, and_assoc]
    rw [← hunlocked]
    refine aside_congr rfl fun hout => World.generator?_replace_of_ne ?_ _
    exact List.ne_of_not_mem_cons hout

theorem aside_reaches {n : Nat} (hc : s.2.Chained s.1) (hr : Reaches (step E) s n s') :
    Aside s' l y ↔ Aside s l y := by
  refine (hr.invariant (I := fun t => t.2.Chained t.1 ∧ (Aside t l y ↔ Aside s l y))
    ⟨hc, Iff.rfl⟩ ?_).2
  rintro t t' ⟨hct, hiff⟩ hs
  exact ⟨(step_moves hct hs).1, (step_strides hct hs).aside_iff.trans hiff⟩

/-- The locks during a drive that began in `w`: the drive holds its own chain, and what was locked before is
locked still, and as it was. -/
structure Guards (w : World H F S) (s : State H F S) : Prop where
  distinct : s.2.chain.Nodup
  holds : ∀ g ∈ s.2.chain, ∃ x, s.1.Locked g x
  aside : ∀ l x, w.Locked l x ↔ s.1.Locked l x ∧ l ∉ s.2.chain

theorem guards_reaches {g : GeneratorId} {input : Input} {n : Nat} (hs : w.open? g input = some s)
    (hr : Reaches (step E) s n s') : Guards w s' := by
  obtain ⟨hc, hchain⟩ := World.open_chained hs
  have hc' := ((World.open_onCall hs).reaches hr).chained
  refine ⟨hc'.nodup, hc'.locked, fun l y => Iff.symm ((aside_reaches hc hr).trans ?_)⟩
  obtain ⟨x, hx, hl, rfl⟩ := World.open_cases hs
  rw [Aside, hchain, List.mem_singleton]
  exact World.locked_lock_iff hx hl

/-- Where a drive ends, it has given back just what it locked. -/
theorem guards_ends {g : GeneratorId} {input : Input} {r : Result H F S}
    (hs : w.open? g input = some s) (he : Ends (step E) s r) (l : GeneratorId) (y : Generator H F) :
    r.1.Locked l y ↔ w.Locked l y := by
  obtain ⟨n, t, hreach, ht⟩ := he.reaches
  obtain ⟨-, hwaiting, hr⟩ := halt_cases ht
  rw [(guards_reaches hs hreach).aside l y, hr, World.locked_unlock_iff]
  simp [chain, hwaiting]

/-! ### Refusals -/

/-- The next step would turn to `c`, for which the generator in turn would wait as given. -/
inductive Seeks (E : Engine H F S) : State H F S → Wait F → GeneratorId → Prop where
  | paused {w : World H F S} {d : Drive F} {sent : Option Value} {x : Generator H F} {c : GeneratorId}
      (hfocus : d.focus = .enter sent) (hx : w.generator? d.current = some x)
      (hf : x.isFinished = false) (hd : x.delegation = some (.child c)) : Seeks E (w, d) .paused c
  | inBody {w : World H F S} {d : Drive F} {frame frame' : F} {reply : Reply} {heap : Heap} {state : S}
      {source : Value} {c : GeneratorId} (hfocus : d.focus = .body frame reply)
      (hE : E.step w.heap w.state frame reply = (heap, state, .delegate source frame'))
      (hsource : heap.deref source = .generator c) : Seeks E (w, d) (.inBody frame') c

/-- The generator in turn ends by an error, and no other generator changes. -/
structure EndsAlone (e : GeneratorError) (s s' : State H F S) : Prop where
  drive : s'.2 = { s.2 with focus := .settled (.error e) }
  current : s'.1.generator? s.2.current =
    (s.1.generator? s.2.current).map fun x => x.terminate.setError e
  others : ∀ g, g ≠ s.2.current → s'.1.generator? g = s.1.generator? g

/-- The body in turn gets the refusal as the reply to its request, and no generator changes. -/
def Answered (E : Engine H F S) (s : State H F S) (frame : F) : Prop :=
  ∃ s', step E s = .next s' ∧ s'.1.generators = s.1.generators ∧
    s'.2 = { s.2 with focus := .body frame (.refused .alreadyRunning) }

/-- The generator in turn ends as the delegate of one that is already running. -/
def Rejected (E : Engine H F S) (s : State H F S) (wait : Wait F) : Prop :=
  ∃ n s', Reaches (step E) s n s' ∧ EndsAlone (wait.refusal .alreadyRunning) s s'

/-- The generator in turn, which waited so, is refused. -/
def told (E : Engine H F S) (w : World H F S) (d : Drive F) (e : DelegationError) :
    Wait F → State H F S
  | .paused => fail E w d (.delegation e)
  | .inBody frame => (w, { d with focus := .body frame (.refused e) })

theorem fail_endsAlone (e : GeneratorError) : EndsAlone e (w, d) (fail E w d e) where
  drive := rfl
  current := World.generator?_fail_self ..
  others _ hg := World.generator?_fail_of_ne E e hg

theorem told_ends {wait : Wait F} {e : DelegationError} (hp : wait.Passes E) :
    ∃ n s', Reaches (step E) (told E w d e wait) n s' ∧ EndsAlone (wait.refusal e) (w, d) s' := by
  cases wait with
  | paused => exact ⟨0, _, .refl _, fail_endsAlone _⟩
  | inBody frame => exact ⟨1, _, .single (step_body rfl (hp w.heap w.state e)), fail_endsAlone _⟩

theorem descend_refused {sent : Option Value} {wait : Wait F} (hc : w.Locked c x) :
    descend w d c sent wait = none := by
  rw [descend, hc.1]
  simp [hc.2]

/-- A generator that delegates to a locked one is refused. -/
theorem seeks_locked {wait : Wait F} (hseeks : Seeks E s wait c) (hc : s.1.Locked c x) :
    (∀ frame, wait = .inBody frame → Answered E s frame) ∧ (wait.Passes E → Rejected E s wait) := by
  cases hseeks with
  | @paused w d sent y _ hfocus hy hf hd =>
    have hstep : step E (w, d) = .next (told E w d .alreadyRunning .paused) := by
      rw [step_enter hfocus hy, enter]
      simp only [hf, hd, descend_refused hc, Bool.false_eq_true, if_false]
      rfl
    refine ⟨fun _ hwait => (by cases hwait), fun hp => ?_⟩
    obtain ⟨n, s', hr, hends⟩ := told_ends (w := w) (d := d) (e := .alreadyRunning) hp
    exact ⟨n + 1, s', .next hstep hr, hends⟩
  | @inBody w d frame frame' reply heap state source _ hfocus hE hsource =>
    let w' : World H F S := { w with heap := heap, state := state }
    have hc' : w'.Locked c x := hc
    have hstep : step E (w, d) = .next (told E w' d .alreadyRunning (.inBody frame')) := by
      rw [step_body hfocus hE, perform, delegate]
      simp only [Delegation.ofValue, hsource]
      rw [descend_refused hc']
      rfl
    constructor
    · rintro _ ⟨⟩
      exact ⟨_, hstep, rfl, rfl⟩
    · intro hp
      obtain ⟨n, s', hr, hends⟩ := told_ends (w := w') (d := d) (e := .alreadyRunning) hp
      exact ⟨n + 1, s', .next hstep hr, hends.drive, hends.current, hends.others⟩

/-! ### The refusal travels outwards -/

theorem EndsAlone.failed {e : GeneratorError} (h : EndsAlone e s s') (hc : s.2.Chained s.1) :
    s'.1.Failed s.2.current := by
  obtain ⟨x, hx, -⟩ := hc.current
  exact ⟨x.terminate.setError e, e, by rw [h.current, hx]; rfl, rfl, rfl⟩

theorem failed_reaches {g : GeneratorId} {n : Nat} (h : LocalInvariant.Driven Generator.FitsRole s)
    (hg : s.1.Failed g) (hr : Reaches (step E) s n s') : s'.1.Failed g := by
  refine (hr.invariant (I := fun t => LocalInvariant.Driven Generator.FitsRole t ∧ t.1.Failed g)
    ⟨h, hg⟩ ?_).2
  rintro t t' ⟨hdriven, x, e, hx, hf, he⟩ hs
  obtain ⟨b, hx'⟩ := Generator.step_finished hdriven hx hf hs
  exact ⟨Generator.fitsRole_invariant.step hdriven hs, x.setLock b, e, hx', hf, he⟩

theorem driven_reaches {n : Nat} (h : LocalInvariant.Driven Generator.FitsRole s)
    (hr : Reaches (step E) s n s') : LocalInvariant.Driven Generator.FitsRole s' :=
  hr.invariant h fun _ _ => Generator.fitsRole_invariant.step

/-- A generator that ended by an error hands a refusal to the one that waits for it. -/
theorem handOver_told (E : Engine H F S) {e : GeneratorError}
    (h : LocalInvariant.Driven Generator.FitsRole (w, d)) (hfocus : d.focus = .settled (.error e))
    (link : Link F) (ls : List (Link F)) :
    ∃ e', handOver E w d.current (.error e) link ls =
      told E (w.unlock d.current) ⟨link.generator, link.resend, .settled (.error e), ls⟩ e'
        link.wait := by
  obtain ⟨x, hx, -⟩ := h.1.current
  have hrole := h.2 _ x hx
  simp only [role_current, hfocus] at hrole
  obtain ⟨-, hreturn, herror⟩ := hrole
  refine ⟨.sourceFailed x.function.name e.message, ?_⟩
  simp only [handOver, hx, Option.map_some, Generator.outcome, hreturn, herror, Option.getD_some]
  cases link.wait with
  | paused => rfl
  | inBody frame => rfl

/-- The error of the generator in turn ends those that wait for it, as far as they pass it on. -/
theorem collapse {cycle rest : List (Link F)} {e : GeneratorError}
    (h : LocalInvariant.Driven Generator.FitsRole s) (hfocus : s.2.focus = .settled (.error e))
    (hw : s.2.waiting = cycle ++ rest) (hp : ∀ link ∈ cycle, link.wait.Passes E) :
    ∃ n s', Reaches (step E) s n s' ∧ s'.2.waiting = rest ∧
      ∀ g ∈ cycle.map Link.generator, s'.1.Failed g := by
  induction cycle generalizing s e with
  | nil => exact ⟨0, s, .refl s, hw, nofun⟩
  | cons link cycle ih =>
    obtain ⟨w, d⟩ := s
    simp only at hfocus hw
    rw [List.cons_append] at hw
    have hdone : d.Done (.error e) := ⟨hfocus, fun _ _ _ => nofun⟩
    obtain ⟨e', htold⟩ := handOver_told E h hfocus link (cycle ++ rest)
    obtain ⟨n, s₁, hr₁, hends⟩ := told_ends (E := E) (w := w.unlock d.current)
      (d := ⟨link.generator, link.resend, .settled (.error e), cycle ++ rest⟩) (e := e')
      (hp link List.mem_cons_self)
    have hreach : Reaches (step E) (w, d) (n + 1) s₁ :=
      .next (step_handOver hdone hw) (htold ▸ hr₁)
    have hdriven := driven_reaches h hreach
    obtain ⟨k, s₂, hr₂, hrest, hfailed⟩ := ih hdriven (by rw [hends.drive]) (by rw [hends.drive])
      fun l hl => hp l (List.mem_cons_of_mem _ hl)
    refine ⟨n + 1 + k, s₂, hreach.trans hr₂, hrest, ?_⟩
    intro g hg
    rcases List.mem_cons.mp hg with rfl | hg
    · have hlink : s₁.1.Failed link.generator := hends.failed (h.1.tail hw _)
      exact failed_reaches hdriven hlink hr₂
    · exact hfailed g hg

/-- A refused generator and those that wait for it, as far as they pass the refusal on, end by an error. -/
theorem rejected_collapse {wait : Wait F} {cycle rest : List (Link F)}
    (h : LocalInvariant.Driven Generator.FitsRole s) (hrejected : wait.Passes E → Rejected E s wait)
    (hw : ⟨s.2.current, s.2.resend, wait⟩ :: s.2.waiting = cycle ++ rest) (hne : cycle ≠ [])
    (hp : ∀ link ∈ cycle, link.wait.Passes E) :
    ∃ n s', Reaches (step E) s n s' ∧ s'.2.waiting = rest ∧
      ∀ g ∈ cycle.map Link.generator, s'.1.Failed g := by
  cases cycle with
  | nil => exact absurd rfl hne
  | cons link cycle =>
    obtain ⟨rfl, hwaiting⟩ := List.cons.inj hw
    obtain ⟨n, s₁, hr₁, hends⟩ := hrejected (hp _ List.mem_cons_self)
    have hdriven := driven_reaches h hr₁
    obtain ⟨k, s₂, hr₂, hrest, hfailed⟩ := collapse hdriven (by rw [hends.drive])
      (by rw [hends.drive]; exact hwaiting) fun l hl => hp l (List.mem_cons_of_mem _ hl)
    refine ⟨n + k, s₂, hr₁.trans hr₂, hrest, ?_⟩
    intro g hg
    rcases List.mem_cons.mp hg with rfl | hg
    · exact failed_reaches hdriven (hends.failed h.1) hr₂
    · exact hfailed g hg

theorem failed_ends {g : GeneratorId} {r : Result H F S}
    (h : LocalInvariant.Driven Generator.FitsRole s) (hg : s.1.Failed g)
    (he : Ends (step E) s r) : r.1.Failed g := by
  obtain ⟨n, t, hreach, ht⟩ := he.reaches
  obtain ⟨x, e, hx, hf, herror⟩ := failed_reaches h hg hreach
  obtain ⟨-, -, hr⟩ := halt_cases ht
  by_cases hgc : g = t.2.current
  · subst hgc
    exact ⟨x.setLock false, e, by rw [hr, World.generator?_unlock_self, hx]; rfl, hf, herror⟩
  · exact ⟨x, e, by rw [hr, World.generator?_unlock_of_ne hgc, hx], hf, herror⟩

end Drive

/-- Whether a body that waits so catches a refusal. A script that has just tried to delegate does: it notes the answer
and goes on. A yield from, of the machine or of a script, does not. -/
def Session.catches : Wait (Execution ⊕ Script.Frame) → Bool
  | .inBody (.inr x) =>
    match Script.lastCue? x with
    | some (.attempt _) => true
    | _ => false
  | _ => false

theorem Session.passes (s : Session) {wait : Wait (Execution ⊕ Script.Frame)}
    (h : catches wait = false) : wait.Passes s.engine := by
  match wait with
  | .paused => trivial
  | .inBody (.inl x) => exact fun _ _ _ => rfl
  | .inBody (.inr x) =>
    intro heap state e
    rw [catches] at h
    split at h
    · cases h
    · next hcue =>
      have hstep : Script.step state.2 x (.refused e) = (state.2, .fail (.delegation e)) := by
        rw [Script.step]
        split
        · next hattempt => exact absurd hattempt (hcue _)
        · rfl
      simp only [Session.engine, Engine.sum, Script.engine, hstep]
      rfl

/-- A call on a generator of a session, whatever the generators and cells of the session name and whatever
others have locked. At every moment `u` of its drive, the chain is of distinct generators that the drive has
locked, and those that were locked before are not among them and as they were. If the generator in turn
delegates to one that is locked, it is refused: it ends as the delegate of a running generator, unless its
body catches the refusal. If the drive comes back to a generator `c` of its own chain and no body on the circle
catches the refusal, all generators of the circle end by an error. Where the call returns, just what was locked
before it is locked, and as it was. -/
theorem reentrancy_safe (s : Session) (hrest : LocalInvariant.Resting Generator.FitsRole s.world)
    {g : GeneratorId} {input : Input} {n : Nat}
    {t u : Drive.State (Nat ⊕ Unit) (Execution ⊕ Script.Frame) (Output × Script.Tally)}
    (hopen : s.world.open? g input = some t) (hreach : Reaches (Drive.step s.engine) t n u) :
    Drive.Guards s.world u ∧
    (∀ wait c, Drive.Seeks s.engine u wait c → (c ∈ u.2.chain ∨ ∃ x, s.world.Locked c x) →
      (∀ frame, wait = .inBody frame → Drive.Answered s.engine u frame) ∧
      (Session.catches wait = false → Drive.Rejected s.engine u wait) ∧
      ∀ circle rest, ⟨u.2.current, u.2.resend, wait⟩ :: u.2.waiting = circle ++ rest →
        (circle.map Link.generator).getLast? = some c →
        (∀ link ∈ circle, Session.catches link.wait = false) →
        (∃ k v, Reaches (Drive.step s.engine) u k v ∧ v.2.waiting = rest ∧
          ∀ o ∈ circle.map Link.generator, v.1.Failed o) ∧
        ∀ r, Ends (Drive.step s.engine) t r → ∀ o ∈ circle.map Link.generator, r.1.Failed o) ∧
    ∀ r, Ends (Drive.step s.engine) t r → ∀ l x, r.1.Locked l x ↔ s.world.Locked l x := by
  have hguards := Drive.guards_reaches hopen hreach
  have hdriven := Generator.fitsRole_invariant.reaches hrest hopen hreach
  refine ⟨hguards, ?_, fun r he => Drive.guards_ends hopen he⟩
  intro wait c hseeks hc
  obtain ⟨x, hx⟩ : ∃ x, u.1.Locked c x := by
    rcases hc with hmem | ⟨x, hx⟩
    · exact hguards.holds c hmem
    · exact ⟨x, ((hguards.aside c x).mp hx).1⟩
  obtain ⟨hanswered, hrejected⟩ := Drive.seeks_locked hseeks hx
  refine ⟨hanswered, fun hcatch => hrejected (s.passes hcatch), ?_⟩
  intro circle rest hlinks hlast hcatch
  have hne : circle ≠ [] := by
    rintro rfl
    cases hlast
  obtain ⟨k, v, hr, hwaiting, hfailed⟩ := Drive.rejected_collapse hdriven hrejected hlinks hne
    fun link hlink => s.passes (hcatch link hlink)
  refine ⟨⟨k, v, hr, hwaiting, hfailed⟩, fun r he o ho => ?_⟩
  exact Drive.failed_ends (Drive.driven_reaches hdriven hr) (hfailed o ho)
    ((hreach.trans hr).ends_iff.mp he)

/-- A generator that delegates to the one in a cell, which is itself, while another is locked. -/
theorem reentrancy_safe_of_ouroboros :
    ∃ (s : Session) (t u : Drive.State _ _ _) (wait : Wait _) (y : Generator _ _),
      s.world.open? 0 .next = some t ∧ s.world.Locked 1 y ∧
        Reaches (Drive.step s.engine) t 2 u ∧ Drive.Seeks s.engine u wait 0 ∧
        Drive.Guards s.world u ∧ Drive.Rejected s.engine u wait ∧
        ∃ k v, Reaches (Drive.step s.engine) u k v ∧ v.1.Failed 0 := by
  let f : Function := ⟨"ouroboros", 1, 0, #[.loadArg 0, .yieldFrom]⟩
  let y : Generator (Nat ⊕ Unit) (Execution ⊕ Script.Frame) := (Generator.fresh (.inl 0) f []).setLock true
  let s : Session := ⟨⟨.empty, .standard⟩, ∅,
    ⟨⟨#[.generator 0], 0⟩, (.silent, .empty), #[.fresh (.inl 0) f [.reference 0], y]⟩⟩
  have hrest : LocalInvariant.Resting Generator.FitsRole s.world := by
    intro g x hx
    match g with
    | 0 =>
      obtain rfl := Option.some.inj hx
      exact Generator.fitsRole_invariant.fresh ..
    | 1 =>
      obtain rfl := Option.some.inj hx
      exact (Generator.fitsRole_invariant.fresh ..).setLock true
    | g + 2 => simp [s, World.generator?] at hx
  obtain ⟨u, wait, hreach, hseeks, hchain, hpasses⟩ : ∃ u wait,
      Reaches (Drive.step s.engine) (s.world.lock 0, ⟨0, none, .enter none, []⟩) 2 u ∧
        Drive.Seeks s.engine u wait 0 ∧ (u.2.current = 0 ∧ u.2.waiting = []) ∧
        Session.catches wait = false :=
    ⟨_, _, .next rfl (.next rfl (.refl _)), .inBody rfl rfl rfl, ⟨rfl, rfl⟩, rfl⟩
  have hopen : s.world.open? 0 .next = some (s.world.lock 0, ⟨0, none, .enter none, []⟩) := rfl
  obtain ⟨hguards, hlocked, -⟩ := reentrancy_safe s hrest hopen hreach
  obtain ⟨-, hrejected, hcircle⟩ := hlocked wait 0 hseeks (.inl (by simp [Drive.chain, hchain]))
  obtain ⟨⟨k, v, hr, -, hfailed⟩, -⟩ := hcircle [⟨u.2.current, u.2.resend, wait⟩] []
    (by simp [hchain]) (by simp [hchain]) (by simpa using hpasses)
  exact ⟨s, _, u, wait, y, hopen, ⟨rfl, rfl⟩, hreach, hseeks, hguards, hrejected hpasses,
    k, v, hr, hfailed 0 (by simp [hchain])⟩

/-- A script that tries to delegate to itself catches the refusal: its drive runs into a circle, and yet the
call produces a pair and leaves no error. -/
theorem reentrancy_caught_by_attempt :
    ∃ (s : Session) (t u : Drive.State _ _ _) (wait : Wait _) (n : Nat),
      LocalInvariant.Resting Generator.FitsRole s.world ∧ s.world.open? 0 .next = some t ∧
        Reaches (Drive.step s.engine) t n u ∧ Drive.Seeks s.engine u wait 0 ∧ 0 ∈ u.2.chain ∧
        ∃ r x, Ends (Drive.step s.engine) t r ∧ World.produced r.2 = true ∧
          r.1.generator? 0 = some x ∧ x.isFinished = false ∧ x.lastError = none := by
  let body : Array Cue := #[.attempt (.reference 0), .yieldPair (.int 1) (.int 2)]
  let s : Session := ⟨⟨.empty, .standard⟩, Std.TreeMap.empty.insert "selfish" body,
    ⟨⟨#[.generator 0], 0⟩, (.silent, .empty), #[.fresh (.inr ()) ⟨"selfish", 0, 0, #[]⟩ []]⟩⟩
  have hrest : LocalInvariant.Resting Generator.FitsRole s.world := by
    intro g x hx
    match g with
    | 0 =>
      obtain rfl := Option.some.inj hx
      exact Generator.fitsRole_invariant.fresh ..
    | g + 1 => simp [s, World.generator?] at hx
  have hbody : s.scripts.body "selfish" = body := by simp [s, Scripts.body]
  let tally : Script.Tally := { s.tally with contexts := 1 }
  let w := { s.world.lock 0 with state := (s.output, tally) }.modify 0 (·.begin)
  have hstart : Drive.step s.engine (s.world.lock 0, ⟨0, none, .enter none, []⟩) =
      .next (w, ⟨0, none, .body (.inr ⟨body, [], 0⟩) .proceed, []⟩) := by
    rw [← hbody]
    rfl
  obtain ⟨r, x, hends, hproduced, hx, hf, he⟩ : ∃ r x,
      Ends (Drive.step s.engine) (w, ⟨0, none, .body (.inr ⟨body, [], 0⟩) .proceed, []⟩) r ∧
        World.produced r.2 = true ∧ r.1.generator? 0 = some x ∧ x.isFinished = false ∧
        x.lastError = none :=
    ⟨_, _, ends_of_run (n := 6) rfl, rfl, rfl, rfl, rfl⟩
  exact ⟨s, _, _, _, 1, hrest, rfl, .single hstart, .inBody rfl rfl rfl, List.mem_cons_self, r, x,
    .next hstart hends, hproduced, hx, hf, he⟩

end YieldMachine
