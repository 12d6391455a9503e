import YieldMachine.Proofs.Drive.Erasure
import YieldMachine.Proofs.History.Account
import YieldMachine.World.Reclaim

/-!
The history of a run. A run makes generators, calls, closes and drops them in any order (`Moment.Next`); each
step of a call is a moment of its own. The history notes what happened, each event with its generator. At every
moment of a run the events of a generator have led it to where it stands (`Moment.kept`). Operations and
reclaiming are parts of runs (`later_operate`, `later_reclaim`).
-/

namespace YieldMachine

variable {H F S : Type}

/-- The world with an empty log. -/
def World.logged (w : World H F S) : World H F (S × List (Event F)) :=
  ⟨w.heap, (w.state, []), w.generators⟩

abbrev History (F : Type) := List (GeneratorId × Event F)

/-- What happened to one generator. -/
def History.of (history : History F) (g : GeneratorId) : List (Event F) :=
  history.filterMap fun entry => if entry.1 = g then some entry.2 else none

namespace Drive

/-- What happens in the next step. -/
def events (E : Engine H F S) (s : State H F S) : History F :=
  match step E.recorded (s.1.logged, s.2) with
  | .next (w', d') => (w'.state.2 ++ d'.focus.brokenOff).map (actor s.2 d', ·)
  | .halt _ => []

end Drive

namespace World

/-- What happens when a generator is closed. -/
def closing (E : Engine H F S) (w : World H F S) (g : GeneratorId) : List (Event F) :=
  (w.logged.close E.recorded g).state.2 ++
    if (w.generator? g).any fun x => !x.isFinished then [.closed] else []

/-- What happens when a generator is dropped. -/
def dropping (E : Engine H F S) (w : World H F S) (g : GeneratorId) : List (Event F) :=
  (w.logged.drop E.recorded g).state.2

end World

/-- A moment of a run: the world, the drive under way if there is one, what has happened, and the generators
that were dropped. -/
structure Moment (H F S : Type) where
  world : World H F S
  drive : Option (Drive F)
  history : History F
  gone : List GeneratorId

namespace Moment

/-- The generators that someone is driving. -/
def chain (m : Moment H F S) : List GeneratorId :=
  match m.drive with
  | some d => d.chain
  | none => []

/-- One step of a run. Nothing names a generator that was dropped, so nobody turns to it again. -/
inductive Next (E : Engine H F S) : Moment H F S → Moment H F S → Prop where
  | create {w : World H F S} {history : History F} {gone : List GeneratorId} (handle : H)
      (f : Function) (args : List Value) :
      Next E ⟨w, none, history, gone⟩ ⟨(w.create handle f args).2, none, history, gone⟩
  | call {w w' : World H F S} {d : Drive F} {history : History F} {gone : List GeneratorId}
      {g : GeneratorId} {input : Input} (hg : g ∉ gone) (hs : w.open? g input = some (w', d)) :
      Next E ⟨w, none, history, gone⟩ ⟨w', some d, history, gone⟩
  | step {w w' : World H F S} {d d' : Drive F} {history : History F} {gone : List GeneratorId}
      (hs : Drive.step E (w, d) = .next (w', d')) (hg : d'.current ∉ gone) :
      Next E ⟨w, some d, history, gone⟩ ⟨w', some d', history ++ Drive.events E (w, d), gone⟩
  | halt {w w' : World H F S} {d : Drive F} {history : History F} {gone : List GeneratorId}
      {r : Except GeneratorError Bool} (hs : Drive.step E (w, d) = .halt (w', r)) :
      Next E ⟨w, some d, history, gone⟩ ⟨w', none, history, gone⟩
  | close {w : World H F S} {history : History F} {gone : List GeneratorId} {g : GeneratorId}
      (hg : g ∉ gone) :
      Next E ⟨w, none, history, gone⟩ ⟨w.close E g, none, history ++ (w.closing E g).map (g, ·), gone⟩
  | drop {m : Moment H F S} {g : GeneratorId} (hg : g ∉ m.gone) (hfree : g ∉ m.chain) :
      Next E m ⟨m.world.drop E g, m.drive, m.history ++ (m.world.dropping E g).map (g, ·), g :: m.gone⟩
  | setLock {w : World H F S} {history : History F} {gone : List GeneratorId} (g : GeneratorId)
      (b : Bool) :
      Next E ⟨w, none, history, gone⟩ ⟨w.modify g (·.setLock b), none, history, gone⟩
  | elsewhere {w : World H F S} {history : History F} {gone : List GeneratorId} (heap : Heap)
      (state : S) :
      Next E ⟨w, none, history, gone⟩ ⟨{ w with heap := heap, state := state }, none, history, gone⟩

/-- Steps of the run lead from the first moment to the second. -/
inductive Later (E : Engine H F S) : Moment H F S → Moment H F S → Prop where
  | refl (m : Moment H F S) : Later E m m
  | next {m m₁ m₂ : Moment H F S} (h : Later E m m₁) (n : Next E m₁ m₂) : Later E m m₂

/-- The moments of runs that begin without generators. -/
def Run (E : Engine H F S) (m : Moment H F S) : Prop :=
  ∃ heap state, Later E ⟨⟨heap, state, #[]⟩, none, [], []⟩ m

end Moment

/-! ### What holds at every moment -/

namespace History

theorem of_append (history events : History F) (g : GeneratorId) :
    (history ++ events).of g = history.of g ++ events.of g :=
  List.filterMap_append

theorem of_map_self (g : GeneratorId) (events : List (Event F)) :
    History.of (events.map (g, ·)) g = events := by
  have hself : (fun entry : GeneratorId × Event F => if entry.1 = g then some entry.2 else none) ∘
      (g, ·) = some := funext fun _ => if_pos rfl
  unfold History.of
  rw [List.filterMap_map, hself, List.filterMap_some]

theorem of_map_of_ne {g g' : GeneratorId} (h : g' ≠ g) (events : List (Event F)) :
    History.of (events.map (g, ·)) g' = [] := by
  unfold History.of
  rw [List.filterMap_map, List.filterMap_eq_nil_iff]
  intro e _
  exact if_neg (Ne.symm h)

end History

namespace World

variable {E : Engine H F S} {w : World H F S} {g g' : GeneratorId} {x : Generator H F}

@[simp] theorem generator?_logged (w : World H F S) (g : GeneratorId) :
    w.logged.generator? g = w.generator? g := rfl

@[simp] theorem log_logged (w : World H F S) : w.logged.state.2 = [] := rfl

theorem close_unfinished (hx : w.generator? g = some x) (hf : x.isFinished = false) :
    w.close E g = w.finish E g ∧
      w.closing E g = x.frame.toList.map .discarded ++ [.closed] := by
  have hlogged : w.logged.generator? g = some x := hx
  constructor
  · simp [close, hx, hf]
  · have hlog : (w.logged.finish E.recorded g).state.2 = x.frame.toList.map .discarded := by
      rw [finish_eq_replace E.recorded hlogged, replace_state, Drive.giveUp_log]
      rfl
    simp [closing, close, hlog, hx, hf]

/-- Closing a generator that is finished, or not there, does nothing. -/
theorem close_idle (h : ∀ x, w.generator? g = some x → x.isFinished = true) :
    w.close E g = w ∧ w.closing E g = [] := by
  cases hx : w.generator? g with
  | none => simp [close, closing, hx]
  | some x => simp [close, closing, hx, h x hx]

theorem generator?_close_of_ne (h : g' ≠ g) : (w.close E g).generator? g' = w.generator? g' := by
  unfold close
  split
  · split
    · rfl
    · exact generator?_finish_of_ne E h
  · rfl

theorem drop_some (hx : w.generator? g = some x) :
    (w.drop E g).generator? g = some { x with frame := none } ∧
      w.dropping E g = x.frame.toList.map .discarded := by
  cases hframe : x.frame with
  | none =>
    rw [Generator.without_frame hframe]
    simp [drop, dropping, hx, hframe]
  | some frame =>
    constructor
    · simp [drop, hx, hframe]
    · simp [drop, dropping, hx, hframe, modify, Engine.recorded]

theorem drop_none (hx : w.generator? g = none) : w.drop E g = w ∧ w.dropping E g = [] := by
  simp [drop, dropping, hx]

theorem generator?_drop_of_ne (h : g' ≠ g) : (w.drop E g).generator? g' = w.generator? g' := by
  unfold drop
  split
  · exact generator?_modify_of_ne h _
  · rfl

end World

theorem Engine.recorded_erases (E : Engine H F S) : E.recorded.Erases E Prod.fst where
  start _ _ _ _ := rfl
  step _ _ _ _ := rfl
  discard _ _ := rfl

namespace Drive

variable {E : Engine H F S} {w w' : World H F S} {d d' : Drive F}

theorem role_turnTo_nil (x : Generator H F) (g : GeneratorId) (sent : Option Value)
    (g' : GeneratorId) : (turnTo x g sent []).role g' = .idle := by
  unfold role
  rw [turnTo_waiting, turnTo_role]
  split <;> rfl

/-- A step with its log. -/
theorem step_recorded (h : step E (w, d) = .next (w', d')) :
    ∃ w₁ : World H F (S × List (Event F)), step E.recorded (w.logged, d) = .next (w₁, d') ∧
      (∀ g, w₁.generator? g = w'.generator? g) ∧
      events E (w, d) = (w₁.state.2 ++ d'.focus.brokenOff).map (actor d d', ·) := by
  have herase : step E (w, d) = _ := step_erase E.recorded_erases (w.logged, d)
  cases hs : step E.recorded (w.logged, d) with
  | halt r =>
    rw [hs, h] at herase
    cases herase
  | next s' =>
    rw [hs, h] at herase
    obtain ⟨rfl, rfl⟩ := Prod.mk.inj (Transition.next.inj herase)
    refine ⟨s'.1, rfl, fun _ => rfl, ?_⟩
    rw [events, hs]

end Drive

namespace Moment

def role (m : Moment H F S) (g : GeneratorId) : Role :=
  match m.drive with
  | some d => d.role g
  | none => .idle

def position (m : Moment H F S) (g : GeneratorId) : Drive.Position F :=
  match m.drive with
  | some d => d.position g
  | none => .outside

/-- What every moment of a run has. -/
structure Kept (m : Moment H F S) : Prop where
  chained : ∀ d, m.drive = some d → d.Chained m.world
  spared : ∀ g ∈ m.gone, g ∉ m.chain
  fits : ∀ g x, m.world.generator? g = some x → g ∉ m.gone → x.FitsRole (m.role g)
  bare : ∀ g x, m.world.generator? g = some x → g ∈ m.gone → x.frame = none
  course : ∀ g x, m.world.generator? g = some x →
    Account.Leads .unopened (m.history.of g) ((m.position g).account x)
  absent : ∀ g, m.world.generator? g = none → m.history.of g = []

variable {E : Engine H F S} {m m' : Moment H F S} {w w' : World H F S} {d d' : Drive F}
  {history : History F} {gone : List GeneratorId} {g : GeneratorId} {x : Generator H F}

theorem role_of_not_mem (h : g ∉ m.chain) : m.role g = .idle := by
  unfold role
  unfold chain at h
  split
  · next d hd =>
    rw [hd] at h
    exact Drive.role_of_not_mem h
  · rfl

theorem position_of_not_mem (h : g ∉ m.chain) : m.position g = .outside := by
  unfold position
  unfold chain at h
  split
  · next d hd =>
    rw [hd] at h
    exact Drive.position_of_not_mem h
  · rfl

theorem chained_of_none (h : m.drive = none) : ∀ d, m.drive = some d → d.Chained m.world := by
  intro d hd
  rw [h] at hd
  cases hd

/-- A new generator has no history yet. -/
theorem Kept.create (h : Kept ⟨w, none, history, gone⟩) (handle : H) (f : Function)
    (args : List Value) : Kept ⟨(w.create handle f args).2, none, history, gone⟩ where
  chained := chained_of_none rfl
  spared _ _ := List.not_mem_nil
  fits g x hx hg := by
    rw [World.generator?_create] at hx
    split at hx
    · obtain rfl := Option.some.inj hx
      exact Generator.fitsRole_invariant.fresh handle f args
    · exact h.fits g x hx hg
  bare g x hx hg := by
    rw [World.generator?_create] at hx
    split at hx
    · obtain rfl := Option.some.inj hx
      rfl
    · exact h.bare g x hx hg
  course g x hx := by
    rw [World.generator?_create] at hx
    split at hx
    · next hg =>
      obtain rfl := Option.some.inj hx
      have hnew : history.of g = [] := h.absent g (hg ▸ w.generator?_size)
      show Account.Leads .unopened (history.of g) .unopened
      rw [hnew]
      exact .refl _
    · exact h.course g x hx
  absent g hg := by
    rw [World.generator?_create] at hg
    split at hg
    · cases hg
    · exact h.absent g hg

/-- `events` take a generator that nobody drives from `x` to `x'`. -/
structure Touches (gone : List GeneratorId) (g : GeneratorId) (events : List (Event F))
    (x x' : Generator H F) : Prop where
  fits : g ∉ gone → x'.FitsRole .idle
  bare : g ∈ gone → x'.frame = none
  leads : Account.Leads x.account events x'.account

/-- What happens to a generator that nobody drives does not matter to the drive. -/
theorem chained_apart (h : ∀ d, m.drive = some d → d.Chained m.world) (hfree : g ∉ m.chain)
    (hothers : ∀ g', g' ≠ g → w'.generator? g' = m.world.generator? g') :
    ∀ d, m.drive = some d → d.Chained w' := by
  intro d hd
  have hc := h d hd
  have hsame (g' : GeneratorId) (hg' : g' ∈ d.chain) : w'.generator? g' = m.world.generator? g' := by
    refine hothers g' fun he => hfree ?_
    unfold chain
    rw [hd, ← he]
    exact hg'
  refine ⟨hc.nodup, ?_, ?_⟩
  · intro g' hg'
    rw [hsame g' hg']
    exact hc.locked g' hg'
  · intro l hl hp
    rw [hsame _ (List.mem_cons_of_mem _ (List.mem_map_of_mem hl))]
    exact hc.paused l hl hp

/-- Something happens to one generator, which nobody drives. -/
theorem Kept.touch {events : List (Event F)} (h : Kept m) (hfree : g ∉ m.chain)
    (hothers : ∀ g', g' ≠ g → w'.generator? g' = m.world.generator? g')
    (hgone : ∀ g', g' ≠ g → (g' ∈ gone ↔ g' ∈ m.gone))
    (hnone : m.world.generator? g = none → w'.generator? g = none ∧ events = [])
    (hsome : ∀ x, m.world.generator? g = some x →
      ∃ x', w'.generator? g = some x' ∧ Touches gone g events x x') :
    Kept ⟨w', m.drive, m.history ++ events.map (g, ·), gone⟩ := by
  have hself (x' : Generator H F) (hx' : w'.generator? g = some x') :
      ∃ x, m.world.generator? g = some x ∧ Touches gone g events x x' := by
    cases hx : m.world.generator? g with
    | none =>
      rw [(hnone hx).1] at hx'
      cases hx'
    | some x =>
      obtain ⟨y, hy, htouch⟩ := hsome x hx
      obtain rfl : y = x' := Option.some.inj (hy.symm.trans hx')
      exact ⟨x, rfl, htouch⟩
  constructor
  · exact chained_apart (m := m) h.chained hfree hothers
  · intro g' hg'
    by_cases he : g' = g
    · exact he ▸ hfree
    · exact h.spared g' ((hgone g' he).mp hg')
  · intro g' x' hx' hg'
    by_cases he : g' = g
    · subst he
      obtain ⟨x, -, htouch⟩ := hself x' hx'
      show x'.FitsRole (m.role g')
      rw [role_of_not_mem hfree]
      exact htouch.fits hg'
    · exact h.fits g' x' ((hothers g' he).symm.trans hx') fun hmem => hg' ((hgone g' he).mpr hmem)
  · intro g' x' hx' hg'
    by_cases he : g' = g
    · subst he
      obtain ⟨x, -, htouch⟩ := hself x' hx'
      exact htouch.bare hg'
    · exact h.bare g' x' ((hothers g' he).symm.trans hx') ((hgone g' he).mp hg')
  · intro g' x' hx'
    show Account.Leads .unopened ((m.history ++ events.map (g, ·)).of g') ((m.position g').account x')
    rw [History.of_append]
    by_cases he : g' = g
    · subst he
      obtain ⟨x, hx, htouch⟩ := hself x' hx'
      have hcourse := h.course g' x hx
      rw [position_of_not_mem hfree] at hcourse ⊢
      rw [History.of_map_self]
      exact hcourse.trans htouch.leads
    · rw [History.of_map_of_ne he, List.append_nil]
      exact h.course g' x' ((hothers g' he).symm.trans hx')
  · intro g' hg'
    show (m.history ++ events.map (g, ·)).of g' = []
    rw [History.of_append]
    by_cases he : g' = g
    · subst he
      cases hx : m.world.generator? g' with
      | none =>
        rw [(hnone hx).2, h.absent g' hx]
        rfl
      | some x =>
        obtain ⟨x', hx', -⟩ := hsome x hx
        rw [hg'] at hx'
        cases hx'
    · rw [History.of_map_of_ne he, List.append_nil]
      exact h.absent g' ((hothers g' he).symm.trans hg')

theorem Kept.setLock (h : Kept ⟨w, none, history, gone⟩) (g : GeneratorId) (b : Bool) :
    Kept ⟨w.modify g (·.setLock b), none, history, gone⟩ := by
  have hkept : Kept ⟨w.modify g (·.setLock b), none, history ++ [].map (g, ·), gone⟩ := by
    refine h.touch List.not_mem_nil (fun g' hg' => World.generator?_modify_of_ne hg' _)
      (fun _ _ => Iff.rfl) ?_ ?_
    · intro hnone
      refine ⟨?_, rfl⟩
      rw [World.generator?_modify_self]
      exact congrArg _ hnone
    · intro x hx
      refine ⟨x.setLock b, ?_, fun hg => (h.fits g x hx hg).setLock b, h.bare g x hx, .refl _⟩
      rw [World.generator?_modify_self]
      exact congrArg _ hx
  rwa [List.map_nil, List.append_nil] at hkept

theorem Kept.elsewhere (h : Kept ⟨w, none, history, gone⟩) (heap : Heap) (state : S) :
    Kept ⟨{ w with heap := heap, state := state }, none, history, gone⟩ :=
  ⟨chained_of_none rfl, h.spared, h.fits, h.bare, h.course, h.absent⟩

theorem Kept.close (h : Kept ⟨w, none, history, gone⟩) (hg : g ∉ gone) :
    Kept ⟨w.close E g, none, history ++ (w.closing E g).map (g, ·), gone⟩ := by
  refine h.touch List.not_mem_nil (fun g' hg' => World.generator?_close_of_ne hg')
    (fun _ _ => Iff.rfl) ?_ ?_
  · intro hnone
    obtain ⟨hclose, hclosing⟩ := World.close_idle (E := E) (w := w) (g := g) fun x hx => by
      rw [hnone] at hx
      cases hx
    exact ⟨hclose.symm ▸ hnone, hclosing⟩
  · intro x hx
    have hfits := h.fits g x hx hg
    cases hf : x.isFinished with
    | true =>
      obtain ⟨hclose, hclosing⟩ := World.close_idle (E := E) (w := w) (g := g) fun y hy => by
        rw [hx] at hy
        exact Option.some.inj hy ▸ hf
      rw [hclose, hclosing]
      exact ⟨x, hx, fun _ => hfits, fun hmem => absurd hmem hg, .refl _⟩
    | false =>
      obtain ⟨hclose, hclosing⟩ := World.close_unfinished (E := E) hx hf
      rw [hclose, hclosing]
      refine ⟨x.terminate, by simp [show w.generator? g = some x from hx], ?_, fun _ => rfl, ?_⟩
      · intro _
        exact Generator.fitsRole_invariant.move (.close hf) hfits
      · exact hfits.terminated hf

theorem Kept.drop (h : Kept m) (hg : g ∉ m.gone) (hfree : g ∉ m.chain) :
    Kept ⟨m.world.drop E g, m.drive, m.history ++ (m.world.dropping E g).map (g, ·), g :: m.gone⟩ := by
  refine h.touch hfree (fun g' hg' => World.generator?_drop_of_ne hg') ?_ ?_ ?_
  · intro g' hg'
    simp [hg']
  · intro hnone
    obtain ⟨hdrop, hdropping⟩ := World.drop_none (E := E) hnone
    exact ⟨hdrop.symm ▸ hnone, hdropping⟩
  · intro x hx
    obtain ⟨hdrop, hdropping⟩ := World.drop_some (E := E) hx
    have hfits := h.fits g x hx hg
    rw [role_of_not_mem hfree] at hfits
    rw [hdropping]
    exact ⟨_, hdrop, fun hmem => absurd List.mem_cons_self hmem, fun _ => rfl, hfits.bereaved⟩

/-- A call turns to a generator that nobody drives. -/
theorem Kept.call {input : Input} (h : Kept ⟨w, none, history, gone⟩) (hg : g ∉ gone)
    (hs : w.open? g input = some (w', d)) : Kept ⟨w', some d, history, gone⟩ := by
  obtain ⟨hc, hchain⟩ := World.open_chained hs
  obtain ⟨x, hx, -, heq⟩ := World.open_cases hs
  obtain ⟨rfl, rfl⟩ := Prod.mk.inj heq
  have hlocked := h.setLock g true
  have hposition (g' : GeneratorId) :
      (Drive.turnTo x g input.sent? []).position g' = .outside := by
    by_cases he : g' = g
    · rw [he, Drive.position_turnTo]
    · rw [Drive.position_turnTo_of_ne he]
      rfl
  constructor
  · intro d' hd'
    obtain rfl := Option.some.inj hd'
    exact hc
  · intro g' hg' hmem
    have hmem' : g' ∈ (Drive.turnTo x g input.sent? []).chain := hmem
    rw [show (Drive.turnTo x g input.sent? []).chain = [g] from hchain, List.mem_singleton] at hmem'
    exact hg (hmem' ▸ hg')
  · intro g' x' hx' hg'
    show x'.FitsRole ((Drive.turnTo x g input.sent? []).role g')
    rw [Drive.role_turnTo_nil]
    exact hlocked.fits g' x' hx' hg'
  · exact hlocked.bare
  · intro g' x' hx'
    show Account.Leads _ _ (((Drive.turnTo x g input.sent? []).position g').account x')
    rw [hposition]
    exact hlocked.course g' x' hx'
  · exact hlocked.absent

/-- A call returns. -/
theorem Kept.halt {r : Except GeneratorError Bool} (h : Kept ⟨w, some d, history, gone⟩)
    (hs : Drive.step E (w, d) = .halt (w', r)) : Kept ⟨w', none, history, gone⟩ := by
  obtain ⟨⟨hfocus, -⟩, hwaiting, rfl⟩ := Drive.halt_cases hs
  -- The generator in focus has settled, and nobody waits for it.
  simp only at hfocus hwaiting
  have hout {g' : GeneratorId} (hne : g' ≠ d.current) : g' ∉ d.chain := by
    simp [Drive.chain, hwaiting, hne]
  have hself {x' : Generator H F} (hx' : (w.unlock d.current).generator? d.current = some x') :
      ∃ x, w.generator? d.current = some x ∧ x' = x.setLock false := by
    rw [World.generator?_unlock_self] at hx'
    obtain ⟨x, hx, rfl⟩ := Option.map_eq_some_iff.mp hx'
    exact ⟨x, hx, rfl⟩
  constructor
  · exact chained_of_none rfl
  · exact fun _ _ => List.not_mem_nil
  · intro g x' hx' hg
    by_cases he : g = d.current
    · subst he
      obtain ⟨x, hx, rfl⟩ := hself hx'
      have hfits : x.FitsRole (d.role d.current) := h.fits _ x hx hg
      rw [Drive.role_current, hfocus] at hfits
      exact hfits.rest.setLock false
    · have hfits : x'.FitsRole (d.role g) :=
        h.fits g x' ((World.generator?_unlock_of_ne he).symm.trans hx') hg
      rwa [Drive.role_of_not_mem (hout he)] at hfits
  · intro g x' hx' hg
    by_cases he : g = d.current
    · subst he
      obtain ⟨x, hx, rfl⟩ := hself hx'
      exact h.bare _ x hx hg
    · exact h.bare g x' ((World.generator?_unlock_of_ne he).symm.trans hx') hg
  · intro g x' hx'
    by_cases he : g = d.current
    · subst he
      obtain ⟨x, hx, rfl⟩ := hself hx'
      have hcourse : Account.Leads _ _ ((d.position d.current).account x) := h.course _ x hx
      rwa [Drive.position_current, hfocus] at hcourse
    · have hcourse : Account.Leads _ _ ((d.position g).account x') :=
        h.course g x' ((World.generator?_unlock_of_ne he).symm.trans hx')
      rwa [Drive.position_of_not_mem (hout he)] at hcourse
  · intro g hg
    by_cases he : g = d.current
    · subst he
      rw [World.generator?_unlock_self] at hg
      exact h.absent _ (Option.map_eq_none_iff.mp hg)
    · exact h.absent g ((World.generator?_unlock_of_ne he).symm.trans hg)

theorem spared_step (hc : Drive.Chained w d) (hspared : ∀ g ∈ gone, g ∉ d.chain)
    (hs : Drive.step E (w, d) = .next (w', d')) (hcurrent : d'.current ∉ gone) :
    ∀ g ∈ gone, g ∉ d'.chain := by
  intro g hg hmem
  rcases (Drive.step_moves hc hs).2.chain with heq | ⟨c, -, heq, -⟩ | heq
  · exact hspared g hg (heq ▸ hmem)
  · have hc : d'.current = c := (List.cons.inj heq).1
    rw [heq] at hmem
    rcases List.mem_cons.mp hmem with rfl | hmem
    · exact hcurrent (hc ▸ hg)
    · exact hspared g hg hmem
  · exact hspared g hg (heq ▸ List.mem_cons_of_mem _ hmem)

/-- A step of a drive is noted of the generator that acts. -/
theorem Kept.step (h : Kept ⟨w, some d, history, gone⟩)
    (hs : Drive.step E (w, d) = .next (w', d')) (hcurrent : d'.current ∉ gone) :
    Kept ⟨w', some d', history ++ Drive.events E (w, d), gone⟩ := by
  have hc : d.Chained w := h.chained d rfl
  obtain ⟨hc', hmoves⟩ := Drive.step_moves hc hs
  have hspared := spared_step hc h.spared hs hcurrent
  obtain ⟨w₁, hs₁, hsame, hevents⟩ := Drive.step_recorded hs
  have hc₁ : d.Chained w.logged := ⟨hc.nodup, hc.locked, hc.paused⟩
  have hstride := Drive.step_strides hc₁ hs₁
  -- Whoever acts was not dropped.
  have hactor : Drive.actor d d' ∉ gone := by
    unfold Drive.actor
    split
    · exact hcurrent
    · exact fun hmem => h.spared _ hmem List.mem_cons_self
  obtain ⟨x₀, x₁, hx₀, hx₁, hleads⟩ :=
    hstride.actor_account hc₁ rfl fun x hx => h.fits _ x hx hactor
  constructor
  · intro d₁ hd₁
    obtain rfl := Option.some.inj hd₁
    exact hc'
  · exact hspared
  · intro g x' hx' hg
    cases hx : w.generator? g with
    | none =>
      obtain ⟨hrole, k, f, args, rfl⟩ := hmoves.new g x' hx hx'
      show Generator.FitsRole (d'.role g) _
      rw [hrole]
      exact Generator.fitsRole_invariant.fresh k f args
    | some x =>
      obtain ⟨y, hy, hm⟩ := hmoves.old g x hx
      obtain rfl : y = x' := Option.some.inj (hy.symm.trans hx')
      exact Generator.fitsRole_invariant.move hm (h.fits g x hx hg)
  · intro g x' hx' hg
    cases hx : w.generator? g with
    | none =>
      obtain ⟨-, k, f, args, rfl⟩ := hmoves.new g x' hx hx'
      rfl
    | some x =>
      obtain ⟨y, hy, hm⟩ := hmoves.old g x hx
      obtain rfl : y = x' := Option.some.inj (hy.symm.trans hx')
      have hbare := h.bare g x hx hg
      rw [Drive.role_of_not_mem (h.spared g hg), Drive.role_of_not_mem (hspared g hg)] at hm
      cases hm with
      | stay => exact hbare
      | lock _ b => exact hbare
      | close hf => rfl
  · intro g x' hx'
    show Account.Leads _ ((history ++ Drive.events E (w, d)).of g) ((d'.position g).account x')
    rw [History.of_append, hevents]
    by_cases he : g = Drive.actor d d'
    · subst he
      obtain rfl : x₁ = x' := by
        rw [hsame, hx'] at hx₁
        exact (Option.some.inj hx₁).symm
      rw [History.of_map_self]
      exact (h.course _ x₀ hx₀).trans hleads
    · rw [History.of_map_of_ne he, List.append_nil]
      rcases hstride.other_account hc₁ he ((hsame g).trans hx') with ⟨x, hx, heq⟩ | ⟨hnone, heq⟩
      · rw [heq]
        exact h.course g x hx
      · have hnew : history.of g = [] := h.absent g hnone
        rw [heq, hnew]
        exact .refl _
  · intro g hg
    show (history ++ Drive.events E (w, d)).of g = []
    have he : g ≠ Drive.actor d d' := by
      rintro rfl
      rw [hsame, hg] at hx₁
      cases hx₁
    rw [History.of_append, hevents, History.of_map_of_ne he, List.append_nil]
    cases hx : w.generator? g with
    | none => exact h.absent g hx
    | some x =>
      obtain ⟨y, hy, -⟩ := hmoves.old g x hx
      rw [hg] at hy
      cases hy

theorem Kept.next (h : Kept m) (n : Next E m m') : Kept m' := by
  cases n with
  | create handle f args => exact h.create handle f args
  | call hg hs => exact h.call hg hs
  | step hs hg => exact h.step hs hg
  | halt hs => exact h.halt hs
  | close hg => exact h.close hg
  | drop hg hfree => exact h.drop hg hfree
  | setLock g b => exact h.setLock g b
  | elsewhere heap state => exact h.elsewhere heap state

theorem Kept.later (h : Kept m) (hl : Later E m m') : Kept m' := by
  induction hl with
  | refl => exact h
  | next _ n ih => exact ih.next n

theorem Kept.origin (heap : Heap) (state : S) :
    Kept (⟨⟨heap, state, #[]⟩, none, [], []⟩ : Moment H F S) := by
  have hnone {g : GeneratorId} {x : Generator H F} :
      (⟨heap, state, #[]⟩ : World H F S).generator? g ≠ some x := by
    simp [World.generator?]
  constructor
  · exact chained_of_none rfl
  · exact fun _ _ => List.not_mem_nil
  · exact fun g x hx => absurd hx hnone
  · exact fun g x hx => absurd hx hnone
  · exact fun g x hx => absurd hx hnone
  · exact fun _ _ => rfl

/-- At every moment of a run, what happened to each generator has led it to where it stands. -/
theorem kept (h : m.Run E) : Kept m := by
  obtain ⟨heap, state, hl⟩ := h
  exact (Kept.origin heap state).later hl

/-- Between two calls, every generator that was not dropped is idle. -/
theorem Kept.idle (h : Kept m) (hrest : m.drive = none) (hx : m.world.generator? g = some x)
    (hg : g ∉ m.gone) : x.FitsRole .idle := by
  have hfits := h.fits g x hx hg
  unfold role at hfits
  rwa [hrest] at hfits

theorem Kept.courseAtRest (h : Kept m) (hrest : m.drive = none)
    (hx : m.world.generator? g = some x) :
    Account.Leads .unopened (m.history.of g) x.account := by
  have hcourse := h.course g x hx
  unfold position at hcourse
  rwa [hrest] at hcourse

/-! ### Operations are runs -/

theorem Later.trans {m₁ m₂ : Moment H F S} (h : Later E m m₁) (h' : Later E m₁ m₂) :
    Later E m m₂ := by
  induction h' with
  | refl => exact h
  | next _ n ih => exact .next ih n

theorem Later.single (n : Next E m m') : Later E m m' := .next (.refl m) n

theorem Run.later (h : m.Run E) (hl : Later E m m') : m'.Run E := by
  obtain ⟨heap, state, hm⟩ := h
  exact ⟨heap, state, hm.trans hl⟩

theorem later_reaches {s s' : Drive.State H F S} {n : Nat} (hr : Reaches (Drive.step E) s n s')
    (history : History F) :
    ∃ history', Later E ⟨s.1, some s.2, history, []⟩ ⟨s'.1, some s'.2, history', []⟩ := by
  induction hr generalizing history with
  | refl s => exact ⟨history, .refl _⟩
  | @next s t u n hs _ ih =>
    obtain ⟨history', hl⟩ := ih (history ++ Drive.events E s)
    exact ⟨history', (Later.single (.step hs List.not_mem_nil)).trans hl⟩

theorem later_advance {fuel : Nat} {input : Input} {r : Except GeneratorError Bool}
    (ha : w.advance E fuel g input = some (w', r)) (history : History F) :
    ∃ history', Later E ⟨w, none, history, []⟩ ⟨w', none, history', []⟩ := by
  obtain ⟨s, hs, hrun⟩ := Option.bind_eq_some_iff.mp ha
  obtain ⟨n, t, hreach, ht⟩ := (ends_of_run hrun).reaches
  obtain ⟨history', hl⟩ := later_reaches hreach history
  exact ⟨history', .next ((Later.single (.call List.not_mem_nil hs)).trans hl) (.halt ht)⟩

theorem later_mapPairs {α : Type} {f : World H F S → Value → Value → α} {fuel max : Nat}
    {as : List α} (ha : w.mapPairs E fuel f g max = some (as, w')) (history : History F) :
    ∃ history', Later E ⟨w, none, history, []⟩ ⟨w', none, history', []⟩ := by
  induction max generalizing w as history with
  | zero =>
    obtain ⟨-, rfl⟩ := Prod.mk.inj (Option.some.inj ha)
    exact ⟨history, .refl _⟩
  | succ max ih =>
    obtain ⟨⟨w₁, r⟩, hadvance, hrest⟩ := Option.bind_eq_some_iff.mp ha
    obtain ⟨history₁, hl₁⟩ := later_advance hadvance history
    simp only at hrest
    split at hrest
    · obtain ⟨⟨bs, w₂⟩, hpairs, heq⟩ := Option.map_eq_some_iff.mp hrest
      obtain ⟨-, rfl⟩ := Prod.mk.inj heq
      obtain ⟨history₂, hl₂⟩ := ih hpairs history₁
      exact ⟨history₂, hl₁.trans hl₂⟩
    · obtain ⟨-, rfl⟩ := Prod.mk.inj (Option.some.inj hrest)
      exact ⟨history₁, hl₁⟩

/-- Every operation is a part of a run. -/
theorem later_operate {fuel : Nat} {op : Operation H S} {a : Answer}
    (ho : w.operate E fuel op = some (a, w')) (history : History F) :
    ∃ history', Later E ⟨w, none, history, []⟩ ⟨w', none, history', []⟩ := by
  have hadvance (input : Input) (g : GeneratorId) (answer : Except GeneratorError Bool → Answer)
      (ho : (w.advance E fuel g input).map (fun p => (answer p.2, p.1)) = some (a, w')) :
      ∃ history', Later E ⟨w, none, history, []⟩ ⟨w', none, history', []⟩ := by
    obtain ⟨⟨w₁, r⟩, hw₁, heq⟩ := Option.map_eq_some_iff.mp ho
    obtain ⟨-, rfl⟩ := Prod.mk.inj heq
    exact later_advance hw₁ history
  cases op with
  | create handle f args =>
    obtain ⟨-, rfl⟩ := Prod.mk.inj (Option.some.inj ho)
    exact ⟨history, .single (.create handle f args)⟩
  | next g => exact hadvance .next g (fun r => .moved (World.produced r)) ho
  | tryNext g => exact hadvance .next g .tried ho
  | send g v => exact hadvance (.send v) g (fun r => .moved (World.produced r)) ho
  | trySend g v => exact hadvance (.send v) g .tried ho
  | close g =>
    obtain ⟨-, rfl⟩ := Prod.mk.inj (Option.some.inj ho)
    exact ⟨_, .single (.close List.not_mem_nil)⟩
  | rewind g =>
    obtain ⟨x, -, heq⟩ := Option.map_eq_some_iff.mp ho
    obtain ⟨-, rfl⟩ := Prod.mk.inj heq
    exact ⟨history, .refl _⟩
  | pairs g max =>
    obtain ⟨⟨ps, w₁⟩, hw₁, heq⟩ := Option.map_eq_some_iff.mp ho
    obtain ⟨-, rfl⟩ := Prod.mk.inj heq
    exact later_mapPairs hw₁ history
  | setLock g b =>
    obtain ⟨-, rfl⟩ := Prod.mk.inj (Option.some.inj ho)
    exact ⟨history, .single (.setLock g b)⟩
  | elsewhere heap state =>
    obtain ⟨-, rfl⟩ := Prod.mk.inj (Option.some.inj ho)
    exact ⟨history, .single (.elsewhere heap state)⟩

theorem run_of_reachable (hw : w.Reachable E) : ∃ history, Run E ⟨w, none, history, []⟩ := by
  obtain ⟨heap, state, ho⟩ := hw
  induction ho with
  | refl => exact ⟨[], heap, state, .refl _⟩
  | step _ ho ih =>
    obtain ⟨history, hrun⟩ := ih
    obtain ⟨history', hl⟩ := later_operate ho history
    exact ⟨history', hrun.later hl⟩

/-- Every state of a call in a reachable world is a moment of a run. -/
theorem run_of_call {input : Input} {n : Nat} {s s' : Drive.State H F S} (hw : w.Reachable E)
    (hs : w.open? g input = some s) (hr : Reaches (Drive.step E) s n s') :
    ∃ history, Run E ⟨s'.1, some s'.2, history, []⟩ := by
  obtain ⟨history, hrun⟩ := run_of_reachable hw
  obtain ⟨history', hl⟩ := later_reaches hr history
  exact ⟨history', (hrun.later (.single (.call List.not_mem_nil hs))).later hl⟩

theorem later_drops (kept : List Handle) (gs : List GeneratorId)
    (h : Kept ⟨w, none, history, gone⟩) :
    ∃ history' gone', Later E ⟨w, none, history, gone⟩
      ⟨gs.foldl (fun w g => if kept.contains (.generator g) then w else w.drop E g) w, none,
        history', gone'⟩ := by
  induction gs generalizing w history gone with
  | nil => exact ⟨history, gone, .refl _⟩
  | cons g gs ih =>
    rw [List.foldl_cons]
    split
    · exact ih h
    · by_cases hg : g ∈ gone
      · -- It was dropped before and holds nothing.
        have hsame : w.drop E g = w := by
          unfold World.drop
          cases hx : w.generator? g with
          | none => rfl
          | some x => rw [Option.bind_some, h.bare g x hx hg]
        rw [hsame]
        exact ih h
      · have hdrop : Next E ⟨w, none, history, gone⟩ _ := .drop hg List.not_mem_nil
        obtain ⟨history', gone', hl⟩ := ih (h.next hdrop)
        exact ⟨history', gone', (Later.single hdrop).trans hl⟩

/-- Reclaiming is a part of a run, too. -/
theorem later_reclaim (h : Kept ⟨w, none, history, gone⟩) (roots : List Handle) :
    ∃ history' gone', Later E ⟨w, none, history, gone⟩
      ⟨w.reclaim E roots, none, history', gone'⟩ :=
  later_drops (w.kept E roots) _ h

end Moment

end YieldMachine
