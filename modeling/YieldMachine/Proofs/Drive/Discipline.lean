import YieldMachine.Proofs.Drive.Stride
import YieldMachine.Proofs.Operation
import YieldMachine.World.Reclaim
import YieldMachine.World.Record

/-!
What the frames of an engine keep to. A discipline says which handles generators may have, and which frames
may run, with which reply, and be held under a handle; the engine's own steps keep to it (`Engine.Discipline`).
Then so do drives, which only pass frames between the engine and the generators, at every step
(`Kept.stride`), and so does a body that is run apart from any generator (`record_step`).
-/

namespace YieldMachine

variable {H F S H' F' S' : Type}

/-- A step of a body apart from any generator goes on from its action, and makes a generator if it asks for one. -/
theorem Record.step_cases {E : Engine H F S} {w w' : World H F S} {r r' : Record} {frame frame' : F}
    {reply reply' : Reply} (hs : Record.step E (w, r, frame, reply) = .next (w', r', frame', reply')) :
    (E.step w.heap w.state frame reply).2.2.Leads frame' reply' ∧
      ((∀ g, w'.generator? g = w.generator? g) ∨
        ∃ k f args, (E.step w.heap w.state frame reply).2.2 = .create k f args frame' ∧
          ∀ g, w'.generator? g =
            if g = w.generators.size then some (.fresh k f args) else w.generator? g) := by
  rcases hE : E.step w.heap w.state frame reply with ⟨heap, s, action⟩
  simp only [Record.step, hE] at hs
  cases action with
  | create k f args y =>
    cases hs
    refine ⟨.create .., .inr ⟨k, f, args, rfl, fun g => ?_⟩⟩
    exact World.generator?_create { w with heap := heap, state := s } k f args g
  | delegate source y =>
    simp only [Record.perform] at hs
    split at hs <;> cases hs
    · exact ⟨.delegate _ _ .accepted, .inl fun _ => rfl⟩
    · exact ⟨.delegate _ _ .accepted, .inl fun _ => rfl⟩
    · exact ⟨.delegate _ _ (.refused _), .inl fun _ => rfl⟩
  | silent y => cases hs; exact ⟨.silent _, .inl fun _ => rfl⟩
  | yieldPair k v y => cases hs; exact ⟨.yieldPair k v _, .inl fun _ => rfl⟩
  | yieldValue v y => cases hs; exact ⟨.yieldValue v _, .inl fun _ => rfl⟩
  | askDelegating y => cases hs; exact ⟨.askDelegating _ _, .inl fun _ => rfl⟩
  | takeSent y => cases hs; exact ⟨.takeSent _ _, .inl fun _ => rfl⟩
  | takeResult y => cases hs; exact ⟨.takeResult _ _, .inl fun _ => rfl⟩
  | suspend y | finish v | fail e => cases hs

theorem Record.halt_generators {E : Engine H F S} {t : Record.State H F S} {q : Record.Result H F S}
    (hs : Record.step E t = .halt q) : q.1.generators = t.1.generators := by
  obtain ⟨w, r, frame, reply⟩ := t
  rcases hE : E.step w.heap w.state frame reply with ⟨heap, state, action⟩
  simp only [Record.step, hE] at hs
  cases action with
  | suspend | finish | fail => cases hs; rfl
  | delegate source y =>
    simp only [Record.perform] at hs
    split at hs <;> cases hs
  | _ => cases hs

/-- A property of running and of held frames that the engine's steps keep. -/
structure Engine.Discipline (E : Engine H F S) where
  born : H → Prop
  running : H → F → Reply → Prop
  held : H → F → Prop
  start : ∀ {h} f args s, born h → running h (E.start h f args s).1 .proceed
  resume : ∀ {h x}, held h x → running h x .resume
  goOn : ∀ heap s {h x r y r'}, running h x r → (E.step heap s x r).2.2.Leads y r' →
    running h y r'
  create : ∀ heap s {h x r h' f args y}, running h x r →
    (E.step heap s x r).2.2 = .create h' f args y → born h'
  suspend : ∀ heap s {h x r y}, running h x r → (E.step heap s x r).2.2 = .suspend y → held h y

namespace Engine.Discipline

/-- No restriction. -/
def free (E : Engine H F S) : E.Discipline where
  born _ := True
  running _ _ _ := True
  held _ _ := True
  start _ _ _ _ := trivial
  resume _ := trivial
  goOn _ _ _ _ _ _ _ _ _ := trivial
  create _ _ _ _ _ _ _ _ _ _ _ := trivial
  suspend _ _ _ _ _ _ _ _ := trivial

/-- Two engines side by side: the frames of each engine stay with its own generators. -/
def sum {E : Engine H F S} {E' : Engine H' F' S'} (D : E.Discipline) (D' : E'.Discipline) :
    (E.sum E').Discipline where
  born := Sum.elim D.born D'.born
  running
    | .inl h, .inl x, r => D.running h x r
    | .inr h, .inr x, r => D'.running h x r
    | _, _, _ => False
  held
    | .inl h, .inl x => D.held h x
    | .inr h, .inr x => D'.held h x
    | _, _ => False
  start {h} f args s hborn := by
    cases h with
    | inl h => exact D.start f args s.1 hborn
    | inr h => exact D'.start f args s.2 hborn
  resume {h x} hheld := by
    cases h <;> cases x
    case inl.inl h x => exact D.resume hheld
    case inr.inr h x => exact D'.resume hheld
    all_goals exact hheld
  goOn heap s {h x r y r'} hrunning hleads := by
    cases h <;> cases x
    case inl.inl h x =>
      obtain ⟨y, rfl, hleads'⟩ := Action.Leads.of_map hleads
      exact D.goOn heap s.1 hrunning hleads'
    case inr.inr h x =>
      obtain ⟨y, rfl, hleads'⟩ := Action.Leads.of_map hleads
      exact D'.goOn heap s.2 hrunning hleads'
    all_goals exact hrunning.elim
  create heap s {h x r h' f args y} hrunning hcreate := by
    cases h <;> cases x
    case inl.inl h x =>
      obtain ⟨k, y, rfl, -, hcreate'⟩ := Action.map_create hcreate
      exact D.create heap s.1 hrunning hcreate'
    case inr.inr h x =>
      obtain ⟨k, y, rfl, -, hcreate'⟩ := Action.map_create hcreate
      exact D'.create heap s.2 hrunning hcreate'
    all_goals exact hrunning.elim
  suspend heap s {h x r y} hrunning hsuspend := by
    cases h <;> cases x
    case inl.inl h x =>
      obtain ⟨y, rfl, hsuspend'⟩ := Action.map_suspend hsuspend
      exact D.suspend heap s.1 hrunning hsuspend'
    case inr.inr h x =>
      obtain ⟨y, rfl, hsuspend'⟩ := Action.map_suspend hsuspend
      exact D'.suspend heap s.2 hrunning hsuspend'
    all_goals exact hrunning.elim

variable {E : Engine H F S} (D : E.Discipline)

/-- What a generator may be between its turns. -/
structure Admits (x : Generator H F) : Prop where
  born : D.born x.handle
  held : ∀ frame, x.frame = some frame → D.held x.handle frame

/-- Where a body under a handle may stand. -/
def Allows (h : H) : Drive.Position F → Prop
  | .outside | .over => True
  | .awaiting frame => ∀ reply, reply.ToDelegate → D.running h frame reply
  | .engaged frame reply => D.running h frame reply

/-- Every generator of the world keeps to the discipline. -/
def Resting (w : World H F S) : Prop := ∀ g x, w.generator? g = some x → D.Admits x

/-- So does every body that a drive runs or that waits in it. -/
structure Kept (w : World H F S) (d : Drive F) : Prop where
  resting : D.Resting w
  focus : ∀ x, w.generator? d.current = some x → D.Allows x.handle d.focus.position
  waiting : ∀ l ∈ d.waiting, ∀ x, w.generator? l.generator = some x →
    D.Allows x.handle l.wait.position

variable {D} {w w' : World H F S} {d d' : Drive F} {x x' : Generator H F} {g : GeneratorId}

theorem Admits.of_steady (hx : D.Admits x) (h : x.Steady x') : D.Admits x' := by
  refine ⟨h.handle ▸ hx.born, fun frame hframe => ?_⟩
  rw [h.handle]
  exact hx.held frame (h.frame ▸ hframe)

/-- A generator without a frame, with the handle of one that is admitted. -/
theorem Admits.without_frame (hx : D.Admits x) (hh : x'.handle = x.handle) (hf : x'.frame = none) :
    D.Admits x' := by
  refine ⟨hh ▸ hx.born, fun frame hframe => ?_⟩
  rw [hf] at hframe
  cases hframe

theorem Admits.setLock (hx : D.Admits x) (b : Bool) : D.Admits (x.setLock b) := ⟨hx.born, hx.held⟩

/-- The generator in turn keeps to the discipline. -/
theorem act {p : Drive.Position F} {heap : Heap} {s : S} {focus : Focus F}
    (h : Drive.Act E w x p heap s focus x') (hx : D.Admits x) (hp : D.Allows x.handle p) :
    x'.handle = x.handle ∧ D.Admits x' ∧ D.Allows x.handle focus.position := by
  cases h with
  | settle b h => exact ⟨h.handle, hx.of_steady h, trivial⟩
  | start hs => exact ⟨rfl, ⟨hx.born, hx.held⟩, D.start _ _ _ hx.born⟩
  | resume h hframe =>
    exact ⟨h.handle, hx.without_frame h.handle rfl, D.resume (hx.held _ hframe)⟩
  | lapse h hnone hf hlive => exact ⟨h.handle, hx.without_frame h.handle rfl, trivial⟩
  | breakOff hd e => exact ⟨rfl, hx.without_frame rfl rfl, trivial⟩
  | answer hr h => exact ⟨h.handle, hx.of_steady h, hp _ hr⟩
  | goOn hE ha h =>
    refine ⟨h.handle, hx.of_steady h, D.goOn w.heap w.state hp ?_⟩
    rw [hE]
    exact ha
  | suspend hE =>
    refine ⟨rfl, ⟨hx.born, fun frame hframe => ?_⟩, trivial⟩
    obtain rfl := Option.some.inj hframe
    exact D.suspend w.heap w.state hp (by rw [hE])
  | finish hE => exact ⟨rfl, hx.without_frame rfl rfl, trivial⟩
  | fail hE => exact ⟨rfl, hx.without_frame rfl rfl, trivial⟩

theorem Resting.modify {f : Generator H F → Generator H F} (h : D.Resting w)
    (hf : ∀ x, D.Admits x → D.Admits (f x)) : D.Resting (w.modify g f) := by
  intro g' y hy
  by_cases hg : g' = g
  · subst hg
    rw [World.generator?_modify_self] at hy
    obtain ⟨x, hx, rfl⟩ := Option.map_eq_some_iff.mp hy
    exact hf x (h g' x hx)
  · rw [World.generator?_modify_of_ne hg] at hy
    exact h g' y hy

theorem Resting.replace (h : D.Resting w) (hx : D.Admits x) : D.Resting (w.replace g x) :=
  h.modify fun _ _ => hx

theorem Resting.setLock (h : D.Resting w) (g : GeneratorId) (b : Bool) :
    D.Resting (w.modify g (·.setLock b)) :=
  h.modify fun _ hx => hx.setLock b

theorem Resting.create {k : H} (h : D.Resting w) (hk : D.born k) (f : Function) (args : List Value) :
    D.Resting (w.create k f args).2 := by
  intro g y hy
  rw [World.generator?_create] at hy
  split at hy
  · obtain rfl := Option.some.inj hy
    exact ⟨hk, nofun⟩
  · exact h g y hy

theorem Resting.close (h : D.Resting w) (g : GeneratorId) : D.Resting (w.close E g) := by
  rw [World.close]
  split
  · next x hx =>
    split
    · exact h
    · rw [World.finish_eq_replace E hx]
      exact Resting.replace (w := { w with state := _ }) h ((h g x hx).without_frame rfl rfl)
  · exact h

theorem Resting.drop (h : D.Resting w) (g : GeneratorId) : D.Resting (w.drop E g) := by
  rw [World.drop]
  split
  · exact Resting.modify (w := { w with state := _ }) h fun _ hx => hx.without_frame rfl rfl
  · exact h

/-- A generator keeps its handle when a lock is set. -/
theorem handle_setLock {b : Bool} (hx : (w.modify g (·.setLock b)).generator? g = some x) :
    ∃ y, w.generator? g = some y ∧ x.handle = y.handle := by
  rw [World.generator?_modify_self] at hx
  obtain ⟨y, hy, rfl⟩ := Option.map_eq_some_iff.mp hx
  exact ⟨y, hy, rfl⟩

/-- A body under way goes on to another generator, which it has just named or waits for. -/
theorem Kept.turnTo {c : GeneratorId} {y : Generator H F} {sent : Option Value} {wait : Wait F}
    {heap : Heap} {s : S} (h : D.Kept w d)
    (hwait : ∀ x, w.generator? d.current = some x → D.Allows x.handle wait.position) :
    D.Kept (World.lock { w with heap := heap, state := s } c)
      (Drive.turnTo y c sent (⟨d.current, d.resend, wait⟩ :: d.waiting)) := by
  have hhandle (g : GeneratorId) (x : Generator H F)
      (hx : (World.lock { w with heap := heap, state := s } c).generator? g = some x) :
      ∃ z, w.generator? g = some z ∧ x.handle = z.handle := by
    by_cases hg : g = c
    · subst hg
      exact handle_setLock (w := { w with heap := heap, state := s }) hx
    · exact ⟨x, (World.generator?_lock_of_ne (w := { w with heap := heap, state := s }) hg).symm.trans hx, rfl⟩
  refine ⟨Resting.setLock (w := { w with heap := heap, state := s }) h.resting c true, ?_, ?_⟩
  · intro x _
    have hposition : (Drive.turnTo y c sent (⟨d.current, d.resend, wait⟩ :: d.waiting)).focus.position =
        .outside := by
      rw [Drive.turnTo]
      split <;> rfl
    rw [hposition]
    trivial
  · intro l hl x hx
    obtain ⟨z, hz, hsame⟩ := hhandle _ x hx
    rw [hsame]
    rw [Drive.turnTo_waiting] at hl
    rcases List.mem_cons.mp hl with rfl | hl
    · exact hwait z hz
    · exact h.waiting l hl z hz

/-- What one step of a drive does keeps to the discipline. -/
theorem Kept.stride (h : D.Kept w d) (hc : d.Chained w) (hs : Drive.Stride E w d w' d') :
    D.Kept w' d' := by
  cases hs with
  | @act x x' heap s focus hx hact =>
    obtain ⟨hhandle, hadmits, hallows⟩ := Discipline.act hact (h.resting _ x hx) (h.focus x hx)
    have hself : World.generator? ({ w with heap := heap, state := s }.replace d.current x') d.current =
        some x' := World.generator?_replace_self (w := { w with heap := heap, state := s }) hx x'
    refine ⟨Resting.replace (w := { w with heap := heap, state := s }) h.resting hadmits, ?_, ?_⟩
    · intro y hy
      obtain rfl := Option.some.inj (hself.symm.trans hy)
      exact hhandle ▸ hallows
    · intro l hl y hy
      have hne : l.generator ≠ d.current := fun he =>
        hc.current_not_mem (he ▸ List.mem_map_of_mem hl)
      rw [World.generator?_replace_of_ne hne] at hy
      exact h.waiting l hl y hy
  | @create frame frame' reply heap s handle f args hfocus hE =>
    obtain ⟨x, hx, -⟩ := hc.current
    have hrunning : D.running x.handle frame reply := by
      have hallows := h.focus x hx
      rwa [hfocus] at hallows
    have hborn : D.born handle := D.create w.heap w.state hrunning (by rw [hE])
    have hold (g : GeneratorId) (y z : Generator H F) (hz : w.generator? g = some z)
        (hy : (World.create { w with heap := heap, state := s } handle f args).2.generator? g = some y) :
        y = z := by
      have hne : g ≠ w.generators.size := by
        rintro rfl
        rw [World.generator?_size] at hz
        cases hz
      rw [World.generator?_create, if_neg hne] at hy
      exact Option.some.inj (hy.symm.trans hz)
    refine ⟨Resting.create (w := { w with heap := heap, state := s }) h.resting hborn f args, ?_, ?_⟩
    · intro y hy
      obtain rfl := hold _ y x hx hy
      refine D.goOn w.heap w.state hrunning ?_
      rw [hE]
      exact .create ..
    · intro l hl y hy
      obtain ⟨z, hz, -⟩ := hc.locked l.generator (List.mem_cons_of_mem _ (List.mem_map_of_mem hl))
      obtain rfl := hold _ y z hz hy
      exact h.waiting l hl y hz
  | resend hfocus hv => exact ⟨h.resting, fun _ _ => trivial, h.waiting⟩
  | follow hfocus hy hl => exact h.turnTo fun _ _ => trivial
  | delegate hfocus hE hy hl =>
    refine h.turnTo fun x hx reply hreply => ?_
    have hallows := h.focus x hx
    rw [hfocus] at hallows
    refine D.goOn w.heap w.state hallows ?_
    rw [hE]
    exact .delegate _ _ hreply
  | @handOver result link ls x x' heap s focus hdone hw hx hne hact =>
    have hrest : D.Resting (w.unlock d.current) := h.resting.setLock d.current false
    have hlink := h.waiting link (hw ▸ List.mem_cons_self) x hx
    obtain ⟨hhandle, hadmits, hallows⟩ := Discipline.act hact (h.resting _ x hx) hlink
    have hx' : (w.unlock d.current).generator? link.generator = some x :=
      (World.generator?_unlock_of_ne hne).trans hx
    refine ⟨Resting.replace (w := { w.unlock d.current with heap := heap, state := s }) hrest hadmits,
      ?_, ?_⟩
    · intro y hy
      have hself := World.generator?_replace_self
        (w := { w.unlock d.current with heap := heap, state := s }) hx' x'
      obtain rfl := Option.some.inj (hself.symm.trans hy)
      exact hhandle ▸ hallows
    · intro l hl y hy
      have hnodup := hc.nodup
      simp only [Drive.chain, hw, List.map_cons, List.nodup_cons, List.mem_cons, not_or] at hnodup
      have hmem := List.mem_map_of_mem (f := Link.generator) hl
      have hlink : l.generator ≠ link.generator := fun he => hnodup.2.1 (he ▸ hmem)
      have hcurrent : l.generator ≠ d.current := fun he => hnodup.1.2 (he ▸ hmem)
      rw [World.generator?_replace_of_ne hlink] at hy
      refine h.waiting l (hw ▸ List.mem_cons_of_mem _ hl) y ?_
      exact (World.generator?_unlock_of_ne hcurrent).symm.trans hy

/-- An advance begins with no body under way. -/
theorem Resting.opened {input : Input} {s : Drive.State H F S} (h : D.Resting w)
    (hs : w.open? g input = some s) : D.Kept s.1 s.2 := by
  obtain ⟨x, -, -, rfl⟩ := World.open_cases hs
  refine ⟨h.setLock g true, fun y _ => ?_, fun l hl => ?_⟩
  · simp only [Drive.turnTo]
    split <;> trivial
  · rw [Drive.turnTo_waiting] at hl
    cases hl

/-- A body apart from any generator keeps to the discipline, and so do the generators that it makes. -/
theorem record_step {r r' : Record} {h : H} {frame frame' : F} {reply reply' : Reply}
    (hrest : D.Resting w) (hrunning : D.running h frame reply)
    (hs : Record.step E (w, r, frame, reply) = .next (w', r', frame', reply')) :
    D.Resting w' ∧ D.running h frame' reply' := by
  obtain ⟨hleads, hworld⟩ := Record.step_cases hs
  refine ⟨fun g x hx => ?_, D.goOn _ _ hrunning hleads⟩
  rcases hworld with hsame | ⟨k, f, args, hcreate, hmade⟩
  · exact hrest g x ((hsame g).symm.trans hx)
  · rw [hmade] at hx
    split at hx
    · obtain rfl := Option.some.inj hx
      exact ⟨D.create _ _ hrunning hcreate, nofun⟩
    · exact hrest g x hx

end Engine.Discipline

end YieldMachine
