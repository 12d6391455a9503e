import YieldMachine.Proofs.Machine.Budget
import YieldMachine.Proofs.Machine.Nesting
import YieldMachine.Proofs.Machine.Soundness
import YieldMachine.Proofs.Session.Progress

/-!
The depth of calls in a whole session. Whatever its user does with it, and at every step on the way, each execution
stands at its base depth plus the number of its open calls and within the limit, and a generator that a body makes has
a greater base depth than the generator of that body (`Session.Progress.deep`). Hence the depth is given back as it was
found, only an execution at the limit is refused a call, and generators that make one another form chains no longer
than the limit (`call_depth_bounded`).
-/

namespace YieldMachine

theorem Move.handle {H F : Type} {r r' : Role} {x x' : Generator H F} (h : Move r x r' x') :
    x'.handle = x.handle := by
  have hdeliver (sent : Option Value) : (x.deliver sent).handle = x.handle := by cases sent <;> rfl
  cases h with
  | resume hf hd hs hp hx sent => exact hdeliver sent
  | lapse hf hs hx sent => exact hdeliver sent
  | _ => rfl

theorem World.generator?_modify_none {H F S : Type} {w : World H F S} {g : GeneratorId}
    (h : w.generator? g = none) (g' : GeneratorId) (f : Generator H F → Generator H F) :
    (w.modify g' f).generator? g = none := by
  by_cases hg : g = g'
  · subst hg
    rw [generator?_modify_self, h]
    rfl
  · rw [generator?_modify_of_ne hg, h]

/-- Every generator that was there keeps its handle. -/
def World.Retains {H F S : Type} (w w' : World H F S) : Prop :=
  ∀ g x, w.generator? g = some x → ∃ x', w'.generator? g = some x' ∧ x'.handle = x.handle

namespace World.Retains

variable {H F S : Type} {E : Engine H F S} {w w' : World H F S}

theorem modify (g : GeneratorId) {f : Generator H F → Generator H F}
    (hf : ∀ x, (f x).handle = x.handle) : w.Retains (w.modify g f) := by
  intro g' x hx
  by_cases hg : g' = g
  · subst hg
    exact ⟨f x, by simp [hx], hf x⟩
  · exact ⟨x, (generator?_modify_of_ne hg f).trans hx, rfl⟩

theorem create (k : H) (f : Function) (args : List Value) : w.Retains (w.create k f args).2 := by
  intro g x hx
  have hne : g ≠ w.generators.size := by
    rintro rfl
    rw [generator?_size] at hx
    cases hx
  exact ⟨x, by rw [generator?_create, if_neg hne, hx], rfl⟩

theorem finish (g : GeneratorId) : w.Retains (w.finish E g) := by
  rw [World.finish]
  split
  · exact modify (w := { w with state := _ }) g fun _ => rfl
  · exact modify g fun _ => rfl

theorem close (g : GeneratorId) : w.Retains (w.close E g) := by
  rw [World.close]
  split
  · split
    · exact fun _ x hx => ⟨x, hx, rfl⟩
    · exact finish g
  · exact fun _ x hx => ⟨x, hx, rfl⟩

theorem drop (g : GeneratorId) : w.Retains (w.drop E g) := by
  rw [World.drop]
  split
  · exact modify (w := { w with state := _ }) g fun _ => rfl
  · exact fun _ x hx => ⟨x, hx, rfl⟩

theorem step {s s' : Drive.State H F S} (hc : s.2.Chained s.1) (hs : Drive.step E s = .next s') :
    s.1.Retains s'.1 := by
  intro g x hx
  obtain ⟨x', hx', hm⟩ := (Drive.step_moves hc hs).2.old g x hx
  exact ⟨x', hx', hm.handle⟩

end World.Retains

namespace Session

/-- Machine and scripts: base depths for the machine's generators, and nothing for the others. -/
def nesting (s : Session) : s.engine.Discipline := s.machine.nesting.sum (.free _)

namespace Progress

abbrev Store := World (Nat ⊕ Unit) (Execution ⊕ Script.Frame) (Output × Script.Tally)

/-- Each pair is of generators of the machine, and the second one's base depth is greater. -/
def Descends (w : Store) (made : List (GeneratorId × GeneratorId)) : Prop :=
  ∀ p ∈ made, ∃ x x' b b', w.generator? p.1 = some x ∧ w.generator? p.2 = some x' ∧
    x.handle = .inl b ∧ x'.handle = .inl b' ∧ b < b'

theorem Descends.retained {w w' : Store} {made : List (GeneratorId × GeneratorId)}
    (h : Descends w made) (hw : w.Retains w') : Descends w' made := by
  intro p hp
  obtain ⟨x, x', b, b', hx, hx', hb, hb', hlt⟩ := h p hp
  obtain ⟨y, hy, hhandle⟩ := hw p.1 x hx
  obtain ⟨y', hy', hhandle'⟩ := hw p.2 x' hx'
  exact ⟨y, y', b, b', hy, hy', hhandle.trans hb, hhandle'.trans hb', hlt⟩

/-- What is under way keeps to the depth. -/
def Under (s : Session) : Activity → Prop
  | .idle => True
  | .driving d => d.Chained s.world ∧ s.nesting.Kept s.world d
  | .calling _ frame reply => s.nesting.running (.inl 1) frame reply

/-- What holds of the depth of calls at every step. -/
structure Deep (p : Progress) : Prop where
  resting : p.session.nesting.Resting p.session.world
  under : Under p.session p.activity
  descends : Descends p.session.world p.made

variable {s : Session} {made : List (GeneratorId × GeneratorId)} {w' : Store}

/-- A step that leaves the session idle. -/
theorem Deep.idle {act : Activity} (h : Deep ⟨s, act, made⟩) (hrest : s.nesting.Resting w')
    (hretains : s.world.Retains w') : Deep ⟨s.setWorld w', .idle, made⟩ :=
  ⟨hrest, trivial, h.descends.retained hretains⟩

theorem Deep.create {k : Nat ⊕ Unit} {f : Function} {args : List Value}
    (h : Deep ⟨s, .idle, made⟩) (hk : s.nesting.born k) :
    Deep ⟨s.setWorld (s.world.create k f args).2, .idle, made⟩ :=
  h.idle (h.resting.create hk f args) (.create k f args)

/-- Only a body of the machine makes a generator, one level below itself. -/
theorem created_deeper {h k : Nat ⊕ Unit} {w : Store} {frame frame' : Execution ⊕ Script.Frame}
    {reply : Reply} {f : Function} {args : List Value} (hrunning : s.nesting.running h frame reply)
    (hE : (s.engine.step w.heap w.state frame reply).2.2 = .create k f args frame') :
    ∃ base y, h = .inl base ∧ frame = .inl y ∧ y.Nested s.machine base ∧ k = .inl (y.depth + 1) ∧
      y.depth + 1 ≤ s.machine.config.maxCallDepth := by
  cases h <;> cases frame
  case inl.inl base y =>
    have haction : (s.machine.step w.heap w.state.1 y reply).2.2.map .inl .inl =
        Action.create k f args frame' := hE
    obtain ⟨b, y', rfl, -, hcreate⟩ := Action.map_create haction
    obtain ⟨rfl, hlimit⟩ := Machine.create_depth hcreate
    exact ⟨base, y, rfl, rfl, hrunning.1, rfl, hlimit⟩
  case inr.inr h y =>
    have haction : (Script.step w.state.2 y reply).2.map .inr .inr = Action.create k f args frame' := hE
    obtain ⟨b, y', -, -, hcreate⟩ := Action.map_create haction
    exact (Script.step_ne_create _ _ _ _ _ _ _ hcreate).elim
  all_goals exact hrunning.elim

/-- The generator that a body makes is deeper than the body's own. -/
theorem offspring_descends {d : Drive (Execution ⊕ Script.Frame)} {s' : Drive.State _ _ _}
    (hc : d.Chained s.world) (hkept : s.nesting.Kept s.world d)
    (hs : Drive.step s.engine (s.world, d) = .next s') :
    Descends s'.1 (Drive.offspring s.engine (s.world, d)) := by
  intro p hp
  obtain ⟨x, hx, -⟩ := hc.current
  simp only [Drive.offspring] at hp
  split at hp
  · next frame reply hfocus =>
    rcases hE : s.engine.step s.world.heap s.world.state frame reply with ⟨heap, state, action⟩
    rw [hE] at hp
    cases action with
    | create k f args frame' =>
      obtain rfl := List.mem_singleton.mp hp
      have hrunning := hkept.focus x hx
      rw [hfocus] at hrunning
      obtain ⟨base, y, hbase, -, hnested, rfl, -⟩ := created_deeper hrunning (congrArg (·.2.2) hE)
      rw [Drive.step_body hfocus hE] at hs
      obtain rfl := Transition.next.inj hs
      obtain ⟨x', hx', hhandle⟩ := World.Retains.create (w := { s.world with heap := heap, state := state })
        (.inl (y.depth + 1)) f args d.current x hx
      refine ⟨x', .fresh (.inl (y.depth + 1)) f args, base, y.depth + 1, hx', ?_,
        hhandle.trans hbase, rfl, ?_⟩
      · exact (World.generator?_create ..).trans (if_pos rfl)
      · have hdepth := hnested.depth
        omega
    | _ => cases hp
  · cases hp

/-- A step of a body apart from any generator changes no generator that was there. -/
theorem body_retains {r r' : Record} {frame frame' : Execution ⊕ Script.Frame} {reply reply' : Reply}
    (hs : Record.step s.engine (s.world, r, frame, reply) = .next (w', r', frame', reply')) :
    s.world.Retains w' := by
  intro g x hx
  obtain ⟨-, hsame | ⟨k, f, args, -, hmade⟩⟩ := Record.step_cases hs
  · exact ⟨x, (hsame g).trans hx, rfl⟩
  · have hne : g ≠ s.world.generators.size := by
      rintro rfl
      rw [World.generator?_size] at hx
      cases hx
    exact ⟨x, by rw [hmade, if_neg hne, hx], rfl⟩

/-- Dropping generators keeps what each drop keeps. -/
theorem drops_induction {P : Store → Prop} (kept : List Handle) (gs : List GeneratorId)
    (hdrop : ∀ w g, P w → P (w.drop s.engine g)) {w : Store} (hw : P w) :
    P (gs.foldl (fun w g => if kept.contains (.generator g) then w else w.drop s.engine g) w) := by
  induction gs generalizing w with
  | nil => exact hw
  | cons g gs ih =>
    rw [List.foldl_cons]
    refine ih ?_
    split
    · exact hw
    · exact hdrop w g hw

/-- The session answers a call at once: nothing has changed, or there is a new generator at depth one. -/
theorem answered_cases {s' : Session} {name : String} {args : List Value} {r : Except BodyError Value}
    (h : s.call 0 name args = some (s', r)) :
    s' = s ∨ s.machine.config.maxCallDepth ≠ 0 ∧
      ∃ f, s' = s.setWorld (s.world.create (.inl 1) f args).2 := by
  simp only [Session.call] at h
  split at h
  · cases h
    exact .inl rfl
  · next f hf =>
    split at h
    · cases h
      exact .inl rfl
    · next hlimit =>
      split at h
      · cases h
        exact .inr ⟨hlimit, f, rfl⟩
      · cases h

theorem generator_cases {s' : Session} {name : String} {args : List Value} {g : GeneratorId}
    (h : s.generator name args = .ok (g, s')) :
    ∃ f, s' = s.setWorld (s.world.create (.inl 0) f args).2 := by
  obtain ⟨f, -, h⟩ := ok_of_bind h
  split at h
  · cases h
    exact ⟨f, rfl⟩
  · cases h

theorem Deep.next {p p' : Progress} (h : Deep p) (n : Next p p') : Deep p' := by
  cases n with
  | generator hg =>
    obtain ⟨f, rfl⟩ := generator_cases hg
    exact h.create (Nat.zero_le _)
  | scripted name args => exact h.create (k := .inr ()) trivial
  | answered hcall =>
    rcases answered_cases hcall with rfl | ⟨hlimit, f, rfl⟩
    · exact h
    · exact h.create (Nat.one_le_iff_ne_zero.mpr hlimit)
  | @call s made name f args hf hplain hlimit =>
    have hborn : s.nesting.born (.inl 1) := Nat.one_le_iff_ne_zero.mpr hlimit
    exact ⟨h.resting, s.nesting.start f args s.world.state hborn, h.descends⟩
  | body hs =>
    obtain ⟨hrest, hrunning⟩ := Engine.Discipline.record_step h.resting h.under hs
    exact ⟨hrest, hrunning, h.descends.retained (body_retains hs)⟩
  | @returned s made r r' frame reply o w' hs =>
    have hsame (g : GeneratorId) : w'.generator? g = s.world.generator? g := by
      have hgenerators := Record.halt_generators hs
      simp only at hgenerators
      rw [World.generator?, World.generator?, hgenerators]
    refine h.idle ?_ fun g x hx => ⟨x, (hsame g).trans hx, rfl⟩
    exact fun g x hx => h.resting g x ((hsame g).symm.trans hx)
  | advance hs =>
    refine ⟨(h.resting.opened hs).resting, ⟨(World.open_chained hs).1, h.resting.opened hs⟩, ?_⟩
    obtain ⟨x, -, -, heq⟩ := World.open_cases hs
    obtain ⟨rfl, -⟩ := Prod.mk.inj heq
    exact h.descends.retained (.modify _ fun _ => rfl)
  | step hs =>
    obtain ⟨hc, hkept⟩ := h.under
    have hkept' := hkept.stride hc (Drive.step_strides hc hs)
    refine ⟨hkept'.resting, ⟨(Drive.step_moves hc hs).1, hkept'⟩, fun p hp => ?_⟩
    rcases List.mem_append.mp hp with hp | hp
    · exact h.descends.retained (.step hc hs) p hp
    · exact offspring_descends hc hkept hs p hp
  | halt hs =>
    obtain ⟨-, -, rfl⟩ := Drive.halt_cases hs
    exact h.idle (h.resting.setLock _ false) (.modify _ fun _ => rfl)
  | close g => exact h.idle (h.resting.close g) (.close g)
  | setLock g b => exact h.idle (h.resting.setLock g b) (.modify g fun _ => rfl)
  | @reclaim s made userHeld =>
    refine h.idle (drops_induction (P := fun w => s.nesting.Resting w) _ _
      (fun w g hw => hw.drop g) h.resting) ?_
    refine drops_induction (P := fun w => s.world.Retains w) _ _ (fun w g hw g' x hx => ?_)
      fun _ x hx => ⟨x, hx, rfl⟩
    obtain ⟨y, hy, hhandle⟩ := hw g' x hx
    obtain ⟨z, hz, hhandle'⟩ := World.Retains.drop (E := s.engine) g g' y hy
    exact ⟨z, hz, hhandle'.trans hhandle⟩
  | elsewhere heap state => exact h.idle h.resting fun _ x hx => ⟨x, hx, rfl⟩

theorem deep {p : Progress} (h : p.Run) : Deep p := by
  obtain ⟨machine, scripts, heap, state, hlater⟩ := h
  generalize hstart : (⟨⟨machine, scripts, ⟨heap, state, #[]⟩⟩, .idle, []⟩ : Progress) = start at hlater
  induction hlater with
  | refl =>
    subst hstart
    refine ⟨fun g x hx => ?_, trivial, nofun⟩
    simp [World.generator?] at hx
  | next _ n ih => exact ih.next n

/-! ### What the user can rely on -/

/-- An execution under way, and the depth at which its outermost frame runs: that of its generator, or that of a
called function. -/
inductive Context (p : Progress) : Nat → Execution → Prop where
  | running {d x base y reply} (h : p.activity = .driving d)
      (hx : p.session.world.generator? d.current = some x) (hb : x.handle = .inl base)
      (hy : d.focus = .body (.inl y) reply) : Context p base y
  | waiting {d l x base y} (h : p.activity = .driving d) (hl : l ∈ d.waiting)
      (hx : p.session.world.generator? l.generator = some x) (hb : x.handle = .inl base)
      (hy : l.wait = .inBody (.inl y)) : Context p base y
  | called {r y reply} (h : p.activity = .calling r (.inl y) reply) : Context p 1 y

def limit (p : Progress) : Nat := p.session.machine.config.maxCallDepth

/-- The depth of calls is kept within the limit, and given back. -/
structure DepthKept (p : Progress) : Prop where
  /-- An execution is as deep as its open calls make it. -/
  contexts : ∀ base y, p.Context base y → y.depth = base + y.callers.length ∧ y.depth ≤ p.limit
  /-- A paused execution is back at its generator's base depth. -/
  suspended : ∀ g x base, p.session.world.generator? g = some x → x.handle = .inl base →
    base ≤ p.limit ∧
      ∀ frame, x.frame = some frame → ∃ y, frame = .inl y ∧ y.depth = base ∧ y.callers = []
  /-- However far an open call `z` has come, in `u`, its end gives back the depth and the frames that it found. -/
  restored : ∀ base y, p.Context base y → ∀ frame id args z u,
    p.session.machine.call { y with frame := frame } id args = .silent z →
    p.session.machine.Within z u → z.depth = y.depth + 1 ∧ z.depth ≤ p.limit ∧
      u.unwind (u.callers.length - y.callers.length) =
        { u with depth := y.depth, frame := frame, callers := y.callers } ∧
      (u.callers = z.callers → ∀ v, u.ret v =
        .silent { u with depth := y.depth, frame := frame.push v, callers := y.callers })
  /-- A generator that comes to be while an execution runs has the next base depth. -/
  born : ∀ p' g x, p.Next p' → p.activity ≠ .idle → p.session.world.generator? g = none →
    p'.session.world.generator? g = some x →
    ∃ base y, p.Context base y ∧ x.handle = .inl (y.depth + 1) ∧ y.depth + 1 ≤ p.limit
  /-- A call is refused for its depth just at the limit. -/
  refused : ∀ base y, p.Context base y → ∀ heap out l,
    (p.session.machine.advance heap out y).2.2 = .fail (.fault (.callDepthExceeded l)) ↔
      l = p.limit ∧ y.depth = p.limit ∧ ∃ f args, p.session.machine.Asks heap y f args
  /-- So is the user's own call, which finds depth zero. -/
  refusedFirst : ∀ name f args, p.session.function name = .ok f →
    ((∀ fuel, p.session.call fuel name args =
      some (p.session, .error (.fault (.callDepthExceeded p.limit)))) ↔ p.limit = 0)
  /-- Generators each made by the body of the one before. -/
  chains : ∀ g gs, List.IsChain (fun a b => (a, b) ∈ p.made) (g :: gs) → gs.length ≤ p.limit

variable {p : Progress}

theorem Deep.nested (h : Deep p) {base : Nat} {y : Execution} (hy : p.Context base y) :
    y.Nested p.session.machine base := by
  obtain ⟨s, act, made⟩ := p
  cases hy with
  | @running d x _ _ reply hact hx hb hfocus =>
    subst hact
    have hrunning := h.under.2.focus x hx
    rw [hfocus, hb] at hrunning
    exact hrunning.1
  | waiting hact hl hx hb hwait =>
    subst hact
    have hrunning := h.under.2.waiting _ hl _ hx
    rw [hwait, hb] at hrunning
    exact (hrunning .accepted .accepted).1
  | called hact =>
    subst hact
    exact h.under.1

/-- A generator that a step of a drive adds was made by the body in focus. -/
theorem newborn {H F S : Type} {E : Engine H F S} {w w' : World H F S} {d d' : Drive F} {g : GeneratorId}
    {x : Generator H F} (h : Drive.Stride E w d w' d') (hnone : w.generator? g = none)
    (hx : w'.generator? g = some x) :
    ∃ frame reply k f args frame', d.focus = .body frame reply ∧
      (E.step w.heap w.state frame reply).2.2 = .create k f args frame' ∧ x.handle = k := by
  have hmodify {v : World H F S} {g' : GeneratorId} {m : Generator H F → Generator H F}
      (hv : v.generator? g = none) (hx : (v.modify g' m).generator? g = some x) : False := by
    rw [World.generator?_modify_none hv] at hx
    cases hx
  cases h with
  | act hx' hact => exact (hmodify hnone hx).elim
  | @create frame frame' reply heap s k f args hfocus hE =>
    rw [World.generator?_create] at hx
    split at hx
    · obtain rfl := Option.some.inj hx
      exact ⟨frame, reply, k, f, args, frame', hfocus, congrArg (·.2.2) hE, rfl⟩
    · rw [World.generator?] at hnone hx
      rw [hnone] at hx
      cases hx
  | resend hfocus hv => rw [hnone] at hx; cases hx
  | follow hfocus hy hl => exact (hmodify hnone hx).elim
  | delegate hfocus hE hy hl => exact (hmodify hnone hx).elim
  | @handOver result link ls y y' heap s focus hdone hw hy hne hact =>
    have hunlocked : (w.unlock d.current).generator? g = none := World.generator?_modify_none hnone _ _
    exact (hmodify (v := { w.unlock d.current with heap := heap, state := s }) hunlocked hx).elim

/-- A new generator comes from an execution under way, one level below it. -/
theorem Deep.born (h : Deep p) {p' : Progress} {g : GeneratorId}
    {x : Generator (Nat ⊕ Unit) (Execution ⊕ Script.Frame)} (n : p.Next p') (hact : p.activity ≠ .idle)
    (hnone : p.session.world.generator? g = none) (hx : p'.session.world.generator? g = some x) :
    ∃ base y, p.Context base y ∧ x.handle = .inl (y.depth + 1) ∧ y.depth + 1 ≤ p.limit := by
  -- A step that keeps the array of generators adds none.
  have hnew {s : Session} {w' : Store} (hnone : s.world.generator? g = none)
      (hx : w'.generator? g = some x) (hsame : w'.generator? g = s.world.generator? g) : False := by
    rw [hsame, hnone] at hx
    cases hx
  cases n with
  | body hs =>
    obtain ⟨-, hsame | ⟨k, f, args, hcreate, hmade⟩⟩ := Record.step_cases hs
    · exact (hnew hnone hx (hsame g)).elim
    · obtain ⟨base, y, -, rfl, -, rfl, hlimit⟩ := created_deeper h.under hcreate
      refine ⟨1, y, .called rfl, ?_, hlimit⟩
      have hfresh := (hmade g).symm.trans hx
      split at hfresh
      · obtain rfl := Option.some.inj hfresh
        rfl
      · exact (hnew hnone hfresh rfl).elim
  | returned hs =>
    refine (hnew hnone hx ?_).elim
    rw [World.generator?, World.generator?]
    exact congrArg (·[g]?) (Record.halt_generators hs)
  | step hs =>
    obtain ⟨hc, hkept⟩ := h.under
    obtain ⟨frame, reply, k, f, args, frame', hfocus, hcreate, hk⟩ :=
      newborn (Drive.step_strides hc hs) hnone hx
    obtain ⟨z, hz, -⟩ := hc.current
    have hrunning := hkept.focus z hz
    rw [hfocus] at hrunning
    obtain ⟨base, y, hbase, rfl, -, rfl, hlimit⟩ := created_deeper hrunning hcreate
    exact ⟨base, y, .running rfl hz hbase hfocus, hk, hlimit⟩
  | halt hs =>
    obtain ⟨-, -, rfl⟩ := Drive.halt_cases hs
    exact (hnew hnone hx ((World.generator?_modify_none hnone _ _).trans hnone.symm)).elim
  | generator | scripted | answered | call | advance | close | setLock | reclaim | elsewhere =>
    exact (hact rfl).elim

/-- Along a chain of generators that make one another the base depth rises. -/
theorem Deep.chain (h : Deep p) {g : GeneratorId} {gs : List GeneratorId} {base : Nat}
    {x : Generator (Nat ⊕ Unit) (Execution ⊕ Script.Frame)}
    (hx : p.session.world.generator? g = some x) (hb : x.handle = .inl base)
    (hchain : List.IsChain (fun a b => (a, b) ∈ p.made) (g :: gs)) : base + gs.length ≤ p.limit := by
  induction gs generalizing g x base with
  | nil =>
    have hborn := (h.resting g x hx).born
    rw [hb] at hborn
    exact hborn
  | cons g' gs ih =>
    obtain ⟨hmade, hrest⟩ := List.isChain_cons_cons.mp hchain
    obtain ⟨y, x', b, b', hy, hx', hyb, hb', hlt⟩ := h.descends _ hmade
    obtain rfl := Option.some.inj (hy.symm.trans hx)
    have hbase : b = base := Sum.inl.inj (hyb.symm.trans hb)
    have hle := ih hx' hb' hrest
    rw [List.length_cons]
    omega

theorem Deep.chains (h : Deep p) {g : GeneratorId} {gs : List GeneratorId}
    (hchain : List.IsChain (fun a b => (a, b) ∈ p.made) (g :: gs)) : gs.length ≤ p.limit := by
  cases gs with
  | nil => exact Nat.zero_le _
  | cons g' gs =>
    obtain ⟨hmade, -⟩ := List.isChain_cons_cons.mp hchain
    obtain ⟨x, -, b, -, hx, -, hb, -⟩ := h.descends _ hmade
    have hle := h.chain hx hb hchain
    omega

theorem refusedFirst_iff {name : String} {f : Function} (hf : s.function name = .ok f)
    (args : List Value) :
    (∀ fuel, s.call fuel name args =
      some (s, .error (.fault (.callDepthExceeded s.machine.config.maxCallDepth)))) ↔
      s.machine.config.maxCallDepth = 0 := by
  constructor
  · intro hall
    have hnow := hall 0
    simp only [Session.call, hf] at hnow
    split at hnow
    · assumption
    · split at hnow
      · cases (Prod.mk.inj (Option.some.inj hnow)).2
      · cases hnow
  · intro hlimit fuel
    simp only [Session.call, hf, hlimit, if_true]

theorem depthKept (h : p.Run) : p.DepthKept := by
  have hdeep := deep h
  refine ⟨fun base y hy => ?_, fun g x base hx hb => ?_, fun base y hy frame id args z u hcall hu => ?_,
    fun p' g x n hact hnone hx => hdeep.born n hact hnone hx, fun base y hy => ?_,
    fun name f args hf => refusedFirst_iff hf args, fun g gs hchain => hdeep.chains hchain⟩
  · exact ⟨(hdeep.nested hy).depth, (hdeep.nested hy).limit⟩
  · obtain ⟨hborn, hheld⟩ := hdeep.resting g x hx
    rw [hb] at hborn
    refine ⟨hborn, fun frame hframe => ?_⟩
    have hnested := hheld frame hframe
    rw [hb] at hnested
    cases frame with
    | inl y => exact ⟨y, rfl, by simpa [hnested.2] using hnested.1.depth, hnested.2⟩
    | inr y => exact hnested.elim
  · obtain ⟨hlt, hz, hcallers⟩ := Machine.call_silent hcall
    have hback := Machine.call_restores hcall hu
    exact ⟨hz, hz ▸ hlt, hback, fun hsame v => Machine.call_returns hcall hu hsame v⟩
  · exact Machine.refused_iff (hdeep.nested hy)

end Progress

end Session

open Session.Progress in
/-- The depth of calls over whole sessions. Whatever functions and limits a machine has, and whatever is done with
its session, at every step of it each execution under way is as deep as its base depth and its open calls make it
and within the limit, each paused one is back at its base depth, each open call gives back the depth that it
found, each new generator is one level below the execution that makes it, calls are refused for their depth just
at the limit, and chains of generators that make one another are no longer than the limit. So it is after each whole
call and each whole advance, whatever they come to; an advance may add to the chains. -/
theorem call_depth_bounded {p : Session.Progress} (h : p.Run) :
    p.DepthKept ∧
    (p.activity = .idle →
      (∀ fuel name args s' r, p.session.call fuel name args = some (s', r) → DepthKept ⟨s', .idle, p.made⟩) ∧
      ∀ fuel g input s' r, p.session.advance fuel g input = some (s', r) →
        ∃ more, DepthKept ⟨s', .idle, p.made ++ more⟩) := by
  refine ⟨depthKept h, fun hidle => ?_⟩
  obtain ⟨s, activity, made⟩ := p
  obtain rfl : activity = .idle := hidle
  constructor
  · intro fuel name args s' r hcall
    exact depthKept (h.later (later_call hcall))
  · intro fuel g input s' r hadvance
    obtain ⟨more, hlater⟩ := later_advance hadvance
    exact ⟨more, depthKept (h.later hlater)⟩

open Session.Progress in
/-- A generator whose body has just made another one of its kind, at the limit; the whole advance fails there. -/
theorem call_depth_bounded_of_recursion :
    ∃ p : Session.Progress, p.Run ∧ p.limit = 1 ∧
      List.IsChain (fun a b => (a, b) ∈ p.made) [0, 1] ∧ (∃ y, p.Context 0 y) ∧ p.DepthKept ∧
      ∃ (q : Session.Progress) (s' : Session) (r : Except GeneratorError Bool)
        (more : List (GeneratorId × GeneratorId)),
        q.Run ∧ q.activity = .idle ∧ q.session.advance 40 0 .next = some (s', r) ∧ r.toBool = false ∧
          DepthKept ⟨s', .idle, q.made ++ more⟩ := by
  let f : Function := ⟨"nest", 0, 0, #[.instantiate 0 0, .yieldFrom]⟩
  let s : Session := ⟨⟨⟨#[f], Std.TreeMap.empty.insert "nest" 0⟩, ⟨.unbounded, 1⟩⟩, ∅,
    ⟨.empty, (.silent, .empty), #[]⟩⟩
  have hf : s.function "nest" = .ok f := by
    simp [s, Session.function, Registry.getByName?, Registry.lookup, Registry.get?]
  have hyields : f.isGenerator = true := by simp [f, Function.isGenerator, Instruction.isYield]
  let x : Generator (Nat ⊕ Unit) (Execution ⊕ Script.Frame) := .fresh (.inl 0) f []
  let y := Machine.execution 0 f []
  let y' : Execution := { y.tick with frame := { y.frame with pc := 1 } }
  let world (xs : Array (Generator (Nat ⊕ Unit) (Execution ⊕ Script.Frame))) : Store :=
    ⟨.empty, (.silent, .empty), xs⟩
  have hgenerator : s.generator "nest" [] = .ok (0, s.setWorld (world #[x])) := by
    simp only [Session.generator, hf, bind, Except.bind, hyields, if_true]
    rfl
  -- The drive starts the body, which runs its first instruction.
  have hopen : (world #[x]).open? 0 .next =
    some (world #[x.setLock true], ⟨0, none, .enter none, []⟩) := rfl
  have hstart : Drive.step s.engine (world #[x.setLock true], ⟨0, none, .enter none, []⟩) =
    .next (world #[(x.setLock true).begin], ⟨0, none, .body (.inl y) .proceed, []⟩) := rfl
  have hcall : s.machine.call y' 0 [] = .create 1 f [] y' := by
    have hlimit : ¬ s.machine.config.maxCallDepth ≤ y'.depth := by decide
    simp only [Machine.call, show s.machine.registry.get? 0 = some f from rfl, hlimit, hyields, if_true,
      if_false]
    rfl
  have hmake : s.engine.step .empty (.silent, .empty) (.inl y) .proceed =
      (.empty, (.silent, .empty), .create (.inl 1) f [] (.inl y')) := by
    have hmachine : s.machine.step .empty .silent y .proceed = (.empty, .silent, .create 1 f [] y') :=
      congrArg (fun a => (Heap.empty, Output.silent, a)) hcall
    simp only [Session.engine, Engine.sum, Machine.engine, hmachine]
    rfl
  have hnest : Drive.step s.engine
      (world #[(x.setLock true).begin], ⟨0, none, .body (.inl y) .proceed, []⟩) =
    .next (world #[(x.setLock true).begin, .fresh (.inl 1) f []],
      ⟨0, none, .body (.inl y') (.value (.generator 1)), []⟩) := by
    rw [Drive.step_body rfl hmake]
    rfl
  have hmade : Drive.offspring s.engine
      (world #[(x.setLock true).begin], ⟨0, none, .body (.inl y) .proceed, []⟩) = [(0, 1)] := by
    simp only [Drive.offspring, show (world #[(x.setLock true).begin]).heap = .empty from rfl,
      show (world #[(x.setLock true).begin]).state = (.silent, .empty) from rfl, hmake]
    rfl
  have hidle : Session.Progress.Run ⟨s.setWorld (world #[x]), .idle, []⟩ :=
    ⟨s.machine, s.scripts, .empty, (.silent, .empty), (Later.refl _).next (.generator hgenerator)⟩
  have hlater := (Later.refl ⟨s.setWorld (world #[x]), .idle, []⟩).next (.advance hopen)
  have hlater' := (hlater.next (.step hstart)).next (.step hnest)
  have hrun := hidle.later hlater'
  have hends : ((s.setWorld (world #[x])).advance 40 0 .next).any (fun p => !p.2.toBool) = true := by
    decide +kernel
  obtain ⟨⟨s', r⟩, hadvance, hfails⟩ := (Option.any_eq_true _ _).mp hends
  obtain ⟨more, hkept⟩ := ((call_depth_bounded hidle).2 rfl).2 40 0 .next s' r hadvance
  refine ⟨_, hrun, rfl, ?_, ⟨y', .running rfl rfl rfl rfl⟩, (call_depth_bounded hrun).1,
    _, s', r, more, hidle, rfl, hadvance, by simpa using hfails, hkept⟩
  exact .cons_cons (List.mem_append_right _ (hmade ▸ List.mem_singleton_self _)) (.singleton _)

end YieldMachine
