import YieldMachine.Proofs.Drive.Passage

/-!
The pairs that a generator is given. Its body yields, a source that the body names gives its first pair, or the
generator passes on a further pair of that source. What the next step of a drive gives to a generator can be read
off beforehand (`Drive.postings`). Every step does what was read off (`step_posts`) and changes the generator's pair
in no other way (`Posts.pair`).
-/

namespace YieldMachine

variable {H F S : Type}

/-- How a generator comes by a pair. -/
inductive Manner where
  /-- Its body yields a value, under the next automatic key. -/
  | value
  /-- Its body yields a key and a value. -/
  | pair
  /-- Its body names a source, which gives its first pair. -/
  | opening
  /-- Its source gives a further pair, and the body does not run. -/
  | relay
  deriving DecidableEq, Repr

/-- A pair that is given to a generator. -/
structure Posting where
  manner : Manner
  key : Value
  value : Value

namespace Posting

def pair (r : Posting) : Value × Value := (r.key, r.value)

def fromSource (r : Posting) : Bool :=
  match r.manner with
  | .value | .pair => false
  | .opening | .relay => true

theorem opening_iff {r : Posting} (h : r.manner ≠ .relay) : r.manner = .opening ↔ r.fromSource = true := by
  unfold fromSource
  cases hm : r.manner with
  | relay => exact absurd hm h
  | value | pair | opening => decide

end Posting

/-- Whether the action can give the generator a pair. -/
def Action.mayPost : Action H F → Bool
  | .yieldPair .. | .yieldValue .. | .delegate .. => true
  | _ => false

namespace Delegation

/-- What the pending keys of a table give next. -/
def walked (t : Table Value) (pending : List Key) : Outcome :=
  match visit t pending with
  | some ((k, v), _) => .pair k v
  | none => .exhausted .null

def Outcome.postings (manner : Manner) : Outcome → List Posting
  | .pair k v => [⟨manner, k, v⟩]
  | .exhausted _ | .failed _ => []

end Delegation

namespace Generator

def pair (x : Generator H F) : Value × Value := (x.key, x.value)

/-- What the generator is given when it is entered. -/
def postingsOnEntry (x : Generator H F) : List Posting :=
  if x.isFinished then []
  else
    match x.delegation with
    | some (.table t pending) => (Delegation.walked t pending).postings .relay
    | _ => []

/-- What the generator is given at once when its body takes an action. -/
def postingsOn (x : Generator H F) (heap : Heap) : Action H F → List Posting
  | .yieldPair k v _ => [⟨.pair, k, v⟩]
  | .yieldValue v _ => [⟨.value, .int x.automaticKey, v⟩]
  | .delegate source _ =>
    match Delegation.ofValue heap source with
    | .ok (.table t pending) => (Delegation.walked t pending).postings .opening
    | _ => []
  | _ => []

end Generator

def Wait.manner : Wait F → Manner
  | .inBody _ => .opening
  | .paused => .relay

namespace Drive

/-- What the generator in focus, settled with this result, gives to the one that waits for it. -/
def postingsAfter (w : World H F S) (d : Drive F) (result : Except GeneratorError Bool) (g : GeneratorId) :
    List Posting :=
  match d.waiting with
  | link :: _ => if link.generator = g then (w.outcome d.current result).postings link.wait.manner else []
  | [] => []

/-- What the next step gives to a generator. -/
def postings (E : Engine H F S) (s : State H F S) (g : GeneratorId) : List Posting :=
  match s.2.focus with
  | .enter _ => if s.2.current = g then (s.1.generator? g).elim [] (·.postingsOnEntry) else []
  | .body frame reply =>
    let (heap, _, action) := E.step s.1.heap s.1.state frame reply
    if s.2.current = g then (s.1.generator? g).elim [] (·.postingsOn heap action) else []
  | .settled result =>
    -- A value that was kept back is taken up before anyone learns of the result.
    match s.2.resend, result with
    | some _, .ok _ => []
    | _, _ => postingsAfter s.1 s.2 result g

/-- What an action of the body gives to the generator, where the body stands then, and the generator afterwards. -/
inductive Says (x : Generator H F) : Action H F → List Posting → Position F → Generator H F → Prop where
  | yieldPair (k v : Value) (frame : F) :
      Says x (.yieldPair k v frame) [⟨.pair, k, v⟩] (.engaged frame .reported) (x.yieldPair k v)
  | yieldValue (v : Value) (frame : F) :
      Says x (.yieldValue v frame) [⟨.value, .int x.automaticKey, v⟩] (.engaged frame .reported) (x.yieldValue v)
  | delegate (named : Value) (frame : F) (source : Delegation) (o : Delegation.Outcome) :
      Says x (.delegate named frame) (o.postings .opening) (.engaged frame o.reply) (x.answered source o)
  | await (named : Value) (frame : F) : Says x (.delegate named frame) [] (.awaiting frame) x
  | quiet {action : Action H F} {p : Position F} {x' : Generator H F} (hq : action.mayPost = false)
      (h : Performs x action p x') : Says x action [] p x'

/-- What a generator can be given in one step of a drive, and what becomes of it. -/
inductive Posts (E : Engine H F S) :
    Position F → Generator H F → List Posting → Position F → Generator H F → Prop where
  | aside {p p' : Position F} {x x' : Generator H F} (h : Bystands p x p' x') : Posts E p x [] p' x'
  /-- The generator is entered, or its source has failed, and it is finished. -/
  | ended {x x' : Generator H F} (hf : x'.isFinished = true) (hpair : x'.pair = x.pair) :
      Posts E .outside x [] .over x'
  /-- The body is called. -/
  | called {x x' : Generator H F} {frame : F} {reply : Reply} (hr : reply = .proceed ∨ reply = .resume)
      (hpair : x'.pair = x.pair) : Posts E .outside x [] (.engaged frame reply) x'
  | relayed {x x' : Generator H F} {k v : Value} (hf : x'.isFinished = false) (hd : x'.isDelegating = true)
      (hpair : x'.pair = (k, v)) : Posts E .outside x [⟨.relay, k, v⟩] .over x'
  | answered {x : Generator H F} (frame : F) (source : Delegation) (o : Delegation.Outcome) :
      Posts E (.awaiting frame) x (o.postings .opening) (.engaged frame o.reply) (x.answered source o)
  | acted {x x' : Generator H F} {frame : F} {reply : Reply} {heap heap' : Heap} {state state' : S}
      {action : Action H F} {rs : List Posting} {p : Position F}
      (hE : E.step heap state frame reply = (heap', state', action)) (h : Says x action rs p x') :
      Posts E (.engaged frame reply) x rs p x'

variable {E : Engine H F S} {w w' : World H F S} {d d' : Drive F} {s' : State H F S} {g : GeneratorId}
  {x x' : Generator H F} {sent : Option Value} {p p' : Position F} {rs : List Posting}

/-! ### What is given in each kind of step -/

theorem postings_resend {v : Value} {b : Bool} (hfocus : d.focus = .settled (.ok b)) (hv : d.resend = some v) :
    postings E (w, d) g = [] := by
  simp only [postings, hfocus, hv]

theorem postings_done {result : Except GeneratorError Bool} (h : d.Done result) :
    postings E (w, d) g = postingsAfter w d result g := by
  obtain ⟨hfocus, hkeep⟩ := h
  simp only [postings, hfocus]

/-- A result is given to the one that waits for it only. -/
theorem postings_settled {result : Except GeneratorError Bool} (hfocus : d.focus = .settled result)
    (hnot : d.Done result → ∀ link ls, d.waiting = link :: ls → link.generator ≠ g) : postings E (w, d) g = [] := by
  rcases settled_cases hfocus with ⟨v, b, hok, hv⟩ | hdone
  · exact postings_resend hok hv
  · rw [postings_done hdone, postingsAfter]
    cases hw : d.waiting with
    | nil => rfl
    | cons link ls => exact if_neg (hnot hdone link ls hw)

theorem postings_halt {r : Result H F S} (h : step E (w, d) = .halt r) : postings E (w, d) g = [] := by
  obtain ⟨hdone, hw, -⟩ := halt_cases h
  exact postings_settled hdone.1 fun _ _ _ hw' => by cases hw.symm.trans hw'

/-- Only the one that acts is given anything. -/
theorem postings_of_ne_actor (hc : Chained w d) (hs : step E (w, d) = .next s') (h : g ≠ actor d s'.2) :
    postings E (w, d) g = [] := by
  cases hfocus : d.focus with
  | enter sent =>
    rw [actor, hfocus] at h
    simp only [postings, hfocus, if_neg (Ne.symm h)]
  | body frame reply =>
    rw [actor, hfocus] at h
    simp only [postings, hfocus, if_neg (Ne.symm h)]
  | settled result =>
    refine postings_settled hfocus fun hdone link ls hw => ?_
    rw [step_handOver hdone hw] at hs
    obtain rfl := Transition.next.inj hs
    rw [actor, hfocus, (handOver_turn E result hc hw).current] at h
    exact Ne.symm h

/-- Nothing is given to a generator that is not there. -/
theorem postings_of_absent (hc : Chained w d) (hnone : w.generator? g = none) : postings E (w, d) g = [] := by
  cases hfocus : d.focus with
  | enter sent => simp [postings, hfocus, hnone]
  | body frame reply => simp [postings, hfocus, hnone]
  | settled result =>
    refine postings_settled hfocus fun _ link ls hw he => hc.not_mem_of_none hnone ?_
    rw [chain, hw, ← he]
    exact List.mem_cons_of_mem _ List.mem_cons_self

/-- A generator that waited is given what its source gives. -/
theorem Receives.posts {child : GeneratorId} {o : Delegation.Outcome} {wait : Wait F}
    (h : Receives x child o wait p x') : Posts E wait.position x (o.postings wait.manner) p x' := by
  cases h with
  | paused hf hd hadvances =>
    cases hadvances with
    | pair k v => exact .relayed hf (by simp [Generator.isDelegating, Generator.setPair, hd]) rfl
    | exhausted => exact .called (.inr rfl) rfl
    | failed => exact .ended rfl rfl
  | inBody frame => exact .answered frame (.child child) o

theorem enter_posts (hc : Chained w d) (hx : w.generator? d.current = some x) (hfits : x.FitsRole .idle) :
    ∃ x', (enter E w d x sent).1.generator? d.current = some x' ∧
      Posts E .outside x x.postingsOnEntry ((enter E w d x sent).2.position d.current) x' := by
  have hpasses : ∃ x', (enter E w d x sent).1.generator? d.current = some x' ∧ _ := enter_passes hc hx hfits
  obtain ⟨x', hx', hpassage⟩ := hpasses
  refine ⟨x', hx', ?_⟩
  generalize (enter E w d x sent).2.position d.current = p at hpassage
  generalize hline : [Line.entered (if x.isReceptive then sent else none)] = ls at hpassage
  cases hpassage with
  | stay | lock | close | forward | leave => cases hline
  | spent hf =>
    have hnone : x.postingsOnEntry = [] := if_pos hf
    exact hnone ▸ .ended hf rfl
  | start hf hd =>
    have hnone : x.postingsOnEntry = [] := by simp [Generator.postingsOnEntry, hf, hd]
    exact hnone ▸ .called (.inl rfl) rfl
  | resume hf hd hframe sent =>
    have hnone : x.postingsOnEntry = [] := by simp [Generator.postingsOnEntry, hf, hd]
    exact hnone ▸ .called (.inr rfl) (by cases sent <;> rfl)
  | @walk _ t pending rest k v hf hd hv =>
    have hone : x.postingsOnEntry = [⟨.relay, k, v⟩] := by
      simp [Generator.postingsOnEntry, hf, hd, Delegation.walked, hv, Delegation.Outcome.postings]
    exact hone ▸ .relayed hf rfl rfl
  | exhaust hf hd =>
    have hnone : x.postingsOnEntry = [] := by
      simp [Generator.postingsOnEntry, hf, hd, Delegation.walked, Delegation.visit, Delegation.Outcome.postings]
    exact hnone ▸ .called (.inr rfl) rfl
  | follow hf hd =>
    have hnone : x.postingsOnEntry = [] := by simp [Generator.postingsOnEntry, hf, hd]
    exact hnone ▸ .aside (.stay _ x)
  | breakOff hf hd =>
    have hnone : x.postingsOnEntry = [] := by simp [Generator.postingsOnEntry, hf, hd]
    exact hnone ▸ .ended rfl rfl

theorem delegate_says {named : Value} {frame : F} (hc : Chained w d) (hx : w.generator? d.current = some x) :
    ∃ x', (delegate w d named frame).1.generator? d.current = some x' ∧
      Says x (.delegate named frame) (x.postingsOn w.heap (.delegate named frame))
        ((delegate w d named frame).2.position d.current) x' := by
  have hanswer (source : Delegation) (o : Delegation.Outcome) :
      ∃ x', (delegated w d frame source o).1.generator? d.current = some x' ∧
        Says x (.delegate named frame) (o.postings .opening)
          ((delegated w d frame source o).2.position d.current) x' := by
    obtain ⟨hx', hp⟩ := delegated_answered hx frame source o
    exact ⟨x.answered source o, hx', hp ▸ .delegate named frame source o⟩
  rw [delegate, Generator.postingsOn]
  cases hsource : Delegation.ofValue w.heap named with
  | error e => exact hanswer (.child d.current) (.failed e)
  | ok source =>
    cases source with
    | table t pending =>
      simp only [Delegation.walked]
      cases hv : Delegation.visit t pending with
      | none => exact hanswer ..
      | some visited => exact hanswer ..
    | child c =>
      simp only
      split
      · next s' hs' =>
        obtain ⟨hx', hp⟩ := descend_waits hc hs' hx
        exact ⟨x, hx', hp ▸ .await named frame⟩
      · exact hanswer (.child c) (.failed _)

theorem perform_says (E : Engine H F S) (action : Action H F) (hc : Chained w d)
    (hx : w.generator? d.current = some x) :
    ∃ x', (perform E w d action).1.generator? d.current = some x' ∧
      Says x action (x.postingsOn w.heap action) ((perform E w d action).2.position d.current) x' := by
  cases action with
  | yieldPair k v frame =>
    exact ⟨x.yieldPair k v, by simp [perform, hx], position_focus d (.body ..) ▸ .yieldPair k v frame⟩
  | yieldValue v frame =>
    exact ⟨x.yieldValue v, by simp [perform, hx], position_focus d (.body ..) ▸ .yieldValue v frame⟩
  | delegate named frame => exact delegate_says hc hx
  | _ =>
    obtain ⟨x', hx', hperforms⟩ := perform_performs E _ hc hx
    exact ⟨x', hx', .quiet rfl hperforms⟩

/-- In every step of a drive, a generator that fits its role is given what was read off. -/
theorem step_posts (hc : Chained w d) (hs : step E (w, d) = .next s') (hx : w.generator? g = some x)
    (hfits : x.FitsRole (d.role g)) :
    ∃ x', s'.1.generator? g = some x' ∧
      Posts E (d.position g) x (postings E (w, d) g) (s'.2.position g) x' := by
  cases step_involves hc hs hx with
  | aside hg =>
    rw [postings_of_ne_actor hc hs hg]
    obtain ⟨x', hx', hby⟩ := (step_strides hc hs).bystander hc hg hx
    exact ⟨x', hx', .aside hby⟩
  | enter hfocus =>
    have hgiven : postings E (w, d) d.current = x.postingsOnEntry := by simp [postings, hfocus, hx]
    rw [role_current, hfocus] at hfits
    rw [hgiven, position_current, hfocus]
    exact enter_posts hc hx hfits
  | @act frame reply heap state action hfocus hE =>
    have hgiven : postings E (w, d) d.current = x.postingsOn heap action := by simp [postings, hfocus, hE, hx]
    have hc' : Chained { w with heap := heap, state := state } d := ⟨hc.nodup, hc.locked, hc.paused⟩
    obtain ⟨x', hx', hsays⟩ := perform_says E action hc' hx
    rw [hgiven, position_current, hfocus]
    exact ⟨x', hx', .acted hE hsays⟩
  | resend hfocus hv =>
    rw [postings_resend hfocus hv]
    exact ⟨x, hx, .aside (resend_rests hfocus x)⟩
  | @handOver result link ls hdone hw hne =>
    have hgiven : postings E (w, d) link.generator = (w.outcome d.current result).postings link.wait.manner := by
      rw [postings_done hdone, postingsAfter, hw]
      exact if_pos rfl
    rw [hgiven, position_waiting hw hne]
    rw [role_waiting hw hne] at hfits
    obtain ⟨x', hx', hreceives⟩ := handOver_receives hc hw hne hx hfits
    exact ⟨x', hx', hreceives.posts⟩

/-! ### What becomes of the pair -/

theorem pair_answered (x : Generator H F) (source : Delegation) (o : Delegation.Outcome) (manner : Manner) :
    (x.answered source o).pair = ((o.postings manner).getLast?.map Posting.pair).getD x.pair := by
  cases o <;> rfl

theorem Performs.pair {action : Action H F} (h : Performs x action p x') (hq : action.mayPost = false) :
    x'.pair = x.pair := by
  cases h with
  | yieldPair | yieldValue | delegate => cases hq
  | _ => rfl

/-- A generator shows the last pair that it was given. -/
theorem Posts.pair (h : Posts E p x rs p' x') : x'.pair = (rs.getLast?.map Posting.pair).getD x.pair := by
  cases h with
  | aside hby => cases hby <;> rfl
  | ended _ hpair | called _ hpair | relayed _ _ hpair => exact hpair
  | answered frame source o => exact pair_answered x source o .opening
  | acted hE hsays =>
    cases hsays with
    | yieldPair | yieldValue | await => rfl
    | delegate _ _ source o => exact pair_answered x source o .opening
    | quiet hq hperforms => exact hperforms.pair hq

theorem Posts.nil_of_over (h : Posts E .over x rs p' x') : rs = [] := by
  cases h with
  | aside => rfl

/-- The body is being run. -/
def Position.inBody : Position F → Bool
  | .awaiting _ | .engaged .. => true
  | .outside | .over => false

theorem opening_of_mem_postings {o : Delegation.Outcome} {r : Posting} (hr : r ∈ o.postings .opening) :
    r.manner = .opening := by
  cases o with
  | pair k v => exact List.mem_singleton.mp hr ▸ rfl
  | exhausted | failed => cases hr

theorem Performs.inBody {action : Action H F} (h : Performs x action p x') : p.inBody = true ∨ p = .over := by
  cases h with
  | suspend | finish | fail => exact .inr rfl
  | _ => exact .inl rfl

/-- A body that is being run is run until the generator has had its turn, and passes nothing on. -/
theorem Posts.inBody (h : Posts E p x rs p' x') (hp : p.inBody = true) :
    (p'.inBody = true ∨ p' = .over) ∧ ∀ r ∈ rs, r.manner ≠ .relay := by
  have hopening {o : Delegation.Outcome} (r : Posting) (hr : r ∈ o.postings .opening) : r.manner ≠ .relay := by
    rw [opening_of_mem_postings hr]
    decide
  cases h with
  | aside hby =>
    cases hby with
    | stay => exact ⟨.inl hp, by simp⟩
    | lock | rest | close => cases hp
  | ended | called | relayed => cases hp
  | answered => exact ⟨.inl rfl, hopening⟩
  | acted hE hsays =>
    cases hsays with
    | yieldPair | yieldValue => exact ⟨.inl rfl, by simp⟩
    | delegate => exact ⟨.inl rfl, hopening⟩
    | await => exact ⟨.inl rfl, by simp⟩
    | quiet hq hperforms => exact ⟨hperforms.inBody, by simp⟩

end Drive

end YieldMachine
