import YieldMachine.Proofs.Drive.Stride
import YieldMachine.Proofs.Lifecycle

/-!
What happens to one generator. An engine can be made to note every call that it gets (`Engine.recorded`). The
notes about one generator follow a fixed course (`Account.Next`): in every step of a drive they lead from where
the generator stood to where it stands (`Stride.actor_account`), and nothing is noted of any other
(`Stride.other_account`).
-/

namespace YieldMachine

variable {H F S : Type}

/-- What happens to a generator: its engine's part, the end of a broken delegation, and its being closed. -/
inductive Event (F : Type) where
  | started
  | resumed (frame : F)
  | discarded (frame : F)
  | yielded (frame : F)
  | returned (v : Value)
  | failed (e : BodyError)
  | brokenOff (e : DelegationError)
  | closed

namespace Event

/-- A frame is taken back when its body is resumed. -/
def taken (frame : F) : Reply → List (Event F)
  | .resume => [.resumed frame]
  | _ => []

/-- What an action ends a run of the body with. -/
def given : Action H F → List (Event F)
  | .suspend frame => [.yielded frame]
  | .finish v => [.returned v]
  | .fail e => [.failed e]
  | _ => []

end Event

/-- The engine with a log of the calls that it gets and of the results that it gives. -/
def Engine.recorded (E : Engine H F S) : Engine H F (S × List (Event F)) where
  start h f args s :=
    let (frame, state) := E.start h f args s.1
    (frame, state, s.2 ++ [.started])
  step heap s frame reply :=
    let (heap, state, action) := E.step heap s.1 frame reply
    (heap, (state, s.2 ++ Event.taken frame reply ++ Event.given action), action)
  discard frame s := (E.discard frame s.1, s.2 ++ [.discarded frame])
  held := E.held

def Focus.brokenOff : Focus F → List (Event F)
  | .settled (.error (.delegation e)) => [.brokenOff e]
  | _ => []

namespace Drive

/-- The generator that acts in a step: the one in turn, or the one that a settled generator hands over to. -/
def actor (d d' : Drive F) : GeneratorId :=
  match d.focus with
  | .settled _ => d'.current
  | _ => d.current

end Drive

/-! ### The course of one generator -/

/-- How a generator ended. -/
inductive Conclusion where
  | returned (v : Value)
  | failed (e : GeneratorError)
  | closed

/-- Where a generator stands with its engine. -/
inductive Account (F : Type) where
  | unopened
  | running
  | held (frame : F)
  /-- Its frame was discarded. -/
  | bereft
  | over (c : Conclusion)

namespace Account

inductive Next : Account F → Event F → Account F → Prop where
  | start : Next .unopened .started .running
  | shut : Next .unopened .closed (.over .closed)
  | yield (frame : F) : Next .running (.yielded frame) (.held frame)
  | ret (v : Value) : Next .running (.returned v) (.over (.returned v))
  | fail (e : BodyError) : Next .running (.failed e) (.over (.failed (.executionFailed e)))
  | resume (frame : F) : Next (.held frame) (.resumed frame) .running
  | discard (frame : F) : Next (.held frame) (.discarded frame) .bereft
  | close : Next .bereft .closed (.over .closed)
  | breakOff (e : DelegationError) : Next .bereft (.brokenOff e) (.over (.failed (.delegation e)))

/-- These events lead from the first account to the second. -/
inductive Leads : Account F → List (Event F) → Account F → Prop where
  | refl (a : Account F) : Leads a [] a
  | snoc {a b c : Account F} {es : List (Event F)} {e : Event F} (h : Leads a es b)
      (n : Next b e c) : Leads a (es ++ [e]) c

variable {a b c : Account F} {es es' : List (Event F)}

theorem Leads.single {e : Event F} (n : Next a e b) : Leads a [e] b := .snoc (.refl a) n

theorem Leads.trans (h : Leads a es b) (h' : Leads b es' c) : Leads a (es ++ es') c := by
  induction h' with
  | refl => simpa using h
  | snoc _ n ih =>
    rw [← List.append_assoc]
    exact .snoc ih n

end Account

/-- The account of a generator whose body does not run. -/
def Generator.account (x : Generator H F) : Account F :=
  if x.isFinished then
    match x.returnValue, x.lastError with
    | some v, _ => .over (.returned v)
    | none, some e => .over (.failed e)
    | none, none => .over .closed
  else
    match x.frame with
    | some frame => .held frame
    | none => if x.isStarted then .bereft else .unopened

namespace Drive

/-- The account of a generator at a position. A body that is about to be resumed still holds its frame. -/
def Position.account (x : Generator H F) : Position F → Account F
  | .engaged frame .resume => .held frame
  | .engaged .. | .awaiting _ => .running
  | .outside | .over => x.account

def positionAmong (g : GeneratorId) : List (Link F) → Position F
  | [] => .outside
  | l :: ls => if l.generator = g then l.wait.position else positionAmong g ls

def position (d : Drive F) (g : GeneratorId) : Position F :=
  if d.current = g then d.focus.position else positionAmong g d.waiting

/-- The role of a generator at a position; a settled one fits as an idle one does. -/
def Position.role : Position F → Role
  | .engaged .. | .awaiting _ => .running
  | .outside | .over => .idle

end Drive

/-! ### Accounts follow the drive -/

namespace Generator

variable {x x' : Generator H F}

theorem Steady.account (h : x.Steady x') : x'.account = x.account := by
  simp only [Generator.account, h.finished, h.returnValue, h.lastError, h.frame, h.started]

theorem In.account_fresh (h : x.In .fresh) : x.account = .unopened := by
  simp [account, isFinished, isStarted, h.1, h.2.1]

theorem account_of_frame {frame : F} (hf : x.isFinished = false) (hx : x.frame = some frame) :
    x.account = .held frame := by
  simp [account, hf, hx]

theorem In.account_suspended {frame : F} (h : x.In .suspended) (hx : x.frame = some frame) :
    x.account = .held frame :=
  account_of_frame (by simp [isFinished, h.1]) hx

theorem FitsRole.of_frame {frame : F} (h : x.FitsRole .idle) (hx : x.frame = some frame) :
    x.In .suspended := by
  obtain ⟨⟨p, hp⟩, -⟩ := h
  cases p with
  | fresh => simp [hp.2.1] at hx
  | suspended => exact hp
  | finished => simp [hp.2.1] at hx

theorem without_frame (hx : x.frame = none) : { x with frame := none } = x := by
  obtain ⟨⟩ := x
  simp only at hx
  rw [hx]

/-- An idle generator gives up the frame that it holds, if it holds one. -/
theorem FitsRole.bereaved (h : x.FitsRole .idle) :
    Account.Leads x.account (x.frame.toList.map .discarded)
      { x with frame := none : Generator H F }.account := by
  cases hx : x.frame with
  | none =>
    rw [without_frame hx]
    exact .refl _
  | some frame =>
    have hs := h.of_frame hx
    have hbereft : ({ x with frame := none } : Generator H F).account = .bereft := by
      simp [account, isFinished, isStarted, hs.1]
    rw [hs.account_suspended hx, hbereft]
    exact .single (.discard frame)

theorem FitsRole.terminated (h : x.FitsRole .idle) (hf : x.isFinished = false) :
    Account.Leads x.account (x.frame.toList.map .discarded ++ [.closed]) x.terminate.account := by
  obtain ⟨⟨p, hp⟩, -⟩ := h
  cases p with
  | fresh =>
    have hclosed : x.terminate.account = .over .closed := by
      simp [account, terminate, isFinished, Lifecycle.terminal, hp.2.2.2.1, hp.2.2.2.2.1]
    rw [hp.account_fresh, hp.2.1, hclosed]
    exact .single .shut
  | suspended =>
    have hclosed : x.terminate.account = .over .closed := by
      simp [account, terminate, isFinished, Lifecycle.terminal, hp.2.2.1, hp.2.2.2]
    obtain ⟨frame, hframe⟩ := Option.isSome_iff_exists.mp hp.2.1
    rw [hp.account_suspended hframe, hframe, hclosed]
    exact .snoc (.single (.discard frame)) .close
  | finished => simp [isFinished, hp.1] at hf

end Generator

namespace Drive

variable {E : Engine H F S} {w : World H F (S × List (Event F))} {x x' : Generator H F}

theorem giveUp_log (frame : Option F) (s : S × List (Event F)) :
    (E.recorded.giveUp frame s).2 = s.2 ++ frame.toList.map .discarded := by
  cases frame with
  | some frame => rfl
  | none => simp [Engine.giveUp]

/-- A step of a running body: a frame is taken back first if it is resumed. -/
theorem step_log {heap heap' : Heap} {s s' : S × List (Event F)} {frame : F} {reply : Reply}
    {action : Action H F} (h : E.recorded.step heap s frame reply = (heap', s', action)) :
    s'.2 = s.2 ++ Event.taken frame reply ++ Event.given action := by
  simp only [Engine.recorded, Prod.mk.injEq] at h
  obtain ⟨-, rfl, rfl⟩ := h
  rfl

theorem taken_leads (x : Generator H F) (frame : F) (reply : Reply) :
    Account.Leads (Position.account x (.engaged frame reply)) (Event.taken frame reply) .running := by
  cases reply with
  | resume => exact .single (.resume frame)
  | _ => exact .refl _

theorem account_engaged {frame : F} {reply : Reply} (h : reply ≠ .resume) (x : Generator H F) :
    Position.account x (.engaged frame reply) = .running := by
  cases reply with
  | resume => exact absurd rfl h
  | _ => rfl

theorem ne_resume_of_leads {action : Action H F} {frame : F} {reply : Reply}
    (h : action.Leads frame reply) : reply ≠ .resume ∧ Event.given action = ([] : List (Event F)) := by
  cases h with
  | delegate _ _ hreply => cases hreply <;> exact ⟨nofun, rfl⟩
  | _ => exact ⟨nofun, rfl⟩

/-- What a generator does in its turn, and what is noted of it, takes its account along. -/
theorem act_account {p : Position F} {heap : Heap} {s : S × List (Event F)} {focus : Focus F}
    (h : Act E.recorded w x p heap s focus x') (hlog : w.state.2 = []) (hfits : x.FitsRole p.role) :
    Account.Leads (p.account x) (s.2 ++ focus.brokenOff) (focus.position.account x') := by
  cases h with
  | settle b hsteady =>
    rw [hlog]
    have hsame : Position.account x' (.over : Position F) = x.account := hsteady.account
    exact hsame ▸ .refl _
  | start hs =>
    have hfresh := (hfits.fresh hs).account_fresh
    have hnote : (E.recorded.start x.handle x.function x.arguments w.state).2.2 =
        w.state.2 ++ [.started] := rfl
    rw [hnote, hlog]
    have hstart : Position.account x (.outside : Position F) = .unopened := hfresh
    exact hstart ▸ .single .start
  | @resume y frame hsteady hx =>
    rw [hlog]
    have hheld : Position.account x (.outside : Position F) = .held frame :=
      (hfits.of_frame hx).account_suspended hx
    exact hheld ▸ .refl _
  | lapse hsteady hx hf hlive =>
    -- A paused generator that fits holds a frame.
    have hsome : x.frame.isSome = true := by
      rcases hlive with hs | hd
      · exact (hfits.suspended hf hs).2.1
      · obtain ⟨⟨p, hp⟩, -⟩ := hfits
        exact hp.isDelegating hd
    simp [hx] at hsome
  | breakOff hd e =>
    obtain ⟨source, hsource⟩ := Option.isSome_iff_exists.mp hd
    have hpaused := hfits.delegating hsource
    obtain ⟨frame, hframe⟩ := Option.isSome_iff_exists.mp hpaused.2.1
    have hheld : Position.account x (.outside : Position F) = .held frame :=
      hpaused.account_suspended hframe
    have hnone : (x.terminate.setError (.delegation e)).returnValue = none := hpaused.2.2.1
    have hover : Position.account (x.terminate.setError (.delegation e)) (.over : Position F) =
        .over (.failed (.delegation e)) := by
      simp only [Position.account, Generator.account, hnone]
      rfl
    rw [giveUp_log, hlog, hframe, hheld, Focus.position, hover]
    exact .snoc (.single (.discard frame)) (.breakOff e)
  | answer hr hsteady =>
    rw [hlog]
    cases hr <;> exact .refl _
  | @goOn frame frame' reply reply' _ _ action _ hE ha hsteady =>
    obtain ⟨hreply, hgiven⟩ := ne_resume_of_leads ha
    have hrunning : Position.account x' (Focus.body frame' reply').position = .running :=
      account_engaged hreply x'
    rw [step_log hE, hlog, hgiven, hrunning]
    simpa [Focus.brokenOff] using taken_leads x frame reply
  | @suspend frame frame' reply _ _ hE =>
    have hheld : Position.account (x.hold frame') (.over : Position F) = .held frame' :=
      Generator.account_of_frame (x := x.hold frame') hfits.unfinished rfl
    rw [step_log hE, hlog, Focus.position, hheld]
    simpa [Event.given, Focus.brokenOff] using Account.Leads.snoc (taken_leads x frame reply) (.yield frame')
  | @finish frame reply _ _ v hE =>
    have hover : Position.account (x.setReturn v).terminate (.over : Position F) =
        .over (.returned v) := rfl
    rw [giveUp_log, step_log hE, hlog, hfits.frame, Focus.position, hover]
    simpa [Event.given, Focus.brokenOff] using Account.Leads.snoc (taken_leads x frame reply) (.ret v)
  | @fail frame reply _ _ e hE =>
    have hnone : (x.terminate.setError (.executionFailed e)).returnValue = none := hfits.returnValue
    have hover : Position.account (x.terminate.setError (.executionFailed e)) (.over : Position F) =
        .over (.failed (.executionFailed e)) := by
      simp only [Position.account, Generator.account, hnone]
      rfl
    rw [giveUp_log, step_log hE, hlog, hfits.frame, Focus.position, hover]
    simpa [Event.given, Focus.brokenOff] using Account.Leads.snoc (taken_leads x frame reply) (.fail e)

variable {w' : World H F (S × List (Event F))} {d d' : Drive F} {g : GeneratorId}

theorem positionAmong_of_not_mem {ls : List (Link F)} (h : g ∉ ls.map Link.generator) :
    positionAmong g ls = .outside := by
  induction ls with
  | nil => rfl
  | cons l ls ih =>
    simp only [List.map_cons, List.mem_cons, not_or] at h
    rw [positionAmong, if_neg (Ne.symm h.1), ih h.2]

theorem position_current (d : Drive F) : d.position d.current = d.focus.position := if_pos rfl

theorem position_of_ne (h : g ≠ d.current) : d.position g = positionAmong g d.waiting :=
  if_neg (Ne.symm h)

theorem position_same (h : g ≠ d.current) (resend : Option Value) (focus : Focus F) :
    position ⟨d.current, resend, focus, d.waiting⟩ g = d.position g := by
  rw [position, position, if_neg (Ne.symm h), if_neg (Ne.symm h)]

theorem position_of_not_mem (h : g ∉ d.chain) : d.position g = .outside := by
  simp only [chain, List.mem_cons, not_or] at h
  rw [position_of_ne h.1, positionAmong_of_not_mem h.2]

theorem position_turnTo (y : Generator H F) (c : GeneratorId) (sent : Option Value)
    (ls : List (Link F)) : (turnTo y c sent ls).position c = .outside := by
  rw [turnTo]
  split <;> simp [position, Focus.position]

theorem position_turnTo_of_ne {c : GeneratorId} (h : g ≠ c) (y : Generator H F) (sent : Option Value)
    (ls : List (Link F)) : (turnTo y c sent ls).position g = positionAmong g ls := by
  rw [position_of_ne (by rwa [turnTo_current]), turnTo_waiting]

theorem brokenOff_turnTo (y : Generator H F) (c : GeneratorId) (sent : Option Value)
    (ls : List (Link F)) : (turnTo y c sent ls).focus.brokenOff = [] := by
  rw [turnTo]
  split <;> rfl

theorem actor_same {focus : Focus F} {resend : Option Value} :
    actor d ⟨d.current, resend, focus, d.waiting⟩ = d.current := by
  rw [actor]
  split <;> rfl

theorem fits_focus {focus : Focus F} (h : x.FitsRole focus.role) :
    x.FitsRole focus.position.role := by
  cases focus with
  | enter sent => exact h
  | body frame reply => exact h
  | settled result => exact h.rest

theorem fits_wait {wait : Wait F} (h : x.FitsRole wait.role) : x.FitsRole wait.position.role := by
  cases wait <;> exact h

/-- The actor's account follows what is noted in the step. -/
theorem Stride.actor_account (hc : Chained w d) (hlog : w.state.2 = [])
    (h : Stride E.recorded w d w' d')
    (hfits : ∀ x, w.generator? (actor d d') = some x → x.FitsRole (d.role (actor d d'))) :
    ∃ x x', w.generator? (actor d d') = some x ∧ w'.generator? (actor d d') = some x' ∧
      Account.Leads ((d.position (actor d d')).account x) (w'.state.2 ++ d'.focus.brokenOff)
        ((d'.position (actor d d')).account x') := by
  cases h with
  | @act x x' heap s focus hx hact =>
    rw [actor_same] at hfits ⊢
    have hrole := hfits x hx
    rw [role_current] at hrole
    refine ⟨x, x', hx, World.generator?_replace_self hx x', ?_⟩
    rw [position_current, position]
    simp only [if_true]
    exact act_account hact hlog (fits_focus hrole)
  | @create frame frame' reply heap s handle f args hfocus hE =>
    obtain ⟨x, hx, -⟩ := hc.current
    have hne : d.current ≠ w.generators.size := by
      intro he
      rw [he, World.generator?_size] at hx
      cases hx
    rw [actor_same]
    refine ⟨x, x, hx, by rw [World.generator?_create, if_neg hne]; exact hx, ?_⟩
    have hnotes : (World.create { w with heap := heap, state := s } handle f args).2.state.2 =
        Event.taken frame reply := by
      have hstep := step_log hE
      simpa [hlog, Event.given, World.create] using hstep
    have hquiet (reply : Reply) : (Focus.body frame' reply).brokenOff = [] := rfl
    rw [hnotes, hquiet, List.append_nil, position_current, position, hfocus]
    simp only [if_true]
    exact taken_leads x frame reply
  | resend hfocus hv =>
    obtain ⟨x, hx, -⟩ := hc.current
    rw [actor_same]
    refine ⟨x, x, hx, hx, ?_⟩
    rw [position_current, position, hfocus, hlog]
    simp only [if_true]
    exact .refl _
  | @follow c y sent hfocus hy hl =>
    obtain ⟨x, hx, -⟩ := hc.current
    have hne : d.current ≠ c := fun he =>
      hc.not_mem_of_unlocked hy hl (he ▸ List.mem_cons_self)
    have hactor (d' : Drive F) : actor d d' = d.current := by rw [actor, hfocus]
    rw [hactor]
    refine ⟨x, x, hx, (World.generator?_lock_of_ne hne).trans hx, ?_⟩
    have hnotes : (w.lock c).state.2 = [] := hlog
    rw [hnotes, brokenOff_turnTo, position_turnTo_of_ne hne, position_current, hfocus, positionAmong,
      if_pos rfl]
    exact .refl _
  | @delegate frame frame' reply heap s source c y hfocus hE hy hl =>
    obtain ⟨x, hx, -⟩ := hc.current
    have hne : d.current ≠ c := fun he =>
      hc.not_mem_of_unlocked hy hl (he ▸ List.mem_cons_self)
    have hactor (d' : Drive F) : actor d d' = d.current := by rw [actor, hfocus]
    rw [hactor]
    refine ⟨x, x, hx, (World.generator?_lock_of_ne hne).trans hx, ?_⟩
    have hnotes : (World.lock { w with heap := heap, state := s } c).state.2 = Event.taken frame reply := by
      have hstep := step_log hE
      simpa [hlog, Event.given, World.lock, World.modify] using hstep
    rw [hnotes, brokenOff_turnTo, List.append_nil, position_turnTo_of_ne hne, position_current, hfocus,
      positionAmong, if_pos rfl]
    exact taken_leads x frame reply
  | @handOver result link ls x x' heap s focus hdone hw hx hne hact =>
    have hactor (d' : Drive F) : actor d d' = d'.current := by rw [actor, hdone.1]
    rw [hactor] at hfits ⊢
    have hrole := hfits x hx
    rw [role, if_neg (Ne.symm hne), hw, roleAmong, if_pos rfl] at hrole
    have hx' : (w.unlock d.current).generator? link.generator = some x :=
      (World.generator?_unlock_of_ne hne).trans hx
    refine ⟨x, x', hx, World.generator?_replace_self hx' x', ?_⟩
    rw [position_of_ne hne, hw, positionAmong, if_pos rfl, position]
    simp only [if_true]
    exact act_account hact hlog (fits_wait hrole)

theorem turned_account {c : GeneratorId} {y : Generator H F} {sent resend : Option Value}
    {wait : Wait F} (hc : Chained w d) (hy : w.generator? c = some y) (hl : y.locked = false)
    (hg : g ≠ d.current) (hx' : (w.lock c).generator? g = some x') :
    ∃ x, w.generator? g = some x ∧
      ((turnTo y c sent (⟨d.current, resend, wait⟩ :: d.waiting)).position g).account x' =
        (d.position g).account x := by
  by_cases hgc : g = c
  · subst hgc
    rw [World.generator?_lock_self, hy] at hx'
    obtain rfl := Option.some.inj hx'
    refine ⟨y, hy, ?_⟩
    rw [position_turnTo, position_of_not_mem (hc.not_mem_of_unlocked hy hl)]
    rfl
  · refine ⟨x', (World.generator?_lock_of_ne hgc).symm.trans hx', ?_⟩
    rw [position_turnTo_of_ne hgc, positionAmong, if_neg (Ne.symm hg), position_of_ne hg]

/-- Nobody else's account changes, and a new generator has none yet. -/
theorem Stride.other_account (hc : Chained w d) (h : Stride E.recorded w d w' d')
    (hg : g ≠ actor d d') (hx' : w'.generator? g = some x') :
    (∃ x, w.generator? g = some x ∧
      (d'.position g).account x' = (d.position g).account x) ∨
    w.generator? g = none ∧ (d'.position g).account x' = .unopened := by
  cases h with
  | @act x y heap s focus hx hact =>
    rw [actor_same] at hg
    rw [World.generator?_replace_of_ne hg] at hx'
    exact .inl ⟨x', hx', by rw [position_same hg]⟩
  | @create frame frame' reply heap s handle f args hfocus hE =>
    rw [actor_same] at hg
    rw [position_same hg]
    rw [World.generator?_create] at hx'
    split at hx'
    · next he =>
      obtain rfl := Option.some.inj hx'
      have hnone : w.generator? g = none := he ▸ World.generator?_size w
      refine .inr ⟨hnone, ?_⟩
      rw [position_of_not_mem (hc.not_mem_of_none hnone)]
      rfl
    · exact .inl ⟨x', hx', rfl⟩
  | resend hfocus hv =>
    rw [actor_same] at hg
    exact .inl ⟨x', hx', by rw [position_same hg]⟩
  | follow hfocus hy hl =>
    have hactor (d' : Drive F) : actor d d' = d.current := by rw [actor, hfocus]
    exact .inl (turned_account hc hy hl (hactor _ ▸ hg) hx')
  | delegate hfocus hE hy hl =>
    have hactor (d' : Drive F) : actor d d' = d.current := by rw [actor, hfocus]
    exact .inl (turned_account hc hy hl (hactor _ ▸ hg) hx')
  | @handOver result link ls x y heap s focus hdone hw hx hne hact =>
    have hactor (d' : Drive F) : actor d d' = d'.current := by rw [actor, hdone.1]
    rw [hactor] at hg
    rw [World.generator?_replace_of_ne hg] at hx'
    have hafter : position ⟨link.generator, link.resend, focus, ls⟩ g = positionAmong g ls :=
      position_of_ne hg
    rw [hafter]
    by_cases hcurrent : g = d.current
    · subst hcurrent
      obtain ⟨z, hz, rfl⟩ := Option.map_eq_some_iff.mp ((World.generator?_unlock_self ..).symm.trans hx')
      have hout : d.current ∉ ls.map Link.generator := fun hmem =>
        hc.current_not_mem (by rw [hw]; exact List.mem_cons_of_mem _ hmem)
      refine .inl ⟨z, hz, ?_⟩
      rw [positionAmong_of_not_mem hout, position_current, hdone.1]
      rfl
    · have hx : w.generator? g = some x' := (World.generator?_unlock_of_ne hcurrent).symm.trans hx'
      refine .inl ⟨x', hx, ?_⟩
      rw [position_of_ne hcurrent, hw, positionAmong, if_neg (Ne.symm hg)]

end Drive

end YieldMachine
