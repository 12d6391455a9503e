import YieldMachine.Proofs.Calls
import YieldMachine.Proofs.History.Moment

/-!
How a generator ends. It ends once, and what it tells its user afterwards is how it ended. From then on it
stays as it is, calls on it give nothing and do not come to the engine, and the only call that gave back an
error is the one in which the error ended it (`outcome_final`).
-/

namespace YieldMachine

variable {H F S : Type}

/-! ### The end in the history -/

/-- The end that an event is. -/
def Event.conclusion? : Event F → Option Conclusion
  | .returned v => some (.returned v)
  | .failed e => some (.failed (.executionFailed e))
  | .brokenOff e => some (.failed (.delegation e))
  | .closed => some .closed
  | .started | .resumed _ | .discarded _ | .yielded _ => none

/-- How a generator ended, each time that it did. -/
def History.endings (history : History F) (g : GeneratorId) : List Conclusion :=
  (history.of g).filterMap Event.conclusion?

namespace Conclusion

def value? : Conclusion → Option Value
  | .returned v => some v
  | .failed _ | .closed => none

def error? : Conclusion → Option GeneratorError
  | .failed e => some e
  | .returned _ | .closed => none

/-- The answer to a request for the return value. -/
def answer : Option Conclusion → Except GeneratorError Value
  | none => .error .notFinished
  | some (.returned v) => .ok v
  | some (.failed _) | some .closed => .error .noReturnValue

end Conclusion

/-- A generator tells its user that it ended so, or that it has not ended. -/
structure Generator.EndedAs (x : Generator H F) (how : Option Conclusion) : Prop where
  finished : x.isFinished = how.isSome
  returnValue : x.returnValue = how.bind Conclusion.value?
  lastError : x.lastError = how.bind Conclusion.error?
  getReturn : x.getReturn = Conclusion.answer how

namespace Account

def conclusion? : Account F → Option Conclusion
  | .over c => some c
  | .unopened | .running | .held _ | .bereft => none

/-- A course ends once, and nothing comes after the end. -/
theorem Leads.endings {es : List (Event F)} {a : Account F} (h : Leads .unopened es a) :
    es.filterMap Event.conclusion? = a.conclusion?.toList := by
  induction h with
  | refl => rfl
  | snoc _ n ih =>
    rw [List.filterMap_append, ih]
    cases n <;> rfl

end Account

namespace Generator

variable {x : Generator H F}

/-- The answer to a request for the return value follows from the flag and the return value. -/
theorem EndedAs.of_fields {how : Option Conclusion} (hf : x.isFinished = how.isSome)
    (hv : x.returnValue = how.bind Conclusion.value?)
    (he : x.lastError = how.bind Conclusion.error?) : x.EndedAs how := by
  refine ⟨hf, hv, he, ?_⟩
  unfold Generator.getReturn
  rw [hv, hf]
  cases how with
  | none => rfl
  | some c => cases c <;> rfl

/-- What an idle generator tells of its end is what its account says. -/
theorem FitsRole.endedAs (h : x.FitsRole .idle) : x.EndedAs x.account.conclusion? := by
  obtain ⟨⟨p, hp⟩, hone⟩ := h
  cases p with
  | fresh =>
    have hf : x.isFinished = false := by simp [isFinished, hp.1]
    rw [hp.account_fresh]
    exact .of_fields hf hp.2.2.2.1 hp.2.2.2.2.1
  | suspended =>
    have hf : x.isFinished = false := by simp [isFinished, hp.1]
    obtain ⟨frame, hframe⟩ := Option.isSome_iff_exists.mp hp.2.1
    rw [hp.account_suspended hframe]
    exact .of_fields hf hp.2.2.1 hp.2.2.2
  | finished =>
    have hf : x.isFinished = true := by simp [isFinished, hp.1]
    cases hv : x.returnValue with
    | some v =>
      have hnone : x.lastError = none := by simpa [hv] using hone
      have haccount : x.account = .over (.returned v) := by simp [account, hf, hv]
      rw [haccount]
      exact .of_fields hf hv hnone
    | none =>
      cases he : x.lastError with
      | some e =>
        have haccount : x.account = .over (.failed e) := by simp [account, hf, hv, he]
        rw [haccount]
        exact .of_fields hf hv he
      | none =>
        have haccount : x.account = .over .closed := by simp [account, hf, hv, he]
        rw [haccount]
        exact .of_fields hf hv he

theorem FitsRole.unfailed (h : x.FitsRole .idle) (hf : x.isFinished = false) :
    x.lastError = none := by
  obtain ⟨⟨p, hp⟩, -⟩ := h
  cases p with
  | fresh => exact hp.2.2.2.2.1
  | suspended => exact hp.2.2.2
  | finished => simp [isFinished, hp.1] at hf

end Generator

/-! ### Calls on a finished generator -/

/-- A call on `g`, and what it gives once `g` is finished. -/
inductive Operation.Spends (g : GeneratorId) : Operation H S → Answer → Prop where
  | next : Spends g (.next g) (.moved false)
  | send (v : Value) : Spends g (.send g v) (.moved false)
  | tryNext : Spends g (.tryNext g) (.tried (.ok false))
  | trySend (v : Value) : Spends g (.trySend g v) (.tried (.ok false))
  | close : Spends g (.close g) .done
  | rewind : Spends g (.rewind g) (.rewound (.error .alreadyStarted))
  | pairs (max : Nat) : Spends g (.pairs g max) (.listed [])

/-- Calls on `g` give what a finished generator gives, within two steps, and leave the world as it is. -/
def World.Spent (E : Engine H F S) (w : World H F S) (g : GeneratorId) : Prop :=
  ∀ op a fuel, Operation.Spends g op a → 2 ≤ fuel → w.operate E fuel op = some (a, w)

namespace World

variable {E : Engine H F S} {w : World H F S} {g : GeneratorId} {x : Generator H F}

theorem advance_finished {fuel : Nat} (hx : w.generator? g = some x) (hp : x.In .finished)
    (hl : x.locked = false) (hfuel : 2 ≤ fuel) (input : Input) :
    w.advance E fuel g input = some (w, .ok false) := by
  have hs : x.isStarted = true := by simp [Generator.isStarted, hp.1]
  have hf : x.isFinished = true := by simp [Generator.isFinished, hp.1]
  have hx' : (w.lock g).generator? g = some (x.setLock true) := by simp [hx]
  have hf' : (x.setLock true).isFinished = true := hf
  have hturn : Drive.turnTo x g input.sent? [] = ⟨g, none, .enter input.sent?, []⟩ := by
    simp [Drive.turnTo, hs]
  have henter : Drive.step E (w.lock g, ⟨g, none, .enter input.sent?, []⟩) =
      .next (w.lock g, ⟨g, none, .settled (.ok false), []⟩) := by
    rw [Drive.step_enter rfl hx', Drive.enter, if_pos hf']
  have hhalt : Drive.step E (w.lock g, ⟨g, none, .settled (.ok false), []⟩) =
      .halt (w, .ok false) := by
    have hback : (w.lock g).unlock g = w := setLock_setLock hx hl true
    rw [Drive.step_halt (.of_none rfl rfl) rfl, hback]
  have hrun : run (Drive.step E) 2 (w.lock g, ⟨g, none, .enter input.sent?, []⟩) =
      some (w, .ok false) := by
    rw [run_of_next henter, run_of_halt hhalt]
  rw [advance, open_eq hx hl, hturn, Option.bind_some]
  exact run_mono hrun hfuel

theorem spent_of_finished (hx : w.generator? g = some x) (hp : x.In .finished)
    (hl : x.locked = false) : w.Spent E g := by
  intro op a fuel hop hfuel
  have hadvance := advance_finished (E := E) hx hp hl hfuel
  cases hop with
  | next | send v | tryNext | trySend v =>
    rw [operate, hadvance]
    rfl
  | close =>
    have hf : x.isFinished = true := by simp [Generator.isFinished, hp.1]
    simp [operate, World.close, hx, hf]
  | rewind =>
    have hs : x.isStarted = true := by simp [Generator.isStarted, hp.1]
    simp [operate, hx, Generator.rewind, hs]
  | pairs max =>
    cases max with
    | zero => rfl
    | succ max =>
      rw [operate, pairs, mapPairs, hadvance]
      rfl

end World

/-! ### After the end -/

namespace Moment

variable {E : Engine H F S} {m m' : Moment H F S} {g : GeneratorId} {x : Generator H F}

/-- From now on `g` stays as it is in `x`, its lock apart, and calls on it give nothing. They do not come to
the engine: the log stays empty, too. -/
def Final (E : Engine H F S) (m : Moment H F S) (g : GeneratorId) (x : Generator H F) : Prop :=
  ∀ m', Later E m m' → ∃ b, m'.world.generator? g = some (x.setLock b) ∧
    (b = false → m'.world.Spent E g ∧ m'.world.logged.Spent E.recorded g)

/-- The drive under way is sound, and `g` is as in `x`, its lock apart. -/
structure Stays (g : GeneratorId) (x : Generator H F) (m : Moment H F S) : Prop where
  chained : ∀ d, m.drive = some d → d.Chained m.world
  now : ∃ b, m.world.generator? g = some (x.setLock b) ∧ (x.setLock b).FitsRole (m.role g)

/-- Every step of a run leaves a finished generator alone. -/
theorem Stays.next (h : Stays g x m) (hf : x.isFinished = true) (n : Next E m m') : Stays g x m' := by
  obtain ⟨hchained, b, hx, hfits⟩ := h
  have hdone : (x.setLock b).isFinished = true := hf
  cases n with
  | @create w history gone handle f args =>
    refine ⟨chained_of_none rfl, b, ?_, hfits⟩
    have hne : g ≠ w.generators.size := by
      rintro rfl
      rw [World.generator?_size] at hx
      cases hx
    rw [World.generator?_create, if_neg hne]
    exact hx
  | @call w w' d history gone c input hg hs =>
    obtain ⟨hc, -⟩ := World.open_chained hs
    obtain ⟨y, -, -, heq⟩ := World.open_cases hs
    obtain ⟨rfl, rfl⟩ := Prod.mk.inj heq
    have hidle (b : Bool) : (x.setLock b).FitsRole ((Drive.turnTo y c input.sent? []).role g) := by
      rw [Drive.role_turnTo_nil]
      exact hfits.setLock b
    refine ⟨fun d hd => Option.some.inj hd ▸ hc, ?_⟩
    by_cases he : g = c
    · subst he
      exact ⟨true, by rw [World.generator?_lock_self, hx]; rfl, hidle true⟩
    · exact ⟨b, (World.generator?_lock_of_ne he).trans hx, hidle b⟩
  | @step w w' d d' history gone hs hg =>
    obtain ⟨hc, hmoves⟩ := Drive.step_moves (hchained d rfl) hs
    obtain ⟨x', hx', hm⟩ := hmoves.old g _ hx
    have hfits' : x'.FitsRole (d'.role g) := Generator.fitsRole_invariant.move hm hfits
    obtain ⟨b', rfl⟩ := hfits.move_finished hdone hm
    exact ⟨fun d₁ hd₁ => Option.some.inj hd₁ ▸ hc, b', hx', hfits'⟩
  | @halt w w' d history gone r hs =>
    obtain ⟨⟨hfocus, -⟩, hwaiting, rfl⟩ := Drive.halt_cases hs
    simp only at hfocus hwaiting
    have hrole : (x.setLock b).FitsRole (d.role g) := hfits
    refine ⟨chained_of_none rfl, ?_⟩
    by_cases he : g = d.current
    · subst he
      rw [Drive.role_current, hfocus] at hrole
      exact ⟨false, by rw [World.generator?_unlock_self, hx]; rfl, hrole.rest.setLock false⟩
    · have hout : g ∉ d.chain := by simp [Drive.chain, hwaiting, he]
      rw [Drive.role_of_not_mem hout] at hrole
      exact ⟨b, (World.generator?_unlock_of_ne he).trans hx, hrole⟩
  | @close w history gone c hg =>
    refine ⟨chained_of_none rfl, b, ?_, hfits⟩
    by_cases he : g = c
    · subst he
      have hidle : w.close E g = w := by
        apply And.left
        apply World.close_idle
        intro y hy
        rw [show w.generator? g = some (x.setLock b) from hx] at hy
        exact Option.some.inj hy ▸ hdone
      show (w.close E g).generator? g = _
      rw [hidle]
      exact hx
    · exact (World.generator?_close_of_ne he).trans hx
  | @drop _ c hg hfree =>
    refine ⟨chained_apart (m := m) hchained hfree fun _ => World.generator?_drop_of_ne, b, ?_, hfits⟩
    by_cases he : g = c
    · subst he
      rw [role_of_not_mem hfree] at hfits
      have hbare : (x.setLock b).frame = none := (hfits.finished hdone).2.1
      rw [(World.drop_some (E := E) hx).1, Generator.without_frame hbare]
    · exact (World.generator?_drop_of_ne he).trans hx
  | @setLock w history gone c b' =>
    refine ⟨chained_of_none rfl, ?_⟩
    by_cases he : g = c
    · subst he
      refine ⟨b', ?_, hfits.setLock b'⟩
      rw [World.generator?_modify_self, hx]
      rfl
    · exact ⟨b, (World.generator?_modify_of_ne he _).trans hx, hfits⟩
  | elsewhere heap state => exact ⟨chained_of_none rfl, b, hx, hfits⟩

theorem Stays.later (h : Stays g x m) (hf : x.isFinished = true) (hl : Later E m m') :
    Stays g x m' := by
  induction hl with
  | refl => exact h
  | next _ n ih => exact ih.next hf n

/-- A finished generator stays as it is. -/
theorem Stays.final (h : Stays g x m) (hp : x.In .finished) : m.Final E g x := by
  have hf : x.isFinished = true := by simp [Generator.isFinished, hp.1]
  intro m' hl
  obtain ⟨-, b, hx, -⟩ := h.later hf hl
  refine ⟨b, hx, ?_⟩
  rintro rfl
  exact ⟨World.spent_of_finished hx hp rfl, World.spent_of_finished (w := m'.world.logged) hx hp rfl⟩

end Moment

/-! ### The call that gives back the error -/

/-- Only an error that settles a generator becomes its last error. -/
theorem Move.lastError {r r' : Role} {x x' : Generator H F} {e : GeneratorError} (hm : Move r x r' x')
    (hx : x.lastError = none) (hx' : x'.lastError = some e) : r' = .settled (.error e) := by
  have hnever {y : Generator H F} (hy : y.lastError = none) : y.lastError ≠ some e := by simp [hy]
  cases hm with
  | breakOff hf hd e' =>
    obtain rfl := Option.some.inj hx'
    rfl
  | fail x e' =>
    obtain rfl := Option.some.inj hx'
    rfl
  | resume hf hd hs hp hframe sent => cases sent <;> exact absurd hx' (hnever hx)
  | lapse hf hs hframe sent => cases sent <;> exact absurd hx' (hnever hx)
  | _ => exact absurd hx' (hnever hx)

namespace Drive

variable {E : Engine H F S} {s s' : State H F S} {g : GeneratorId}

theorem roleAmong_ne_settled (g : GeneratorId) (ls : List (Link F))
    (r : Except GeneratorError Bool) : roleAmong g ls ≠ .settled r := by
  induction ls with
  | nil => simp [roleAmong]
  | cons l ls ih =>
    unfold roleAmong
    split
    · cases l.wait <;> simp [Wait.role]
    · exact ih

theorem role_eq_settled {d : Drive F} {r : Except GeneratorError Bool}
    (h : d.role g = .settled r) : d.current = g ∧ d.focus = .settled r := by
  unfold role at h
  split at h
  · next hcurrent =>
    refine ⟨hcurrent, ?_⟩
    unfold Focus.role at h
    split at h
    · cases h
    · cases h
    · next result hfocus =>
      obtain rfl := Role.settled.inj h
      exact hfocus
  · exact absurd h (roleAmong_ne_settled g d.waiting r)

theorem OnCall.alone (h : OnCall g s) (hcurrent : s.2.current = g) : s.2.waiting = [] := by
  cases hw : s.2.waiting with
  | nil => rfl
  | cons link ls =>
    have hlast : (s.2.waiting.map Link.generator).getLast? = some g := by
      have hchain := h.last
      unfold chain at hchain
      rwa [hw, List.map_cons, List.getLast?_cons_cons, ← List.map_cons, ← hw] at hchain
    exact absurd (hcurrent ▸ List.mem_of_getLast? hlast) h.chained.current_not_mem

/-- During a call on `g`: as soon as `g` has a last error, the call is over and gives it back. -/
structure Tells (g : GeneratorId) (s : State H F S) : Prop where
  call : OnCall g s
  fits : ∀ x, s.1.generator? g = some x → x.FitsRole (s.2.role g)
  tells : ∀ x e, s.1.generator? g = some x → x.lastError = some e →
    s.2.current = g ∧ s.2.focus = .settled (.error e)

theorem Tells.step (h : Tells g s) (hs : Drive.step E s = .next s') : Tells g s' := by
  obtain ⟨-, hmoves⟩ := step_moves h.call.chained hs
  have hcall := h.call.step hs
  obtain ⟨x, hx, -⟩ := h.call.chained.locked g (List.mem_of_getLast? h.call.last)
  obtain ⟨x', hx', hm⟩ := hmoves.old g x hx
  refine ⟨hcall, ?_, ?_⟩
  · intro y hy
    obtain rfl : x' = y := Option.some.inj (hx'.symm.trans hy)
    exact Generator.fitsRole_invariant.move hm (h.fits x hx)
  · intro y e hy he
    obtain rfl : x' = y := Option.some.inj (hx'.symm.trans hy)
    cases hlast : x.lastError with
    | none => exact role_eq_settled (hm.lastError hlast he)
    | some e' =>
      -- The drive was at `g`, which is last on its chain: it has halted.
      obtain ⟨hcurrent, hfocus⟩ := h.tells x e' hx hlast
      have hwaiting := h.call.alone hcurrent
      have hhalt : Drive.step E s = _ := step_halt ⟨hfocus, fun _ _ _ => nofun⟩ hwaiting
      rw [hhalt] at hs
      cases hs

theorem Tells.opened {w : World H F S} {x : Generator H F} {input : Input}
    (hx : w.generator? g = some x) (hfits : x.FitsRole .idle) (hf : x.isFinished = false)
    (hs : w.open? g input = some s) : Tells g s := by
  have hcall := World.open_onCall hs
  obtain ⟨z, hz, -, rfl⟩ := World.open_cases hs
  obtain rfl : x = z := Option.some.inj (hx.symm.trans hz)
  have hself (y : Generator H F) (hy : (w.lock g).generator? g = some y) : y = x.setLock true := by
    rw [World.generator?_lock_self, hx] at hy
    exact (Option.some.inj hy).symm
  refine ⟨hcall, ?_, ?_⟩
  · intro y hy
    show y.FitsRole ((turnTo x g input.sent? []).role g)
    rw [hself y hy, role_turnTo_nil]
    exact hfits.setLock true
  · intro y e hy he
    have hnone : y.lastError = none := by
      rw [hself y hy]
      exact hfits.unfailed hf
    rw [hnone] at he
    cases he

end Drive

namespace World

variable {E : Engine H F S} {w w' : World H F S} {g : GeneratorId} {x : Generator H F}
  {input : Input} {fuel : Nat} {r : Except GeneratorError Bool}

/-- A call on an unfinished generator gives back an error just when the error ends the generator. -/
theorem advance_tells (hx : w.generator? g = some x) (hfits : x.FitsRole .idle)
    (hf : x.isFinished = false) (ha : w.advance E fuel g input = some (w', r)) :
    ∃ x', w'.generator? g = some x' ∧ x'.FitsRole .idle ∧
      ∀ e, r = .error e ↔ x'.isFinished = true ∧ x'.lastError = some e := by
  obtain ⟨s, hs, hrun⟩ := Option.bind_eq_some_iff.mp ha
  obtain ⟨n, t, hreach, ht⟩ := (ends_of_run hrun).reaches
  have htells : Drive.Tells g t :=
    hreach.invariant (.opened hx hfits hf hs) fun _ _ => Drive.Tells.step
  obtain ⟨hcurrent, hfocus, -, rfl⟩ := htells.call.halt ht
  obtain ⟨y, hy, -⟩ := htells.call.chained.current
  rw [hcurrent] at hy
  have hsettled := htells.fits y hy
  rw [← hcurrent, Drive.role_current, hfocus] at hsettled
  refine ⟨y.setLock false, by simp [hy], hsettled.rest.setLock false, ?_⟩
  intro e
  constructor
  · rintro rfl
    obtain ⟨hp, -, he⟩ := hsettled
    refine ⟨?_, he⟩
    show y.isFinished = true
    simp [Generator.isFinished, hp.1]
  · rintro ⟨-, he⟩
    obtain ⟨-, herror⟩ := htells.tells y e hy he
    rw [hfocus] at herror
    exact Focus.settled.inj herror

/-- A call on a finished generator gives back no error. -/
theorem advance_of_finished (hx : w.generator? g = some x) (hp : x.In .finished)
    (ha : w.advance E fuel g input = some (w', r)) : w' = w ∧ r = .ok false := by
  obtain ⟨s, hs, hrun⟩ := Option.bind_eq_some_iff.mp ha
  obtain ⟨y, hy, hl, -⟩ := open_cases hs
  obtain rfl : x = y := Option.some.inj (hx.symm.trans hy)
  have hmore := advance_finished (E := E) hx hp hl (Nat.le_add_left 2 fuel) input
  rw [advance, hs, Option.bind_some, run_mono hrun (Nat.le_add_right fuel 2)] at hmore
  exact Prod.mk.inj (Option.some.inj hmore)

end World

/-- The calls on `g` that give back an error. -/
inductive Operation.Tries (g : GeneratorId) : Operation H S → Prop where
  | tryNext : Tries g (.tryNext g)
  | trySend (v : Value) : Tries g (.trySend g v)

theorem Operation.Tries.advance {E : Engine H F S} {w w' : World H F S} {g : GeneratorId}
    {fuel : Nat} {op : Operation H S} {r : Except GeneratorError Bool} (h : Operation.Tries g op)
    (ho : w.operate E fuel op = some (.tried r, w')) :
    ∃ input, w.advance E fuel g input = some (w', r) := by
  have htried (input : Input)
      (ho : (w.advance E fuel g input).map (fun p => (Answer.tried p.2, p.1)) = some (.tried r, w')) :
      w.advance E fuel g input = some (w', r) := by
    obtain ⟨⟨w₁, r₁⟩, ha, heq⟩ := Option.map_eq_some_iff.mp ho
    obtain ⟨hr, rfl⟩ := Prod.mk.inj heq
    obtain rfl : r₁ = r := Answer.tried.inj hr
    exact ha
  cases h with
  | tryNext => exact ⟨.next, htried .next ho⟩
  | trySend v => exact ⟨.send v, htried (.send v) ho⟩

/-- At every moment between two calls, a generator that was not dropped has ended at most once, and what it
tells is how that was. Once it is finished, nothing changes it and no call on it does anything. A call gives
back an error just when this error ends the generator in it, and no later call does. -/
theorem outcome_final (E : Engine H F S) {m : Moment H F S} (hm : m.Run E) (hrest : m.drive = none)
    {g : GeneratorId} {x : Generator H F} (hx : m.world.generator? g = some x) (hg : g ∉ m.gone) :
    (∃ how : Option Conclusion, m.history.endings g = how.toList ∧ x.EndedAs how) ∧
      (x.isFinished = true → m.Final E g x) ∧
      ∀ op fuel r w', Operation.Tries g op → m.world.operate E fuel op = some (.tried r, w') →
        ∃ x', w'.generator? g = some x' ∧ ∀ e,
          (r = .error e ↔ x.isFinished = false ∧ x'.isFinished = true ∧ x'.lastError = some e) ∧
          (r = .error e → ∀ history, Moment.Final E ⟨w', none, history, m.gone⟩ g x') := by
  have hkept := Moment.kept hm
  have hfits := hkept.idle hrest hx hg
  refine ⟨⟨x.account.conclusion?, (hkept.courseAtRest hrest hx).endings, hfits.endedAs⟩, ?_, ?_⟩
  · intro hf
    have hstays : Moment.Stays g x m := ⟨hkept.chained, x.locked, hx, hkept.fits g x hx hg⟩
    exact hstays.final (hfits.finished hf)
  · intro op fuel r w' htries ho
    obtain ⟨input, ha⟩ := htries.advance ho
    cases hf : x.isFinished with
    | true =>
      obtain ⟨rfl, rfl⟩ := World.advance_of_finished hx (hfits.finished hf) ha
      exact ⟨x, hx, fun e => ⟨by simp, by simp⟩⟩
    | false =>
      obtain ⟨x', hx', hfits', herror⟩ := World.advance_tells hx hfits hf ha
      refine ⟨x', hx', fun e => ⟨by simp [herror e], ?_⟩⟩
      intro hr history
      obtain ⟨hf', -⟩ := (herror e).mp hr
      have hstays : Moment.Stays g x' ⟨w', none, history, m.gone⟩ :=
        ⟨Moment.chained_of_none rfl, x'.locked, hx', hfits'⟩
      exact hstays.final (hfits'.finished hf')

/-- A machine's generator that yields once and then throws: the second call gives back the error. -/
theorem outcome_final_of_thrower :
    ∃ (E : Engine Nat Execution Output) (m : Moment Nat Execution Output)
      (x x' : Generator Nat Execution) (w' : World Nat Execution Output) (e : GeneratorError),
      m.Run E ∧ m.drive = none ∧ m.world.generator? 0 = some x ∧ 0 ∉ m.gone ∧
        m.world.operate E 9 (.tryNext 0) = some (.tried (.error e), w') ∧ x.isFinished = false ∧
        w'.generator? 0 = some x' ∧ x'.lastError = some e ∧
        Moment.Final E ⟨w', none, m.history, m.gone⟩ 0 x' := by
  let E := Machine.engine ⟨.empty, .standard⟩
  let thrower : Function := ⟨"thrower", 0, 0, #[.const (.int 7), .yield, .throw "no"]⟩
  let w₀ : World Nat Execution Output := ⟨.empty, .silent, #[.fresh 0 thrower []]⟩
  have hcalls : ((w₀.advance E 9 0 .next).bind fun p => (p.1.advance E 9 0 .next).map
      fun q => q.2.isOk) = some false := by decide +kernel
  obtain ⟨⟨w, r⟩, hfirst, hsecond⟩ := Option.bind_eq_some_iff.mp hcalls
  obtain ⟨⟨w', r'⟩, hsecond, hr'⟩ := Option.map_eq_some_iff.mp hsecond
  obtain ⟨e, rfl⟩ : ∃ e, r' = .error e := by
    cases r' with
    | ok b => cases hr'
    | error e => exact ⟨e, rfl⟩
  have htry : w.operate E 9 (.tryNext 0) = some (.tried (.error e), w') := by
    rw [World.operate, hsecond]
    rfl
  obtain ⟨history, hl⟩ := Moment.later_advance hfirst []
  let m : Moment Nat Execution Output := ⟨w, none, history, []⟩
  have hm : m.Run E := ⟨.empty, .silent, (Moment.Later.single (.create 0 thrower [])).trans hl⟩
  obtain ⟨s, hs, -⟩ := Option.bind_eq_some_iff.mp hsecond
  obtain ⟨x, hx, -⟩ := World.open_cases hs
  obtain ⟨-, -, hcall⟩ := outcome_final E hm rfl hx List.not_mem_nil
  obtain ⟨x', hx', hall⟩ := hcall _ 9 _ w' .tryNext htry
  obtain ⟨herror, hfinal⟩ := hall e
  obtain ⟨hf, -, he⟩ := herror.mp rfl
  exact ⟨E, m, x, x', w', e, hm, rfl, hx, List.not_mem_nil, htry, hf, hx', he, hfinal rfl history⟩

end YieldMachine
