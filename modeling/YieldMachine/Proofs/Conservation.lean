import Mathlib.Algebra.BigOperators.Fin
import YieldMachine.Proofs.History.Moment
import YieldMachine.Proofs.World.Total

/-!
Paused frames are neither lost nor used twice. Between two calls, the frames that the engine gave out are those
that came back to it, resumed or discarded, and those that generators hold (`frames_conserved`). For one
generator the frames come back one by one in the order in which they were given, its body is started at most
once, and a delegation that breaks off discards one frame.
-/

namespace YieldMachine

variable {H F S : Type}

namespace Event

/-- The frame that the engine gives out. -/
def yielded? : Event F → Option F
  | .yielded frame => some frame
  | _ => none

/-- The frame that the engine gets back. -/
def handedBack? : Event F → Option F
  | .resumed frame | .discarded frame => some frame
  | _ => none

def isYielded (e : Event F) : Bool := e.yielded?.isSome

def isResumed : Event F → Bool
  | .resumed _ => true
  | _ => false

def isDiscarded : Event F → Bool
  | .discarded _ => true
  | _ => false

def isStarted : Event F → Bool
  | .started => true
  | _ => false

/-- A run of the body has ended so. -/
def isResult : Event F → Bool
  | .yielded _ | .returned _ | .failed _ => true
  | _ => false

/-- The events of one generator fit together, and in the end it holds this frame. -/
structure Orderly (es : List (Event F)) (held : Option F) : Prop where
  /-- Each frame that came back is the one given out at that place. -/
  paired : es.filterMap yielded? = es.filterMap handedBack? ++ held.toList
  startedOnce : es.countP isStarted = if es.any isResult then 1 else 0
  discardedOnce : ∀ e, .brokenOff e ∈ es → ∃ before frame,
    es = before ++ [.discarded frame, .brokenOff e] ∧ ∀ f, .discarded f ∉ before

end Event

namespace Account

variable {es : List (Event F)} {a : Account F}

def held? : Account F → Option F
  | .held frame => some frame
  | .unopened | .running | .bereft | .over _ => none

theorem Leads.frames (h : Leads .unopened es a) :
    es.filterMap Event.yielded? = es.filterMap Event.handedBack? ++ a.held?.toList := by
  induction h with
  | refl => rfl
  | snoc _ n ih =>
    rw [List.filterMap_append, List.filterMap_append, ih]
    cases n <;> simp [List.filterMap_cons, Event.yielded?, Event.handedBack?, held?]

/-- The forms that a course has. -/
inductive Shape : List (Event F) → Account F → Prop where
  | unopened : Shape [] .unopened
  | shut : Shape [.closed] (.over .closed)
  | opened {rest : List (Event F)} {a : Account F} (hone : .started ∉ rest) (ha : a ≠ .unopened)
      (hran : a = .running ∨ ∃ e ∈ rest, e.isResult = true) : Shape (.started :: rest) a

theorem Leads.shape (h : Leads .unopened es a) : Shape es a := by
  induction h with
  | refl => exact .unopened
  | @snoc b c es e h n ih =>
    cases ih with
    | unopened =>
      cases n with
      | start => exact .opened List.not_mem_nil nofun (.inl rfl)
      | shut => exact .shut
    | shut => cases n
    | @opened rest _ hone hb hran =>
      rw [List.cons_append]
      refine .opened ?_ ?_ ?_
      · intro hmem
        rcases List.mem_append.mp hmem with hmem | hmem
        · exact hone hmem
        · obtain rfl := List.mem_singleton.mp hmem
          cases n
          exact hb rfl
      · cases n <;> nofun
      · have hkeep (hran : ∃ e ∈ rest, e.isResult = true) : ∃ e' ∈ rest ++ [e], e'.isResult = true := by
          obtain ⟨e', hmem, hresult⟩ := hran
          exact ⟨e', List.mem_append_left _ hmem, hresult⟩
        rcases hran with rfl | hran
        · -- A run of the body ends with a result.
          refine .inr ⟨e, by simp, ?_⟩
          cases n <;> rfl
        · exact .inr (hkeep hran)

theorem Shape.eq_nil (h : Shape es .unopened) : es = [] := by
  cases h with
  | unopened => rfl
  | opened _ ha => exact absurd rfl ha

theorem Shape.eq_closed (h : Shape (.closed :: es) a) : es = [] := by
  cases h
  rfl

theorem Shape.startedOnce (h : Shape es a) (ha : a ≠ .running) :
    es.countP Event.isStarted = if es.any Event.isResult then 1 else 0 := by
  cases h with
  | unopened => rfl
  | shut => rfl
  | @opened rest _ hone _ hran =>
    have hrest : rest.countP Event.isStarted = 0 := by
      rw [List.countP_eq_zero]
      intro e he hs
      cases e with
      | started => exact hone he
      | _ => cases hs
    have hresult : (Event.started :: rest).any Event.isResult = true := by
      obtain ⟨e, he, hresult⟩ := hran.resolve_left ha
      exact List.any_eq_true.mpr ⟨e, List.mem_cons_of_mem _ he, hresult⟩
    rw [hresult, if_pos rfl, List.countP_cons_of_pos rfl, hrest]

/-- A generator that still has its frame, or whose body runs or has not begun, discarded nothing. -/
theorem Leads.undiscarded (h : Leads .unopened es a)
    (ha : a = .unopened ∨ a = .running ∨ ∃ frame, a = .held frame) : ∀ f, .discarded f ∉ es := by
  induction h with
  | refl => exact fun _ => List.not_mem_nil
  | @snoc b c es e h n ih =>
    intro f hmem
    rcases List.mem_append.mp hmem with hmem | hmem
    · refine ih ?_ f hmem
      cases n with
      | start => exact .inl rfl
      | yield => exact .inr (.inl rfl)
      | resume frame => exact .inr (.inr ⟨frame, rfl⟩)
      | shut | ret | fail | close | breakOff => simp at ha
      | discard => simp at ha
    · obtain rfl := List.mem_singleton.mp hmem
      cases n
      simp at ha

theorem Leads.bereft (h : Leads .unopened es .bereft) :
    ∃ before frame, es = before ++ [.discarded frame] ∧ ∀ f, .discarded f ∉ before := by
  cases h with
  | snoc h n =>
    cases n with
    | discard frame => exact ⟨_, frame, rfl, h.undiscarded (.inr (.inr ⟨frame, rfl⟩))⟩

/-- A delegation breaks off last, right after the frame was discarded. -/
theorem Leads.discardedOnce (h : Leads .unopened es a) (e : DelegationError)
    (he : .brokenOff e ∈ es) : ∃ before frame,
    es = before ++ [.discarded frame, .brokenOff e] ∧ ∀ f, .discarded f ∉ before := by
  have hlast : ∃ c, a = .over c ∧ ∃ es₀, es = es₀ ++ [.brokenOff e] ∧ Leads .unopened es₀ .bereft := by
    induction h with
    | refl => cases he
    | @snoc b c es e' h n ih =>
      rcases List.mem_append.mp he with hmem | hmem
      · -- Nothing comes after the end.
        obtain ⟨c', rfl, -⟩ := ih hmem
        cases n
      · obtain rfl := List.mem_singleton.mp hmem
        cases n
        exact ⟨_, rfl, es, rfl, h⟩
  obtain ⟨-, -, es₀, rfl, hbereft⟩ := hlast
  obtain ⟨before, frame, rfl, hbefore⟩ := hbereft.bereft
  exact ⟨before, frame, by simp, hbefore⟩

theorem Leads.orderly (h : Leads .unopened es a) (ha : a ≠ .running) : Event.Orderly es a.held? :=
  ⟨h.frames, h.shape.startedOnce ha, h.discardedOnce⟩

end Account

/-! ### All generators together -/

namespace History

/-- How often such an event happened. -/
def count (history : History F) (p : Event F → Bool) : Nat := history.countP fun entry => p entry.2

theorem count_eq_sum (p : Event F → Bool) {history : History F} {n : Nat}
    (h : ∀ entry ∈ history, entry.1 < n) :
    history.count p = ∑ g ∈ Finset.range n, (history.of g).countP p := by
  induction history with
  | nil => simp [count, History.of]
  | cons entry history ih =>
    obtain ⟨g₀, e⟩ := entry
    have hrest := ih fun entry hmem => h entry (List.mem_cons_of_mem _ hmem)
    have hsplit (g : GeneratorId) : (History.of ((g₀, e) :: history) g).countP p =
        (History.of history g).countP p + if g₀ = g then (if p e then 1 else 0) else 0 := by
      unfold History.of
      rw [List.filterMap_cons]
      by_cases hg : g₀ = g
      · simp only [hg, if_true, List.countP_cons]
      · simp only [hg, if_false, Nat.add_zero]
    have hin : g₀ ∈ Finset.range n := Finset.mem_range.mpr (h _ List.mem_cons_self)
    rw [Finset.sum_congr rfl fun g _ => hsplit g, Finset.sum_add_distrib, ← hrest,
      Finset.sum_ite_eq, if_pos hin]
    unfold count
    rw [List.countP_cons]

end History

namespace Generator

/-- The number of frames that a generator holds. -/
def frames (x : Generator H F) : Nat := x.frame.toList.length

theorem account_ne_running (x : Generator H F) : x.account ≠ .running := by
  unfold account
  split
  · split <;> nofun
  · split
    · nofun
    · split <;> nofun

theorem held_account {x : Generator H F} (h : x.isFinished = true → x.frame = none) :
    x.account.held? = x.frame := by
  unfold account
  split
  · next hf =>
    rw [h hf]
    split <;> rfl
  · split
    · next frame hframe => exact hframe.symm
    · next hframe =>
      rw [hframe]
      split <;> rfl

end Generator

theorem sum_map_eq_sum {α : Type} (f : α → Nat) (xs : List α) :
    (xs.map f).sum = ∑ i ∈ Finset.range xs.length, (xs[i]?.map f).getD 0 := by
  induction xs with
  | nil => rfl
  | cons x xs ih =>
    rw [List.length_cons, Finset.sum_range_succ', List.map_cons, List.sum_cons, ih, Nat.add_comm]
    simp

theorem World.total_eq_sum (f : Generator H F → Nat) (w : World H F S) :
    w.total f = ∑ g ∈ Finset.range w.generators.size, ((w.generator? g).map f).getD 0 := by
  have hsum := sum_map_eq_sum f w.generators.toList
  simp only [Array.length_toList, Array.getElem?_toList] at hsum
  exact hsum

namespace Moment

variable {E : Engine H F S} {m m' : Moment H F S} {g : GeneratorId} {x : Generator H F}

/-- Only generators that are there have a history. -/
theorem Kept.lt_size (h : Kept m) {entry : GeneratorId × Event F} (he : entry ∈ m.history) :
    entry.1 < m.world.generators.size := by
  by_contra hge
  have hnone : m.world.generator? entry.1 = none := Array.getElem?_eq_none (Nat.le_of_not_lt hge)
  have hmem : entry.2 ∈ m.history.of entry.1 := List.mem_filterMap.mpr ⟨entry, he, by simp⟩
  rw [h.absent _ hnone] at hmem
  cases hmem

/-- Between two calls, the events of each generator fit with the frame that it holds. -/
theorem Kept.orderly (h : Kept m) (hrest : m.drive = none) (hx : m.world.generator? g = some x) :
    Event.Orderly (m.history.of g) x.frame := by
  have hbare (hf : x.isFinished = true) : x.frame = none := by
    by_cases hg : g ∈ m.gone
    · exact h.bare g x hx hg
    · exact ((h.idle hrest hx hg).finished hf).2.1
  rw [← Generator.held_account hbare]
  exact (h.courseAtRest hrest hx).orderly x.account_ne_running

theorem Next.history (n : Next E m m') : ∃ more, m'.history = m.history ++ more := by
  cases n with
  | step | close | drop => exact ⟨_, rfl⟩
  | create | call | halt | setLock | elsewhere => exact ⟨[], (List.append_nil _).symm⟩

/-- What has happened stays in the history. -/
theorem Later.history (h : Later E m m') : ∃ more, m'.history = m.history ++ more := by
  induction h with
  | refl => exact ⟨[], (List.append_nil _).symm⟩
  | next _ n ih =>
    obtain ⟨more, hmore⟩ := ih
    obtain ⟨more', hmore'⟩ := n.history
    exact ⟨more ++ more', by rw [hmore', hmore, List.append_assoc]⟩

/-- A generator that is closed before it is started never runs. -/
theorem Kept.closed_fresh {w : World H F S} {history : History F} {gone : List GeneratorId}
    (h : Kept ⟨w, none, history, gone⟩) (hg : g ∉ gone) (hx : w.generator? g = some x)
    (hfresh : x.In .fresh)
    (hl : Later E ⟨w.close E g, none, history ++ (w.closing E g).map (g, ·), gone⟩ m') :
    m'.history.of g = [.closed] := by
  have hbefore : history.of g = [] := by
    have hcourse : Account.Leads .unopened (history.of g) x.account := h.course g x hx
    rw [hfresh.account_fresh] at hcourse
    exact hcourse.shape.eq_nil
  have hclosing : w.closing E g = [.closed] := by
    have hf : x.isFinished = false := by simp [Generator.isFinished, hfresh.1]
    rw [(World.close_unfinished hx hf).2, hfresh.2.1]
    rfl
  have hkept : Kept m' := (h.close hg).later hl
  obtain ⟨more, hmore⟩ := hl.history
  have hafter : m'.history.of g = .closed :: History.of more g := by
    rw [hmore, History.of_append, History.of_append, hbefore, hclosing, History.of_map_self]
    rfl
  cases hx' : m'.world.generator? g with
  | none =>
    rw [hkept.absent g hx'] at hafter
    cases hafter
  | some x' =>
    have hshape := (hkept.course g x' hx').shape
    rw [hafter] at hshape ⊢
    rw [hshape.eq_closed]

end Moment

theorem Event.Orderly.balance {es : List (Event F)} {held : Option F} (h : Event.Orderly es held) :
    es.countP Event.isYielded =
      es.countP Event.isResumed + es.countP Event.isDiscarded + held.toList.length := by
  have hyielded : es.countP Event.isYielded = (es.filterMap Event.yielded?).length :=
    List.length_filterMap_eq_countP.symm
  have hback : (es.filterMap Event.handedBack?).length =
      es.countP Event.isResumed + es.countP Event.isDiscarded := by
    clear h hyielded
    induction es with
    | nil => rfl
    | cons e es ih =>
      cases e <;>
        simp only [List.filterMap_cons, List.countP_cons, Event.handedBack?, Event.isResumed,
          Event.isDiscarded, List.length_cons] <;>
        simp <;> omega
  rw [hyielded, h.paired, List.length_append, hback]

/-- Between two calls of a run, the frames that the engine gave out are as many as were resumed, discarded and
are held. For every generator, those that came back are the first ones that were given out, in the same order,
and the rest is the frame that it holds; a dropped generator holds none. Its body was started once if it ran,
and never if it was closed before that. Where a delegation broke off, one frame was discarded. -/
theorem frames_conserved (E : Engine H F S) {m : Moment H F S} (hm : m.Run E)
    (hrest : m.drive = none) :
    m.history.count Event.isYielded = m.history.count Event.isResumed +
        m.history.count Event.isDiscarded + m.world.total Generator.frames ∧
      ∀ g x, m.world.generator? g = some x →
        Event.Orderly (m.history.of g) x.frame ∧ (g ∈ m.gone → x.frame = none) ∧
        (g ∉ m.gone → x.In .fresh → ∀ m', Moment.Later E ⟨m.world.close E g, none,
          m.history ++ (m.world.closing E g).map (g, ·), m.gone⟩ m' → m'.history.of g = [.closed]) := by
  have hkept := Moment.kept hm
  constructor
  · have hlt (entry : GeneratorId × Event F) (he : entry ∈ m.history) := hkept.lt_size he
    rw [History.count_eq_sum _ hlt, History.count_eq_sum _ hlt, History.count_eq_sum _ hlt,
      World.total_eq_sum, ← Finset.sum_add_distrib, ← Finset.sum_add_distrib]
    refine Finset.sum_congr rfl fun g hg => ?_
    obtain ⟨x, hx⟩ : ∃ x, m.world.generator? g = some x :=
      ⟨_, Array.getElem?_eq_getElem (Finset.mem_range.mp hg)⟩
    rw [hx]
    exact (hkept.orderly hrest hx).balance
  · intro g x hx
    refine ⟨hkept.orderly hrest hx, hkept.bare g x hx, ?_⟩
    intro hg hfresh m' hl
    obtain ⟨w, drive, history, gone⟩ := m
    obtain rfl : drive = none := hrest
    exact hkept.closed_fresh hg hx hfresh hl

/-- A machine's generator that delegates to another one, after its first pair: both hold a frame. Once the outer
one is closed and the other one is reclaimed, both frames are discarded. -/
theorem frames_conserved_of_relay :
    ∃ (E : Engine Nat Execution Output) (m m' : Moment Nat Execution Output),
      m.Run E ∧ m.drive = none ∧ m.world.total Generator.frames = 2 ∧
        m.history.count Event.isYielded =
          m.history.count Event.isResumed + m.history.count Event.isDiscarded + 2 ∧
        Moment.Later E m m' ∧ m'.drive = none ∧ m'.world.total Generator.frames = 0 ∧
        m'.history.count Event.isYielded =
          m'.history.count Event.isResumed + m'.history.count Event.isDiscarded := by
  let source : Function := ⟨"source", 0, 0, #[.const (.int 7), .yield]⟩
  let relay : Function := ⟨"relay", 0, 0, #[.instantiate 0 0, .yieldFrom]⟩
  let E := Machine.engine ⟨⟨#[source], ∅⟩, .standard⟩
  let w₀ : World Nat Execution Output := ⟨.empty, .silent, #[.fresh 0 relay []]⟩
  have htotals : ((w₀.operate E 19 (.next 0)).bind fun p => (p.2.operate E 0 (.close 0)).map
      fun q => (p.2.total Generator.frames, (q.2.reclaim E []).total Generator.frames)) =
        some (2, 0) := by decide +kernel
  obtain ⟨⟨a, w⟩, hnext, hclose⟩ := Option.bind_eq_some_iff.mp htotals
  obtain ⟨⟨a', w'⟩, hclose, htotals⟩ := Option.map_eq_some_iff.mp hclose
  obtain ⟨htwo, hzero⟩ := Prod.mk.inj htotals
  obtain ⟨history, hl⟩ := Moment.later_operate hnext []
  have hm : Moment.Run E ⟨w, none, history, []⟩ :=
    ⟨.empty, .silent, (Moment.Later.single (.create 0 relay [])).trans hl⟩
  obtain ⟨history', hl'⟩ := Moment.later_operate hclose history
  obtain ⟨history'', gone, hl''⟩ :=
    Moment.later_reclaim (E := E) ((Moment.kept hm).later hl') []
  have hm' : Moment.Run E ⟨w'.reclaim E [], none, history'', gone⟩ := hm.later (hl'.trans hl'')
  obtain ⟨hcount, -⟩ := frames_conserved E hm rfl
  obtain ⟨hcount', -⟩ := frames_conserved E hm' rfl
  rw [htwo] at hcount
  rw [hzero] at hcount'
  exact ⟨E, _, _, hm, rfl, htwo, hcount, hl'.trans hl'', rfl, hzero, hcount'⟩

end YieldMachine
