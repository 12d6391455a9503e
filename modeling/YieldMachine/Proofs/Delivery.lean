import YieldMachine.Proofs.Calls
import YieldMachine.Proofs.Session.YieldFrom

/-!
What becomes of a value that is sent. It waits in the generator until the body takes it or another value is sent
(`sent_value_lasts`), however many yields lie between: a body that does not ask for the value sent to its yield
finds it at a later one (`sent_value_outlives_its_yield`). The machine's bodies always ask, so they leave nothing
behind (`machine_leaves_nothing_sent`).
-/

namespace YieldMachine

variable {H F S : Type}

namespace Line

/-- What waits to be taken after this, if `v` waited before. -/
def pending (v : Value) : Line H F → Value
  | .entered (some u) => u
  | .acted _ _ (.takeSent _) => .null
  | _ => v

/-- Nothing is delivered and nothing is taken. -/
def isQuiet : Line H F → Bool
  | .entered delivered => delivered.isNone
  | .acted _ _ (.takeSent _) => false
  | .acted .. => true

theorem pending_of_isQuiet {l : Line H F} (h : l.isQuiet = true) (v : Value) : l.pending v = v := by
  cases l with
  | entered delivered =>
    cases delivered with
    | none => rfl
    | some u => cases h
  | acted frame reply action =>
    cases action with
    | takeSent => cases h
    | _ => rfl

end Line

/-- The value that waits to be taken after all this. -/
def pendingSent (ls : List (Line H F)) : Value := ls.foldl Line.pending .null

variable {E : Engine H F S} {ls ls' : List (Line H F)} {x x' : Generator H F} {p p' : Drive.Position F}

theorem pendingSent_append (ls ls' : List (Line H F)) :
    pendingSent (ls ++ ls') = ls'.foldl Line.pending (pendingSent ls) := List.foldl_append

theorem foldl_pending_of_quiet (h : ls.all Line.isQuiet = true) (v : Value) :
    ls.foldl Line.pending v = v := by
  induction ls with
  | nil => rfl
  | cons l ls ih =>
    obtain ⟨hl, hls⟩ := Bool.and_eq_true_iff.mp h
    rw [List.foldl_cons, Line.pending_of_isQuiet hl, ih hls]

/-- Until it is taken, the value last delivered waits. -/
theorem pendingSent_delivered (ls : List (Line H F)) (v : Value) (h : ls'.all Line.isQuiet = true) :
    pendingSent (ls ++ .entered (some v) :: ls') = v := by
  rw [pendingSent_append, List.foldl_cons, foldl_pending_of_quiet h]
  rfl

/-- An advance that delivers nothing leaves what waits. -/
theorem pendingSent_undelivered (ls : List (Line H F)) (h : ls'.all Line.isQuiet = true) :
    pendingSent (ls ++ .entered none :: ls') = pendingSent ls := by
  rw [pendingSent_append, List.foldl_cons, foldl_pending_of_quiet h]
  rfl

namespace Drive

theorem Answers.sent {reply : Reply} (h : Answers x reply x') : x'.sent = x.sent := by
  cases h <;> rfl

/-- A passage changes the sent value just as its lines say. -/
theorem Passage.sent (h : Passage E p x ls p' x') : x'.sent = ls.foldl Line.pending x.sent := by
  cases h with
  | resume _ _ _ sent => cases sent <;> rfl
  | breakOff _ _ hls => rcases hls with rfl | rfl <;> rfl
  | answer frame ha => exact ha.sent
  | act hE hp =>
    cases hp with
    | delegate _ _ ha => exact ha.sent
    | _ => rfl
  | _ => rfl

end Drive

/-- A generator keeps what was delivered last until its body takes it. -/
theorem Moment.Notes.sent {heap : Heap} {state : S} {m : Moment H F S} {g : GeneratorId}
    (h : Notes E g ⟨⟨heap, state, #[]⟩, none, [], []⟩ ls m) (hg : g ∉ m.gone)
    (hx : m.world.generator? g = some x) : x.sent = pendingSent ls := by
  refine h.since (I := fun ls _ x => x.sent = pendingSent ls) (fun _ _ _ => rfl) ?_ hg hx
  intro ls p x ls' p' x' hp hI
  rw [hp.sent, hI, pendingSent_append]

/-- However a body behaves and whatever is sent to its generator, the answer to a request for the sent value is the
value that was delivered last and not taken since, or null. In an advance that delivers a value, the first request
gets that value; in one that delivers none, it gets what was left before. -/
theorem sent_value_lasts (E : Engine H F S) {heap heap' : Heap} {state state' : S} {g : GeneratorId}
    {ls : List (Line H F)} {w : World H F S} {d : Drive F} {history : History F}
    {gone : List GeneratorId} {frame frame' : F} {reply : Reply}
    (h : Moment.Notes E g ⟨⟨heap, state, #[]⟩, none, [], []⟩ ls ⟨w, some d, history, gone⟩)
    (hg : d.current = g) (hfocus : d.focus = .body frame reply)
    (hE : E.step w.heap w.state frame reply = (heap', state', .takeSent frame')) :
    (∃ w', Drive.step E (w, d) =
      .next (w', { d with focus := .body frame' (.value (pendingSent ls)) })) ∧
    (∀ ls₁ v ls₂, ls = ls₁ ++ .entered (some v) :: ls₂ → ls₂.all Line.isQuiet = true →
      pendingSent ls = v) ∧
    ∀ ls₁ ls₂, ls = ls₁ ++ .entered none :: ls₂ → ls₂.all Line.isQuiet = true →
      pendingSent ls = pendingSent ls₁ := by
  subst hg
  have hkept := (Moment.Kept.origin heap state).later h.later
  obtain ⟨x, hx, -⟩ := (hkept.chained d rfl).current
  have hgone : d.current ∉ gone := fun hmem => hkept.spared _ hmem List.mem_cons_self
  have hsent := h.sent hgone hx
  refine ⟨⟨World.modify { w with heap := heap', state := state' } d.current (·.clearSent), ?_⟩, ?_, ?_⟩
  · rw [Drive.step_body hfocus hE]
    have hread : World.generator? { w with heap := heap', state := state' } d.current = some x := hx
    simp only [Drive.perform, hread, Option.map_some, Option.getD_some, hsent]
  · rintro ls₁ v ls₂ rfl hquiet
    exact pendingSent_delivered ls₁ v hquiet
  · rintro ls₁ ls₂ rfl hquiet
    exact pendingSent_undelivered ls₁ hquiet

/-- A script that yields twice before it asks for the sent value: in the advance after the one that delivered 7, which
delivers nothing, the script gets 7. -/
theorem sent_value_lasts_of_script :
    ∃ (E : Engine Unit Script.Frame Script.Tally) (ls : List (Line Unit Script.Frame))
      (w : World Unit Script.Frame Script.Tally) (d : Drive Script.Frame) (history : History Script.Frame)
      (frame : Script.Frame),
      Moment.Notes E 0 ⟨⟨.empty, .empty, #[]⟩, none, [], []⟩ (ls ++ [.entered none])
        ⟨w, some d, history, []⟩ ∧
      d.current = 0 ∧ d.focus = .body frame .resume ∧ pendingSent ls = .int 7 ∧
      ∃ w' frame', Drive.step E (w, d) = .next (w', { d with focus := .body frame' (.value (.int 7)) }) := by
  let body : Array Cue := #[.yieldPair .null (.int 1), .yieldPair .null (.int 2), .logSent]
  obtain ⟨scripts, hbody⟩ : ∃ scripts : Scripts, scripts.body "patient" = body :=
    ⟨Std.TreeMap.empty.insert "patient" body, by simp [Scripts.body]⟩
  let E := Script.engine scripts
  let x₀ : Generator Unit Script.Frame := .fresh () ⟨"patient", 0, 0, #[]⟩ []
  let x₁ : Generator Unit Script.Frame :=
    { x₀ with lifecycle := ⟨true, false, true⟩, value := .int 1, frame := some ⟨body, [], 1⟩ }
  let x₂ : Generator Unit Script.Frame :=
    { x₁ with value := .int 2, sent := .int 7, frame := some ⟨body, [], 2⟩ }
  let tally : Script.Tally := ⟨1, 0, #[]⟩
  let w₀ : World Unit Script.Frame Script.Tally := ⟨.empty, .empty, #[x₀]⟩
  let w₁ : World Unit Script.Frame Script.Tally := ⟨.empty, tally, #[x₁]⟩
  let w₂ : World Unit Script.Frame Script.Tally := ⟨.empty, tally, #[x₂]⟩
  let running : World Unit Script.Frame Script.Tally := ⟨.empty, tally, #[x₂.release.setLock true]⟩
  -- One advance to the first yield, one to the second that delivers 7, and one more that delivers nothing.
  have hstart : Drive.step E (w₀.lock 0, ⟨0, none, .enter none, []⟩) =
      .next (⟨.empty, tally, #[x₀.begin.setLock true]⟩, ⟨0, none, .body ⟨body, [], 0⟩ .proceed, []⟩) := by
    rw [← hbody]
    rfl
  have hends₁ : Ends (Drive.step E) (⟨.empty, tally, #[x₀.begin.setLock true]⟩,
      ⟨0, none, .body ⟨body, [], 0⟩ .proceed, []⟩) (w₁, .ok true) := ends_of_run (n := 3) rfl
  have hresume : Drive.step E (w₁.lock 0, ⟨0, none, .enter (some (.int 7)), []⟩) =
      .next (⟨.empty, tally, #[{ x₁ with
          lifecycle := ⟨true, false, false⟩, sent := .int 7, frame := none, locked := true }]⟩,
        ⟨0, none, .body ⟨body, [], 1⟩ .resume, []⟩) := rfl
  have hends₂ : Ends (Drive.step E) (w₁.lock 0, ⟨0, none, .enter (some (.int 7)), []⟩) (w₂, .ok true) :=
    .next hresume (ends_of_run (n := 3) rfl)
  have hstep : Drive.step E (w₂.lock 0, ⟨0, none, .enter none, []⟩) =
      .next (running, ⟨0, none, .body ⟨body, [], 2⟩ .resume, []⟩) := rfl
  have hcreate : Moment.Later E ⟨⟨.empty, .empty, #[]⟩, none, [], []⟩ ⟨w₀, none, [], []⟩ :=
    .single (.create () ⟨"patient", 0, 0, #[]⟩ [])
  obtain ⟨_, hadvance₁⟩ := (World.advance_iff (w := w₀) (g := 0) (i := .next) rfl).mpr (.next hstart hends₁)
  obtain ⟨history₁, hlater₁⟩ := Moment.later_advance hadvance₁ []
  obtain ⟨_, hadvance₂⟩ := (World.advance_iff (w := w₁) (g := 0) (i := .send (.int 7)) rfl).mpr hends₂
  obtain ⟨history₂, hlater₂⟩ := Moment.later_advance hadvance₂ history₁
  obtain ⟨ls, hnotes⟩ := ((hcreate.trans hlater₁).trans hlater₂).notes 0
  have hopen : w₂.open? 0 .next = some (w₂.lock 0, ⟨0, none, .enter none, []⟩) := rfl
  have hcall := hnotes.next (.call List.not_mem_nil hopen)
  have hnext := hcall.trans (.step hstep List.not_mem_nil)
  have hlines : Drive.lines E (w₂.lock 0, ⟨0, none, .enter none, []⟩) 0 = [.entered none] := rfl
  rw [hlines, Moment.lines, List.append_nil] at hnext
  have htake : Drive.step E (running, ⟨0, none, .body ⟨body, [], 2⟩ .resume, []⟩) = .next
      (running.modify 0 (·.clearSent), ⟨0, none, .body ⟨body, [], 3⟩ (.value (.int 7)), []⟩) := rfl
  obtain ⟨⟨w', htaken⟩, -, hleft⟩ := sent_value_lasts E hnext rfl rfl rfl
  have hsame := congrArg Drive.focus (Prod.mk.inj (Transition.next.inj (htaken.symm.trans htake))).2
  have hseven : pendingSent (ls ++ [.entered none]) = .int 7 :=
    Reply.value.inj (Focus.body.inj hsame).2
  rw [hleft ls [] rfl rfl] at hseven
  exact ⟨E, ls, _, _, _, _, hnext, rfl, rfl, hseven, _, _, htake⟩

/-- A script that yields twice before it asks for the sent value gets, in a call of `next`, the value that was sent
to its first yield. -/
theorem sent_value_outlives_its_yield :
    let s : Session := ⟨⟨.empty, .standard⟩,
      Std.TreeMap.empty.insert "patient"
        #[.yieldValue (.int 1), .yieldValue (.int 2), .logSent, .yieldValue (.int 3)],
      ⟨.empty, (.silent, .empty), #[.fresh (.inr ()) ⟨"patient", 0, 0, #[]⟩ []]⟩⟩
    ((s.advance 20 0 .next).bind fun (s, _) => (s.advance 20 0 (.send (.int 7))).bind fun (s, _) =>
      (s.advance 20 0 .next).map fun (s', _) =>
        (s.tally.log.size, s'.tally.log.toList.map Value.asInt?)) = some (0, [some 7]) := by
  decide +kernel

/-- Whenever nobody drives a generator of the machine, nothing waits to be taken: its body takes the value sent to a
yield before it does anything else. -/
theorem machine_leaves_nothing_sent {m : Machine} {E : Engine H F S}
    {q : Moment (Nat ⊕ H) (Execution ⊕ F) (Output × S)} {g : GeneratorId}
    {y : Generator (Nat ⊕ H) (Execution ⊕ F)} {depth : Nat} (hq : q.Run (m.engine.sum E)) (hg : g ∉ q.gone)
    (hy : q.world.generator? g = some y) (hdepth : y.handle = .inl depth) (hp : q.position g = .outside) :
    y.sent = .null := by
  have htune := Machine.inTune hq hg hy
  rw [hp, Machine.InTune, hdepth] at htune
  exact htune.1

end YieldMachine
