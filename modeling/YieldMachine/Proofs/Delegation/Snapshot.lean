import YieldMachine.Proofs.Calls
import YieldMachine.Proofs.Session.YieldFrom
import YieldMachine.Proofs.Table.Ledger

/-!
Delegating to a table. The table and its keys are captured when the body names it, and from then on each advance
visits one entry, whatever is sent and whatever becomes of the value that the table came from
(`Drive.Passage.walks`, `Moment.Notes.walks`). The body pauses with the first entry and is taken up after the last
one, with the result null (`array_delegation_walks_snapshot`). An empty table has the result null at once, and the body
that named it goes on, unless another delegation of its generator is active (`empty_array_pauses_behind_active`).
-/

namespace YieldMachine

variable {H F S : Type}

/-- A paused generator whose pair is entry `i` of the table that it walks. -/
structure Generator.WalksAt (t : Table Value) (frame : F) (sent : Value) (i : Nat)
    (y : Generator H F) : Prop where
  unfinished : y.isFinished = false
  delegation : y.delegation = some (.table t (t.keys.drop (i + 1)))
  pair : t.toList[i]?.map (fun e => (e.1.toValue, e.2)) = some (y.key, y.value)
  frame : y.frame = some frame
  sent : y.sent = sent

theorem Table.length_keys (t : Table Value) : t.keys.length = t.size := by
  simp [keys, toList, size]

/-- The next key leads to the next entry. -/
theorem Delegation.visit_drop {t : Table Value} (ht : t.Coherent) (i : Nat) :
    visit t (t.keys.drop i) =
      t.toList[i]?.map fun e => ((e.1.toValue, e.2), t.keys.drop (i + 1)) := by
  cases he : t.toList[i]? with
  | none =>
    have hle : t.keys.length ≤ i := by
      rw [Table.keys, List.length_map]
      exact List.getElem?_eq_none_iff.mp he
    rw [List.drop_eq_nil_of_le hle]
    rfl
  | some e =>
    obtain ⟨hlt, hi⟩ := List.getElem?_eq_some_iff.mp he
    have hlt' : i < t.keys.length := by rwa [Table.keys, List.length_map]
    have hkey : t.keys[i] = e.1 := by simp [Table.keys, hi]
    rw [List.drop_eq_getElem_cons hlt', hkey]
    simp [visit, ht.get?_of_mem (List.mem_of_getElem? he)]

namespace Generator.WalksAt

variable {t : Table Value} {frame : F} {sent : Value} {i : Nat} {y : Generator H F}

theorem lt (h : y.WalksAt t frame sent i) : i < t.size := by
  obtain ⟨e, he, -⟩ := Option.map_eq_some_iff.mp h.pair
  have hlt := (List.getElem?_eq_some_iff.mp he).1
  rwa [Table.toList, Array.length_toList] at hlt

theorem setLock (h : y.WalksAt t frame sent i) (b : Bool) : (y.setLock b).WalksAt t frame sent i :=
  ⟨h.unfinished, h.delegation, h.pair, h.frame, h.sent⟩

/-- One entry further. -/
theorem visit (h : y.WalksAt t frame sent i) (ht : t.Coherent) {k v : Value} {rest : List Key}
    (hv : Delegation.visit t (t.keys.drop (i + 1)) = some ((k, v), rest)) :
    ({ y with delegation := some (.table t rest) }.setPair k v).WalksAt t frame sent (i + 1) := by
  rw [Delegation.visit_drop ht] at hv
  obtain ⟨e, he, heq⟩ := Option.map_eq_some_iff.mp hv
  obtain ⟨hpair, rfl⟩ := Prod.mk.inj heq
  exact ⟨h.unfinished, rfl, by rw [he]; exact congrArg some hpair, h.frame, h.sent⟩

/-- There is an entry to visit just when the last one is not yet reached. -/
theorem visit_isSome (ht : t.Coherent) (i : Nat) :
    (Delegation.visit t (t.keys.drop i)).isSome = true ↔ i < t.size := by
  rw [Delegation.visit_drop ht, Option.isSome_map, Option.isSome_iff_exists, Table.size, ← Array.length_toList]
  constructor
  · rintro ⟨e, he⟩
    exact (List.getElem?_eq_some_iff.mp he).1
  · exact fun hlt => ⟨_, List.getElem?_eq_getElem hlt⟩

end Generator.WalksAt

namespace Drive

variable {E : Engine H F S} {t : Table Value} {frame : F} {sent : Value} {i : Nat} {y y' : Generator H F}
  {p p' : Position F} {ls : List (Line H F)} {w : World H F S} {d : Drive F}

/-- A walking generator stays at its entry until someone enters it, which leads to the next entry or, after the last
one, back into the body. -/
theorem Passage.walks (h : Passage E p y ls p' y') (ht : t.Coherent) (hp : p = .outside ∨ p = .over)
    (hy : y.WalksAt t frame sent i) (hf : y'.isFinished = false) :
    (ls = [] ∧ (p' = .outside ∨ p' = .over) ∧ y'.WalksAt t frame sent i) ∨
    (ls = [.entered none] ∧ (p' = .outside ∨ p' = .over) ∧ y'.WalksAt t frame sent (i + 1)) ∨
    (ls = [.entered none] ∧ i + 1 = t.size) := by
  have hnot {d : Option Delegation} (hd : y.delegation = d) :
      d = some (.table t (t.keys.drop (i + 1))) := hd.symm.trans hy.delegation
  cases h with
  | stay => exact .inl ⟨rfl, hp, hy⟩
  | lock _ b => exact .inl ⟨rfl, .inl rfl, hy.setLock b⟩
  | rest _ b => exact .inl ⟨rfl, .inl rfl, hy.setLock b⟩
  | close | breakOff => cases hf
  | spent hf' =>
    rw [hy.unfinished] at hf'
    cases hf'
  | walk hf' hd hv =>
    cases hnot hd
    exact .inr (.inl ⟨rfl, .inr rfl, hy.visit ht hv⟩)
  | exhaust hf' hd hx =>
    have hnil : t.keys.drop (i + 1) = [] := by
      have hpending := hnot hd
      simp only [Option.some.injEq, Delegation.table.injEq] at hpending
      exact hpending.2.symm
    have hle := List.drop_eq_nil_iff.mp hnil
    rw [Table.length_keys] at hle
    exact .inr (.inr ⟨rfl, Nat.le_antisymm hy.lt hle⟩)
  -- The others start from a generator that does not delegate to a table, or from a running body.
  | start _ hd | resume _ hd | follow _ hd | forward _ hd | leave _ hd => cases hnot hd
  | answer | act => simp at hp

theorem step_walks (ht : t.Coherent) {input : Option Value} (hfocus : d.focus = .enter input)
    (hy : w.generator? d.current = some y) (hw : y.WalksAt t frame sent i) (hlt : i + 1 < t.size) :
    ∃ y', step E (w, d) = .next (w.replace d.current y', { d with focus := .settled (.ok true) }) ∧
      y'.WalksAt t frame sent (i + 1) := by
  obtain ⟨⟨⟨k, v⟩, rest⟩, hv⟩ := Option.isSome_iff_exists.mp
    ((Generator.WalksAt.visit_isSome ht (i + 1)).mpr hlt)
  refine ⟨_, ?_, hw.visit ht hv⟩
  rw [step_enter hfocus hy]
  simp only [enter, hw.unfinished, hw.delegation, hv, advanced]
  rw [World.modify_modify, World.modify_eq_replace hy]
  rfl

theorem step_resumes (ht : t.Coherent) {input : Option Value} (hfocus : d.focus = .enter input)
    (hy : w.generator? d.current = some y) (hw : y.WalksAt t frame sent i) (hlast : i + 1 = t.size) :
    step E (w, d) = .next (w.replace d.current (y.endDelegation .null).release,
      { d with focus := .body frame .resume }) := by
  have hnone : Delegation.visit t (t.keys.drop (i + 1)) = none := by
    rw [← Option.not_isSome_iff_eq_none, Generator.WalksAt.visit_isSome ht]
    omega
  rw [step_enter hfocus hy]
  simp only [enter, hw.unfinished, hw.delegation, hnone, advanced]
  rw [resume_eq (f := (·.endDelegation .null)) hy hw.frame, World.modify_modify, World.modify_eq_replace hy]
  rfl

end Drive

/-- Every call on a walking generator returns true and leads to the next entry. -/
theorem World.advance_walks {E : Engine H F S} {w : World H F S} {g : GeneratorId} {t : Table Value} {frame : F}
    {sent : Value} {i : Nat} {y : Generator H F} (ht : t.Coherent) (hy : w.generator? g = some y)
    (hl : y.locked = false) (hs : y.isStarted = true) (hw : y.WalksAt t frame sent i) (hlt : i + 1 < t.size)
    (input : Input) :
    ∃ fuel y', w.advance E fuel g input = some (w.replace g y', .ok true) ∧
      y'.WalksAt t frame sent (i + 1) := by
  have hopen := open_eq (i := input) hy hl
  rw [Drive.turnTo, if_pos hs] at hopen
  have hy' : (w.lock g).generator? g = some (y.setLock true) := by simp [hy]
  obtain ⟨y', hstep, hw'⟩ := Drive.step_walks (E := E) (w := w.lock g)
    (d := ⟨g, none, .enter input.sent?, []⟩) ht rfl hy' (hw.setLock true) hlt
  have hhalt : Drive.step E ((w.lock g).replace g y', ⟨g, none, .settled (.ok true), []⟩) =
      .halt (((w.lock g).replace g y').unlock g, .ok true) := rfl
  have hworld : ((w.lock g).replace g y').unlock g = w.replace g (y'.setLock false) := by
    rw [unlock, modify_replace, lock, replace, modify_modify]
    rfl
  rw [hworld] at hhalt
  obtain ⟨fuel, hadvance⟩ := (advance_iff hopen).mpr (.next hstep (.halt hhalt))
  exact ⟨fuel, _, hadvance, hw'.setLock false⟩

namespace Moment

variable {E : Engine H F S} {t : Table Value} {frame : F} {sent : Value} {i : Nat} {y y' : Generator H F}
  {m m' : Moment H F S} {g : GeneratorId} {ls : List (Line H F)}

/-- Since it was at the first entry, a generator has been entered once for each line, and its body has not run; so it
is at the entry of this number, unless it is finished or past the last one. -/
def WalkedBy (t : Table Value) (frame : F) (sent : Value) (ls : List (Line H F)) (p : Drive.Position F)
    (y : Generator H F) : Prop :=
  y.isFinished = false → ls.length < t.size →
    ls = List.replicate ls.length (.entered none) ∧ (p = .outside ∨ p = .over) ∧
      y.WalksAt t frame sent ls.length

theorem WalkedBy.passage {ls' : List (Line H F)} {p p' : Drive.Position F}
    (hpassage : Drive.Passage E p y ls' p' y') (ht : t.Coherent) (h : WalkedBy t frame sent ls p y) :
    WalkedBy t frame sent (ls ++ ls') p' y' := by
  intro hf hlt
  rw [List.length_append] at hlt
  obtain ⟨hlines, hp, hw⟩ := h (hpassage.unfinished hf) (by omega)
  rcases hpassage.walks ht hp hw hf with ⟨rfl, hp', hw'⟩ | ⟨rfl, hp', hw'⟩ | ⟨rfl, hlast⟩
  · rw [List.append_nil]
    exact ⟨hlines, hp', hw'⟩
  · rw [List.length_append, List.length_singleton, List.replicate_succ', ← hlines]
    exact ⟨rfl, hp', hw'⟩
  · rw [List.length_singleton] at hlt
    omega

theorem Notes.walks (h : Notes E g m ls m') (ht : t.Coherent) (hk : m.Kept) (hg : g ∉ m'.gone)
    (hy : m.world.generator? g = some y) (hp : m.position g = .outside ∨ m.position g = .over)
    (hw : y.WalksAt t frame sent 0) (hy' : m'.world.generator? g = some y') :
    WalkedBy t frame sent ls (m'.position g) y' := by
  obtain ⟨z, hz, hwalked⟩ := h.invariant (I := WalkedBy t frame sent)
    (fun hpassage hI => hI.passage hpassage ht) hk hg hy fun _ _ => ⟨rfl, hp, hw⟩
  obtain rfl := Option.some.inj (hz.symm.trans hy')
  exact hwalked

/-- The generator `g` walks a table and is at entry `i`: whoever enters it next gets to the next entry or, after the
last one, resumes the body with the result null. -/
structure AtEntry (E : Engine H F S) (g : GeneratorId) (t : Table Value) (frame : F) (sent : Value) (i : Nat)
    (m : Moment H F S) (y : Generator H F) : Prop where
  walks : y.WalksAt t frame sent i
  paused : m.position g = .outside ∨ m.position g = .over
  visits : ∀ d input, m.drive = some d → d.current = g → d.focus = .enter input → i + 1 < t.size →
    ∃ y', Drive.step E (m.world, d) = .next (m.world.replace g y', { d with focus := .settled (.ok true) }) ∧
      y'.WalksAt t frame sent (i + 1)
  answers : ∀ input, m.drive = none → y.locked = false → i + 1 < t.size →
    ∃ fuel y', m.world.advance E fuel g input = some (m.world.replace g y', .ok true) ∧
      y'.WalksAt t frame sent (i + 1)
  resumes : ∀ d input, m.drive = some d → d.current = g → d.focus = .enter input → i + 1 = t.size →
    Drive.step E (m.world, d) = .next (m.world.replace g (y.endDelegation .null).release,
      { d with focus := .body frame .resume })

theorem Kept.atEntry (hk : m.Kept) (ht : t.Coherent) (hg : g ∉ m.gone) (hy : m.world.generator? g = some y)
    (hp : m.position g = .outside ∨ m.position g = .over) (hw : y.WalksAt t frame sent i) :
    m.AtEntry E g t frame sent i y where
  walks := hw
  paused := hp
  visits d input hd hcurrent hfocus hlt := by
    subst hcurrent
    exact Drive.step_walks ht hfocus hy hw hlt
  answers input hd hl hlt := by
    have hstarted : y.isStarted = true := by
      rw [Generator.isStarted, ((hk.idle hd hy hg).delegating hw.delegation).1]
    exact World.advance_walks ht hy hl hstarted hw hlt input
  resumes d input hd hcurrent hfocus hlast := by
    subst hcurrent
    exact Drive.step_resumes ht hfocus hy hw hlast

end Moment

namespace Session

open Drive

variable {s : Session} {w : World (Nat ⊕ Unit) (Execution ⊕ Script.Frame) (Output × Script.Tally)}
  {d : Drive (Execution ⊕ Script.Frame)} {y : Generator (Nat ⊕ Unit) (Execution ⊕ Script.Frame)}
  {frame frame' : Execution ⊕ Script.Frame} {reply : Reply} {heap' : Heap}
  {state' : Output × Script.Tally} {source : Value} {t : Table Value} {id : AllocationId}

/-- A body that names a table asks for its first entry. -/
theorem step_table (ht : t.Coherent) (hfocus : d.focus = .body frame reply)
    (hE : s.engine.step w.heap w.state frame reply = (heap', state', .delegate source frame'))
    (hsource : heap'.deref source = .array id t) (hy : w.generator? d.current = some y) :
    step s.engine (w, d) = .next
      (({ w with heap := heap', state := state' } : World _ _ _).replace d.current
        (match t.toList with
          | [] => y.skipDelegation .null
          | e :: _ => y.beginDelegation (.table t (t.keys.drop 1)) e.1.toValue e.2),
        { d with focus := .body frame' .accepted }) := by
  have hofValue : Delegation.ofValue heap' source = .ok (.table t t.keys) := by
    simp only [Delegation.ofValue, hsource]
  have hvisit := Delegation.visit_drop ht 0
  rw [List.drop_zero] at hvisit
  have hy' : ({ w with heap := heap', state := state' } : World _ _ _).generator? d.current = some y := hy
  rw [step_body hfocus hE]
  simp only [perform, delegate, hofValue, hvisit]
  cases ht' : t.toList with
  | nil =>
    simp only [List.getElem?_nil, Option.map_none, delegated]
    rw [World.modify_eq_replace hy']
  | cons e es =>
    simp only [List.getElem?_cons_zero, Option.map_some, delegated, Nat.zero_add]
    rw [World.modify_eq_replace hy']

end Session

/-- Array delegation yields the snapshot. A body yields from a table, itself or behind a reference, that was made by
any operations; all its keys lead to their entries. If it is not empty, the body pauses with the first entry. From
then on, through whatever happens besides, each advance of the generator visits the next entry, without running the
body or delivering anything to it, and the advance after the last entry takes the body up with the result null. If it
is empty, the result is null and nothing else about the generator changes, another delegation of it included; if there
is none, the body goes on with that result at once, and the machine's bodies never have another one. -/
theorem array_delegation_walks_snapshot (s : Session) (o : Origin Value) (cs : List (Change Value))
    {w : World (Nat ⊕ Unit) (Execution ⊕ Script.Frame) (Output × Script.Tally)}
    {d : Drive (Execution ⊕ Script.Frame)} {history : History (Execution ⊕ Script.Frame)}
    {gone : List GeneratorId} {y : Generator (Nat ⊕ Unit) (Execution ⊕ Script.Frame)}
    {frame frame' : Execution ⊕ Script.Frame} {reply : Reply} {heap' : Heap}
    {state' : Output × Script.Tally} {source : Value} {id : AllocationId}
    (hq : Moment.Run s.engine ⟨w, some d, history, gone⟩) (hfocus : d.focus = .body frame reply)
    (hE : s.engine.step w.heap w.state frame reply = (heap', state', .delegate source frame'))
    (hfrom : Session.yieldsFrom frame' = true)
    (hsource : heap'.deref source = .array id (cs.foldl Table.change o.table))
    (hy : w.generator? d.current = some y) :
    let t := cs.foldl Table.change o.table
    (∀ e ∈ t.toList, t.get? e.1 = some e.2) ∧
    (0 < t.size → ∃ q y₁ ls₁,
      Moment.Notes s.engine d.current ⟨w, some d, history, gone⟩ ls₁ q ∧
      q.drive = some { d with focus := .settled (.ok true) } ∧ q.world.heap = heap' ∧ q.world.state = state' ∧
      q.world.generator? d.current = some y₁ ∧ y₁.WalksAt t (Session.pausedFrame frame') y.sent 0 ∧
      ∀ ls q' y', Moment.Notes s.engine d.current q ls q' → d.current ∉ q'.gone →
        q'.world.generator? d.current = some y' → y'.isFinished = false → ls.length < t.size →
        ls = List.replicate ls.length (.entered none) ∧
          q'.AtEntry s.engine d.current t (Session.pausedFrame frame') y.sent ls.length y') ∧
    (t.size = 0 →
      Drive.step s.engine (w, d) = .next
        (({ w with heap := heap', state := state' } : World _ _ _).replace d.current
          { y with delegationResult := .null }, { d with focus := .body frame' .accepted }) ∧
      ((∀ x, frame' = .inr x → y.isDelegating = false) →
        ∃ n, Reaches (Drive.step s.engine) (w, d) n
          (({ w with heap := heap', state := state' } : World _ _ _).replace d.current
              (Session.resultTaken (y.skipDelegation .null) frame'),
            { d with focus := .body (Session.resultFrame .null frame') .proceed }))) := by
  intro t
  have ht : t.Coherent := ((Refines.origin o).changes cs).coherent
  have hkept := Moment.kept hq
  have hgone : d.current ∉ gone := fun hmem => hkept.spared _ hmem List.mem_cons_self
  have hstep := Session.step_table ht hfocus hE hsource hy
  refine ⟨fun e he => ht.get?_of_mem he, fun hpos => ?_, fun hempty => ?_⟩
  · cases hlist : t.toList with
    | nil =>
      rw [Table.size, ← Array.length_toList, ← Table.toList, hlist] at hpos
      cases hpos
    | cons e es =>
      rw [hlist] at hstep
      let y₁ := y.beginDelegation (.table t (t.keys.drop 1)) e.1.toValue e.2
      let y₂ := y₁.hold (Session.pausedFrame frame')
      let w₁ : World _ _ _ := { w with heap := heap', state := state' }
      have hy₁ : (w₁.replace d.current y₁).generator? d.current = some y₁ :=
        World.generator?_replace_self (w := w₁) hy y₁
      have hy₂ := World.generator?_replace_self hy₁ y₂
      -- The source is named, the body asks whether the delegation is active, and pauses.
      have hnamed : Moment.Notes s.engine d.current ⟨w, some d, history, gone⟩ _ _ := .step hstep hgone
      have hnotes := (hnamed.trans (.step (Session.step_accepted hfrom rfl hy₁) hgone)).trans
        (.step (Session.step_delegating hfrom rfl hy₁) hgone)
      have hrunning : y.FitsRole (d.role d.current) := hkept.fits _ y hy hgone
      rw [Drive.role_current, hfocus] at hrunning
      have hwalks : y₂.WalksAt t (Session.pausedFrame frame') y.sent 0 :=
        ⟨hrunning.unfinished, rfl, by rw [hlist]; rfl, rfl, rfl⟩
      refine ⟨_, y₂, _, hnotes, rfl, rfl, rfl, hy₂, hwalks, fun ls q' y' hlater hg hy' hf hlt => ?_⟩
      have hq' := hkept.later hnotes.later
      obtain ⟨hlines, hpaused, hw⟩ :=
        hlater.walks ht hq' hg hy₂ (.inr (Drive.position_focus d (.settled _))) hwalks hy' hf hlt
      exact ⟨hlines, (hq'.later hlater.later).atEntry ht hg hy' hpaused hw⟩
  · have hlist : t.toList = [] := by
      rw [Table.size, ← Array.length_toList, ← Table.toList] at hempty
      exact List.length_eq_zero_iff.mp hempty
    rw [hlist] at hstep
    refine ⟨hstep, fun hnone => ?_⟩
    let w₁ : World _ _ _ := { w with heap := heap', state := state' }
    have hy₁ : (w₁.replace d.current (y.skipDelegation .null)).generator? d.current =
      some (y.skipDelegation .null) := World.generator?_replace_self (w := w₁) hy _
    have hidle : y.isDelegating = false := by
      cases frame' with
      | inl x => exact Session.undelegating_of_yieldFrom hq rfl hfocus hE hy
      | inr x => exact hnone x rfl
    obtain ⟨n, hgoesOn⟩ := Session.yieldFrom_goesOn (s := s)
      (d := { d with focus := .body frame' .accepted }) hfrom rfl hy₁ hidle
    have hsame : (w₁.replace d.current (y.skipDelegation .null)).replace d.current
        (Session.resultTaken (y.skipDelegation .null) frame') =
          w₁.replace d.current (Session.resultTaken (y.skipDelegation .null) frame') := World.modify_replace ..
    exact ⟨n + 1, .next hstep (hsame ▸ hgoesOn)⟩

/-- A script that yields from a list of two values is at the first of them after its first advance. -/
theorem array_delegation_walks_snapshot_of_list :
    ∃ (s : Session) (q : Moment _ _ _) (y : Generator _ _) (frame : Script.Frame),
      q.Run s.engine ∧ q.world.generator? 0 = some y ∧
        y.WalksAt (.ofValues [.int 10, .int 20]) (.inr frame) .null 0 := by
  let body : Array Cue := #[.delegate (.array 0 (.ofValues [.int 10, .int 20]))]
  obtain ⟨scripts, hbody⟩ : ∃ scripts : Scripts, scripts.body "list" = body :=
    ⟨Std.TreeMap.empty.insert "list" body, by simp [Scripts.body]⟩
  let s : Session := ⟨⟨.empty, .standard⟩, scripts, ⟨.empty, (.silent, .empty), #[]⟩⟩
  let x : Generator (Nat ⊕ Unit) (Execution ⊕ Script.Frame) := .fresh (.inr ()) ⟨"list", 0, 0, #[]⟩ []
  let w : World (Nat ⊕ Unit) (Execution ⊕ Script.Frame) (Output × Script.Tally) :=
    ⟨.empty, (.silent, .empty), #[x]⟩
  let running : World (Nat ⊕ Unit) (Execution ⊕ Script.Frame) (Output × Script.Tally) :=
    ⟨.empty, (.silent, ⟨1, 0, #[]⟩), #[x.begin.setLock true]⟩
  have hopen : w.open? 0 .next = some (w.lock 0, ⟨0, none, .enter none, []⟩) := rfl
  have hstart : Drive.step s.engine (w.lock 0, ⟨0, none, .enter none, []⟩) =
      .next (running, ⟨0, none, .body (.inr ⟨body, [], 0⟩) .proceed, []⟩) := by
    rw [← hbody]
    rfl
  have hcreate : Moment.Later s.engine ⟨⟨.empty, (.silent, .empty), #[]⟩, none, [], []⟩ ⟨w, none, [], []⟩ :=
    .single (.create (Sum.inr ()) ⟨"list", 0, 0, #[]⟩ [])
  have hcall := hcreate.next (.call List.not_mem_nil hopen)
  have hrun : Moment.Run s.engine
      ⟨running, some ⟨0, none, .body (.inr ⟨body, [], 0⟩) .proceed, []⟩, _, []⟩ :=
    ⟨_, _, hcall.next (.step hstart List.not_mem_nil)⟩
  obtain ⟨-, hwalk, -⟩ := array_delegation_walks_snapshot s (.values [.int 10, .int 20]) [] hrun rfl rfl rfl
    rfl rfl
  obtain ⟨q, y, ls, hnotes, -, -, -, hy, hwalks, -⟩ := hwalk (by decide)
  exact ⟨s, q, y, _, hrun.later hnotes.later, hy, hwalks⟩

/-- A script that has begun to delegate to another source without pausing: it yields from an empty list, at its second
line, and pauses there with the pair of the other source. -/
theorem empty_array_pauses_behind_active :
    let s : Session := ⟨⟨.empty, .standard⟩,
      Std.TreeMap.empty.insert "eager"
        #[.start (.array 0 (.ofValues [.int 1])), .delegate (.array 1 .empty), .yieldPair (.int 7) (.int 8)],
      ⟨.empty, (.silent, .empty), #[.fresh (.inr ()) ⟨"eager", 0, 0, #[]⟩ []]⟩⟩
    ((s.advance 20 0 .next).bind fun (s, r) => (s.world.generator? 0).map fun y =>
      (World.produced r, y.key.asInt?, y.value.asInt?, y.frame.map fun
        | .inl _ => 0
        | .inr x => x.pc)) = some (true, some 0, some 1, some 2) := by
  decide +kernel

end YieldMachine
