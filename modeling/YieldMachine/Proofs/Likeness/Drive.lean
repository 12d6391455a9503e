import YieldMachine.Proofs.Drive.Move
import YieldMachine.Proofs.Likeness.World

/-!
Drives that differ in names only. Alike drives in alike worlds go in step: each step of the one is answered by one
step of the other, and the two worlds develop in parallel (`Drive.step_alike`). So within the same number of steps
both end or neither does, and with the same result (`Drive.run_alike`).
-/

namespace YieldMachine

inductive Focus.Alike (K : Correspondence) : Focus Execution → Focus Execution → Prop where
  | enter {sent sent' : Option Value} (hs : Option.Rel (Value.Alike K) sent sent') :
      Alike K (.enter sent) (.enter sent')
  | body {x x' : Execution} {r r' : Reply} (hx : x.Alike K x') (hr : r.Alike K r') :
      Alike K (.body x r) (.body x' r')
  | settled (result : Except GeneratorError Bool) : Alike K (.settled result) (.settled result)

inductive Wait.Alike (K : Correspondence) : Wait Execution → Wait Execution → Prop where
  | inBody {x x' : Execution} (hx : x.Alike K x') : Alike K (.inBody x) (.inBody x')
  | paused : Alike K .paused .paused

structure Link.Alike (K : Correspondence) (l l' : Link Execution) : Prop where
  generator : K.generator l.generator l'.generator
  resend : Option.Rel (Value.Alike K) l.resend l'.resend
  wait : l.wait.Alike K l'.wait

structure Drive.Alike (K : Correspondence) (d d' : Drive Execution) : Prop where
  current : K.generator d.current d'.current
  resend : Option.Rel (Value.Alike K) d.resend d'.resend
  focus : d.focus.Alike K d'.focus
  waiting : List.Forall₂ (Link.Alike K) d.waiting d'.waiting

section Mono

variable {K K' : Correspondence}

theorem Focus.Alike.mono {f f' : Focus Execution} (hK : K.GrowsTo K') (h : f.Alike K f') : f.Alike K' f' := by
  cases h with
  | enter hs => exact .enter (optionRel_imp hs fun _ _ _ hv => hv.mono hK)
  | body hx hr => exact .body (hx.mono hK) (hr.mono hK)
  | settled result => exact .settled result

theorem Link.Alike.mono {l l' : Link Execution} (hK : K.GrowsTo K') (h : l.Alike K l') : l.Alike K' l' := by
  refine ⟨hK.generator h.generator, optionRel_imp h.resend fun _ _ _ hv => hv.mono hK, ?_⟩
  have hwait := h.wait
  generalize l.wait = a, l'.wait = a' at hwait
  cases hwait with
  | inBody hx => exact .inBody (hx.mono hK)
  | paused => exact .paused

theorem Drive.Alike.mono {d d' : Drive Execution} (hK : K.GrowsTo K') (h : d.Alike K d') : d.Alike K' d' :=
  ⟨hK.generator h.current, optionRel_imp h.resend fun _ _ _ hv => hv.mono hK, h.focus.mono hK,
    h.waiting.imp fun _ _ hl => hl.mono hK⟩

theorem Drive.Alike.withFocus {K : Correspondence} {d d' : Drive Execution} {f f' : Focus Execution}
    (h : d.Alike K d') (hf : f.Alike K f') : Drive.Alike K { d with focus := f } { d' with focus := f' } :=
  ⟨h.current, h.resend, hf, h.waiting⟩

end Mono

/-- From two worlds with the pairs of `K`, drives in parallel. -/
def Drive.Parallel (K : Correspondence) (w w' : World Nat Execution Output)
    (s s' : Drive.State Nat Execution Output) : Prop :=
  ∃ K', World.Parallel K w w' K' s.1 s'.1 ∧ s.2.Alike K' s'.2

theorem World.finish_machine (m : Machine) (w : World Nat Execution Output) (g : GeneratorId) :
    w.finish m.engine g = w.modify g (·.terminate) := by
  rw [World.finish]
  split <;> rfl

namespace Drive

variable {m : Machine} {K K' : Correspondence} {w w' v v' : World Nat Execution Output}
  {d d' : Drive Execution} {s s' : State Nat Execution Output} {g g' : GeneratorId}

theorem Parallel.after (h : World.Parallel K w w' K' v v') (hs : Parallel K' v v' s s') :
    Parallel K w w' s s' := by
  obtain ⟨K'', hw, hd⟩ := hs
  exact ⟨K'', h.trans hw, hd⟩

/-- The worlds stay alike by the same correspondence. -/
theorem Parallel.keep (h : World.Parallel K w w' K v v') (hd : d.Alike K d') :
    Parallel K w w' (v, d) (v', d') := ⟨K, h, hd⟩

theorem turnTo_alike {x x' : Generator Nat Execution} (hx : x.Alike K x') (hg : K.generator g g')
    {sent sent' : Option Value} (hs : Option.Rel (Value.Alike K) sent sent')
    {ls ls' : List (Link Execution)} (hls : List.Forall₂ (Link.Alike K) ls ls') :
    (turnTo x g sent ls).Alike K (turnTo x' g' sent' ls') := by
  rw [turnTo, turnTo, hx.isStarted]
  split
  · exact ⟨hg, .none, .enter hs, hls⟩
  · exact ⟨hg, hs, .enter .none, hls⟩

theorem start_alike (h : w.Alike K w') (hd : d.Alike K d') {x x' : Generator Nat Execution}
    (hx : x.Alike K x') : Parallel K w w' (start m.engine w d x) (start m.engine w' d' x') := by
  have hexecution : (Machine.execution x.handle x.function x.arguments).Alike K
      (Machine.execution x'.handle x'.function x'.arguments) := by
    rw [hx.handle, hx.function]
    exact ⟨rfl, rfl, Machine.ofCall_alike hx.inert hx.arguments, .nil⟩
  exact .keep (.modify h hd.current fun hx => hx.begin) (hd.withFocus (.body hexecution .proceed))

theorem resume_alike (h : w.Alike K w') (hd : d.Alike K d') :
    Parallel K w w' (resume m.engine w d) (resume m.engine w' d') := by
  obtain ⟨x, x', hx, hx', hxx'⟩ := h.generators hd.current
  have hframe := hxx'.frame
  rw [resume, resume, hx, hx', Option.bind_some, Option.bind_some]
  generalize x.frame = y, x'.frame = y' at hframe
  cases hframe with
  | some hy => exact .keep (.modify h hd.current fun hx => hx.release) (hd.withFocus (.body hy .resume))
  | none =>
    simp only [World.finish_machine]
    exact .keep (.modify h hd.current fun hx => hx.terminate) (hd.withFocus (.settled _))

theorem fail_alike (h : w.Alike K w') (hd : d.Alike K d') (e : GeneratorError) :
    Parallel K w w' (fail m.engine w d e) (fail m.engine w' d' e) := by
  simp only [fail, World.fail, World.finish_machine, World.modify_modify]
  exact .keep (.modify h hd.current fun hx => hx.terminate.setError e) (hd.withFocus (.settled _))

theorem advanced_alike (h : w.Alike K w') (hd : d.Alike K d') {o o' : Delegation.Outcome}
    (ho : o.Alike K o') : Parallel K w w' (advanced m.engine w d o) (advanced m.engine w' d' o') := by
  cases ho with
  | pair hk hv => exact .keep (.modify h hd.current fun hx => hx.setPair hk hv) (hd.withFocus (.settled _))
  | exhausted hv =>
    have hended := World.Parallel.modify h hd.current fun hx => hx.endDelegation hv
    exact .after hended (resume_alike hended.alike hd)
  | failed e => exact fail_alike h hd _

theorem delegated_alike (h : w.Alike K w') (hd : d.Alike K d') {x x' : Execution} (hx : x.Alike K x')
    {source source' : Delegation} (hsource : source.Alike K source') {o o' : Delegation.Outcome}
    (ho : o.Alike K o') : Parallel K w w' (delegated w d x source o) (delegated w' d' x' source' o') := by
  cases ho with
  | pair hk hv =>
    exact .keep (.modify h hd.current fun hy => hy.beginDelegation hsource hk hv)
      (hd.withFocus (.body hx .accepted))
  | exhausted hv =>
    exact .keep (.modify h hd.current fun hy => hy.skipDelegation hv) (hd.withFocus (.body hx .accepted))
  | failed e => exact .keep (.refl h) (hd.withFocus (.body hx (.refused e)))

/-- Both move on to generators that stand for each other, or both are refused. -/
theorem descend_alike (h : w.Alike K w') (hd : d.Alike K d') (hg : K.generator g g')
    {sent sent' : Option Value} (hs : Option.Rel (Value.Alike K) sent sent') {a a' : Wait Execution}
    (ha : a.Alike K a') :
    Option.Rel (Parallel K w w') (descend w d g sent a) (descend w' d' g' sent' a') := by
  obtain ⟨x, x', hx, hx', hxx'⟩ := h.generators hg
  simp only [descend, hx, hx', hxx'.locked]
  split
  · exact .none
  · exact .some (.keep (.modify h hg fun hy => hy.setLock true)
      (turnTo_alike hxx' hg hs (.cons ⟨hd.current, hd.resend, ha⟩ hd.waiting)))

theorem visit_alike {t t' : Table Value} (ht : t.Alike K t') (pending : List Key) :
    Option.Rel (fun p p' => p.1.1.Alike K p'.1.1 ∧ p.1.2.Alike K p'.1.2 ∧ p.2 = p'.2)
      (Delegation.visit t pending) (Delegation.visit t' pending) := by
  cases pending with
  | nil => exact .none
  | cons k ks =>
    refine .some ⟨?_, ht.get k, rfl⟩
    cases k with
    | int n => exact .atom rfl
    | text s => exact .atom rfl

theorem enter_alike (h : w.Alike K w') (hd : d.Alike K d') {x x' : Generator Nat Execution}
    (hx : x.Alike K x') {sent sent' : Option Value} (hs : Option.Rel (Value.Alike K) sent sent') :
    Parallel K w w' (enter m.engine w d x sent) (enter m.engine w' d' x' sent') := by
  have hdelegation := hx.delegation
  rw [enter, enter, hx.isFinished, hx.isStarted, hx.lifecycle]
  split
  · exact .keep (.refl h) (hd.withFocus (.settled _))
  · generalize x.delegation = source, x'.delegation = source' at hdelegation
    cases hdelegation with
    | none =>
      simp only
      split
      · exact start_alike h hd hx
      · split
        · have hdelivered := World.Parallel.modify h hd.current fun hy => hy.deliver hs
          exact .after hdelivered (resume_alike hdelivered.alike hd)
        · exact .keep (.refl h) (hd.withFocus (.settled _))
    | some hsource =>
      cases hsource with
      | @table t t' pending ht =>
        have hvisit := visit_alike ht pending
        simp only
        generalize Delegation.visit t pending = p, Delegation.visit t' pending = p' at hvisit
        cases hvisit with
        | none => exact advanced_alike h hd (.exhausted (.null K))
        | @some p p' hp =>
          obtain ⟨⟨k, v⟩, rest⟩ := p
          obtain ⟨⟨k', v'⟩, rest'⟩ := p'
          obtain ⟨hk, hv, rfl⟩ := hp
          have hwalked := World.Parallel.modify h hd.current fun hy => hy.setDelegation (.table rest ht)
          exact .after hwalked (advanced_alike hwalked.alike hd (.pair hk hv))
      | @child g g' hg =>
        have hdescend := descend_alike h hd hg hs .paused
        simp only
        generalize descend w d g sent .paused = n, descend w' d' g' sent' .paused = n' at hdescend
        cases hdescend with
        | none => exact advanced_alike h hd (.failed _)
        | some hn => exact hn

/-- The source that a value stands for, or the reason why it is none. -/
theorem ofValue_alike {heap heap' : Heap} (hh : heap.Alike K heap') {v v' : Value} (hv : v.Alike K v') :
    (∃ e, Delegation.ofValue heap v = .error e ∧ Delegation.ofValue heap' v' = .error e) ∨
      ∃ source source', Delegation.ofValue heap v = .ok source ∧ Delegation.ofValue heap' v' = .ok source' ∧
        source.Alike K source' := by
  have hderef := hh.deref hv
  rw [Delegation.ofValue, Delegation.ofValue]
  generalize heap.deref v = u, heap'.deref v' = u' at hderef
  cases hderef with
  | array hi hindex hcursor hkeys hvalues =>
    have ht : Table.Alike K _ _ := ⟨entriesAlike_of_values hkeys hvalues, hindex, hcursor⟩
    refine .inr ⟨_, _, rfl, rfl, ?_⟩
    rw [ht.keys]
    exact .table _ ht
  | generator hg => exact .inr ⟨_, _, rfl, rfl, .child hg⟩
  | object hi hclass hnames hvalues =>
    refine .inl ⟨_, rfl, ?_⟩
    simp only [Object.isGeneratorClass, hclass]
    rfl
  | reference hc => exact .inl ⟨_, rfl, rfl⟩
  | @atom u hatom => cases u <;> first | exact .inl ⟨_, rfl, rfl⟩ | cases hatom

theorem delegate_alike (h : w.Alike K w') (hd : d.Alike K d') {v v' : Value} (hv : v.Alike K v')
    {x x' : Execution} (hx : x.Alike K x') : Parallel K w w' (delegate w d v x) (delegate w' d' v' x') := by
  rw [delegate, delegate]
  rcases ofValue_alike h.heap hv with ⟨e, he, he'⟩ | ⟨source, source', hs, hs', hsource⟩
  · rw [he, he']
    exact .keep (.refl h) (hd.withFocus (.body hx (.refused e)))
  · rw [hs, hs']
    cases hsource with
    | @table t t' pending ht =>
      have hvisit := visit_alike ht pending
      simp only
      generalize Delegation.visit t pending = p, Delegation.visit t' pending = p' at hvisit
      cases hvisit with
      | none => exact delegated_alike h hd hx (.table pending ht) (.exhausted (.null K))
      | @some p p' hp =>
        obtain ⟨⟨k, v⟩, rest⟩ := p
        obtain ⟨⟨k', v'⟩, rest'⟩ := p'
        obtain ⟨hk, hv, rfl⟩ := hp
        exact delegated_alike h hd hx (.table rest ht) (.pair hk hv)
    | @child g g' hg =>
      have hdescend := descend_alike h hd hg .none (.inBody hx)
      simp only
      generalize descend w d g none (.inBody x) = n, descend w' d' g' none (.inBody x') = n' at hdescend
      cases hdescend with
      | none => exact delegated_alike h hd hx (.child hg) (.failed _)
      | some hn => exact hn

theorem perform_alike (h : w.Alike K w') (hd : d.Alike K d') {a a' : Action Nat Execution}
    (ha : a.Alike K a') : Parallel K w w' (perform m.engine w d a) (perform m.engine w' d' a') := by
  obtain ⟨y, y', hy, hy', hyy'⟩ := h.generators hd.current
  cases ha with
  | silent hx => exact .keep (.refl h) (hd.withFocus (.body hx .proceed))
  | yieldPair hk hv hx =>
    exact .keep (.modify h hd.current fun hy => hy.yieldPair hk hv) (hd.withFocus (.body hx .reported))
  | yieldValue hv hx =>
    exact .keep (.modify h hd.current fun hy => hy.yieldValue hv) (hd.withFocus (.body hx .reported))
  | delegate hv hx => exact delegate_alike h hd hv hx
  | askDelegating hx =>
    refine .keep (.refl h) (hd.withFocus (.body hx ?_))
    rw [hy, hy', Option.any_some, Option.any_some, hyy'.isDelegating]
    exact .delegating _
  | takeSent hx =>
    refine .keep (.modify h hd.current fun hy => hy.clearSent) (hd.withFocus (.body hx (.value ?_)))
    rw [hy, hy']
    exact hyy'.sent
  | takeResult hx =>
    refine .keep (.modify h hd.current fun hy => hy.clearResult) (hd.withFocus (.body hx (.value ?_)))
    rw [hy, hy']
    exact hyy'.delegationResult
  | create depth hf hargs hx =>
    obtain ⟨K', hK', hpair⟩ := World.Parallel.create h depth hf hargs
    exact ⟨K', hK', (hd.mono hK'.grows).withFocus (.body (hx.mono hK'.grows) (.value (.generator hpair)))⟩
  | suspend hx => exact .keep (.modify h hd.current fun hy => hy.hold hx) (hd.withFocus (.settled _))
  | finish hv =>
    simp only [perform, World.complete, World.finish_machine, World.modify_modify]
    exact .keep (.modify h hd.current fun hy => (hy.setReturn hv).terminate) (hd.withFocus (.settled _))
  | fail e => exact fail_alike h hd _

theorem handOver_alike (h : w.Alike K w') (hg : K.generator g g') (result : Except GeneratorError Bool)
    {l l' : Link Execution} (hl : l.Alike K l') {ls ls' : List (Link Execution)}
    (hls : List.Forall₂ (Link.Alike K) ls ls') :
    Parallel K w w' (handOver m.engine w g result l ls) (handOver m.engine w' g' result l' ls') := by
  obtain ⟨y, y', hy, hy', hyy'⟩ := h.generators hg
  have hunlocked := World.Parallel.modify h hg fun hy => hy.setLock false
  have hd : Drive.Alike K ⟨l.generator, l.resend, .settled result, ls⟩
      ⟨l'.generator, l'.resend, .settled result, ls'⟩ := ⟨hl.generator, hl.resend, .settled result, hls⟩
  have hwait := hl.wait
  simp only [handOver, hy, hy', Option.map_some, Option.getD_some]
  generalize l.wait = a, l'.wait = a' at hwait
  cases hwait with
  | paused => exact .after hunlocked (advanced_alike hunlocked.alike hd (hyy'.outcome result))
  | inBody hx =>
    exact .after hunlocked (delegated_alike hunlocked.alike hd hx (.child hg) (hyy'.outcome result))

/-! ### Steps and runs -/

/-- Both go on, or both halt with the same result. -/
inductive StepsAlike (K : Correspondence) (w w' : World Nat Execution Output) :
    Transition (State Nat Execution Output) (Result Nat Execution Output) →
      Transition (State Nat Execution Output) (Result Nat Execution Output) → Prop where
  | next {s s' : State Nat Execution Output} (h : Parallel K w w' s s') : StepsAlike K w w' (.next s) (.next s')
  | halt {v v' : World Nat Execution Output} (r : Except GeneratorError Bool) (h : World.Parallel K w w' K v v') :
      StepsAlike K w w' (.halt (v, r)) (.halt (v', r))

/-- Alike drives take alike steps. -/
theorem step_alike (hm : m.Inert K) (h : w.Alike K w') (hd : d.Alike K d') :
    StepsAlike K w w' (Drive.step m.engine (w, d)) (Drive.step m.engine (w', d')) := by
  have hfocus := hd.focus
  generalize hf : d.focus = f, hf' : d'.focus = f' at hfocus
  cases hfocus with
  | enter hs =>
    obtain ⟨x, x', hx, hx', hxx'⟩ := h.generators hd.current
    rw [step_enter hf hx, step_enter hf' hx']
    exact .next (enter_alike h hd hxx' hs)
  | body hx hr =>
    obtain ⟨K', text, hheap, hout, hout', haction⟩ :=
      m.step_alike w.state w'.state hm h.heap hx hr
    have hallocated := World.Parallel.allocate h hheap hout hout'
    rw [Drive.step, Drive.step, hf, hf']
    exact .next (.after hallocated (perform_alike hallocated.alike (hd.mono hheap.grows) haction))
  | settled result =>
    have hlast (hdone : d.Done result) (hdone' : d'.Done result) :
        StepsAlike K w w' (Drive.step m.engine (w, d)) (Drive.step m.engine (w', d')) := by
      have hwaiting := hd.waiting
      generalize hw : d.waiting = ls, hw' : d'.waiting = ls' at hwaiting
      cases hwaiting with
      | nil =>
        rw [step_halt hdone hw, step_halt hdone' hw']
        exact .halt result (.modify h hd.current fun hx => hx.setLock false)
      | cons hl hls =>
        rw [step_handOver hdone hw, step_handOver hdone' hw']
        exact .next (handOver_alike h hd.current result hl hls)
    have hresend := hd.resend
    generalize hsent : d.resend = sent, hsent' : d'.resend = sent' at hresend
    cases hresend with
    | none => exact hlast (.of_none hf hsent) (.of_none hf' hsent')
    | some hv =>
      cases result with
      | ok b =>
        rw [step_resend hf hsent, step_resend hf' hsent']
        exact .next (.keep (.refl h) ⟨hd.current, .none, .enter (.some hv), hd.waiting⟩)
      | error e =>
        exact hlast ⟨hf, fun _ _ _ hok => by cases hok⟩ ⟨hf', fun _ _ _ hok => by cases hok⟩

/-- Alike drives end together. -/
theorem run_alike (hm : m.Inert K) (h : w.Alike K w') (hd : d.Alike K d') (n : Nat) :
    Option.Rel (fun q q' => q.2 = q'.2 ∧ ∃ K', World.Parallel K w w' K' q.1 q'.1)
      (run (Drive.step m.engine) n (w, d)) (run (Drive.step m.engine) n (w', d')) := by
  induction n generalizing K w w' d d' with
  | zero => exact .none
  | succ n ih =>
    have hstep := step_alike hm h hd
    rw [run, run]
    generalize Drive.step m.engine (w, d) = t, Drive.step m.engine (w', d') = t' at hstep
    cases hstep with
    | halt r hw => exact .some ⟨rfl, K, hw⟩
    | next hs =>
      obtain ⟨K', hw, hd'⟩ := hs
      refine optionRel_imp (ih (hm.mono hw.grows) hw.alike hd') ?_
      rintro q q' - ⟨heq, K'', hw'⟩
      exact ⟨heq, K'', hw.trans hw'⟩

end Drive

end YieldMachine
