import YieldMachine.Proofs.Independence.Interleaving

/-!
Turns that change places. What two drivers make in their turns is numbered in the order of the turns, so in the other
order it has other numbers. But for these the two orders come to the same, if the drivers have different generators
within reach (`World.exchange`): a generator is left as one driver left it, as the other did, or as it was.
-/

namespace YieldMachine

namespace Correspondence

/-- The numbers of what is made from `n` to `p` and then to `l`, where the second part is made first, up to `q`. -/
def exchanged (n p q l a a' : Nat) : Prop := a = a' ∧ a < n ∨ shifted n q p a a' ∨ shifted p n l a a'

variable {n p q l a b a' b' : Nat}

theorem same_iff (ha : a = a') (hb : b = b') : a = b ↔ a' = b' := by
  rw [ha, hb]

theorem exchanged_iff (hp : n ≤ p) (hq : n ≤ q) (hl : l + n = q + p) (ha : exchanged n p q l a a')
    (hb : exchanged n p q l b b') : a = b ↔ a' = b' := by
  unfold exchanged shifted at ha hb
  omega

theorem exchanged_lt {l' : Nat} (hp : n ≤ p) (hq : n ≤ q) (hl : l + n = q + p) (hl' : p + q = l' + n)
    (h : exchanged n p q l a a') : a < l ∧ a' < l' := by
  unfold exchanged shifted at h
  omega

theorem exchanged_keeps (hp : n ≤ p) (hq : n ≤ q) (h : exchanged n p q l a a') : a = a' ∨ n ≤ a ∧ n ≤ a' := by
  unfold exchanged shifted at h
  omega

theorem exists_exchanged (hp : n ≤ p) (h : a < l) : ∃ a', exchanged n p q l a a' := by
  refine ⟨if a < n then a else if a < p then a + q - n else a + n - p, ?_⟩
  unfold exchanged shifted
  grind

theorem exchanged_exists {l' : Nat} (hp : n ≤ p) (hq : n ≤ q) (hl : l + n = q + p) (hl' : p + q = l' + n)
    (h : a' < l') : ∃ a, exchanged n p q l a a' := by
  refine ⟨if a' < n then a' else if a' < q then a' + p - n else a' + n - q, ?_⟩
  unfold exchanged shifted
  grind

/-- What there is in the world keeps its name. -/
structure Keeps (w : World Nat Execution Output) (K : Correspondence) : Prop where
  generator : ∀ {g g'}, K.generator g g' → g = g' ∨ w.generators.size ≤ g ∧ w.generators.size ≤ g'
  allocation : ∀ {i i'}, K.allocation i i' → i = i' ∨ w.heap.nextAllocation ≤ i ∧ w.heap.nextAllocation ≤ i'
  cell : ∀ {c c'}, K.cell c c' → c = c'

end Correspondence

namespace World

/-- Two turns, one after the other. -/
def inTurn (m : Machine) (fuel : Nat) (w : World Nat Execution Output) (g : GeneratorId) (r : Request)
    (g' : GeneratorId) (r' : Request) : Option (Receipt × Receipt × World Nat Execution Output) :=
  (w.turn m fuel g r).bind fun p => (p.2.turn m fuel g' r').map fun q => (p.1, q.1, q.2)

/-- What comes of two turns in `w` is the same in the other order, up to the names of what is new: the receipts, and the
whole worlds. -/
structure Same (w : World Nat Execution Output) (K : Correspondence)
    (p p' : Receipt × Receipt × World Nat Execution Output) : Prop where
  keeps : K.Keeps w
  left : ∀ g, g < p.2.2.generators.size → ∃ g', K.generator g g'
  right : ∀ g', g' < p'.2.2.generators.size → ∃ g, K.generator g g'
  cell : ∀ c, K.cell c c
  world : p.2.2.Alike K p'.2.2
  first : p.1.Alike K p'.2.1
  second : p.2.1.Alike K p'.1

section Exchange

variable {m : Machine} {P Q : GeneratorId → Prop} {K K' : Correspondence} {w v v' u u' : World Nat Execution Output}

/-- Changes in `P` lead from `w` to `v` and changes in `Q` on to `v'`; made first, those in `Q` lead to `u`, and those
in `P` on to `u'`. -/
structure Square (m : Machine) (P Q : GeneratorId → Prop) (K K' : Correspondence)
    (w v v' u u' : World Nat Execution Output) : Prop where
  first : Parallel (w.share m P) w u K v u'
  second : Parallel (w.share m Q) v w K' v' u
  apart : ∀ g, P g → ¬ Q g

namespace Square

/-- The names in the one order and in the other. -/
def names (h : Square m P Q K K' w v v' u u') : Correspondence where
  generator := Correspondence.exchanged w.generators.size v.generators.size u.generators.size v'.generators.size
  allocation := Correspondence.exchanged w.heap.nextAllocation v.heap.nextAllocation u.heap.nextAllocation
    v'.heap.nextAllocation
  cell c c' := c = c'
  generator_iff := Correspondence.exchanged_iff h.first.left.size h.second.right.size h.second.generators
  allocation_iff := Correspondence.exchanged_iff h.first.left.allocation h.second.right.allocation h.second.allocations
  cell_iff := @Correspondence.same_iff

variable (h : Square m P Q K K' w v v' u u')

include h

theorem names_growsTo : w.names.GrowsTo h.names :=
  ⟨.inl, .inl, id⟩

theorem first_growsTo : K.GrowsTo h.names := by
  refine ⟨fun {g g'} hg => ?_, fun {i i'} hi => ?_, fun {c c'} hc => ?_⟩
  · exact ((h.first.generator g g').mp hg).imp (fun hs => ⟨hs.1, hs.2.1⟩) .inl
  · exact ((h.first.allocation i i').mp hi).imp id .inl
  · rw [h.first.cell] at hc
    exact hc.1

theorem second_growsTo : K'.GrowsTo h.names := by
  refine ⟨fun {g g'} hg => ?_, fun {i i'} hi => ?_, fun {c c'} hc => ?_⟩
  · exact ((h.second.generator g g').mp hg).imp (fun hs => ⟨hs.1, hs.2.1⟩) .inr
  · exact ((h.second.allocation i i').mp hi).imp id .inr
  · rw [h.second.cell] at hc
    exact hc.1

/-- What the first turn left is still there after the second, unless it belongs to the second. -/
theorem kept {g : GeneratorId} (hg : g < v.generators.size) (hQ : g < w.generators.size → ¬ Q g) :
    v'.generator? g = v.generator? g :=
  h.second.left.kept g hg fun ⟨_, hs⟩ => hQ hs.2.1 hs.2.2

theorem kept' {g : GeneratorId} (hg : g < u.generators.size) (hP : g < w.generators.size → ¬ P g) :
    u'.generator? g = u.generator? g :=
  h.first.right.kept g hg fun ⟨_, hs⟩ => hP (hs.1 ▸ hs.2.1) (hs.1 ▸ hs.2.2)

/-- Whatever the order of the turns, they lead to the same. -/
theorem alike (hclosed : w.Closed m) : v'.Alike h.names u' where
  heap := by
    refine ⟨fun {c c'} hc => ?_, fun i i' hi => ?_⟩
    · obtain rfl : c = c' := hc
      rw [Heap.target, Heap.target, h.second.left.cells, h.first.left.cells, h.first.right.cells, h.second.right.cells]
      exact (hclosed.world.heap.cells rfl).mono h.names_growsTo
    · exact Correspondence.exchanged_lt h.first.left.allocation h.second.right.allocation h.second.allocations
        h.first.allocations hi
  generators {g g'} hg := by
    have hwv := h.first.left.size
    have hwu := h.second.right.size
    rcases hg with ⟨rfl, hlt⟩ | hfirst | hsecond
    · have hv : g < v.generators.size := Nat.lt_of_lt_of_le hlt hwv
      have hu : g < u.generators.size := Nat.lt_of_lt_of_le hlt hwu
      by_cases hP : P g
      · obtain ⟨x, x', hx, hx', hxx'⟩ := h.first.alike.generators (h.first.grows.generator ⟨rfl, hlt, hP⟩)
        exact ⟨x, x', (h.kept hv fun _ => h.apart g hP).trans hx, hx', hxx'.mono h.first_growsTo⟩
      by_cases hQ : Q g
      · obtain ⟨x, x', hx, hx', hxx'⟩ := h.second.alike.generators (h.second.grows.generator ⟨rfl, hlt, hQ⟩)
        exact ⟨x, x', hx, (h.kept' hu fun _ => hP).trans hx', hxx'.mono h.second_growsTo⟩
      · obtain ⟨x, x', hx, hx', hxx'⟩ := hclosed.world.generators ⟨rfl, hlt⟩
        have hfirst : v.generator? g = w.generator? g := h.first.left.kept g hlt fun hs => hP hs.choose_spec.2.2
        have hsecond : u.generator? g = w.generator? g :=
          h.second.right.kept g hlt fun hs => hQ (hs.choose_spec.1 ▸ hs.choose_spec.2.2)
        exact ⟨x, x', ((h.kept hv fun _ => hQ).trans hfirst).trans hx,
          ((h.kept' hu fun _ => hP).trans hsecond).trans hx', hxx'.mono h.names_growsTo⟩
    · obtain ⟨x, x', hx, hx', hxx'⟩ := h.first.alike.generators ((h.first.generator g g').mpr (.inr hfirst))
      have hold : g < w.generators.size → ¬ Q g := fun hlt => absurd hfirst.1 (Nat.not_le.mpr hlt)
      exact ⟨x, x', (h.kept hfirst.2.1 hold).trans hx, hx', hxx'.mono h.first_growsTo⟩
    · obtain ⟨x, x', hx, hx', hxx'⟩ := h.second.alike.generators ((h.second.generator g g').mpr (.inr hsecond))
      have hlt' := (h.second.alike.lt g g' ((h.second.generator g g').mpr (.inr hsecond))).2
      have hold : g' < w.generators.size → ¬ P g' :=
        fun hlt => absurd (Correspondence.shifted_le hsecond).2 (Nat.not_le.mpr hlt)
      exact ⟨x, x', hx, (h.kept' hlt' hold).trans hx', hxx'.mono h.second_growsTo⟩

theorem keeps : h.names.Keeps w where
  generator := Correspondence.exchanged_keeps h.first.left.size h.second.right.size
  allocation := Correspondence.exchanged_keeps h.first.left.allocation h.second.right.allocation
  cell := id

/-- The text of the first turn and that of the second. -/
theorem printed : ∃ text text', v.state = w.state.print text ∧ u.state = w.state.print text' ∧
    v'.state = w.state.print (text ++ text') ∧ u'.state = w.state.print (text' ++ text) := by
  obtain ⟨text, hv, hu'⟩ := h.first.printed
  obtain ⟨text', hv', hu⟩ := h.second.printed
  refine ⟨text, text', hv, hu, ?_, ?_⟩
  · rw [hv', hv, Output.print_print]
  · rw [hu', hu, Output.print_print]

end Square

theorem Square.same (h : Square m P Q K K' w v v' u u') (hclosed : w.Closed m) {x y x' y' : Receipt}
    (hx : x.Alike K x') (hy : y.Alike K' y') : Same w h.names (x, y, v') (y', x', u') where
  keeps := h.keeps
  left _ hg := Correspondence.exists_exchanged h.first.left.size hg
  right _ hg' := Correspondence.exchanged_exists h.first.left.size h.second.right.size h.second.generators
    h.first.generators hg'
  cell _ := rfl
  world := h.alike hclosed
  first := hx.mono h.first_growsTo
  second := hy.mono h.second_growsTo

end Exchange

/-! ### Turns that change places -/

/-- The turns came out the same in the other order, and what each of them prints stands in the order of the turns. -/
def Swapped (m : Machine) (fuel : Nat) (w : World Nat Execution Output) (g : GeneratorId) (r : Request)
    (g' : GeneratorId) (r' : Request) (p p' : Receipt × Receipt × World Nat Execution Output) : Prop :=
  (∃ K, Same w K p p') ∧ ∃ text text',
    (∀ q, w.turn m fuel g r = some q → q.2.state = w.state.print text) ∧
    (∀ q, w.turn m fuel g' r' = some q → q.2.state = w.state.print text') ∧
    p.2.2.state = w.state.print (text ++ text') ∧ p'.2.2.state = w.state.print (text' ++ text)

section Turns

variable {m : Machine} {w v v' : World Nat Execution Output} {P Q : GeneratorId → Prop} {fuel : Nat}
  {g g' : GeneratorId} {r r' : Request}

/-- What a driver needs of a world in order to be alone in `P`. -/
structure Holds (m : Machine) (P : GeneratorId → Prop) (w : World Nat Execution Output) (g : GeneratorId)
    (r : Request) : Prop where
  inert : m.Inert (w.share m P)
  alike : w.Alike (w.share m P) w
  own : (w.share m P).generator g g
  request : r.Alike (w.share m P) r

/-- What is done elsewhere does not matter. -/
theorem Alike.elsewhere (h : w.Alike (w.share m P) w) (hv : Confined Q w v) (hv' : Confined Q w v')
    (hPQ : ∀ g, P g → ¬ Q g) : v.Alike (w.share m P) v' :=
  h.of_confined hv hv' fun g _ hg => ⟨hPQ g hg.2.2, hg.1 ▸ hPQ g hg.2.2⟩

theorem Holds.confined (h : Holds m P w g r) {p : Receipt × World Nat Execution Output}
    (ht : w.turn m fuel g r = some p) : Confined P w p.2 := by
  have hturn := turn_alike h.inert h.alike h.own h.request fuel
  rw [ht] at hturn
  cases hturn with
  | some hp =>
    obtain ⟨K, hK, -⟩ := hp
    exact hK.left.imp fun g ⟨_, hg⟩ => hg.2.2

/-- The turns of two drivers with different generators within reach may change places. -/
theorem exchange (hclosed : w.Closed m) (h : Holds m P w g r) (h' : Holds m Q w g' r') (hPQ : ∀ g, P g → ¬ Q g) :
    Option.Rel (Swapped m fuel w g r g' r') (w.inTurn m fuel g r g' r') (w.inTurn m fuel g' r' g r) := by
  have hQP : ∀ g, Q g → ¬ P g := fun g hQ hP => hPQ g hP hQ
  -- the first driver finds the world after the other's turn like the one before
  have hafter {q : Receipt × World Nat Execution Output} (hq : w.turn m fuel g' r' = some q) :=
    turn_alike h.inert (h.alike.elsewhere (.refl _ w) (h'.confined hq) hPQ) h.own h.request fuel
  rw [inTurn, inTurn]
  cases hfirst : w.turn m fuel g r with
  | none =>
    cases hsecond : w.turn m fuel g' r' with
    | none => exact .none
    | some q =>
      have hturn := hafter hsecond
      rw [hfirst] at hturn
      rw [Option.bind_some]
      generalize q.2.turn m fuel g r = p at hturn
      cases hturn with
      | none => exact .none
  | some p =>
    have hturn' := turn_alike h'.inert (h'.alike.elsewhere (h.confined hfirst) (.refl _ w) hQP) h'.own h'.request fuel
    rw [Option.bind_some]
    generalize p.2.turn m fuel g' r' = q, hsecond : w.turn m fuel g' r' = q' at hturn'
    cases hturn' with
    | none => exact .none
    | @some q q' hq =>
      obtain ⟨K', hK', hy⟩ := hq
      have hturn := hafter hsecond
      rw [hfirst] at hturn
      rw [Option.bind_some]
      generalize q'.2.turn m fuel g r = p' at hturn
      cases hturn with
      | @some _ p' hp =>
        obtain ⟨K, hK, hx⟩ := hp
        have hsquare : Square m P Q K K' w p.2 q.2 q'.2 p'.2 := ⟨hK, hK', hPQ⟩
        obtain ⟨text, text', hp, hq', hend, hend'⟩ := hsquare.printed
        refine .some ⟨⟨_, hsquare.same hclosed hx hy⟩, text, text', ?_, ?_, hend, hend'⟩
        · intro o ho
          rw [← Option.some.inj (hfirst.symm.trans ho), hp]
        · intro o ho
          rw [← Option.some.inj (hsecond.symm.trans ho), hq']

end Turns

end World

end YieldMachine
