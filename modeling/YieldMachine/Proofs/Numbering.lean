import YieldMachine.Proofs.History.Transcript
import YieldMachine.Proofs.Table.Ledger
import YieldMachine.Script

/-!
The keys that generators give to the values of their bodies. Over its whole life a generator numbers what its body
itself yields: each value without a key gets the one after the largest integer key before it, whatever is delegated
in between (`automatic_keys_follow_largest`). A table that takes in the same yields appends under the same keys,
until the largest integer is a key (`Numbered.mirror_push?`).
-/

namespace YieldMachine

variable {H F S : Type}

/-- What a body yields: a pair with its own key, or a value that gets an automatic one. -/
inductive Yield where
  | pair (key value : Value)
  | value (v : Value)

def Line.yield? : Line H F → Option Yield
  | .acted _ _ (.yieldPair k v _) => some (.pair k v)
  | .acted _ _ (.yieldValue v _) => some (.value v)
  | _ => none

namespace Moment

/-- The key that a generator shows. -/
def keyOf (m : Moment H F S) (g : GeneratorId) : Value :=
  ((m.world.generator? g).map (·.key)).getD .null

/-- Steps of a run lead from the first moment to the second, and these are the yields of the body of `g` on the
way, each with the key that the generator shows right after it. -/
inductive Yields (E : Engine H F S) (g : GeneratorId) :
    Moment H F S → List (Yield × Value) → Moment H F S → Prop where
  | refl (m : Moment H F S) : Yields E g m [] m
  | next {m m₁ m₂ : Moment H F S} {ys : List (Yield × Value)} (h : Yields E g m ys m₁)
      (n : Next E m₁ m₂) :
      Yields E g m (ys ++ ((m₁.lines E m₂ g).filterMap Line.yield?).map (·, m₂.keyOf g)) m₂

end Moment

def integerKeys (ys : List (Yield × Value)) : List Int64 := ys.filterMap (·.2.asInt?)

/-- The key of the next value without one. -/
def nextKey (ys : List (Yield × Value)) : Int := keyAfter ((integerKeys ys).map Int64.toInt).max?

/-- A table takes in a yield: integer keys are inserted, values without a key are appended. -/
def Table.receive (t : Table Value) : Yield → Table Value
  | .pair (.int n) v => t.insert (.int n) v
  | .pair .. => t
  | .value v => ((t.push? v).map Prod.snd).getD t

/-- A new table takes in all yields. -/
def mirror (ys : List (Yield × Value)) : Table Value := (ys.map Prod.fst).foldl Table.receive .empty

/-- The key that a yield gets after these. -/
inductive Yield.Gets (ys : List (Yield × Value)) : Yield → Value → Prop where
  | pair (k v : Value) : Gets ys (.pair k v) k
  | value (v : Value) {n : Int64} (h : n.toInt = nextKey ys) : Gets ys (.value v) (.int n)

/-- Every yield has the key that it gets after the ones before it. -/
inductive Numbered : List (Yield × Value) → Prop where
  | nil : Numbered []
  | concat {ys : List (Yield × Value)} {y : Yield} {k : Value} (h : Numbered ys) (hy : y.Gets ys k) :
      Numbered (ys ++ [(y, k)])

variable {E : Engine H F S} {m m' : Moment H F S} {g : GeneratorId} {x x' : Generator H F}
  {ys before after : List (Yield × Value)} {y : Yield} {k : Value}

/-! ### The largest integer key -/

theorem max?_congr {as bs : List Int} (h : ∀ a, a ∈ as ↔ a ∈ bs) : as.max? = bs.max? := by
  cases hm : as.max? with
  | none =>
    obtain rfl := List.max?_eq_none_iff.mp hm
    obtain rfl : bs = [] := List.eq_nil_iff_forall_not_mem.mpr fun b hb => List.not_mem_nil ((h b).mpr hb)
    rfl
  | some a =>
    obtain ⟨hmem, hle⟩ := List.max?_eq_some_iff.mp hm
    exact (List.max?_eq_some_iff.mpr ⟨(h a).mp hmem, fun b hb => hle b ((h b).mpr hb)⟩).symm

theorem max?_toInt_congr {ks ls : List Int64} (h : ∀ n, n ∈ ks ↔ n ∈ ls) :
    (ks.map Int64.toInt).max? = (ls.map Int64.toInt).max? :=
  max?_congr fun a => by simp only [List.mem_map, h]

theorem integerKeys_concat (ys : List (Yield × Value)) (y : Yield) (k : Value) :
    integerKeys (ys ++ [(y, k)]) = integerKeys ys ++ k.asInt?.toList := by
  rw [integerKeys, List.filterMap_append]
  cases hk : k.asInt? <;> simp [integerKeys, hk]

theorem mem_integerKeys_concat {n : Int64} :
    n ∈ integerKeys (ys ++ [(y, k)]) ↔ k = .int n ∨ n ∈ integerKeys ys := by
  rw [integerKeys_concat, List.mem_append, or_comm]
  refine or_congr ?_ Iff.rfl
  cases k <;> simp [Value.asInt?, eq_comm]

/-- The largest integer key among these. -/
def IsLargest (ys : List (Yield × Value)) (largest : Option Int64) : Prop :=
  ((integerKeys ys).map Int64.toInt).max? = largest.map Int64.toInt

theorem IsLargest.concat {largest : Option Int64} (h : IsLargest ys largest) (y : Yield) (k : Value) :
    IsLargest (ys ++ [(y, k)]) (Generator.raiseKey largest k) := by
  cases k with
  | int n =>
    have hfront : ((integerKeys (ys ++ [(y, .int n)])).map Int64.toInt).max? =
        ((n :: integerKeys ys).map Int64.toInt).max? :=
      max?_toInt_congr fun a => by
        rw [mem_integerKeys_concat, List.mem_cons, Value.int.injEq, eq_comm]
    rw [IsLargest, hfront, List.map_cons, List.max?_cons, h]
    cases largest with
    | none => rfl
    | some l =>
      simp only [Generator.raiseKey, Option.map_some, Option.elim_some, Int64.lt_iff_toInt_lt]
      split
      · rw [Option.map_some, Int.max_eq_left (by omega)]
      · rw [Option.map_some, Int.max_eq_right (by omega)]
  | _ =>
    rw [IsLargest, integerKeys_concat]
    exact (congrArg (fun ks => (List.map Int64.toInt ks).max?) (List.append_nil _)).trans h

/-- The generator's automatic key is the next one after its body's own yields. -/
theorem IsLargest.automaticKey (h : IsLargest ys x.largestKey) : x.automaticKey.toInt = nextKey ys := by
  rw [nextKey, h, Generator.automaticKey]
  cases x.largestKey with
  | none => rfl
  | some l =>
    have hsucc := saturatingSucc_toInt l
    have hmax : Int64.maxValue.toInt = 2 ^ 63 - 1 := rfl
    have hzero : (0 : Int64).toInt = 0 := rfl
    simp only [Option.map_some, keyAfter, Int64.lt_iff_toInt_lt, hzero]
    split
    · omega
    · omega

/-! ### What one passage does -/

namespace Drive

theorem Answers.largestKey {reply : Reply} (h : Answers x reply x') : x'.largestKey = x.largestKey := by
  cases h <;> rfl

/-- Only a yield of the body changes the largest integer key, and it shows its key. -/
theorem Passage.yields {p p' : Position F} {ls : List (Line H F)} (h : Passage E p x ls p' x') :
    (ls.filterMap Line.yield? = [] ∧ x'.largestKey = x.largestKey) ∨
      ∃ y, ls.filterMap Line.yield? = [y] ∧
        x'.largestKey = Generator.raiseKey x.largestKey x'.key ∧
        ∀ ys, IsLargest ys x.largestKey → y.Gets ys x'.key := by
  cases h with
  | act hE hp =>
    cases hp with
    | yieldPair k v frame => exact .inr ⟨.pair k v, rfl, rfl, fun _ _ => .pair k v⟩
    | yieldValue v frame =>
      exact .inr ⟨.value v, rfl, rfl, fun _ hlargest => .value v hlargest.automaticKey⟩
    | delegate _ _ ha => exact .inl ⟨rfl, ha.largestKey⟩
    | _ => exact .inl ⟨rfl, rfl⟩
  | resume _ _ _ sent => cases sent <;> exact .inl ⟨rfl, rfl⟩
  | breakOff _ _ hls => rcases hls with rfl | rfl <;> exact .inl ⟨rfl, rfl⟩
  | answer _ ha => exact .inl ⟨rfl, ha.largestKey⟩
  | _ => exact .inl ⟨rfl, rfl⟩

/-- What a passage keeps: the yields are numbered, and the generator knows the largest integer key among them. -/
theorem Passage.numbers {p p' : Position F} {ls : List (Line H F)} (h : Passage E p x ls p' x')
    (hn : Numbered ys) (hl : IsLargest ys x.largestKey) :
    Numbered (ys ++ (ls.filterMap Line.yield?).map (·, x'.key)) ∧
      IsLargest (ys ++ (ls.filterMap Line.yield?).map (·, x'.key)) x'.largestKey := by
  rcases h.yields with ⟨hquiet, hsame⟩ | ⟨y, hyield, hraise, hgets⟩
  · rw [hquiet, List.map_nil, List.append_nil, hsame]
    exact ⟨hn, hl⟩
  · rw [hyield, hraise]
    exact ⟨hn.concat (hgets ys hl), hl.concat y x'.key⟩

end Drive

/-! ### What a run does -/

namespace Moment

theorem Yields.later (h : Yields E g m ys m') : Later E m m' := by
  induction h with
  | refl => exact .refl _
  | next _ n ih => exact .next ih n

/-- Every run has its yields: those that its transcript notes. -/
theorem Notes.yields {ls : List (Line H F)} (h : Notes E g m ls m') :
    ∃ ys, Yields E g m ys m' ∧ ys.map Prod.fst = ls.filterMap Line.yield? := by
  induction h with
  | refl => exact ⟨[], .refl _, rfl⟩
  | @next m₁ m₂ ls _ n ih =>
    obtain ⟨ys, hys, hfst⟩ := ih
    refine ⟨_, .next hys n, ?_⟩
    rw [List.map_append, hfst, List.filterMap_append, List.map_map]
    exact congrArg _ (List.map_id _)

/-- Nothing is noted of a generator that was dropped. -/
theorem lines_of_gone (hk : m.Kept) (hg : g ∈ m'.gone) : m.lines E m' g = [] := by
  unfold lines
  split
  · next d hd =>
    split
    · next hsame =>
      have hout : g ∉ d.chain := by
        have hspared := hk.spared g (hsame ▸ hg)
        rwa [chain, hd] at hspared
      exact Drive.lines_of_ne fun he => hout (he ▸ List.mem_cons_self)
    · rfl
  · rfl

theorem Yields.numbered {heap : Heap} {state : S}
    (h : Yields E g ⟨⟨heap, state, #[]⟩, none, [], []⟩ ys m) :
    Numbered ys ∧ (g ∉ m.gone → (m.world.generator? g = none → ys = []) ∧
      ∀ x, m.world.generator? g = some x → IsLargest ys x.largestKey) := by
  generalize hm : (⟨⟨heap, state, #[]⟩, none, [], []⟩ : Moment H F S) = m₀ at h
  have hstart : m₀.Kept := hm ▸ Kept.origin heap state
  induction h with
  | refl =>
    subst hm
    exact ⟨.nil, fun _ => ⟨fun _ => rfl, fun x hx => by simp [World.generator?] at hx⟩⟩
  | @next m₁ m₂ ys h n ih =>
    obtain ⟨hnumbered, hlargest⟩ := ih
    have hk : m₁.Kept := hstart.later h.later
    by_cases hg : g ∈ m₂.gone
    · rw [lines_of_gone hk hg, List.filterMap_nil, List.map_nil, List.append_nil]
      exact ⟨hnumbered, fun hstays => absurd hg hstays⟩
    · obtain ⟨habsent, hthere⟩ := hlargest fun hgone => hg (n.gone_subset hgone)
      cases hx : m₁.world.generator? g with
      | none =>
        rw [habsent hx, lines_of_absent hk hx]
        refine ⟨.nil, fun _ => ⟨fun _ => rfl, fun x' hx' => ?_⟩⟩
        obtain ⟨-, k, f, args, rfl⟩ := n.newborn hk hx hx'
        rfl
      | some x =>
        obtain ⟨x', hx', hp⟩ := n.passage hk hg hx
        obtain ⟨hnumbered', hlargest'⟩ := hp.numbers hnumbered (hthere x hx)
        have hkey : m₂.keyOf g = x'.key := by rw [keyOf, hx']; rfl
        rw [hx', hkey]
        refine ⟨hnumbered', fun _ => ⟨fun hnone => (by cases hnone), fun y hy => ?_⟩⟩
        exact Option.some.inj hy ▸ hlargest'

end Moment

/-! ### The same yields in a table -/

/-- Up to any yield, the yields are numbered, and it has the key that it gets then. -/
theorem Numbered.split (h : Numbered (before ++ (y, k) :: after)) : Numbered before ∧ y.Gets before k := by
  generalize hys : before ++ (y, k) :: after = ys at h
  induction h generalizing after with
  | nil => simp at hys
  | @concat ys y' k' h hy ih =>
    rcases List.eq_nil_or_concat after with rfl | ⟨after', last, rfl⟩
    · obtain ⟨rfl, heq⟩ := List.append_inj' hys rfl
      obtain ⟨rfl, rfl⟩ := Prod.mk.inj (List.cons.inj heq).1
      exact ⟨h, hy⟩
    · rw [List.concat_eq_append, ← List.cons_append, ← List.append_assoc] at hys
      exact ih (List.append_inj' hys rfl).1

theorem mirror_concat (ys : List (Yield × Value)) (y : Yield) (k : Value) :
    mirror (ys ++ [(y, k)]) = (mirror ys).receive y := by
  simp [mirror]

/-- Where the same integers were inserted, the ledger appends under the next key. -/
theorem cursor_eq_nextKey {s : Ledger Value} (h : ∀ n, n ∈ s.inserted ↔ n ∈ integerKeys ys) :
    s.cursor = nextKey ys := congrArg keyAfter (max?_toInt_congr h)

namespace Numbered

variable {t : Table Value} {s : Ledger Value}

/-- A table that stands for the yields so far appends under the key that the next value gets. -/
theorem push?_of_refines (ht : Refines t s) (hs : ∀ n, n ∈ s.inserted ↔ n ∈ integerKeys ys)
    (hfree : Int64.maxValue ∉ integerKeys ys) {n : Int64} (hn : n.toInt = nextKey ys) (v : Value) :
    t.push? v = some (n, t.insert (.int n) v) := by
  obtain rfl : t.cursor = n := Int64.toInt.inj (by rw [ht.cursor_eq, cursor_eq_nextKey hs, hn])
  rw [ht.push?_eq, if_neg fun hmem => hfree ((hs _).mp (ht.recorded _ hmem))]

/-- Until the largest integer is a key, the mirror stands for a ledger with just the integer keys of the yields. -/
theorem mirror_refines (h : Numbered ys) (hfree : Int64.maxValue ∉ integerKeys ys) :
    ∃ s, Refines (mirror ys) s ∧ ∀ n, n ∈ s.inserted ↔ n ∈ integerKeys ys := by
  induction h with
  | nil => exact ⟨.empty, .empty, fun n => Iff.rfl⟩
  | @concat ys y k h hy ih =>
    have hfree' : Int64.maxValue ∉ integerKeys ys := fun hmem =>
      hfree (mem_integerKeys_concat.mpr (.inr hmem))
    obtain ⟨s, hs, hmem⟩ := ih hfree'
    -- An integer key is inserted, whether the body gave it or it is automatic.
    have hinsert (n : Int64) (v : Value) (heq : mirror (ys ++ [(y, .int n)]) = (mirror ys).insert (.int n) v) :
        ∃ s, Refines (mirror (ys ++ [(y, .int n)])) s ∧
          ∀ a, a ∈ s.inserted ↔ a ∈ integerKeys (ys ++ [(y, .int n)]) := by
      refine ⟨s.insert (.int n) v, heq ▸ hs.insert (.int n) v, fun a => ?_⟩
      rw [mem_integerKeys_concat, ← hmem, Value.int.injEq, eq_comm]
      exact List.mem_cons
    cases hy with
    | value v hn =>
      refine hinsert _ v ?_
      rw [mirror_concat, Table.receive, push?_of_refines hs hmem hfree' hn]
      rfl
    | pair k v =>
      cases k with
      | int n => exact hinsert n v (mirror_concat ..)
      | _ =>
        refine ⟨s, (mirror_concat ..).symm ▸ hs, fun a => ?_⟩
        rw [hmem, mem_integerKeys_concat]
        simp

/-- Until the largest integer is a key, the mirror appends under the key that the next value gets. -/
theorem mirror_push? (h : Numbered ys) (hfree : Int64.maxValue ∉ integerKeys ys) {n : Int64}
    (hn : n.toInt = nextKey ys) (v : Value) : ((mirror ys).push? v).map Prod.fst = some n := by
  obtain ⟨s, hs, hmem⟩ := h.mirror_refines hfree
  rw [push?_of_refines hs hmem hfree hn, Option.map_some]

end Numbered

/-- However a body yields and delegates over the life of its generator, each value that it yields without a key gets
the one after the largest integer key, given or automatic, of its own yields before: at least 0, at most the largest
integer, 0 if there was none. At every moment the generator holds that key ready. A table that takes in the same
yields appends the value under the same key, as long as the largest integer was no key. -/
theorem automatic_keys_follow_largest (E : Engine H F S) {heap : Heap} {state : S} {g : GeneratorId}
    {ys : List (Yield × Value)} {m : Moment H F S}
    (h : Moment.Yields E g ⟨⟨heap, state, #[]⟩, none, [], []⟩ ys m) :
    (∀ before k v key after, ys = before ++ (.pair k v, key) :: after → key = k) ∧
    (∀ before v key after, ys = before ++ (.value v, key) :: after →
      ∃ n, key = .int n ∧ n.toInt = keyAfter ((integerKeys before).map Int64.toInt).max? ∧
        (Int64.maxValue ∉ integerKeys before → ((mirror before).push? v).map Prod.fst = some n)) ∧
    ∀ x, g ∉ m.gone → m.world.generator? g = some x →
      x.automaticKey.toInt = keyAfter ((integerKeys ys).map Int64.toInt).max? := by
  obtain ⟨hnumbered, hlargest⟩ := h.numbered
  refine ⟨?_, ?_, fun x hg hx => ((hlargest hg).2 x hx).automaticKey⟩
  · rintro before k v key after rfl
    obtain ⟨-, hgets⟩ := hnumbered.split
    cases hgets
    rfl
  · rintro before v key after rfl
    obtain ⟨hbefore, hgets⟩ := hnumbered.split
    cases hgets with
    | value v hn => exact ⟨_, rfl, hn, fun hfree => hbefore.mirror_push? hfree hn v⟩

/-- A script yields a pair under 5 and one under a reference to 40, delegates to a table with the key 41, and yields
a value. The value gets the key 6, as it does in a table that has the key 5. -/
theorem automatic_key_past_delegation :
    ∃ (E : Engine Unit Script.Frame Script.Tally) (m : Moment Unit Script.Frame Script.Tally),
      let before := [(.pair (.int 5) .null, .int 5), (.pair (.reference 0) .null, .reference 0)]
      Moment.Yields E 0 ⟨⟨⟨#[.int 40], 1⟩, .empty, #[]⟩, none, [], []⟩
        (before ++ [(.value .null, .int 6)]) m ∧
      ((mirror before).push? .null).map Prod.fst = some 6 := by
  let before : List (Yield × Value) :=
    [(.pair (.int 5) .null, .int 5), (.pair (.reference 0) .null, .reference 0)]
  let body : Array Cue := #[.reportPair (.int 5) .null, .reportPair (.reference 0) .null,
    .start (.array 0 (.ofEntries [(.int 41, .null)])), .reportValue .null]
  obtain ⟨scripts, hbody⟩ : ∃ scripts : Scripts, scripts.body "counter" = body :=
    ⟨Std.TreeMap.empty.insert "counter" body, by simp [Scripts.body]⟩
  let E := Script.engine scripts
  let heap : Heap := ⟨#[.int 40], 1⟩
  let x : Generator Unit Script.Frame := .fresh () ⟨"counter", 0, 0, #[]⟩ []
  let w : World Unit Script.Frame Script.Tally := ⟨heap, .empty, #[x]⟩
  have hopen : w.open? 0 .next = some (w.lock 0, ⟨0, none, .enter none, []⟩) := rfl
  have hstart : Drive.step E (w.lock 0, ⟨0, none, .enter none, []⟩) =
      .next (⟨heap, ⟨1, 0, #[]⟩, #[x.begin.setLock true]⟩,
        ⟨0, none, .body ⟨body, [], 0⟩ .proceed, []⟩) := by
    rw [← hbody]
    rfl
  have hcreated := Moment.Yields.next (E := E) (g := 0) (.refl ⟨⟨heap, .empty, #[]⟩, none, [], []⟩)
    (.create () ⟨"counter", 0, 0, #[]⟩ [])
  have hstarted := (hcreated.next (.call List.not_mem_nil hopen)).next (.step hstart List.not_mem_nil)
  -- Each line takes two steps: the body acts, and goes on when it has the reply.
  have hfive := (hstarted.next (.step rfl List.not_mem_nil)).next (.step rfl List.not_mem_nil)
  have hreference := (hfive.next (.step rfl List.not_mem_nil)).next (.step rfl List.not_mem_nil)
  have hdelegated := (hreference.next (.step rfl List.not_mem_nil)).next (.step rfl List.not_mem_nil)
  have hvalue : Moment.Yields E 0 ⟨⟨heap, .empty, #[]⟩, none, [], []⟩ (before ++ [(.value .null, .int 6)]) _ :=
    hdelegated.next (.step rfl List.not_mem_nil)
  obtain ⟨-, hvalues, -⟩ := automatic_keys_follow_largest E hvalue
  obtain ⟨n, hkey, -, hpush⟩ := hvalues before .null (.int 6) [] rfl
  obtain rfl := Value.int.inj hkey
  exact ⟨E, _, hvalue, hpush (by decide)⟩

end YieldMachine
