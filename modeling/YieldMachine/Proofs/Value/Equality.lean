import YieldMachine.Proofs.Likeness.Value
import YieldMachine.Proofs.Value.Structure
import YieldMachine.Value.Equality

/-!
Equality of values and its shortcut. Values that are one allocation are equal without a look at their contents;
otherwise contents are compared. Where each allocation has one content, equality is symmetric and transitive, and
the shortcut changes no answer unless both sides hold a NaN (`equality_lawful`).
-/

namespace YieldMachine

/-! ### Doubles -/

namespace Binary64

variable {x y z : Binary64}

theorem numEq_iff : x.numEq y = true ↔ x.isNaN = false ∧ y.isNaN = false ∧ x.rank = y.rank := by
  simp [numEq, and_assoc]

theorem numEq_self (x : Binary64) : x.numEq x = !x.isNaN := by
  simp [numEq]

theorem numEq_symm (h : x.numEq y = true) : y.numEq x = true := by
  obtain ⟨hx, hy, hrank⟩ := numEq_iff.mp h
  exact numEq_iff.mpr ⟨hy, hx, hrank.symm⟩

theorem numEq_trans (h : x.numEq y = true) (h' : y.numEq z = true) : x.numEq z = true := by
  obtain ⟨hx, -, hrank⟩ := numEq_iff.mp h
  obtain ⟨-, hz, hrank'⟩ := numEq_iff.mp h'
  exact numEq_iff.mpr ⟨hx, hz, hrank.trans hrank'⟩

end Binary64

namespace Value

/-- Equal without contents: doubles as numbers, all else by being the same. -/
inductive LeafEqual : Value → Value → Prop where
  | float {x y : Binary64} (h : x.numEq y = true) : LeafEqual (.float x) (.float y)
  | same {v : Value} (hsimple : v.isCompound = false) (hfloat : ∀ x, v ≠ .float x) : LeafEqual v v

/-- Two handles of one allocation. -/
inductive OneAllocation : Value → Value → Prop where
  | array (i : AllocationId) (t u : Table Value) : OneAllocation (.array i t) (.array i u)
  | object (i : AllocationId) (o p : Object Value) : OneAllocation (.object i o) (.object i p)

/-- Equal before any contents are looked at. -/
def EqualAtOnce (v w : Value) : Prop := v.LeafEqual w ∨ v.OneAllocation w

/-- Equality by structure alone: what is one allocation is compared like anything else. -/
def StructurallyEqual (v w : Value) : Prop := v.Matches LeafEqual w

/-- The second value is the first with its tables and objects in other allocations, shared in any other way. -/
def Reallocated (v w : Value) : Prop := v.Matches (fun a b => a = b ∧ a.isCompound = false) w

/-- None of the doubles that it holds is a NaN. -/
def NaNFree (v : Value) : Prop := ∀ x, v.Holds (.float x) → x.isNaN = false

end Value

/-- What the values of a state hold. -/
def Within (state : Value → Prop) (v : Value) : Prop := ∃ u, state u ∧ u.Holds v

/-- All handles of one allocation have one content. -/
structure OneContent (state : Value → Prop) : Prop where
  array : ∀ {i t u}, Within state (.array i t) → Within state (.array i u) → t = u
  object : ∀ {i o p}, Within state (.object i o) → Within state (.object i p) → o = p

theorem within_inherited (state : Value → Prop) : Value.Inherited (Within state) := by
  rintro v w h ⟨u, hu, hv⟩
  exact ⟨u, hu, hv.trans h⟩

theorem Within.of_mem {state : Value → Prop} {v : Value} (h : state v) : Within state v := ⟨v, h, .self v⟩

theorem OneContent.eq {state : Value → Prop} (hs : OneContent state) {v w : Value} (hv : Within state v)
    (hw : Within state w) (h : v.OneAllocation w) : v = w := by
  cases h with
  | array i t u => rw [hs.array hv hw]
  | object i o p => rw [hs.object hv hw]

namespace Value

variable {state : Value → Prop} {u v w v' w' : Value}

theorem naNFree_inherited : Inherited NaNFree := fun h hv x hx => hv x (h.trans hx)

theorem always_inherited : Inherited fun _ => True := fun _ h => h

/-! ### Equality as a comparison along the structure -/

theorem listEqual_iff {es fs : List (Key × Value)} :
    Table.listEqual es fs = true ↔ EntriesAlike (fun v w => v.equal w = true) es fs := by
  induction es generalizing fs with
  | nil => cases fs <;> simp [Table.listEqual]
  | cons e es ih =>
    cases fs with
    | nil => simp [Table.listEqual]
    | cons f fs =>
      obtain ⟨k, v⟩ := e
      obtain ⟨l, w⟩ := f
      simp [Table.listEqual, Table.entryEqual, ih]

theorem propertiesEqual_iff {ps qs : List (String × Value)} :
    Object.propertiesEqual ps qs = true ↔ EntriesAlike (fun v w => v.equal w = true) ps qs := by
  induction ps generalizing qs with
  | nil => cases qs <;> simp [Object.propertiesEqual]
  | cons p ps ih =>
    cases qs with
    | nil => simp [Object.propertiesEqual]
    | cons q qs =>
      obtain ⟨n, v⟩ := p
      obtain ⟨m, w⟩ := q
      simp [Object.propertiesEqual, Object.propertyEqual, ih]

theorem equal_array_iff {i j : AllocationId} {t u : Table Value} :
    (Value.array i t).equal (.array j u) = true ↔
      i = j ∨ EntriesAlike (fun v w => v.equal w = true) t.toList u.toList := by
  rw [Value.equal, Bool.or_eq_true, beq_iff_eq, Table.equal_eq, listEqual_iff]

theorem equal_object_iff {i j : AllocationId} {o p : Object Value} :
    (Value.object i o).equal (.object j p) = true ↔
      i = j ∨ o.className = p.className ∧
        EntriesAlike (fun v w => v.equal w = true) o.properties p.properties := by
  rw [Value.equal, Bool.or_eq_true, beq_iff_eq, Object.equal, Bool.and_eq_true, beq_iff_eq,
    propertiesEqual_iff]

theorem equal_simple_iff (hv : v.isCompound = false) : v.equal w = true ↔ v.LeafEqual w := by
  constructor
  · intro h
    cases v <;> cases w <;> simp only [Value.equal, beq_iff_eq, Bool.false_eq_true] at h <;>
      first
      | exact .float h
      | (subst h; exact .same rfl fun _ hx => Value.noConfusion hx)
      | exact .same rfl fun _ hx => Value.noConfusion hx
      | cases hv
  · intro h
    cases h with
    | float h => exact h
    | same _ hfloat =>
      cases v <;> first | rfl | exact beq_self_eq_true _ | exact absurd rfl (hfloat _) | cases hv

/-- Equality looks for one allocation first, and then along the structure. -/
theorem equal_iff_matches :
    v.equal w = true ↔ v.Matches EqualAtOnce w := by
  constructor
  · intro h
    induction v using byContents generalizing w with
    | simple v hv => exact .outright (.inl ((equal_simple_iff hv).mp h))
    | array i t ih =>
      cases w with
      | array j u =>
        rcases equal_array_iff.mp h with rfl | hentries
        · exact .outright (.inr (.array i t u))
        · exact .array hentries.names fun n v w hv hw =>
            ih v (List.mem_of_getElem? hv) (hentries.values n v w hv hw)
      | _ => cases h
    | object i o ih =>
      cases w with
      | object j p =>
        rcases equal_object_iff.mp h with rfl | ⟨hclass, hentries⟩
        · exact .outright (.inr (.object i o p))
        · exact .object hclass hentries.names fun n v w hv hw =>
            ih v (List.mem_of_getElem? hv) (hentries.values n v w hv hw)
      | _ => cases h
  · intro h
    induction h with
    | @outright v w h =>
      rcases h with h | h
      · cases h with
        | float h => exact h
        | same hsimple hfloat => exact (equal_simple_iff hsimple).mpr (.same hsimple hfloat)
      · cases h with
        | array i t u => exact equal_array_iff.mpr (.inl rfl)
        | object i o p => exact equal_object_iff.mpr (.inl rfl)
    | array hkeys _ ih => exact equal_array_iff.mpr (.inr (entriesAlike_of_values hkeys ih))
    | object hclass hnames _ ih =>
      exact equal_object_iff.mpr (.inr ⟨hclass, entriesAlike_of_values hnames ih⟩)

/-! ### The laws -/

theorem LeafEqual.symm (h : v.LeafEqual w) : w.LeafEqual v := by
  cases h with
  | float h => exact .float (Binary64.numEq_symm h)
  | same hsimple hfloat => exact .same hsimple hfloat

theorem LeafEqual.trans (h : u.LeafEqual v) (h' : v.LeafEqual w) : u.LeafEqual w := by
  cases h with
  | same => exact h'
  | float h =>
    cases h' with
    | float h' => exact .float (Binary64.numEq_trans h h')
    | same _ hfloat => exact absurd rfl (hfloat _)

theorem LeafEqual.isCompound (h : v.LeafEqual w) : v.isCompound = false ∧ w.isCompound = false := by
  cases h with
  | float => exact ⟨rfl, rfl⟩
  | same hsimple => exact ⟨hsimple, hsimple⟩

theorem OneAllocation.isCompound (h : v.OneAllocation w) : v.isCompound = true ∧ w.isCompound = true := by
  cases h with
  | array => exact ⟨rfl, rfl⟩
  | object => exact ⟨rfl, rfl⟩

theorem OneAllocation.symm (h : v.OneAllocation w) : w.OneAllocation v := by
  cases h with
  | array i t u => exact .array i u t
  | object i o p => exact .object i p o

/-- What has no contents matches outright or not at all. -/
theorem Matches.of_simple {R : Value → Value → Prop} (h : v.Matches R w)
    (hsimple : v.isCompound = false ∨ w.isCompound = false) : R v w := by
  cases h with
  | outright h => exact h
  | array | object => rcases hsimple with h | h <;> cases h

theorem Matches.leafEqual (h : v.Matches EqualAtOnce w)
    (hsimple : v.isCompound = false ∨ w.isCompound = false) : v.LeafEqual w := by
  refine (h.of_simple hsimple).resolve_right fun hone => ?_
  obtain ⟨hv, hw⟩ := hone.isCompound
  simp [hv, hw] at hsimple

theorem equal_symm (h : v.equal w = true) : w.equal v = true := by
  rw [equal_iff_matches] at h ⊢
  exact h.symm fun h => h.imp LeafEqual.symm OneAllocation.symm

theorem equal_trans (hs : OneContent state) (hu : Within state u) (hv : Within state v)
    (hw : Within state w) (h : u.equal v = true) (h' : v.equal w = true) : u.equal w = true := by
  rw [equal_iff_matches] at h h' ⊢
  refine h.comp (within_inherited state) ?_ ?_ h' hu hv hw
  · rintro a b c ha hb (hleaf | hone) hbc
    · exact .outright (.inl (hleaf.trans (hbc.leafEqual (.inl hleaf.isCompound.2))))
    · exact hs.eq ha hb hone ▸ hbc
  · rintro a b c hb hc hab (hleaf | hone)
    · exact .outright (.inl ((hab.leafEqual (.inr hleaf.isCompound.1)).trans hleaf))
    · exact hs.eq hb hc hone ▸ hab

theorem equal_self_iff : v.equal v = true ↔ ∀ x, v = .float x → x.isNaN = false := by
  cases hv : v.isCompound with
  | true => cases v with
    | array i t => exact ⟨fun _ => nofun, fun _ => equal_array_iff.mpr (.inl rfl)⟩
    | object i o => exact ⟨fun _ => nofun, fun _ => equal_object_iff.mpr (.inl rfl)⟩
    | _ => cases hv
  | false =>
    rw [equal_simple_iff hv]
    constructor
    · rintro h x rfl
      cases h with
      | float h => exact (Binary64.numEq_iff.mp h).1
      | same _ hfloat => exact absurd rfl (hfloat x)
    · intro h
      by_cases hfloat : ∃ x, v = .float x
      · obtain ⟨x, rfl⟩ := hfloat
        exact .float (by rw [Binary64.numEq_self, h x rfl]; rfl)
      · exact .same hv fun x hx => hfloat ⟨x, hx⟩

/-! ### The shortcut -/

/-- Without a NaN, a value is equal to itself by structure alone. -/
theorem NaNFree.structurallyEqual_self (h : v.NaNFree) : v.StructurallyEqual v := by
  induction v using byContents with
  | simple v hv =>
    refine .outright ((equal_simple_iff hv).mp (equal_self_iff.mpr fun x hx => h x ?_))
    exact hx ▸ .self _
  | array i t ih =>
    refine .array rfl fun n v w hv hw => ?_
    obtain rfl : v = w := Option.some.inj (hv.symm.trans hw)
    have hmem := List.mem_of_getElem? hv
    exact ih v hmem (naNFree_inherited (.entry hmem (.self v)) h)
  | object i o ih =>
    refine .object rfl rfl fun n v w hv hw => ?_
    obtain rfl : v = w := Option.some.inj (hv.symm.trans hw)
    have hmem := List.mem_of_getElem? hv
    exact ih v hmem (naNFree_inherited (.property hmem (.self v)) h)

theorem equal_of_structurallyEqual (h : v.StructurallyEqual w) : v.equal w = true :=
  equal_iff_matches.mpr (h.bind always_inherited always_inherited (fun _ _ h => .outright (.inl h)) trivial trivial)

/-- Where one side is free of NaN, one allocation is equal to itself by structure as well. -/
theorem structurallyEqual_of_equal (hs : OneContent state) (hv : Within state v) (hw : Within state w)
    (hfree : v.NaNFree) (h : v.equal w = true) : v.StructurallyEqual w := by
  have hD : Inherited fun v => Within state v ∧ v.NaNFree := fun h hv =>
    ⟨within_inherited state h hv.1, naNFree_inherited h hv.2⟩
  refine (equal_iff_matches.mp h).bind hD (within_inherited state) ?_ ⟨hv, hfree⟩ hw
  rintro a b ⟨ha, hfree⟩ hb (hleaf | hone)
  · exact .outright hleaf
  · exact hs.eq ha hb hone ▸ hfree.structurallyEqual_self

theorem StructurallyEqual.symm (h : v.StructurallyEqual w) : w.StructurallyEqual v :=
  Matches.symm LeafEqual.symm h

theorem equal_iff_structurallyEqual (hs : OneContent state) (hv : Within state v) (hw : Within state w)
    (hfree : v.NaNFree ∨ w.NaNFree) : v.equal w = true ↔ v.StructurallyEqual w := by
  refine ⟨fun h => ?_, equal_of_structurallyEqual⟩
  rcases hfree with hfree | hfree
  · exact structurallyEqual_of_equal hs hv hw hfree h
  · exact (structurallyEqual_of_equal hs hw hv hfree (equal_symm h)).symm

/-! ### Other allocations -/

theorem Reallocated.symm (h : v.Reallocated w) : w.Reallocated v :=
  Matches.symm (fun ⟨heq, hsimple⟩ => ⟨heq.symm, heq ▸ hsimple⟩) h

/-- What is equal to anything by structure holds no NaN. -/
theorem StructurallyEqual.naNFree (h : v.StructurallyEqual w) : v.NaNFree := by
  intro x hx
  unfold StructurallyEqual at h
  induction h with
  | outright h =>
    have hself := (equal_simple_iff h.isCompound.1).mpr (h.trans h.symm)
    cases hx with
    | self => exact equal_self_iff.mp hself x rfl
    | entry | property => cases h.isCompound.1
  | array hkeys _ ih =>
    cases hx with
    | entry hv hx =>
      obtain ⟨n, hn⟩ := List.mem_iff_getElem?.mp hv
      obtain ⟨b, hb⟩ := Matches.exists_value hkeys hn
      exact ih n _ b hn hb hx
  | object hclass hnames _ ih =>
    cases hx with
    | property hv hx =>
      obtain ⟨n, hn⟩ := List.mem_iff_getElem?.mp hv
      obtain ⟨b, hb⟩ := Matches.exists_value hnames hn
      exact ih n _ b hn hb hx

theorem Reallocated.structurallyEqual_left (hv : v.Reallocated v') (h : v'.StructurallyEqual w) :
    v.StructurallyEqual w := by
  refine hv.comp always_inherited ?_ ?_ h trivial trivial trivial
  · rintro a b c - - ⟨rfl, -⟩ hbc
    exact hbc
  · rintro a b c - - hab hleaf
    obtain ⟨rfl, -⟩ := hab.of_simple (.inr hleaf.isCompound.1)
    exact .outright hleaf

/-- Equality by structure does not see allocations. -/
theorem Reallocated.structurallyEqual (hv : v.Reallocated v') (hw : w.Reallocated w')
    (h : v.StructurallyEqual w) : v'.StructurallyEqual w' :=
  hv.symm.structurallyEqual_left (hw.symm.structurallyEqual_left h.symm).symm

theorem Reallocated.naNFree (h : v.Reallocated v') (hfree : v.NaNFree) : v'.NaNFree :=
  (h.structurallyEqual h hfree.structurallyEqual_self).naNFree

/-! ### Tables -/

theorem entriesAlike_iff {κ : Type} {R : Value → Value → Prop} {es fs : List (κ × Value)} :
    EntriesAlike R es fs ↔
      es.map Prod.fst = fs.map Prod.fst ∧ List.Forall₂ R (es.map Prod.snd) (fs.map Prod.snd) := by
  induction es generalizing fs with
  | nil => cases fs <;> simp
  | cons e es ih =>
    cases fs with
    | nil => simp
    | cons f fs =>
      simp only [List.forall₂_cons, List.map_cons, List.cons.injEq, ih]
      exact and_and_and_comm

/-- Tables without NaN are equal just when they have the same keys in the same order, with equal values. -/
theorem equal_tables_iff (hs : OneContent state) {i j : AllocationId} {t u : Table Value}
    (ht : Within state (.array i t)) (hu : Within state (.array j u)) (hfree : (Value.array i t).NaNFree) :
    (Value.array i t).equal (.array j u) = true ↔
      t.keys = u.keys ∧ List.Forall₂ (fun v w => v.equal w = true) t.values u.values := by
  rw [equal_array_iff, entriesAlike_iff]
  refine or_iff_right_of_imp ?_
  rintro rfl
  obtain rfl := hs.array ht hu
  refine ⟨rfl, List.forall₂_same.mpr fun v hv => equal_self_iff.mpr ?_⟩
  rintro x rfl
  exact hfree x (.entry hv (.self _))

end Value

/-- In any state where all handles of one allocation have one content: equality is symmetric and transitive, and a
value is equal to itself unless it is a NaN. If one of two values holds no NaN, they are equal just when they are
so by structure alone, so equality does not depend on which of their parts are one allocation. Tables without NaN
are equal just when they have the same keys in the same order, with equal values, however they came about. -/
theorem equality_lawful {state : Value → Prop} (hs : OneContent state) :
    (∀ v w, state v → state w → v.equal w = w.equal v) ∧
    (∀ u v w, state u → state v → state w → u.equal v = true → v.equal w = true → u.equal w = true) ∧
    (∀ v, state v → (v.equal v = true ↔ ∀ x, v = .float x → x.isNaN = false)) ∧
    (∀ v w, state v → state w → v.NaNFree ∨ w.NaNFree → (v.equal w = true ↔ v.StructurallyEqual w)) ∧
    (∀ state', OneContent state' → ∀ v w v' w', state v → state w → state' v' → state' w' →
      v.NaNFree ∨ w.NaNFree → v.Reallocated v' → w.Reallocated w' → v'.equal w' = v.equal w) ∧
    (∀ i j t u, state (.array i t) → state (.array j u) →
      (Value.array i t).NaNFree → (Value.array j u).NaNFree →
      ((Value.array i t).equal (.array j u) = true ↔
        t.keys = u.keys ∧ List.Forall₂ (fun v w => v.equal w = true) t.values u.values)) := by
  refine ⟨?_, ?_, fun v _ => Value.equal_self_iff, ?_, ?_, ?_⟩
  · intro v w _ _
    exact Bool.eq_iff_iff.mpr ⟨Value.equal_symm, Value.equal_symm⟩
  · intro u v w hu hv hw
    exact Value.equal_trans hs (.of_mem hu) (.of_mem hv) (.of_mem hw)
  · intro v w hv hw
    exact Value.equal_iff_structurallyEqual hs (.of_mem hv) (.of_mem hw)
  · intro state' hs' v w v' w' hv hw hv' hw' hfree hrv hrw
    have hfree' := hfree.imp hrv.naNFree hrw.naNFree
    rw [Bool.eq_iff_iff, Value.equal_iff_structurallyEqual hs (.of_mem hv) (.of_mem hw) hfree,
      Value.equal_iff_structurallyEqual hs' (.of_mem hv') (.of_mem hw') hfree']
    exact ⟨hrv.symm.structurallyEqual hrw.symm, hrv.structurallyEqual hrw⟩
  · intro i j t u ht hu hfree _
    exact Value.equal_tables_iff hs (.of_mem ht) (.of_mem hu) hfree

/-- Three tables around one table with a NaN, the second with a negative zero where the others have a positive one:
the first equals the second and the second the third, so the first equals the third. Another table with a NaN does
not equal the one inside. -/
theorem equality_lawful_of_shared_nan :
    let inner : Value := .array 0 (.ofValues [.float ⟨0x7ff8000000000000⟩])
    let outer (i : AllocationId) (x : Binary64) : Value := .array i (.ofValues [inner, .float x])
    let state (v : Value) : Prop := v = outer 1 ⟨0⟩ ∨ v = outer 2 ⟨0x8000000000000000⟩ ∨ v = outer 3 ⟨0⟩
    OneContent state ∧ (outer 1 ⟨0⟩).equal (outer 2 ⟨0x8000000000000000⟩) = true ∧
      (outer 2 ⟨0x8000000000000000⟩).equal (outer 3 ⟨0⟩) = true ∧
      (outer 1 ⟨0⟩).equal (outer 3 ⟨0⟩) = true ∧
      inner.equal (.array 4 (.ofValues [.float ⟨0x7ff8000000000000⟩])) = false := by
  intro inner outer state
  have hinner {w : Value} (h : inner.Holds w) : w = inner ∨ w.isCompound = false := by
    rcases Value.holds_array_iff.mp h with rfl | ⟨v, hv, hw⟩
    · exact .inl rfl
    · obtain rfl := List.mem_singleton.mp hv
      exact .inr ((Value.holds_simple_iff rfl).mp hw ▸ rfl)
  have houter {i : AllocationId} {x : Binary64} {w : Value} (h : (outer i x).Holds w) :
      w = outer i x ∨ w = inner ∨ w.isCompound = false := by
    rcases Value.holds_array_iff.mp h with rfl | ⟨v, hv, hw⟩
    · exact .inl rfl
    · rcases List.mem_cons.mp hv with rfl | hv
      · exact .inr (hinner hw)
      · obtain rfl := List.mem_singleton.mp hv
        exact .inr (.inr ((Value.holds_simple_iff rfl).mp hw ▸ rfl))
  have hcompound {w : Value} (h : Within state w) : w ∈ [inner, outer 1 ⟨0⟩, outer 2 ⟨0x8000000000000000⟩,
      outer 3 ⟨0⟩] ∨ w.isCompound = false := by
    obtain ⟨u, rfl | rfl | rfl, hu⟩ := h <;> rcases houter hu with rfl | rfl | hw <;> simp [*]
  have hs : OneContent state := by
    constructor
    · intro i t u ht hu
      have ht := (hcompound ht).resolve_right nofun
      have hu := (hcompound hu).resolve_right nofun
      simp only [List.mem_cons, List.not_mem_nil, or_false, inner, outer, Value.array.injEq] at ht hu
      grind
    · intro i o p ho hp
      have ho := (hcompound ho).resolve_right nofun
      simp [inner, outer] at ho
  have hxy : (outer 1 ⟨0⟩).equal (outer 2 ⟨0x8000000000000000⟩) = true := by decide +kernel
  have hyz : (outer 2 ⟨0x8000000000000000⟩).equal (outer 3 ⟨0⟩) = true := by decide +kernel
  refine ⟨hs, hxy, hyz, ?_, by decide +kernel⟩
  exact (equality_lawful hs).2.1 _ _ _ (.inl rfl) (.inr (.inl rfl)) (.inr (.inr rfl)) hxy hyz

end YieldMachine
