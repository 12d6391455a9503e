import Mathlib.Data.List.Forall2
import YieldMachine.Machine.Arithmetic
import YieldMachine.Heap
import YieldMachine.Value.Handles

/-!
Values that differ in names only. A correspondence says which generators, allocations and cells of one store
stand for which of another, one-to-one, and values are alike if they differ by it and nothing else. Nothing that a
body can find out about a value tells alike values apart: its truth, text and key, sums and comparisons
(`Value.Alike.equal`), and what is looked up in a table or entered into it.
-/

namespace YieldMachine

/-- Which generators, allocations and cells of one store stand for which of another. -/
@[ext]
structure Correspondence where
  generator : GeneratorId → GeneratorId → Prop
  allocation : AllocationId → AllocationId → Prop
  cell : CellId → CellId → Prop
  generator_iff : ∀ {a b a' b'}, generator a a' → generator b b' → (a = b ↔ a' = b')
  allocation_iff : ∀ {a b a' b'}, allocation a a' → allocation b b' → (a = b ↔ a' = b')
  cell_iff : ∀ {a b a' b'}, cell a a' → cell b b' → (a = b ↔ a' = b')

namespace Correspondence

/-- The second correspondence has all the pairs of the first. -/
structure GrowsTo (K K' : Correspondence) : Prop where
  generator : ∀ {g g'}, K.generator g g' → K'.generator g g'
  allocation : ∀ {i i'}, K.allocation i i' → K'.allocation i i'
  cell : ∀ {c c'}, K.cell c c' → K'.cell c c'

theorem GrowsTo.refl (K : Correspondence) : K.GrowsTo K := ⟨id, id, id⟩

theorem GrowsTo.trans {K K' K'' : Correspondence} (h : K.GrowsTo K') (h' : K'.GrowsTo K'') :
    K.GrowsTo K'' :=
  ⟨fun hg => h'.generator (h.generator hg), fun hi => h'.allocation (h.allocation hi),
    fun hc => h'.cell (h.cell hc)⟩

/-- One more pair. -/
def paired (R : Nat → Nat → Prop) (n n' a a' : Nat) : Prop := R a a' ∨ a = n ∧ a' = n'

theorem paired_iff {R : Nat → Nat → Prop} {n n' a a' b b' : Nat}
    (hR : ∀ {a b a' b'}, R a a' → R b b' → (a = b ↔ a' = b'))
    (hfresh : ∀ a a', R a a' → a < n ∧ a' < n') (ha : paired R n n' a a') (hb : paired R n n' b b') :
    a = b ↔ a' = b' := by
  rcases ha with ha | ⟨rfl, rfl⟩ <;> rcases hb with hb | ⟨rfl, rfl⟩
  · exact hR ha hb
  · obtain ⟨hlt, hlt'⟩ := hfresh _ _ ha
    omega
  · obtain ⟨hlt, hlt'⟩ := hfresh _ _ hb
    omega
  · exact ⟨fun _ => rfl, fun _ => rfl⟩

/-- What is numbered from `n` up to `k` in one store, and as far from `n'` in the other. -/
def shifted (n n' k a a' : Nat) : Prop := n ≤ a ∧ a < k ∧ a + n' = a' + n

theorem shifted_none {n n' a a' : Nat} : ¬ shifted n n' n a a' := by
  unfold shifted
  omega

theorem shifted_one {n n' a a' : Nat} : shifted n n' (n + 1) a a' ↔ a = n ∧ a' = n' := by
  unfold shifted
  omega

theorem shifted_le {n n' k a a' : Nat} (h : shifted n n' k a a') : n ≤ a ∧ n' ≤ a' := by
  unfold shifted at h
  omega

/-- What is numbered from the same number on has the same number. -/
theorem shifted_same {n k a a' : Nat} (hn : n ≤ k) : a = a' ∧ a < n ∨ shifted n n k a a' ↔ a = a' ∧ a < k := by
  unfold shifted
  omega

theorem shifted_trans {n n' k k' l a a' : Nat} (hn : n ≤ k) (hk : k ≤ l) (hsame : k + n' = k' + n) :
    shifted n n' l a a' ↔ shifted n n' k a a' ∨ shifted k k' l a a' := by
  unfold shifted
  omega

theorem together_one (n n' : Nat) : n + 1 + n' = n' + 1 + n := by omega

theorem together_le {n n' k k' : Nat} (h : k + n' = k' + n) (hle : n ≤ k) : n' ≤ k' := by omega

theorem together_trans {n n' k k' l l' : Nat} (h : k + n' = k' + n) (h' : l + k' = l' + k) :
    l + n' = l' + n := by
  omega

/-- Two new allocations stand for each other. -/
def allocate (K : Correspondence) (n n' : AllocationId)
    (hfresh : ∀ i i', K.allocation i i' → i < n ∧ i' < n') : Correspondence :=
  { K with
    allocation := paired K.allocation n n'
    allocation_iff := paired_iff K.allocation_iff hfresh }

/-- Two new generators stand for each other. -/
def create (K : Correspondence) (n n' : GeneratorId)
    (hfresh : ∀ g g', K.generator g g' → g < n ∧ g' < n') : Correspondence :=
  { K with
    generator := paired K.generator n n'
    generator_iff := paired_iff K.generator_iff hfresh }

variable {K : Correspondence} {n n' : Nat}

theorem growsTo_allocate (hfresh : ∀ i i', K.allocation i i' → i < n ∧ i' < n') :
    K.GrowsTo (K.allocate n n' hfresh) := ⟨id, .inl, id⟩

theorem growsTo_create (hfresh : ∀ g g', K.generator g g' → g < n ∧ g' < n') :
    K.GrowsTo (K.create n n' hfresh) := ⟨.inl, id, id⟩

end Correspondence

/-- Whether a value names nothing in a store. -/
def Value.isAtom : Value → Bool
  | .null | .bool _ | .int _ | .float _ | .text _ | .resource _ => true
  | .array .. | .object .. | .reference _ | .generator _ => false

theorem Value.handles_of_isAtom {v : Value} (h : v.isAtom = true) : v.handles = [] := by
  cases v <;> first | rfl | cases h

/-- The values differ in the names of allocations, cells and generators, and in these by the correspondence. -/
inductive Value.Alike (K : Correspondence) : Value → Value → Prop where
  | atom {v : Value} (h : v.isAtom = true) : Alike K v v
  | array {i i' : AllocationId} {t t' : Table Value} (hi : K.allocation i i') (hindex : t.index = t'.index)
      (hcursor : t.cursor = t'.cursor) (hkeys : t.toList.map Prod.fst = t'.toList.map Prod.fst)
      (hvalues : ∀ (n : Nat) v v', (t.toList.map Prod.snd)[n]? = some v → (t'.toList.map Prod.snd)[n]? = some v' →
        Alike K v v') : Alike K (.array i t) (.array i' t')
  | object {i i' : AllocationId} {o o' : Object Value} (hi : K.allocation i i')
      (hclass : o.className = o'.className) (hnames : o.properties.map Prod.fst = o'.properties.map Prod.fst)
      (hvalues : ∀ (n : Nat) v v', (o.properties.map Prod.snd)[n]? = some v →
        (o'.properties.map Prod.snd)[n]? = some v' → Alike K v v') : Alike K (.object i o) (.object i' o')
  | reference {c c' : CellId} (h : K.cell c c') : Alike K (.reference c) (.reference c')
  | generator {g g' : GeneratorId} (h : K.generator g g') : Alike K (.generator g) (.generator g')

/-! ### Named values side by side -/

section Entries

variable {κ : Type} {R : Value → Value → Prop} {es es' : List (κ × Value)}

/-- The same names in the same order, with related values. -/
abbrev EntriesAlike (R : Value → Value → Prop) : List (κ × Value) → List (κ × Value) → Prop :=
  List.Forall₂ fun e e' => e.1 = e'.1 ∧ R e.2 e'.2

theorem entriesAlike_of_values (hnames : es.map Prod.fst = es'.map Prod.fst)
    (hvalues : ∀ (n : Nat) v v', (es.map Prod.snd)[n]? = some v → (es'.map Prod.snd)[n]? = some v' → R v v') :
    EntriesAlike R es es' := by
  induction es generalizing es' with
  | nil =>
    cases es' with
    | nil => exact .nil
    | cons e' es' => cases hnames
  | cons e es ih =>
    cases es' with
    | nil => cases hnames
    | cons e' es' =>
      obtain ⟨hname, hrest⟩ := List.cons.inj hnames
      exact .cons ⟨hname, hvalues 0 _ _ rfl rfl⟩ (ih hrest fun n => hvalues (n + 1))

theorem EntriesAlike.names (h : EntriesAlike R es es') : es.map Prod.fst = es'.map Prod.fst := by
  induction h with
  | nil => rfl
  | cons h _ ih => rw [List.map_cons, List.map_cons, h.1, ih]

theorem EntriesAlike.values (h : EntriesAlike R es es') (n : Nat) (v v' : Value)
    (hv : (es.map Prod.snd)[n]? = some v) (hv' : (es'.map Prod.snd)[n]? = some v') : R v v' := by
  induction h generalizing n with
  | nil => cases hv
  | cons h _ ih =>
    cases n with
    | zero =>
      cases hv
      cases hv'
      exact h.2
    | succ n => exact ih n hv hv'

end Entries

/-- Tables with alike values under the same keys. -/
structure Table.Alike (K : Correspondence) (t t' : Table Value) : Prop where
  entries : EntriesAlike (Value.Alike K) t.toList t'.toList
  index : t.index = t'.index
  cursor : t.cursor = t'.cursor

namespace Value.Alike

variable {K K' : Correspondence} {v v' w w' : Value}

theorem null (K : Correspondence) : Value.Alike K .null .null := .atom rfl

theorem ofTable {i i' : AllocationId} {t t' : Table Value} (hi : K.allocation i i') (ht : t.Alike K t') :
    Value.Alike K (.array i t) (.array i' t') :=
  .array hi ht.index ht.cursor ht.entries.names ht.entries.values

end Value.Alike

/-! ### What alike values have in common -/

theorem Table.listHandles_eq (es : List (Key × Value)) :
    Table.listHandles es = es.flatMap fun e => e.2.handles := by
  induction es with
  | nil => rfl
  | cons e es ih =>
    obtain ⟨k, v⟩ := e
    rw [Table.listHandles, ih, List.flatMap_cons, Table.entryHandles]

theorem Object.propertiesHandles_eq (ps : List (String × Value)) :
    Object.propertiesHandles ps = ps.flatMap fun p => p.2.handles := by
  induction ps with
  | nil => rfl
  | cons p ps ih =>
    obtain ⟨name, v⟩ := p
    rw [Object.propertiesHandles, ih, List.flatMap_cons, Object.propertyHandles]

theorem Table.handles_eq (t : Table Value) : t.handles = t.toList.flatMap fun e => e.2.handles := by
  obtain ⟨⟨es⟩, index, cursor⟩ := t
  rw [Table.handles, Table.entriesHandles, Table.listHandles_eq]
  rfl

theorem Table.equal_eq (t u : Table Value) : t.equal u = Table.listEqual t.toList u.toList := by
  obtain ⟨⟨es⟩, index, cursor⟩ := t
  obtain ⟨⟨fs⟩, index', cursor'⟩ := u
  rfl

theorem mem_handles_of_entry {κ : Type} {es : List (κ × Value)} {n : Nat} {v : Value} {h : Handle}
    (hv : (es.map Prod.snd)[n]? = some v) (hh : h ∈ v.handles) : h ∈ es.flatMap fun e => e.2.handles := by
  obtain ⟨e, he, rfl⟩ := List.mem_map.mp (List.mem_of_getElem? hv)
  exact List.mem_flatMap.mpr ⟨e, he, hh⟩

namespace Value.Alike

variable {K K' : Correspondence} {v v' w w' : Value}

/-- Another correspondence does as well if it has the pairs that the first value names. -/
theorem imp (h : v.Alike K v')
    (hg : ∀ g g', Handle.generator g ∈ v.handles → K.generator g g' → K'.generator g g')
    (hc : ∀ c c', Handle.cell c ∈ v.handles → K.cell c c' → K'.cell c c')
    (hi : ∀ i i', K.allocation i i' → K'.allocation i i') : v.Alike K' v' := by
  induction h with
  | atom h => exact .atom h
  | @array i i' t t' hid hindex hcursor hkeys _ ih =>
    have hmem {n : Nat} {v : Value} {h : Handle} (hv : (t.toList.map Prod.snd)[n]? = some v) (hh : h ∈ v.handles) :
        h ∈ (Value.array i t).handles := by
      rw [Value.handles, Table.handles_eq]
      exact mem_handles_of_entry hv hh
    exact .array (hi _ _ hid) hindex hcursor hkeys fun n v v' hv hv' => ih n v v' hv hv'
      (fun g g' hh => hg g g' (hmem hv hh)) fun c c' hh => hc c c' (hmem hv hh)
  | @object i i' o o' hid hclass hnames _ ih =>
    have hmem {n : Nat} {v : Value} {h : Handle} (hv : (o.properties.map Prod.snd)[n]? = some v) (hh : h ∈ v.handles) :
        h ∈ (Value.object i o).handles := by
      rw [Value.handles, Object.handles, Object.propertiesHandles_eq]
      exact mem_handles_of_entry hv hh
    exact .object (hi _ _ hid) hclass hnames fun n v v' hv hv' => ih n v v' hv hv'
      (fun g g' hh => hg g g' (hmem hv hh)) fun c c' hh => hc c c' (hmem hv hh)
  | reference h => exact .reference (hc _ _ List.mem_cons_self h)
  | generator h => exact .generator (hg _ _ List.mem_cons_self h)

theorem mono (hK : K.GrowsTo K') (h : v.Alike K v') : v.Alike K' v' :=
  h.imp (fun _ _ _ => hK.generator) (fun _ _ _ => hK.cell) fun _ _ => hK.allocation

theorem typeName (h : v.Alike K v') : v.typeName = v'.typeName := by
  cases h <;> rfl

theorem asInt (h : v.Alike K v') : v.asInt? = v'.asInt? := by
  cases h <;> rfl

theorem isEmpty_eq {κ : Type} {R : Value → Value → Prop} {es es' : List (κ × Value)}
    (h : EntriesAlike R es es') : es.isEmpty = es'.isEmpty := by
  cases h <;> rfl

theorem truth (h : v.Alike K v') : v.truth = v'.truth := by
  cases h with
  | array hi hindex hcursor hkeys hvalues =>
    have hempty := isEmpty_eq (entriesAlike_of_values hkeys hvalues)
    simpa [Value.truth, Table.isEmpty, Table.toList] using hempty
  | _ => rfl

theorem plainText (h : v.Alike K v') : v.plainText = v'.plainText := by
  cases h with
  | object hi hclass => exact hclass
  | _ => rfl

theorem plainKey (h : v.Alike K v') : v.plainKey? = v'.plainKey? := by
  cases h <;> rfl

theorem listEqual_congr {es es' fs fs' : List (Key × Value)}
    (h : EntriesAlike (fun v v' => ∀ w w', Value.Alike K w w' → v.equal w = v'.equal w') es es')
    (h' : EntriesAlike (Value.Alike K) fs fs') : Table.listEqual es fs = Table.listEqual es' fs' := by
  induction h generalizing fs fs' with
  | nil => cases h' <;> rfl
  | @cons e e' _ _ h _ ih =>
    cases h' with
    | nil => rfl
    | @cons f f' _ _ hf hfs =>
      have hentry : Table.entryEqual e f = Table.entryEqual e' f' := by
        rw [Table.entryEqual, Table.entryEqual, h.1, hf.1, h.2 _ _ hf.2]
      rw [Table.listEqual, Table.listEqual, hentry, ih hfs]

theorem propertiesEqual_congr {es es' fs fs' : List (String × Value)}
    (h : EntriesAlike (fun v v' => ∀ w w', Value.Alike K w w' → v.equal w = v'.equal w') es es')
    (h' : EntriesAlike (Value.Alike K) fs fs') :
    Object.propertiesEqual es fs = Object.propertiesEqual es' fs' := by
  induction h generalizing fs fs' with
  | nil => cases h' <;> rfl
  | @cons e e' _ _ h _ ih =>
    cases h' with
    | nil => rfl
    | @cons f f' _ _ hf hfs =>
      have hentry : Object.propertyEqual e f = Object.propertyEqual e' f' := by
        rw [Object.propertyEqual, Object.propertyEqual, h.1, hf.1, h.2 _ _ hf.2]
      rw [Object.propertiesEqual, Object.propertiesEqual, hentry, ih hfs]

/-- Alike values are equal to alike values. -/
theorem equal (h : v.Alike K v') (h' : w.Alike K w') : v.equal w = v'.equal w' := by
  have hbeq {a b a' b' : Nat} (hiff : a = b ↔ a' = b') : (a == b) = (a' == b') := by
    rw [Bool.eq_iff_iff, beq_iff_eq, beq_iff_eq, hiff]
  induction h generalizing w w' with
  | @atom v hv =>
    cases h' with
    | atom => rfl
    | _ => cases v <;> first | rfl | cases hv
  | array hi hindex hcursor hkeys _ ih =>
    cases h' with
    | @atom w hw => cases w <;> first | rfl | cases hw
    | array hi' hindex' hcursor' hkeys' hvalues' =>
      have hentries := entriesAlike_of_values (R := fun v v' => ∀ w w', Value.Alike K w w' → v.equal w = v'.equal w')
        hkeys fun n v v' hv hv' w w' hw => ih n v v' hv hv' hw
      have htables := listEqual_congr hentries (entriesAlike_of_values hkeys' hvalues')
      rw [Value.equal, Value.equal, hbeq (K.allocation_iff hi hi')]
      rw [Table.equal_eq, Table.equal_eq, htables]
    | _ => rfl
  | object hi hclass hnames _ ih =>
    cases h' with
    | @atom w hw => cases w <;> first | rfl | cases hw
    | object hi' hclass' hnames' hvalues' =>
      have hentries := entriesAlike_of_values (R := fun v v' => ∀ w w', Value.Alike K w w' → v.equal w = v'.equal w')
        hnames fun n v v' hv hv' w w' hw => ih n v v' hv hv' hw
      have hproperties := propertiesEqual_congr hentries (entriesAlike_of_values hnames' hvalues')
      rw [Value.equal, Value.equal, hbeq (K.allocation_iff hi hi'), Object.equal, Object.equal, hclass, hclass',
        hproperties]
    | _ => rfl
  | reference hc =>
    cases h' with
    | @atom w hw => cases w <;> first | rfl | cases hw
    | reference hc' => exact hbeq (K.cell_iff hc hc')
    | _ => rfl
  | generator hg =>
    cases h' with
    | @atom w hw => cases w <;> first | rfl | cases hw
    | generator hg' => exact hbeq (K.generator_iff hg hg')
    | _ => rfl

end Value.Alike

/-! ### Tables -/

section Entries

variable {κ : Type} {K : Correspondence} {es es' : List (κ × Value)}

theorem EntriesAlike.getD (h : EntriesAlike (Value.Alike K) es es') (n : Nat) :
    ((es.map Prod.snd)[n]?.getD .null).Alike K ((es'.map Prod.snd)[n]?.getD .null) := by
  induction h generalizing n with
  | nil => exact .null K
  | cons h _ ih =>
    cases n with
    | zero => exact h.2
    | succ n => exact ih n

/-- Another value under the name at one place. -/
theorem EntriesAlike.modify {v v' : Value} (h : EntriesAlike (Value.Alike K) es es') (hv : v.Alike K v')
    (n : Nat) : EntriesAlike (Value.Alike K) (es.modify n fun e => (e.1, v)) (es'.modify n fun e => (e.1, v')) := by
  induction h generalizing n with
  | nil => simp
  | cons h hs ih =>
    cases n with
    | zero =>
      rw [List.modify_zero_cons, List.modify_zero_cons]
      exact .cons ⟨h.1, hv⟩ hs
    | succ n =>
      rw [List.modify_succ_cons, List.modify_succ_cons]
      exact .cons h (ih n)

end Entries

namespace Table.Alike

variable {K : Correspondence} {t t' : Table Value} {v v' : Value}

theorem mono {K' : Correspondence} (hK : K.GrowsTo K') (h : t.Alike K t') : t.Alike K' t' :=
  ⟨h.entries.imp fun _ _ he => ⟨he.1, he.2.mono hK⟩, h.index, h.cursor⟩

theorem empty (K : Correspondence) : (Table.empty : Table Value).Alike K .empty := ⟨.nil, rfl, rfl⟩

theorem keys (h : t.Alike K t') : t.keys = t'.keys := h.entries.names

theorem get (h : t.Alike K t') (k : Key) : ((t.get? k).getD .null).Alike K ((t'.get? k).getD .null) := by
  rw [Table.get?, Table.get?, h.index]
  cases t'.index[k]? with
  | none => exact .null K
  | some pos => simpa [Table.toList] using h.entries.getD pos

theorem insert (h : t.Alike K t') (hv : v.Alike K v') (k : Key) : (t.insert k v).Alike K (t'.insert k v') := by
  rw [Table.insert, Table.insert, h.index]
  cases t'.index[k]? with
  | some pos =>
    refine ⟨?_, rfl, congrArg (raise · k) h.cursor⟩
    simpa [Table.toList] using h.entries.modify hv pos
  | none =>
    have hsize : t.entries.size = t'.entries.size := by simpa [Table.toList] using h.entries.length_eq
    refine ⟨?_, by simp only [hsize], congrArg (raise · k) h.cursor⟩
    have happend := List.rel_append h.entries (.cons ⟨rfl, hv⟩ .nil : EntriesAlike (Value.Alike K) [(k, v)] [(k, v')])
    simpa [Table.toList] using happend

theorem nextIndex (h : t.Alike K t') : t.nextIndex? = t'.nextIndex? := by
  rw [nextIndex?, nextIndex?, contains, contains, h.index, h.cursor]

end Table.Alike

/-! ### Stores -/

/-- The cells that stand for each other have alike targets, and there are no new allocations among those that do. -/
structure Heap.Alike (K : Correspondence) (h h' : Heap) : Prop where
  cells : ∀ {c c'}, K.cell c c' → (h.target c).Alike K (h'.target c')
  allocations : ∀ i i', K.allocation i i' → i < h.nextAllocation ∧ i' < h'.nextAllocation

namespace Heap.Alike

variable {K : Correspondence} {h h' : Heap} {v v' : Value}

theorem deref (hh : h.Alike K h') (hv : v.Alike K v') : (h.deref v).Alike K (h'.deref v') := by
  cases hv with
  | @atom v hv => cases v <;> first | exact .atom hv | cases hv
  | reference hc => exact hh.cells hc
  | array hi hindex hcursor hkeys hvalues => exact .array hi hindex hcursor hkeys hvalues
  | object hi hclass hnames hvalues => exact .object hi hclass hnames hvalues
  | generator hg => exact .generator hg

theorem isTruthy (hh : h.Alike K h') (hv : v.Alike K v') : h.isTruthy v = h'.isTruthy v' :=
  (hh.deref hv).truth

theorem display (hh : h.Alike K h') (hv : v.Alike K v') : h.display v = h'.display v' :=
  (hh.deref hv).plainText

theorem key (hh : h.Alike K h') (hv : v.Alike K v') : h.key? v = h'.key? v' :=
  (hh.deref hv).plainKey

end Heap.Alike

/-! ### Arithmetic -/

namespace Arithmetic

variable {K : Correspondence} {a a' b b' v : Value}

theorem number_alike (h : a.Alike K a') : number? a = number? a' := by
  cases h <;> rfl

theorem inFloats_alike (ha : a.Alike K a') (hb : b.Alike K b') (operator : String)
    (f : Binary64 → Binary64 → Value) : inFloats operator f a b = inFloats operator f a' b' := by
  rw [inFloats, inFloats, number_alike ha, number_alike hb, ha.typeName, hb.typeName]

/-- Alike values that are not the same are no numbers and no texts. -/
theorem same_or_atomless (h : a.Alike K a') : a = a' ∨ a.isAtom = false ∧ a'.isAtom = false := by
  cases h with
  | atom => exact .inl rfl
  | _ => exact .inr ⟨rfl, rfl⟩

theorem exactly_atomless (f : Int → Int → Int) (h : a.isAtom = false ∨ b.isAtom = false) :
    exactly? f a b = none := by
  rcases h with h | h
  · cases a <;> cases h <;> rfl
  · cases b <;> cases h <;> cases a <;> rfl

theorem lt_atomless (h : a.isAtom = false ∨ b.isAtom = false) :
    lt a b = inFloats "<" (fun x y => .bool (x.numLt y)) a b := by
  rcases h with h | h
  · cases a <;> cases h <;> rfl
  · cases b <;> cases h <;> cases a <;> rfl

/-- A function of two values that tells alike ones apart in no case tells them apart if it does not for values that
are no numbers and no texts. -/
theorem same_of_atomless {α : Type} {f : Value → Value → α} (ha : a.Alike K a') (hb : b.Alike K b')
    (hf : a.isAtom = false ∨ b.isAtom = false → a'.isAtom = false ∨ b'.isAtom = false → f a b = f a' b') :
    f a b = f a' b' := by
  rcases same_or_atomless ha with rfl | ⟨ha, ha'⟩
  · rcases same_or_atomless hb with rfl | ⟨hb, hb'⟩
    · rfl
    · exact hf (.inr hb) (.inr hb')
  · exact hf (.inl ha) (.inl ha')

theorem exactly_alike (ha : a.Alike K a') (hb : b.Alike K b') (f : Int → Int → Int) :
    exactly? f a b = exactly? f a' b' :=
  same_of_atomless ha hb fun h h' => by rw [exactly_atomless f h, exactly_atomless f h']

theorem add_alike (ha : a.Alike K a') (hb : b.Alike K b') : add a b = add a' b' := by
  rw [add, add, exactly_alike ha hb, inFloats_alike ha hb]

theorem sub_alike (ha : a.Alike K a') (hb : b.Alike K b') : sub a b = sub a' b' := by
  rw [sub, sub, exactly_alike ha hb, inFloats_alike ha hb]

theorem lt_alike (ha : a.Alike K a') (hb : b.Alike K b') : lt a b = lt a' b' :=
  same_of_atomless ha hb fun h h' => by rw [lt_atomless h, lt_atomless h', inFloats_alike ha hb]

theorem eq_alike (ha : a.Alike K a') (hb : b.Alike K b') : eq a b = eq a' b' :=
  congrArg (fun b => Except.ok (Value.bool b)) (ha.equal hb)

/-! Results are numbers and truth values. -/

theorem inFloats_isAtom {operator : String} {f : Binary64 → Binary64 → Value}
    (hf : ∀ x y, (f x y).isAtom = true) (h : inFloats operator f a b = .ok v) : v.isAtom = true := by
  rw [inFloats] at h
  split at h
  · obtain rfl := Except.ok.inj h
    exact hf _ _
  · cases h

theorem add_isAtom (a b v : Value) (h : add a b = .ok v) : v.isAtom = true := by
  rw [add] at h
  split at h
  · obtain rfl := Except.ok.inj h
    rfl
  · exact inFloats_isAtom (fun _ _ => rfl) h

theorem sub_isAtom (a b v : Value) (h : sub a b = .ok v) : v.isAtom = true := by
  rw [sub] at h
  split at h
  · obtain rfl := Except.ok.inj h
    rfl
  · exact inFloats_isAtom (fun _ _ => rfl) h

theorem lt_isAtom (a b v : Value) (h : lt a b = .ok v) : v.isAtom = true := by
  unfold lt at h
  split at h
  · obtain rfl := Except.ok.inj h
    rfl
  · obtain rfl := Except.ok.inj h
    rfl
  · exact inFloats_isAtom (fun _ _ => rfl) h

theorem eq_isAtom (a b v : Value) (h : eq a b = .ok v) : v.isAtom = true := by
  obtain rfl := Except.ok.inj h
  rfl

end Arithmetic

end YieldMachine
