import YieldMachine.Proofs.Table.Coherence

/-!
Tables against ordered association lists. A `Ledger` is a list of entries together with every integer key
that was ever inserted. Main statement: after any changes to a new table, `table_refines_ledger` says that
its index is exact, that reading it is reading the ledger's entries, and that its append cursor is the
ledger's, which is read off the history and is free unless the largest integer is a key.
-/

namespace YieldMachine

variable {α : Type}

/-- One past the largest key so far, never negative, at most the largest integer; 0 before any. -/
def keyAfter : Option Int → Int
  | none => 0
  | some m => min Int64.maxValue.toInt (max 0 (m + 1))

structure Ledger (α : Type) where
  entries : List (Key × α)
  inserted : List Int64

namespace Ledger

def empty : Ledger α := ⟨[], []⟩

def keys (s : Ledger α) : List Key := s.entries.map Prod.fst

/-- One past the largest integer key ever inserted. -/
def cursor (s : Ledger α) : Int := keyAfter (s.inserted.map Int64.toInt).max?

def insert (s : Ledger α) (k : Key) (a : α) : Ledger α where
  entries := Table.put k a s.entries
  inserted := match k with
    | .int n => n :: s.inserted
    | .text _ => s.inserted

def push (s : Ledger α) (a : α) : Ledger α :=
  if .int Int64.maxValue ∈ s.keys then s else s.insert (.int (Int64.ofInt s.cursor)) a

def remove (s : Ledger α) (k : Key) : Ledger α := { s with entries := Table.cut k s.entries }

end Ledger

/-- A change to a table. -/
inductive Change (α : Type) where
  | push (a : α)
  | insert (k : Key) (a : α)
  | remove (k : Key)

def Table.change (t : Table α) : Change α → Table α
  | .push a => ((t.push? a).map Prod.snd).getD t
  | .insert k a => t.insert k a
  | .remove k => ((t.remove? k).map Prod.snd).getD t

def Ledger.change (s : Ledger α) : Change α → Ledger α
  | .push a => s.push a
  | .insert k a => s.insert k a
  | .remove k => s.remove k

/-- How a new table is made. -/
inductive Origin (α : Type) where
  | empty
  | values (as : List α)
  | entries (es : List (Key × α))

def Origin.table : Origin α → Table α
  | .empty => .empty
  | .values as => .ofValues as
  | .entries es => .ofEntries es

def Origin.ledger : Origin α → Ledger α
  | .empty => .empty
  | .values as => as.foldl Ledger.push .empty
  | .entries es => es.foldl (fun s e => s.insert e.1 e.2) .empty

namespace Table

/-- The index gives the position of each key, so keys are distinct and positions are in bounds. -/
structure IndexExact (t : Table α) : Prop where
  position : ∀ (k : Key) (p : Nat), t.index[k]? = some p ↔ t.entries[p]?.map Prod.fst = some k
  distinct : t.keys.Nodup
  inBounds : ∀ (k : Key) (p : Nat), t.index[k]? = some p → p < t.entries.size

/-- Reading the table is reading the ledger's entries. -/
structure ReadsAs (t : Table α) (s : Ledger α) : Prop where
  entries : t.toList = s.entries
  get : ∀ k, t.get? k = s.entries.lookup k
  contains : ∀ k, t.contains k = true ↔ k ∈ s.keys
  size : t.size = s.entries.length
  keys : t.keys = s.keys
  values : t.values = s.entries.map Prod.snd
  removed : ∀ k, (t.remove? k).map Prod.fst = s.entries.lookup k

/-- Appending goes by the ledger's cursor and is refused just while the largest integer is a key. -/
structure AppendsAs (t : Table α) (s : Ledger α) : Prop where
  cursor : t.cursor.toInt = s.cursor
  full : t.nextIndex? = none ↔ .int Int64.maxValue ∈ s.keys
  free : .int Int64.maxValue ∉ s.keys → t.nextIndex? = some t.cursor ∧ .int t.cursor ∉ s.keys
  refused : ∀ a, t.push? a = none ↔ .int Int64.maxValue ∈ s.keys
  unchanged : ∀ a, t.push? a = none → t.change (.push a) = t
  appended : ∀ a n u, t.push? a = some (n, u) → n = t.cursor ∧ u.toList = t.toList ++ [(.int n, a)]

end Table

/-! ### The ledger's cursor -/

theorem saturatingSucc_toInt (n : Int64) :
    (saturatingSucc n).toInt = min Int64.maxValue.toInt (n.toInt + 1) := by
  have hmax : Int64.maxValue.toInt = 2 ^ 63 - 1 := rfl
  have hlt := n.toInt_lt
  have hle := n.le_toInt
  rw [saturatingSucc]
  split
  · next h =>
    subst h
    omega
  · next h =>
    have hne : n.toInt ≠ Int64.maxValue.toInt := fun hn => h (Int64.toInt.inj hn)
    rw [Int64.toInt_add, show (1 : Int64).toInt = 1 from rfl, Int.bmod_eq_of_le (by omega) (by omega)]
    omega

theorem keyAfter_range (m : Option Int) : 0 ≤ keyAfter m ∧ keyAfter m ≤ Int64.maxValue.toInt := by
  have hmax : Int64.maxValue.toInt = 2 ^ 63 - 1 := rfl
  cases m <;> simp only [keyAfter] <;> omega

/-- A further key moves the next one only if it is not below it. -/
theorem keyAfter_max (m : Option Int) {n : Int} (hn : n ≤ Int64.maxValue.toInt) :
    keyAfter (some (m.elim n (max n))) =
      if keyAfter m ≤ n then min Int64.maxValue.toInt (n + 1) else keyAfter m := by
  have hmax : Int64.maxValue.toInt = 2 ^ 63 - 1 := rfl
  by_cases h : keyAfter m ≤ n
  · rw [if_pos h]
    cases m <;> simp only [Option.elim_none, Option.elim_some, keyAfter] at h ⊢ <;> omega
  · rw [if_neg h]
    cases m <;> simp only [Option.elim_none, Option.elim_some, keyAfter] at h ⊢ <;> omega

namespace Ledger

variable {s : Ledger α}

theorem ofInt_cursor_toInt (s : Ledger α) : (Int64.ofInt s.cursor).toInt = s.cursor := by
  have hrange := keyAfter_range (s.inserted.map Int64.toInt).max?
  have hmax : Int64.maxValue.toInt = 2 ^ 63 - 1 := rfl
  exact Int64.toInt_ofInt_of_le (by rw [cursor]; omega) (by rw [cursor]; omega)

/-- The cursor is past every inserted key but the largest integer. -/
theorem lt_cursor {n : Int64} (h : n ∈ s.inserted) (hn : n ≠ Int64.maxValue) :
    n.toInt < s.cursor := by
  have hne : n.toInt ≠ Int64.maxValue.toInt := fun he => hn (Int64.toInt.inj he)
  have hle := n.toInt_le
  have hmem : n.toInt ∈ s.inserted.map Int64.toInt := List.mem_map_of_mem h
  cases hm : (s.inserted.map Int64.toInt).max? with
  | none => simp_all [List.max?_eq_none_iff]
  | some m =>
    have : n.toInt ≤ m := (List.max?_eq_some_iff.mp hm).2 _ hmem
    simp only [cursor, hm, keyAfter]
    omega

theorem cursor_insert_int (s : Ledger α) (n : Int64) (a : α) :
    (s.insert (.int n) a).cursor =
      if s.cursor ≤ n.toInt then min Int64.maxValue.toInt (n.toInt + 1) else s.cursor := by
  rw [cursor, insert, List.map_cons, List.max?_cons]
  exact keyAfter_max _ n.toInt_le

end Ledger

namespace Table

/-- The cursor of the table after an insertion follows the ledger's. -/
theorem raise_toInt {c : Int64} {s : Ledger α} (h : c.toInt = s.cursor) (k : Key) (a : α) :
    (raise c k).toInt = (s.insert k a).cursor := by
  cases k with
  | text x => exact h
  | int n =>
    rw [Ledger.cursor_insert_int, raise, ← h]
    by_cases hle : c ≤ n
    · rw [if_pos hle, if_pos (Int64.le_iff_toInt_le.mp hle), saturatingSucc_toInt]
    · rw [if_neg hle, if_neg fun hn => hle (Int64.le_iff_toInt_le.mpr hn)]

theorem mem_keys_put {k k' : Key} {a : α} {es : List (Key × α)}
    (h : k' ∈ (put k a es).map Prod.fst) : k' = k ∨ k' ∈ es.map Prod.fst := by
  rw [put] at h
  split at h
  · obtain ⟨e, he, rfl⟩ := List.mem_map.mp h
    obtain ⟨d, hd, rfl⟩ := List.mem_map.mp he
    split
    · exact .inl rfl
    · exact .inr (List.mem_map_of_mem hd)
  · simpa [or_comm] using h

end Table

/-! ### What every change keeps -/

/-- The table is coherent and stands for the ledger, whose history holds every integer key present. -/
structure Refines (t : Table α) (s : Ledger α) : Prop where
  coherent : t.Coherent
  toList_eq : t.toList = s.entries
  cursor_eq : t.cursor.toInt = s.cursor
  recorded : ∀ n, .int n ∈ s.keys → n ∈ s.inserted

namespace Refines

variable {t : Table α} {s : Ledger α}

theorem keys_eq (h : Refines t s) : t.keys = s.keys := by
  rw [Table.keys, h.toList_eq, Ledger.keys]

theorem empty : Refines (Table.empty : Table α) Ledger.empty where
  coherent := .empty
  toList_eq := rfl
  cursor_eq := rfl
  recorded := by simp [Ledger.keys, Ledger.empty]

theorem insert (h : Refines t s) (k : Key) (a : α) : Refines (t.insert k a) (s.insert k a) where
  coherent := h.coherent.insert k a
  toList_eq := (h.coherent.toList_insert k a).trans (by rw [h.toList_eq]; rfl)
  cursor_eq := by
    have hcursor : (t.insert k a).cursor = Table.raise t.cursor k := by
      rw [Table.insert]
      split <;> rfl
    rw [hcursor, Table.raise_toInt h.cursor_eq]
  recorded n hn := by
    rcases Table.mem_keys_put hn with rfl | hold
    · exact List.mem_cons_self
    · have := h.recorded n hold
      cases k with
      | int m => exact List.mem_cons_of_mem _ this
      | text x => exact this

theorem remove (h : Refines t s) (k : Key) :
    Refines (t.change (.remove k)) (s.change (.remove k)) := by
  have hrecorded : ∀ n, .int n ∈ (s.remove k).keys → n ∈ s.inserted := by
    intro n hn
    obtain ⟨e, he, hen⟩ := List.mem_map.mp hn
    exact h.recorded n (hen ▸ List.mem_map_of_mem (List.mem_filter.mp he).1)
  cases hu : t.remove? k with
  | none =>
    have hkey : k ∉ t.keys := by
      have hget := t.remove?_fst k
      rw [hu, h.coherent.get?_eq_lookup, Option.map_none, eq_comm, List.lookup_eq_none_iff] at hget
      intro hk
      obtain ⟨e, he, rfl⟩ := List.mem_map.mp hk
      simpa using hget e he
    have hcut : Table.cut k s.entries = s.entries :=
      List.filter_eq_self.mpr fun e he => decide_eq_true fun hek =>
        hkey (h.keys_eq ▸ hek ▸ List.mem_map_of_mem he)
    have hchange : t.change (.remove k) = t := by simp [Table.change, hu]
    rw [hchange]
    exact ⟨h.coherent, by rw [h.toList_eq]; exact hcut.symm, h.cursor_eq, hrecorded⟩
  | some au =>
    obtain ⟨a, u⟩ := au
    have hchange : t.change (.remove k) = u := by simp [Table.change, hu]
    obtain ⟨p, -, -, -, -, hcursor⟩ := Table.remove?_cases hu
    rw [hchange]
    refine ⟨h.coherent.remove hu, ?_, hcursor ▸ h.cursor_eq, hrecorded⟩
    rw [h.coherent.toList_remove hu, h.toList_eq]
    rfl

/-- While the largest integer is no key, the cursor is no key either. -/
theorem cursor_not_mem (h : Refines t s) (hfree : .int Int64.maxValue ∉ s.keys) :
    .int t.cursor ∉ s.keys := by
  intro hmem
  by_cases hmax : t.cursor = Int64.maxValue
  · exact hfree (hmax ▸ hmem)
  · have hlt := Ledger.lt_cursor (h.recorded _ hmem) hmax
    rw [h.cursor_eq] at hlt
    omega

theorem nextIndex?_eq (h : Refines t s) :
    t.nextIndex? = if .int Int64.maxValue ∈ s.keys then none else some t.cursor := by
  by_cases hmem : .int Int64.maxValue ∈ s.keys
  · -- The largest integer was inserted, so the cursor has stopped there.
    have hcursor : t.cursor = Int64.maxValue := by
      apply Int64.toInt.inj
      rw [h.cursor_eq]
      have hrec := h.recorded _ hmem
      have hmem' : Int64.maxValue.toInt ∈ s.inserted.map Int64.toInt := List.mem_map_of_mem hrec
      cases hm : (s.inserted.map Int64.toInt).max? with
      | none => simp_all [List.max?_eq_none_iff]
      | some m =>
        have hmax : Int64.maxValue.toInt = 2 ^ 63 - 1 := rfl
        have := (List.max?_eq_some_iff.mp hm).2 _ hmem'
        simp only [Ledger.cursor, hm, keyAfter]
        omega
    have hcontains := h.coherent.contains_iff.mpr (h.keys_eq ▸ hmem)
    simp [Table.nextIndex?, hcursor, hcontains, hmem]
  · have hcontains : t.contains (.int Int64.maxValue) = false := by
      rw [Bool.eq_false_iff]
      exact fun hc => hmem (h.keys_eq ▸ h.coherent.contains_iff.mp hc)
    simp [Table.nextIndex?, hcontains, hmem]

theorem push?_eq (h : Refines t s) (a : α) :
    t.push? a = if .int Int64.maxValue ∈ s.keys then none
      else some (t.cursor, t.insert (.int t.cursor) a) := by
  rw [Table.push?, h.nextIndex?_eq]
  split <;> rfl

theorem push (h : Refines t s) (a : α) :
    Refines (t.change (.push a)) (s.change (.push a)) := by
  simp only [Table.change, Ledger.change, h.push?_eq, Ledger.push]
  split
  · exact h
  · have hcursor : Int64.ofInt s.cursor = t.cursor :=
      Int64.toInt.inj (s.ofInt_cursor_toInt.trans h.cursor_eq.symm)
    rw [hcursor]
    exact h.insert _ a

theorem change (h : Refines t s) (c : Change α) : Refines (t.change c) (s.change c) := by
  cases c with
  | push a => exact h.push a
  | insert k a => exact h.insert k a
  | remove k => exact h.remove k

theorem changes (h : Refines t s) (cs : List (Change α)) :
    Refines (cs.foldl Table.change t) (cs.foldl Ledger.change s) := by
  induction cs generalizing t s with
  | nil => exact h
  | cons c cs ih => exact ih (h.change c)

theorem origin (o : Origin α) : Refines o.table o.ledger := by
  cases o with
  | empty => exact .empty
  | values as =>
    have hrun := (empty : Refines (α := α) _ _).changes (as.map .push)
    rw [List.foldl_map, List.foldl_map] at hrun
    exact hrun
  | entries es =>
    have hrun := (empty : Refines (α := α) _ _).changes (es.map fun e => .insert e.1 e.2)
    rw [List.foldl_map, List.foldl_map] at hrun
    exact hrun

/-! ### What the refinement says of reading and appending -/

theorem indexExact (h : Refines t s) : t.IndexExact where
  position k p := by rw [h.coherent k p, Table.keys_getElem?]
  distinct := h.coherent.nodup
  inBounds _ _ := h.coherent.lt

theorem readsAs (h : Refines t s) : t.ReadsAs s where
  entries := h.toList_eq
  get k := by rw [h.coherent.get?_eq_lookup, h.toList_eq]
  contains k := by rw [h.coherent.contains_iff, h.keys_eq]
  size := by rw [← h.toList_eq]; simp [Table.size, Table.toList]
  keys := h.keys_eq
  values := by rw [Table.values, h.toList_eq]
  removed k := by rw [t.remove?_fst, h.coherent.get?_eq_lookup, h.toList_eq]

theorem appendsAs (h : Refines t s) : t.AppendsAs s where
  cursor := h.cursor_eq
  full := by rw [h.nextIndex?_eq]; simp
  free hfree := ⟨by rw [h.nextIndex?_eq, if_neg hfree], h.cursor_not_mem hfree⟩
  refused a := by rw [h.push?_eq]; simp
  unchanged a hnone := by simp [Table.change, hnone]
  appended a n u hu := by
    rw [h.push?_eq] at hu
    split at hu
    · cases hu
    · next hfree =>
      obtain ⟨rfl, rfl⟩ := Prod.mk.inj (Option.some.inj hu)
      refine ⟨rfl, ?_⟩
      have hkey : .int t.cursor ∉ t.toList.map Prod.fst := h.toList_eq ▸ h.cursor_not_mem hfree
      rw [h.coherent.toList_insert, Table.put, if_neg hkey]

end Refines

/-- However a table is made and changed, its index is exact, it reads as the ordered association list
with the same history, and appending goes by the largest integer key ever inserted. -/
theorem table_refines_ledger (o : Origin α) (cs : List (Change α)) :
    (cs.foldl Table.change o.table).IndexExact ∧
      (cs.foldl Table.change o.table).ReadsAs (cs.foldl Ledger.change o.ledger) ∧
      (cs.foldl Table.change o.table).AppendsAs (cs.foldl Ledger.change o.ledger) := by
  have h := (Refines.origin o).changes cs
  exact ⟨h.indexExact, h.readsAs, h.appendsAs⟩

end YieldMachine
