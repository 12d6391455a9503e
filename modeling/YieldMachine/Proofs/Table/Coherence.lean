import YieldMachine.Table.Basic

/-!
The index of a table is exact: it gives position `p` for a key just when the entry at `p` has that key.
Every operation keeps it so (`Coherent.insert`, `Coherent.push`, `Coherent.remove`), and on a coherent table
the operations act on the list of entries: `insert` overwrites in place or appends (`put`), `remove?` takes
one entry out (`cut`), and `get?` looks a key up.
-/

namespace YieldMachine.Table

variable {α : Type} {t : Table α} {k : Key}

def Coherent (t : Table α) : Prop :=
  ∀ (k : Key) (p : Nat), t.index[k]? = some p ↔ t.keys[p]? = some k

/-- Overwrites the entry under `k` in its place, or appends one. -/
def put (k : Key) (a : α) (es : List (Key × α)) : List (Key × α) :=
  if k ∈ es.map Prod.fst then es.map fun e => if e.1 = k then (k, a) else e else es ++ [(k, a)]

/-- Takes out the entry under `k`. -/
def cut (k : Key) (es : List (Key × α)) : List (Key × α) := es.filter fun e => e.1 ≠ k

/-! ### Lists of entries with distinct keys -/

theorem lookup_of_getElem? {es : List (Key × α)} (hd : (es.map Prod.fst).Nodup) {p : Nat} {a : α}
    (h : es[p]? = some (k, a)) : es.lookup k = some a := by
  induction es generalizing p with
  | nil => simp at h
  | cons e es ih =>
    obtain ⟨hne, hd⟩ := List.nodup_cons.mp hd
    cases p with
    | zero =>
      obtain rfl : e = (k, a) := by simpa using h
      simp
    | succ p =>
      have hmem : (k, a) ∈ es := List.mem_of_getElem? (by simpa using h)
      have hk : k ≠ e.1 := fun hk => hne (hk ▸ List.mem_map_of_mem hmem)
      rw [List.lookup_cons, beq_eq_false_iff_ne.mpr hk]
      exact ih hd (by simpa using h)

theorem modify_eq_put {es : List (Key × α)} (hd : (es.map Prod.fst).Nodup) {p : Nat}
    (h : (es.map Prod.fst)[p]? = some k) (a : α) :
    es.modify p (fun e => (e.1, a)) = put k a es := by
  rw [put, if_pos (List.mem_of_getElem? h)]
  induction es generalizing p with
  | nil => simp at h
  | cons e es ih =>
    obtain ⟨hne, hd⟩ := List.nodup_cons.mp hd
    cases p with
    | zero =>
      obtain rfl : e.1 = k := by simpa using h
      have hrest : es.map (fun d => if d.1 = e.1 then (e.1, a) else d) = es.map id := by
        apply List.map_congr_left
        intro d hmem
        have hd : d.1 ≠ e.1 := fun hd => hne (hd ▸ List.mem_map_of_mem hmem)
        simp [hd]
      simp [hrest]
    | succ p =>
      have hk : e.1 ≠ k := fun hk => hne (hk ▸ List.mem_of_getElem? (by simpa using h))
      simp [hk, ih hd (by simpa using h)]

theorem eraseIdx_eq_cut {es : List (Key × α)} (hd : (es.map Prod.fst).Nodup) {p : Nat}
    (h : (es.map Prod.fst)[p]? = some k) : es.eraseIdx p = cut k es := by
  induction es generalizing p with
  | nil => simp at h
  | cons e es ih =>
    obtain ⟨hne, hd⟩ := List.nodup_cons.mp hd
    cases p with
    | zero =>
      obtain rfl : e.1 = k := by simpa using h
      have hrest : cut e.1 es = es :=
        List.filter_eq_self.mpr fun d hmem =>
          decide_eq_true fun hd => hne (hd ▸ List.mem_map_of_mem hmem)
      simpa [cut] using hrest.symm
    | succ p =>
      have hk : e.1 ≠ k := fun hk => hne (hk ▸ List.mem_of_getElem? (by simpa using h))
      simpa [cut, hk] using ih hd (by simpa using h)

/-! ### Reading a coherent table -/

theorem keys_getElem? (t : Table α) (p : Nat) : t.keys[p]? = t.entries[p]?.map Prod.fst := by
  simp [keys, toList]

theorem Coherent.lt (h : t.Coherent) {p : Nat} (hp : t.index[k]? = some p) : p < t.entries.size := by
  have hk := (h k p).mp hp
  rw [keys_getElem?] at hk
  obtain ⟨e, he, -⟩ := Option.map_eq_some_iff.mp hk
  exact (Array.getElem?_eq_some_iff.mp he).1

theorem Coherent.nodup (h : t.Coherent) : t.keys.Nodup := by
  rw [List.Nodup, List.pairwise_iff_getElem]
  intro i j hi hj hij heq
  have hpi := (h t.keys[j] i).mpr (heq ▸ List.getElem?_eq_getElem hi)
  have hpj := (h t.keys[j] j).mpr (List.getElem?_eq_getElem hj)
  rw [hpj] at hpi
  exact absurd (Option.some.inj hpi) (by omega)

theorem Coherent.contains_iff (h : t.Coherent) : t.contains k = true ↔ k ∈ t.keys := by
  rw [contains, Std.TreeMap.contains_eq_isSome_getElem?, Option.isSome_iff_exists,
    List.mem_iff_getElem?]
  exact exists_congr fun p => h k p

theorem Coherent.index_eq_none_iff (h : t.Coherent) : t.index[k]? = none ↔ k ∉ t.keys := by
  rw [← h.contains_iff, contains, Std.TreeMap.contains_eq_isSome_getElem?]
  simp

theorem Coherent.get?_eq_lookup (h : t.Coherent) (k : Key) : t.get? k = t.toList.lookup k := by
  rw [get?]
  cases hp : t.index[k]? with
  | none =>
    have hk : k ∉ t.keys := h.index_eq_none_iff.mp hp
    rw [Option.bind_none, eq_comm, List.lookup_eq_none_iff]
    intro e he
    rw [bne_iff_ne]
    exact fun hke => hk (hke ▸ List.mem_map_of_mem he)
  | some p =>
    have hk := (h k p).mp hp
    rw [keys_getElem?] at hk
    obtain ⟨⟨k', a⟩, he, rfl⟩ := Option.map_eq_some_iff.mp hk
    rw [Option.bind_some, he, eq_comm]
    exact lookup_of_getElem? h.nodup (by simpa [toList] using he)

/-! ### Changing a coherent table -/

theorem Coherent.get?_of_mem (h : t.Coherent) {e : Key × α} (he : e ∈ t.toList) :
    t.get? e.1 = some e.2 := by
  obtain ⟨p, hp⟩ := List.mem_iff_getElem?.mp he
  rw [h.get?_eq_lookup]
  exact lookup_of_getElem? h.nodup hp

theorem Coherent.empty : (empty : Table α).Coherent := by
  intro k p
  simp [Table.empty, keys, toList]

theorem Coherent.toList_insert (h : t.Coherent) (k : Key) (a : α) :
    (t.insert k a).toList = put k a t.toList := by
  cases hp : t.index[k]? with
  | some p =>
    have hk := (h k p).mp hp
    have hput : t.toList.modify p (fun e => (e.1, a)) = put k a t.toList :=
      modify_eq_put h.nodup hk a
    simpa [insert, hp, toList] using hput
  | none =>
    have hk : k ∉ t.toList.map Prod.fst := h.index_eq_none_iff.mp hp
    rw [put, if_neg hk]
    simp [insert, hp, toList]

theorem keys_insert_of_present {p : Nat} (hp : t.index[k]? = some p) (a : α) :
    (t.insert k a).keys = t.keys := by
  apply List.ext_getElem?
  intro i
  rw [keys_getElem?, keys_getElem?]
  simp only [insert, hp, Array.getElem?_modify]
  split
  · cases t.entries[i]? <;> rfl
  · rfl

theorem keys_insert_of_absent (hp : t.index[k]? = none) (a : α) :
    (t.insert k a).keys = t.keys ++ [k] := by
  simp [insert, hp, keys, toList]

theorem Coherent.insert (h : t.Coherent) (k : Key) (a : α) : (t.insert k a).Coherent := by
  intro k' p
  cases hp : t.index[k]? with
  | some q =>
    have hindex : (t.insert k a).index = t.index := by simp [Table.insert, hp]
    rw [hindex, keys_insert_of_present hp]
    exact h k' p
  | none =>
    have hindex : (t.insert k a).index = t.index.insert k t.entries.size := by
      simp [Table.insert, hp]
    have hsize : t.keys.length = t.entries.size := by simp [keys, toList]
    rw [hindex, keys_insert_of_absent hp, Std.TreeMap.getElem?_insert,
      List.getElem?_append, hsize]
    have hk := h.index_eq_none_iff.mp hp
    by_cases hkk : k = k'
    · subst hkk
      have hlt : p < t.entries.size → t.keys[p]? ≠ some k := fun _ hp => hk (List.mem_of_getElem? hp)
      simp only [Std.LawfulEqCmp.compare_eq_iff_eq, ↓reduceIte, Option.some.injEq]
      grind
    · simp only [Std.LawfulEqCmp.compare_eq_iff_eq, hkk, ↓reduceIte]
      rw [h k' p]
      grind

theorem Coherent.push (h : t.Coherent) {a : α} {n : Int64} {u : Table α}
    (hu : t.push? a = some (n, u)) : u.Coherent := by
  obtain ⟨m, -, hm⟩ := Option.map_eq_some_iff.mp hu
  obtain ⟨rfl, rfl⟩ := Prod.mk.inj hm
  exact h.insert _ _

theorem closeGap_getElem? {es : List (Key × α)} (hd : (es.map Prod.fst).Nodup)
    (index : Std.TreeMap Key Nat) (k : Key) :
    (closeGap index es)[k]? =
      if k ∈ es.map Prod.fst then index[k]?.map (· - 1) else index[k]? := by
  induction es generalizing index with
  | nil => rfl
  | cons e es ih =>
    obtain ⟨hne, hd⟩ := List.nodup_cons.mp hd
    have hstep := ih hd (index.modify e.1 (· - 1))
    rw [Std.TreeMap.getElem?_modify] at hstep
    change (closeGap (index.modify e.1 (· - 1)) es)[k]? = _
    rw [hstep]
    by_cases hk : e.1 = k
    · subst hk
      simp [hne]
    · rw [List.map_cons]
      simp only [Std.LawfulEqCmp.compare_eq_iff_eq, hk, if_false, List.mem_cons, Ne.symm hk, false_or]

/-- What `remove?` does when there is an entry to take out. -/
theorem remove?_cases {a : α} {u : Table α} (hu : t.remove? k = some (a, u)) :
    ∃ p, t.index[k]? = some p ∧ t.entries[p]?.map Prod.snd = some a ∧
      u.toList = t.toList.eraseIdx p ∧
      u.index = closeGap (t.index.erase k) (u.toList.drop p) ∧ u.cursor = t.cursor := by
  simp only [remove?, Option.bind_eq_some_iff, Option.map_eq_some_iff] at hu
  obtain ⟨p, hp, e, he, heq⟩ := hu
  obtain ⟨rfl, rfl⟩ := Prod.mk.inj heq
  exact ⟨p, hp, by rw [he]; rfl, by simp [toList], rfl, rfl⟩

theorem remove?_fst (t : Table α) (k : Key) : (t.remove? k).map Prod.fst = t.get? k := by
  rw [remove?, get?]
  cases t.index[k]? with
  | none => rfl
  | some p => cases h : t.entries[p]? <;> simp [h]

theorem Coherent.toList_remove (h : t.Coherent) {a : α} {u : Table α}
    (hu : t.remove? k = some (a, u)) : u.toList = cut k t.toList := by
  obtain ⟨p, hp, -, hlist, -, -⟩ := remove?_cases hu
  rw [hlist]
  exact eraseIdx_eq_cut h.nodup ((h k p).mp hp)

/-- A key other than the removed one stands behind the gap just when its old position did. -/
theorem Coherent.mem_drop_eraseIdx (h : t.Coherent) {k' : Key} {p q : Nat}
    (hq : t.keys[q]? = some k') :
    k' ∈ (t.keys.eraseIdx p).drop p ↔ p < q := by
  rw [List.mem_iff_getElem?]
  simp only [List.getElem?_drop, List.getElem?_eraseIdx]
  constructor
  · rintro ⟨i, hi⟩
    rw [if_neg (by omega), ← h k'] at hi
    rw [← h k', hi] at hq
    have := Option.some.inj hq
    omega
  · intro hlt
    refine ⟨q - p - 1, ?_⟩
    rw [if_neg (by omega), show p + (q - p - 1) + 1 = q by omega]
    exact hq

theorem Coherent.remove (h : t.Coherent) {a : α} {u : Table α}
    (hu : t.remove? k = some (a, u)) : u.Coherent := by
  obtain ⟨p, hp, -, hlist, hindex, -⟩ := remove?_cases hu
  have hkp := (h k p).mp hp
  have hkeys : u.keys = t.keys.eraseIdx p := by
    simp [keys, hlist, List.eraseIdx_eq_take_drop_succ]
  have hdrop : (u.toList.drop p).map Prod.fst = (t.keys.eraseIdx p).drop p := by
    rw [List.map_drop, ← hkeys, keys]
  have hnodup : ((t.keys.eraseIdx p).drop p).Nodup := (h.nodup.eraseIdx p).drop
  intro k' q
  rw [hindex, closeGap_getElem? (hdrop ▸ hnodup), hdrop, hkeys, Std.TreeMap.getElem?_erase,
    List.getElem?_eraseIdx]
  by_cases hk : k = k'
  · -- The removed key has no position before, and none after.
    subst hk
    have hgone (i : Nat) (hi : t.keys[i]? = some k) : i = p := by
      have := (h k i).mpr hi
      rw [hp] at this
      exact (Option.some.inj this).symm
    grind
  · cases hold : t.index[k']? with
    | none =>
      have habsent (i : Nat) : t.keys[i]? ≠ some k' := fun hi => by
        rw [← h k', hold] at hi
        cases hi
      grind
    | some r =>
      have hr := (h k' r).mp hold
      have hne : r ≠ p := by
        rintro rfl
        exact hk (Option.some.inj (hkp.symm.trans hr))
      have honly (i : Nat) : t.keys[i]? = some k' ↔ i = r := by
        rw [← h k', hold, Option.some.injEq, eq_comm]
      simp only [Std.LawfulEqCmp.compare_eq_iff_eq, hk, if_false, h.mem_drop_eraseIdx hr,
        Option.map_some]
      split <;> split <;> simp only [Option.some.injEq, honly] <;> omega

end YieldMachine.Table
