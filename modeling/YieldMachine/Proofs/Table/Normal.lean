import YieldMachine.Heap
import YieldMachine.Proofs.Number.Canonical
import YieldMachine.Proofs.Table.Ledger

/-!
Normal keys. A text that is the canonical form of a 64-bit integer never is a key itself: the integer is. So a
key can be told from its text, every key that a text or a value stands for is normal, and a table that is filled
through them and by appending has no two keys with one text (`keys_normalized`).
-/

namespace YieldMachine

namespace Key

/-- Not a text in place of the integer that it is the canonical form of. -/
def IsNormal : Key → Prop
  | .int _ => True
  | .text s => ∀ n : Int64, ¬ Canonical s.toList n.toInt

/-! ### Keys and their texts -/

theorem ofString_eq_int_iff {s : String} {n : Int64} :
    ofString s = .int n ↔ Canonical s.toList n.toInt := by
  rw [← canonicalInt?_eq_some_iff, ofString]
  split
  · next m hm => rw [hm, Key.int.injEq, Option.some.injEq]
  · next hnone =>
    rw [hnone]
    exact ⟨nofun, nofun⟩

/-- A text that is normal stays a text. -/
theorem ofString_eq_text {s : String} (h : (text s).IsNormal) : ofString s = .text s := by
  unfold ofString
  split
  · next m hm => exact absurd (canonicalInt?_eq_some_iff.mp hm) (h m)
  · rfl

theorem isNormal_ofString (s : String) : (ofString s).IsNormal := by
  unfold ofString
  split
  · trivial
  · next hnone =>
    intro n hn
    rw [canonicalInt?_eq_some_iff.mpr hn] at hnone
    cases hnone

theorem ofString_intText (n : Int64) : ofString (intText n) = .int n :=
  ofString_eq_int_iff.mpr (canonical_intText n)

@[simp] theorem display_ofString (s : String) : (ofString s).display = s := by
  cases h : ofString s with
  | int n => exact String.toList_injective ((canonical_intText n).unique (ofString_eq_int_iff.mp h))
  | text t =>
    unfold ofString at h
    split at h
    · cases h
    · exact (Key.text.inj h).symm

/-- A normal key is the one its text stands for. -/
theorem ofString_display {k : Key} (h : k.IsNormal) : ofString k.display = k := by
  cases k with
  | int n => exact ofString_intText n
  | text s => exact ofString_eq_text h

theorem ofString_injective : Function.Injective ofString := by
  intro s t h
  rw [← display_ofString s, h, display_ofString]

end Key

/-! ### Keys and values -/

theorem Value.isNormal_plainKey {v : Value} {k : Key} (h : v.plainKey? = some k) : k.IsNormal := by
  unfold Value.plainKey? at h
  split at h
  · exact Option.some.inj h ▸ Key.isNormal_ofString ""
  · exact Option.some.inj h ▸ trivial
  · exact Option.some.inj h ▸ trivial
  · split at h
    · exact Option.some.inj h ▸ trivial
    · cases h
  · next s => exact Option.some.inj h ▸ Key.isNormal_ofString s
  · obtain ⟨n, -, rfl⟩ := Option.map_eq_some_iff.mp h
    trivial
  · cases h

theorem Heap.key?_toValue (h : Heap) {k : Key} (hk : k.IsNormal) : h.key? k.toValue = some k := by
  cases k with
  | int n => rfl
  | text s => exact congrArg some (Key.ofString_eq_text hk)

/-! ### Filling a table -/

/-- A change that names the key of an entry by a text or a value, or leaves it to the table. -/
inductive Filling (α : Type) where
  | push (a : α)
  | atText (s : String) (a : α)
  | atValue (h : Heap) (v : Value) (a : α)
  | remove (k : Key)

namespace Table

variable {α : Type} {t : Table α}

/-- A value that stands for no key changes nothing. -/
def fill (t : Table α) : Filling α → Table α
  | .push a => t.change (.push a)
  | .atText s a => t.insert (.ofString s) a
  | .atValue h v a =>
    match h.key? v with
    | some k => t.insert k a
    | none => t
  | .remove k => t.change (.remove k)

/-- The index is exact and all keys are normal. -/
structure Normal (t : Table α) : Prop where
  coherent : t.Coherent
  keys : ∀ k ∈ t.keys, k.IsNormal

theorem Normal.empty : (empty : Table α).Normal := ⟨.empty, nofun⟩

theorem Normal.insert (h : t.Normal) {k : Key} (hk : k.IsNormal) (a : α) : (t.insert k a).Normal where
  coherent := h.coherent.insert k a
  keys k' hk' := by
    rw [Table.keys, h.coherent.toList_insert] at hk'
    rcases mem_keys_put hk' with rfl | hold
    · exact hk
    · exact h.keys k' hold

theorem Normal.push (h : t.Normal) (a : α) : (t.change (.push a)).Normal := by
  simp only [change, push?]
  cases t.nextIndex? with
  | none => exact h
  | some n => exact h.insert (k := .int n) trivial a

theorem Normal.remove (h : t.Normal) (k : Key) : (t.change (.remove k)).Normal := by
  simp only [change]
  cases hu : t.remove? k with
  | none => exact h
  | some au =>
    obtain ⟨a, u⟩ := au
    simp only [Option.map_some, Option.getD_some]
    refine ⟨h.coherent.remove hu, fun k' hk' => h.keys k' ?_⟩
    have hk' : k' ∈ u.toList.map Prod.fst := hk'
    rw [h.coherent.toList_remove hu] at hk'
    obtain ⟨e, he, rfl⟩ := List.mem_map.mp hk'
    exact List.mem_map_of_mem (List.mem_filter.mp he).1

theorem Normal.fill (h : t.Normal) (f : Filling α) : (t.fill f).Normal := by
  cases f with
  | push a => exact h.push a
  | atText s a => exact h.insert (Key.isNormal_ofString s) a
  | atValue heap v a =>
    simp only [Table.fill]
    split
    · next k hk => exact h.insert (Value.isNormal_plainKey hk) a
    · exact h
  | remove k => exact h.remove k

theorem Normal.fills (h : t.Normal) (fs : List (Filling α)) : (fs.foldl Table.fill t).Normal := by
  induction fs generalizing t with
  | nil => exact h
  | cons f fs ih => exact ih (h.fill f)

/-- Normal keys are told apart by their texts. -/
theorem Normal.nodup_display (h : t.Normal) : (t.keys.map Key.display).Nodup := by
  refine List.pairwise_map.mpr (h.coherent.nodup.imp_of_mem fun {k l} hk hl hne heq => hne ?_)
  rw [← Key.ofString_display (h.keys k hk), heq, Key.ofString_display (h.keys l hl)]

end Table

/-- A text stands for an integer key just when it is that integer's canonical form, and otherwise for itself. So
the text of a key is the text that it was made from, different texts make different keys, and writing an integer
and reading it back gives the integer. The key of a value is always normal, a normal key is the key of its own
value, and a table that is filled through texts, values and appending has no two keys with one text. -/
theorem keys_normalized :
    (∀ (s : String) (n : Int64), Key.ofString s = .int n ↔ Canonical s.toList n.toInt) ∧
    (∀ s : String, (∀ n : Int64, ¬ Canonical s.toList n.toInt) → Key.ofString s = .text s) ∧
    (∀ s : String, (Key.ofString s).display = s) ∧
    Function.Injective Key.ofString ∧
    (∀ n : Int64, Key.ofString (intText n) = .int n) ∧
    (∀ (h : Heap) (v : Value) (k : Key), h.key? v = some k → k.IsNormal) ∧
    (∀ (h : Heap) (k : Key), k.IsNormal → h.key? k.toValue = some k) ∧
    ∀ (α : Type) (fs : List (Filling α)),
      ((fs.foldl Table.fill Table.empty).keys.map Key.display).Nodup := by
  refine ⟨fun _ _ => Key.ofString_eq_int_iff, fun _ => Key.ofString_eq_text, Key.display_ofString,
    Key.ofString_injective, Key.ofString_intText, ?_, fun h _ => h.key?_toValue, ?_⟩
  · intro h v k hk
    exact Value.isNormal_plainKey hk
  · intro α fs
    exact (Table.Normal.empty.fills fs).nodup_display

/-- The least integer is read from its text; one less, a negative zero and a lone sign are texts. -/
example : ["-9223372036854775808", "-9223372036854775809", "-0", "-"].map Key.ofString =
    [.int Int64.minValue, .text "-9223372036854775809", .text "-0", .text "-"] := by
  decide +kernel

end YieldMachine
