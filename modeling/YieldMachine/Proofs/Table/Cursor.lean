import YieldMachine.Proofs.Table.Ledger

/-!
How far the append cursor can go back. A key that was in a table once is in the ledger's history for good, and
appending takes a key past the whole history, so a new key exceeds every integer key of the past
(`append_key_exceeds_past`). Only at the largest integer is there nothing past it: once that key is taken out
again, appending takes it a second time (`largest_key_comes_back`).
-/

namespace YieldMachine

variable {α : Type}

namespace Ledger

variable {s : Ledger α}

theorem inserted_change (s : Ledger α) (c : Change α) : s.inserted ⊆ (s.change c).inserted := by
  have hinsert (k : Key) (a : α) : s.inserted ⊆ (s.insert k a).inserted := by
    cases k with
    | int n => exact List.subset_cons_self ..
    | text x => exact List.Subset.refl _
  cases c with
  | push a =>
    simp only [change, push]
    split
    · exact List.Subset.refl _
    · exact hinsert _ a
  | insert k a => exact hinsert k a
  | remove k => exact List.Subset.refl _

/-- What was inserted once stays in the history. -/
theorem inserted_changes (s : Ledger α) (cs : List (Change α)) :
    s.inserted ⊆ (cs.foldl change s).inserted := by
  induction cs generalizing s with
  | nil => exact List.Subset.refl _
  | cons c cs ih => exact List.Subset.trans (s.inserted_change c) (ih _)

theorem cursor_of_largest (h : Int64.maxValue ∈ s.inserted) : s.cursor = Int64.maxValue.toInt := by
  have hmax : Int64.maxValue.toInt = 2 ^ 63 - 1 := rfl
  have hmem : Int64.maxValue.toInt ∈ s.inserted.map Int64.toInt := List.mem_map_of_mem h
  cases hm : (s.inserted.map Int64.toInt).max? with
  | none =>
    rw [List.max?_eq_none_iff.mp hm] at hmem
    cases hmem
  | some m =>
    have hle := (List.max?_eq_some_iff.mp hm).2 _ hmem
    simp only [cursor, hm, keyAfter]
    omega

theorem mem_keys_insert {k k' : Key} (h : k ∈ s.keys) (a : α) : k ∈ (s.insert k' a).keys := by
  have hput : (s.insert k' a).entries = Table.put k' a s.entries := rfl
  rw [keys, hput, Table.put]
  split
  · obtain ⟨e, he, rfl⟩ := List.mem_map.mp h
    refine List.mem_map.mpr ⟨_, List.mem_map_of_mem he, ?_⟩
    split
    · next hk => exact hk.symm
    · rfl
  · rw [List.map_append]
    exact List.mem_append_left _ h

theorem mem_keys_change {k : Key} {c : Change α} (h : k ∈ s.keys) (hc : c ≠ .remove k) :
    k ∈ (s.change c).keys := by
  cases c with
  | push a =>
    simp only [change, push]
    split
    · exact h
    · exact mem_keys_insert h a
  | insert k' a => exact mem_keys_insert h a
  | remove k' =>
    have hne : k' ≠ k := fun heq => hc (heq ▸ rfl)
    obtain ⟨e, he, rfl⟩ := List.mem_map.mp h
    exact List.mem_map_of_mem (List.mem_filter.mpr ⟨he, decide_eq_true (Ne.symm hne)⟩)

/-- A key stays until it is removed. -/
theorem mem_keys_changes {k : Key} {cs : List (Change α)} (h : k ∈ s.keys) (hcs : .remove k ∉ cs) :
    k ∈ (cs.foldl change s).keys := by
  induction cs generalizing s with
  | nil => exact h
  | cons c cs ih =>
    obtain ⟨hc, hcs⟩ := not_or.mp (mt List.mem_cons.mpr hcs)
    exact ih (mem_keys_change h (Ne.symm hc)) hcs

end Ledger

namespace Refines

variable {t u : Table α} {s : Ledger α} {cs : List (Change α)}

/-- Where the largest integer was a key and is none any more, it was removed, and it is the next key. -/
theorem largest_freed (h : Refines t s) (hmem : .int Int64.maxValue ∈ s.keys)
    (hfree : .int Int64.maxValue ∉ (cs.foldl Ledger.change s).keys) :
    (cs.foldl Table.change t).cursor = Int64.maxValue ∧ .remove (.int Int64.maxValue) ∈ cs := by
  have hpast := s.inserted_changes cs (h.recorded _ hmem)
  refine ⟨Int64.toInt.inj ((h.changes cs).cursor_eq.trans (Ledger.cursor_of_largest hpast)), ?_⟩
  exact Classical.byContradiction fun hkept => hfree (Ledger.mem_keys_changes hmem hkept)

/-- After further changes, a key that once was there is below the next one, unless it is the largest integer
and was removed in the meantime. -/
theorem past_lt_next (h : Refines t s) {m n : Int64} {a : α} (hm : .int m ∈ t.keys)
    (hpush : (cs.foldl Table.change t).push? a = some (n, u)) :
    m < n ∨ m = Int64.maxValue ∧ n = Int64.maxValue ∧ .remove (.int Int64.maxValue) ∈ cs := by
  have hlater := h.changes cs
  have hkey : .int m ∈ s.keys := h.keys_eq ▸ hm
  rw [hlater.push?_eq] at hpush
  split at hpush
  · cases hpush
  · next hfree =>
    obtain ⟨rfl, -⟩ := Prod.mk.inj (Option.some.inj hpush)
    by_cases hmax : m = Int64.maxValue
    · subst hmax
      exact .inr ⟨rfl, h.largest_freed hkey hfree⟩
    · left
      rw [Int64.lt_iff_toInt_lt, hlater.cursor_eq]
      exact Ledger.lt_cursor (s.inserted_changes cs (h.recorded m hkey)) hmax

/-- A table that can take no more keys stays so until the largest integer is removed. -/
theorem nextIndex?_after_none (h : Refines t s) (hnone : t.nextIndex? = none) :
    (cs.foldl Table.change t).nextIndex? = none ∨
      (cs.foldl Table.change t).nextIndex? = some Int64.maxValue ∧
        .remove (.int Int64.maxValue) ∈ cs := by
  have hmem : .int Int64.maxValue ∈ s.keys := h.appendsAs.full.mp hnone
  rw [(h.changes cs).nextIndex?_eq]
  split
  · exact .inl rfl
  · next hfree =>
    obtain ⟨hcursor, hremoved⟩ := h.largest_freed hmem hfree
    exact .inr ⟨congrArg some hcursor, hremoved⟩

end Refines

/-- However a table is made and changed, an appended entry gets a key above every integer key that the table ever
had, so the keys of successive appends increase; and once there is no key left, there is none from then on. Both
hold until the largest integer is taken out as a key: then it is free again, and appending takes it again. -/
theorem append_key_exceeds_past (o : Origin α) (cs cs' : List (Change α)) :
    let t := cs.foldl Table.change o.table
    (∀ m a n u, .int m ∈ t.keys → (cs'.foldl Table.change t).push? a = some (n, u) →
      m < n ∨ m = Int64.maxValue ∧ n = Int64.maxValue ∧ .remove (.int Int64.maxValue) ∈ cs') ∧
    (∀ a m t' b n u, t.push? a = some (m, t') → (cs'.foldl Table.change t').push? b = some (n, u) →
      m < n ∨ m = Int64.maxValue ∧ n = Int64.maxValue ∧ .remove (.int Int64.maxValue) ∈ cs') ∧
    (t.nextIndex? = none →
      (cs'.foldl Table.change t).nextIndex? = none ∨
        (cs'.foldl Table.change t).nextIndex? = some Int64.maxValue ∧
          .remove (.int Int64.maxValue) ∈ cs') := by
  intro t
  have h : Refines t (cs.foldl Ledger.change o.ledger) := (Refines.origin o).changes cs
  refine ⟨fun m a n u => h.past_lt_next, ?_, h.nextIndex?_after_none⟩
  intro a m t' b n u ht' hu
  have hnew : t.change (.push a) = t' := by simp [Table.change, ht']
  have hkey : .int m ∈ t'.keys := by
    rw [Table.keys, (h.appendsAs.appended a m t' ht').2]
    simp
  exact (hnew ▸ h.push a : Refines t' _).past_lt_next hkey hu

/-- The largest integer is inserted, so no key is left; it is removed, and appending takes it again. -/
theorem largest_key_comes_back :
    let full : Table Nat := Table.empty.change (.insert (.int Int64.maxValue) 0)
    let freed := full.change (.remove (.int Int64.maxValue))
    full.keys = [.int Int64.maxValue] ∧ full.nextIndex? = none ∧
      freed.nextIndex? = some Int64.maxValue ∧
      (freed.push? 1).map Prod.fst = some Int64.maxValue := by
  decide +kernel

end YieldMachine
