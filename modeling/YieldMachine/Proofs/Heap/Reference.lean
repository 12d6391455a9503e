import YieldMachine.Generator.Delegation

/-!
References are one step deep: whatever cells are created and set, and with whatever values, no cell holds a
reference (`Direct.performAll`). Storing a reference therefore stores a copy, which later sets of the source do
not reach (`target_performAll`), and a reader that follows references until none is left comes to the end after
one step at most (`reads_iff`).
-/

namespace YieldMachine

def Value.isReference : Value → Bool
  | .reference _ => true
  | _ => false

/-- A new cell, or a new target for a cell. -/
inductive CellOperation where
  | create (v : Value)
  | assign (c : CellId) (v : Value)

namespace Heap

variable {h : Heap}

def perform (h : Heap) : CellOperation → Heap
  | .create v => (h.newCell v).2
  | .assign c v => (h.assign c v).2

def performAll (h : Heap) (ops : List CellOperation) : Heap := ops.foldl perform h

/-! ## Targets -/

theorem target_newCell (h : Heap) (v : Value) (c : CellId) :
    (h.newCell v).2.target c = if c = h.cells.size then h.deref v else h.target c := by
  simp only [target, newCell, Array.getElem?_push]
  split <;> rfl

theorem target_assign (h : Heap) (c : CellId) (v : Value) (d : CellId) :
    (h.assign c v).2.target d = if c = d ∧ c < h.cells.size then h.deref v else h.target d := by
  simp only [target, assign, Array.getElem?_setIfInBounds]
  by_cases hd : c = d
  · subst hd
    by_cases hc : c < h.cells.size
    · simp [hc]
    · simp [hc]
  · simp [hd]

theorem target_assign_of_ne {c d : CellId} (hd : d ≠ c) (v : Value) : (h.assign c v).2.target d = h.target d := by
  rw [target_assign, if_neg fun hc => hd hc.1.symm]

theorem target_assign_self {c : CellId} (hc : c < h.cells.size) (v : Value) :
    (h.assign c v).2.target c = h.deref v := by
  rw [target_assign, if_pos ⟨rfl, hc⟩]

/-- A cell that is set to itself stays as it is: the target is read before it is replaced. -/
theorem assign_reference_self (h : Heap) (c : CellId) : h.assign c (.reference c) = (h.target c, h) := by
  have hcells : h.cells.setIfInBounds c (h.target c) = h.cells := by
    refine Array.ext_getElem? fun i => ?_
    rw [Array.getElem?_setIfInBounds]
    split
    · next hi =>
      subst hi
      split
      · next hc => simp [target, hc]
      · next hc => simp [hc]
    · rfl
  simp only [assign, deref, hcells]

theorem size_le_perform (h : Heap) (op : CellOperation) : h.cells.size ≤ (h.perform op).cells.size := by
  cases op with
  | create v => simp [perform, newCell]
  | assign c v => simp [perform, assign]

/-- Only an assignment to a cell changes its target. -/
theorem target_perform {c : CellId} (hc : c < h.cells.size) {op : CellOperation} (hop : ∀ v, op ≠ .assign c v) :
    (h.perform op).target c = h.target c := by
  cases op with
  | create v => rw [perform, target_newCell, if_neg (Nat.ne_of_lt hc)]
  | assign d v => exact target_assign_of_ne (fun (hd : c = d) => hop v (hd ▸ rfl)) v

theorem target_performAll {c : CellId} (hc : c < h.cells.size) {ops : List CellOperation}
    (hops : ∀ v, .assign c v ∉ ops) : (h.performAll ops).target c = h.target c := by
  induction ops generalizing h with
  | nil => rfl
  | cons op ops ih =>
    have hop : ∀ v, op ≠ .assign c v := fun v heq => hops v (heq ▸ List.mem_cons_self)
    have hrest : ∀ v, .assign c v ∉ ops := fun v hv => hops v (List.mem_cons_of_mem op hv)
    calc (h.performAll (op :: ops)).target c
        = (h.perform op).target c := ih (Nat.lt_of_lt_of_le hc (size_le_perform h op)) hrest
      _ = h.target c := target_perform hc hop

/-! ## No cell holds a reference -/

def Direct (h : Heap) : Prop := ∀ c, (h.target c).isReference = false

theorem direct_empty : empty.Direct := fun _ => rfl

theorem deref_of_not_reference (h : Heap) {v : Value} (hv : v.isReference = false) : h.deref v = v := by
  cases v with
  | reference c => cases hv
  | _ => rfl

namespace Direct

theorem isReference_deref (hh : h.Direct) (v : Value) : (h.deref v).isReference = false := by
  cases v with
  | reference c => exact hh c
  | _ => rfl

theorem deref_deref (hh : h.Direct) (v : Value) : h.deref (h.deref v) = h.deref v :=
  h.deref_of_not_reference (hh.isReference_deref v)

theorem perform (hh : h.Direct) (op : CellOperation) : (h.perform op).Direct := by
  intro d
  cases op with
  | create v =>
    rw [Heap.perform, target_newCell]
    split
    · exact hh.isReference_deref v
    · exact hh d
  | assign c v =>
    rw [Heap.perform, target_assign]
    split
    · exact hh.isReference_deref v
    · exact hh d

theorem performAll (hh : h.Direct) (ops : List CellOperation) : (h.performAll ops).Direct := by
  induction ops generalizing h with
  | nil => exact hh
  | cons op ops ih => exact ih (hh.perform op)

end Direct

/-! ## Readers -/

/-- What a reader gives that follows references until none is left, where `f` reads all other values. It gives
nothing on a cell that leads back to itself. -/
inductive Reads {α : Type} (h : Heap) (f : Value → α) : Value → α → Prop where
  | plain {v : Value} (hv : v.isReference = false) : Reads h f v (f v)
  | through {c : CellId} {a : α} (htarget : Reads h f (h.target c) a) : Reads h f (.reference c) a

theorem reads_plain_iff {α : Type} {f : Value → α} {v : Value} (hv : v.isReference = false) {a : α} :
    h.Reads f v a ↔ f v = a := by
  constructor
  · intro hr
    cases hr with
    | plain => rfl
    | through => cases hv
  · rintro rfl
    exact .plain hv

theorem reads_reference_iff {α : Type} {f : Value → α} {c : CellId} {a : α} :
    h.Reads f (.reference c) a ↔ h.Reads f (h.target c) a := by
  refine ⟨fun hr => ?_, .through⟩
  cases hr with
  | plain hv => cases hv
  | through htarget => exact htarget

theorem reads_iff (hh : h.Direct) {α : Type} {f : Value → α} {v : Value} {a : α} :
    h.Reads f v a ↔ f (h.deref v) = a := by
  cases hv : v.isReference with
  | false => rw [reads_plain_iff hv, h.deref_of_not_reference hv]
  | true =>
    cases v with
    | reference c => rw [reads_reference_iff, reads_plain_iff (hh c)]; rfl
    | _ => cases hv

/-- After any sequence of creations and sets, references are one step deep and readers see through them. -/
theorem references_one_step_deep (ops : List CellOperation) :
    let h := empty.performAll ops
    (∀ c d, h.target c ≠ .reference d) ∧
    -- a cell set to itself
    (∀ c, h.assign c (.reference c) = (h.target c, h)) ∧
    -- a cell set to any value: the previous target is given back, and no other cell changes
    (∀ c v, (h.assign c v).1 = h.target c ∧ (c < h.cells.size → (h.assign c v).2.target c = h.deref v) ∧
      ∀ d ≠ c, (h.assign c v).2.target d = h.target d) ∧
    -- a stored reference is a copy, whatever happens to other cells later
    (∀ (d : CellId) (later : List CellOperation),
      ((∀ v, .assign (h.newCell (.reference d)).1 v ∉ later) →
        ((h.newCell (.reference d)).2.performAll later).target (h.newCell (.reference d)).1 = h.target d) ∧
      ∀ c < h.cells.size, (∀ v, .assign c v ∉ later) →
        ((h.assign c (.reference d)).2.performAll later).target c = h.target d) ∧
    -- readers
    ∀ v, (∀ c, h.deref v ≠ .reference c) ∧
      h.isTruthy v = h.isTruthy (h.deref v) ∧ (∀ b, h.Reads Value.truth v b ↔ h.isTruthy v = b) ∧
      h.display v = h.display (h.deref v) ∧ (∀ s, h.Reads Value.plainText v s ↔ h.display v = s) ∧
      h.key? v = h.key? (h.deref v) ∧ (∀ k, h.Reads Value.plainKey? v k ↔ h.key? v = k) ∧
      Delegation.ofValue h v = Delegation.ofValue h (h.deref v) := by
  intro h
  have hh : h.Direct := direct_empty.performAll ops
  refine ⟨fun c d heq => ?_, h.assign_reference_self, fun c v => ⟨rfl, fun hc => ?_, fun d hd => ?_⟩,
    fun d later => ⟨fun hlater => ?_, fun c hc hlater => ?_⟩, fun v => ⟨fun c heq => ?_, ?_⟩⟩
  · have hc := hh c
    rw [heq] at hc
    cases hc
  · exact target_assign_self hc v
  · exact target_assign_of_ne hd v
  · have hsize : (h.newCell (.reference d)).1 < (h.newCell (.reference d)).2.cells.size := by simp [newCell]
    rw [target_performAll hsize hlater, target_newCell]
    exact if_pos rfl
  · have hsize : c < (h.assign c (.reference d)).2.cells.size := by simpa [assign] using hc
    rw [target_performAll hsize hlater, target_assign_self hc]
    rfl
  · have hv := hh.isReference_deref v
    rw [heq] at hv
    cases hv
  · have hv := hh.deref_deref v
    refine ⟨?_, fun b => reads_iff hh, ?_, fun s => reads_iff hh, ?_, fun k => reads_iff hh, ?_⟩
    · simp only [isTruthy, hv]
    · simp only [display, hv]
    · simp only [key?, hv]
    · simp only [Delegation.ofValue, hv]

/-- Two cells, where the second is made from a reference to the first and the first is then set to one to the
second: each holds the text, and the copy stays when the first is set again. -/
example :
    let h := empty.performAll [.create (.text "a"), .create (.reference 0), .assign 0 (.reference 1),
      .assign 0 (.text "b")]
    h.display (.reference 0) = "b" ∧ h.display (.reference 1) = "a" := by decide

end Heap

end YieldMachine
