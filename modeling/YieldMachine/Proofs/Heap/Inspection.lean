import YieldMachine.Proofs.Transition
import YieldMachine.Proofs.Value.Structure
import YieldMachine.World.Basic

/-!
The inspection text on heaps with cycles. Inside a cell that is being written the same cell is written as locked,
so what is left to write shrinks with the path of cells around it: `Heap.byPath` is induction along the text, and
`Heap.inspectCell_eq` says that the levels reserved for it are enough. A scribe (`Scribe.step`) makes the text with
locks instead: it tries the lock of each cell and generator it comes to, never waits, and gives the lock back after
the text under it. The scribe writes exactly the text of the path (`World.writes_value`), comes to exactly the
occurrences in it (`Heap.Occurs`), and ends with no lock in its hands.
-/

namespace YieldMachine

namespace Heap

variable {h : Heap} {gen : GeneratorId → String}

/-! ## Texts below a path -/

theorem target_of_size_le {c : CellId} (hc : h.cells.size ≤ c) : h.target c = .null := by
  simp [target, hc]

/-- The number of cells that are not on a path. -/
def remaining (h : Heap) (path : List CellId) : Nat := ((List.range h.cells.size).filter (· ∉ path)).length

theorem remaining_le (path : List CellId) : h.remaining path ≤ h.cells.size := by
  simpa [remaining] using List.length_filter_le (· ∉ path) (List.range h.cells.size)

theorem remaining_cons_lt {path : List CellId} {c : CellId} (hsize : c < h.cells.size) (hc : c ∉ path) :
    h.remaining (c :: path) < h.remaining path := by
  have hfilter : (List.range h.cells.size).filter (· ∉ c :: path) =
      ((List.range h.cells.size).filter (· ∉ path)).filter (· ≠ c) := by
    rw [List.filter_filter]
    exact List.filter_congr fun d _ => by simp
  rw [remaining, hfilter]
  refine List.length_filter_lt_length_iff_exists.mpr ⟨c, ?_, by simp⟩
  simp [hsize, hc]

/-- More levels than there are cells off the path make no difference. -/
theorem inspectCell_of_remaining_lt {n k : Nat} {path : List CellId} (hn : h.remaining path < n)
    (hk : h.remaining path < k) (c : CellId) : h.inspectCell gen n path c = h.inspectCell gen k path c := by
  induction n generalizing k path c with
  | zero => exact absurd hn (Nat.not_lt_zero _)
  | succ n ih =>
    cases k with
    | zero => exact absurd hk (Nat.not_lt_zero _)
    | succ k =>
      simp only [inspectCell]
      split
      · rfl
      · next hc =>
        by_cases hsize : c < h.cells.size
        · have hless := remaining_cons_lt hsize hc
          have hinner : h.inspectCell gen n (c :: path) = h.inspectCell gen k (c :: path) :=
            funext fun d => ih (by omega) (by omega) d
          rw [hinner]
        · rw [target_of_size_le (Nat.le_of_not_lt hsize)]
          rfl

/-- The text of a value inside the cells of `path`. -/
def textBelow (h : Heap) (gen : GeneratorId → String) (path : List CellId) (v : Value) : String :=
  v.inspectWith (h.inspectCell gen (h.cells.size + 1) path) gen

theorem inspect_eq (h : Heap) (gen : GeneratorId → String) (v : Value) : h.inspect gen v = h.textBelow gen [] v := rfl

theorem inspectCell_eq (path : List CellId) (c : CellId) :
    h.inspectCell gen (h.cells.size + 1) path c =
      if c ∈ path then "&<locked>" else "&" ++ h.textBelow gen (c :: path) (h.target c) := by
  rw [inspectCell]
  split
  · rfl
  · next hc =>
    by_cases hsize : c < h.cells.size
    · have hless := remaining_cons_lt hsize hc
      have hle := h.remaining_le path
      have hinner : h.inspectCell gen h.cells.size (c :: path) = h.inspectCell gen (h.cells.size + 1) (c :: path) :=
        funext fun d => inspectCell_of_remaining_lt (by omega) (by omega) d
      rw [textBelow, hinner]
    · rw [target_of_size_le (Nat.le_of_not_lt hsize)]
      rfl

/-- Induction along the text of a value: from the contents of a table or object to the whole, and from the target
of a cell, one cell deeper, to the cell. -/
@[elab_as_elim]
theorem byPath {P : List CellId → Value → Prop}
    (simple : ∀ path v, v.isCompound = false → (∀ c, v ≠ .reference c) → P path v)
    (array : ∀ path i t, (∀ v ∈ t.values, P path v) → P path (.array i t))
    (object : ∀ path i o, (∀ v ∈ o.properties.map Prod.snd, P path v) → P path (.object i o))
    (reference : ∀ path c, (c ∉ path → P (c :: path) (h.target c)) → P path (.reference c))
    (path : List CellId) (v : Value) : P path v := by
  -- A cell off the path leaves fewer of them; one that the heap does not have leads to null.
  induction hr : h.remaining path using Nat.strongRecOn generalizing path v with
  | ind r ih =>
    induction v using Value.byContents with
    | simple v hv =>
      cases v with
      | reference c =>
        refine reference path c fun hc => ?_
        by_cases hsize : c < h.cells.size
        · exact ih _ (hr ▸ remaining_cons_lt hsize hc) _ _ rfl
        · rw [target_of_size_le (Nat.le_of_not_lt hsize)]
          exact simple _ _ rfl nofun
      | _ => exact simple _ _ hv nofun
    | array i t iht => exact array path i t iht
    | object i o iho => exact object path i o iho

/-- A value at a place in the text of `root`, inside the cells of `path`, innermost first. -/
inductive Occurs (h : Heap) (root : Value) : List CellId → Value → Prop where
  | root : Occurs h root [] root
  | entry {path : List CellId} {i : AllocationId} {t : Table Value} {v : Value}
      (harray : Occurs h root path (.array i t)) (hv : v ∈ t.values) : Occurs h root path v
  | property {path : List CellId} {i : AllocationId} {o : Object Value} {v : Value}
      (hobject : Occurs h root path (.object i o)) (hv : v ∈ o.properties.map Prod.snd) : Occurs h root path v
  | target {path : List CellId} {c : CellId} (hcell : Occurs h root path (.reference c)) (hc : c ∉ path) :
      Occurs h root (c :: path) (h.target c)

end Heap

/-! ## The texts of values -/

section Texts

variable {cell : CellId → String} {gen : GeneratorId → String}

theorem Table.listInspect_eq (es : List (Key × Value)) :
    Table.listInspect cell gen es = es.map fun e => e.1.inspect ++ ": " ++ e.2.inspectWith cell gen := by
  induction es with
  | nil => rfl
  | cons e es ih =>
    obtain ⟨k, v⟩ := e
    rw [Table.listInspect, ih, Table.entryInspect, List.map_cons]

theorem Object.propertiesInspect_eq (ps : List (String × Value)) :
    Object.propertiesInspect cell gen ps =
      ps.map fun p => "(" ++ Text.quote p.1 ++ ", " ++ p.2.inspectWith cell gen ++ ")" := by
  induction ps with
  | nil => rfl
  | cons p ps ih =>
    obtain ⟨n, v⟩ := p
    rw [Object.propertiesInspect, ih, Object.propertyInspect, List.map_cons]

/-- The text of a value does not start as the mark of a lock does. -/
theorem Value.head?_inspectWith (v : Value) : (v.inspectWith cell gen).toList.head? ≠ some '<' := by
  rw [Value.inspectWith.eq_def]
  cases v with
  | bool b => cases b <;> simp
  | _ => simp [String.toList_append]

end Texts

namespace Heap

variable {h : Heap} {gen : GeneratorId → String} {path : List CellId}

theorem textBelow_array (i : AllocationId) (t : Table Value) :
    h.textBelow gen path (.array i t) = "Array(\x7b" ++
      ", ".intercalate (t.toList.map fun e => e.1.inspect ++ ": " ++ h.textBelow gen path e.2) ++ "\x7d)" := by
  obtain ⟨⟨es⟩, index, cursor⟩ := t
  rw [textBelow, Value.inspectWith.eq_def]
  simp only [Table.inspectWith, Table.entriesInspect, Table.listInspect_eq]
  simp [← String.toList_inj, Table.toList, textBelow]

theorem textBelow_object (i : AllocationId) (o : Object Value) :
    h.textBelow gen path (.object i o) =
      "Object(ObjectValue \x7b class_name: " ++ Text.quote o.className ++ ", properties: [" ++
      ", ".intercalate (o.properties.map fun p =>
        "(" ++ Text.quote p.1 ++ ", " ++ h.textBelow gen path p.2 ++ ")") ++ "] \x7d)" := by
  obtain ⟨c, ps⟩ := o
  have htext : h.textBelow gen path (.object i ⟨c, ps⟩) = "Object(" ++ ("ObjectValue \x7b class_name: " ++
      Text.quote c ++ ", properties: [" ++ ", ".intercalate (Object.propertiesInspect
        (h.inspectCell gen (h.cells.size + 1) path) gen ps) ++ "] \x7d") ++ ")" := rfl
  rw [htext, Object.propertiesInspect_eq]
  simp [← String.toList_inj, textBelow]

theorem textBelow_reference (c : CellId) :
    h.textBelow gen path (.reference c) = "Reference(" ++
      (if c ∈ path then "&<locked>" else "&" ++ h.textBelow gen (c :: path) (h.target c)) ++ ")" := by
  rw [← inspectCell_eq]
  rfl

end Heap

/-! ## A scribe with locks -/

def Handle.toValue : Handle → Value
  | .cell c => .reference c
  | .generator g => .generator g

/-- What stands for something whose lock is taken. -/
def Handle.mark : Handle → String
  | .cell _ => "&<locked>"
  | .generator _ => "Generator(<running>)"

/-- What a scribe has still to do. -/
inductive Scribe.Task where
  | write (s : String)
  | value (v : Value)
  /-- The text of a cell or generator, under its lock. -/
  | handle (x : Handle)
  | release (x : Handle)

structure Scribe where
  /-- The locks in the scribe's hands, the latest first. -/
  held : List Handle
  text : String
  tasks : List Scribe.Task

open Scribe (Task)

/-- The text of a value in pieces; its contents are values of their own. -/
def Value.pieces : Value → List Task
  | .array _ t => [.write "Array(\x7b"] ++
      [.write ", "].intercalate (t.toList.map fun e => [.write (e.1.inspect ++ ": "), .value e.2]) ++
      [.write "\x7d)"]
  | .object _ o => [.write ("Object(ObjectValue \x7b class_name: " ++ Text.quote o.className ++ ", properties: [")] ++
      [.write ", "].intercalate
        (o.properties.map fun p => [.write ("(" ++ Text.quote p.1 ++ ", "), .value p.2, .write ")"]) ++
      [.write "] \x7d)"]
  | .reference c => [.write "Reference(", .handle (.cell c), .write ")"]
  | .generator g => [.write "Generator(", .handle (.generator g), .write ")"]
  | v => [.write (v.inspectWith (fun _ => "") fun _ => "")]

namespace World

variable {H F S : Type} {w : World H F S}

/-- Whether the lock is taken before a scribe starts. Drivers hold the locks of generators; nobody holds a cell's
while no text is made. -/
def isTaken (w : World H F S) : Handle → Bool
  | .cell _ => false
  | .generator g => w.isLocked g

/-- What is written under a lock. -/
def guarded (w : World H F S) : Handle → List Task
  | .cell c => [.write "&", .value (w.heap.target c)]
  | .generator g =>
    match w.generator? g with
    | some x => [.write ("Generator(" ++ x.function.name ++ ", finished=" ++
        (if x.isFinished then "true" else "false") ++ ")")]
    | none => []

/-- One step of a scribe. Each lock is tried once: if it is free, the scribe takes it for the text under it. -/
def scribe (w : World H F S) (s : Scribe) : Transition Scribe (List Handle × String) :=
  match s.tasks with
  | [] => .halt (s.held, s.text)
  | .write t :: rest => .next ⟨s.held, s.text ++ t, rest⟩
  | .value v :: rest => .next ⟨s.held, s.text, v.pieces ++ rest⟩
  | .handle x :: rest =>
    if x ∈ s.held ∨ w.isTaken x then .next ⟨s.held, s.text ++ x.mark, rest⟩
    else .next ⟨x :: s.held, s.text, w.guarded x ++ .release x :: rest⟩
  | .release x :: rest => .next ⟨s.held.erase x, s.text, rest⟩

/-- The tasks, whatever is to be done after them, add the text and leave the locks as they are. -/
def Writes (w : World H F S) (held : List Handle) (ts : List Task) (text : String) : Prop :=
  ∀ before rest, ∃ n, Reaches w.scribe ⟨held, before, ts ++ rest⟩ n ⟨held, before ++ text, rest⟩

namespace Writes

variable {held : List Handle} {ts us : List Task} {text text' : String}

theorem nil : w.Writes held [] "" := fun before rest => ⟨0, by simpa using .refl _⟩

theorem append (ht : w.Writes held ts text) (hu : w.Writes held us text') :
    w.Writes held (ts ++ us) (text ++ text') := by
  intro before rest
  obtain ⟨n, hn⟩ := ht before (us ++ rest)
  obtain ⟨k, hk⟩ := hu (before ++ text) rest
  rw [String.append_assoc] at hk
  exact ⟨n + k, by simpa using hn.trans hk⟩

theorem write (s : String) : w.Writes held [.write s] s := fun _ _ => ⟨1, .single rfl⟩

theorem value {v : Value} (h : w.Writes held v.pieces text) : w.Writes held [.value v] text := by
  intro before rest
  obtain ⟨n, hn⟩ := h before rest
  exact ⟨n + 1, .next rfl hn⟩

theorem of_locked {x : Handle} (hx : x ∈ held ∨ w.isTaken x = true) : w.Writes held [.handle x] x.mark :=
  fun _ _ => ⟨1, .single (by simp only [scribe, List.cons_append, if_pos hx, List.nil_append])⟩

theorem of_free {x : Handle} (hx : ¬ (x ∈ held ∨ w.isTaken x = true)) (h : w.Writes (x :: held) (w.guarded x) text) :
    w.Writes held [.handle x] text := by
  intro before rest
  obtain ⟨n, hn⟩ := h before (.release x :: rest)
  have htake : w.scribe ⟨held, before, .handle x :: rest⟩ =
      .next ⟨x :: held, before, w.guarded x ++ .release x :: rest⟩ := by
    simp only [scribe, if_neg hx]
  have hrelease : w.scribe ⟨x :: held, before ++ text, .release x :: rest⟩ =
      .next ⟨held, before ++ text, rest⟩ := by
    simp only [scribe, List.erase_cons_head]
  exact ⟨n + 1 + 1, .next htake (hn.trans (.single hrelease))⟩

/-- Pieces with a separator between them. -/
theorem intercalate {α : Type} {f : α → List Task} {g : α → String} (as : List α)
    (h : ∀ a ∈ as, w.Writes held (f a) (g a)) (sep : String) :
    w.Writes held ([.write sep].intercalate (as.map f)) (sep.intercalate (as.map g)) := by
  induction as with
  | nil => exact nil
  | cons a as ih =>
    have ha := h a List.mem_cons_self
    cases as with
    | nil => simpa using ha
    | cons b bs =>
      have hrest := ih fun c hc => h c (List.mem_cons_of_mem a hc)
      simp only [List.map_cons] at hrest ⊢
      rw [List.intercalate_cons_cons, String.intercalate_cons_cons]
      exact (ha.append (.write sep)).append hrest

end Writes

theorem writes_generator {held : List Handle} {g : GeneratorId} (hg : .generator g ∉ held) :
    w.Writes held [.handle (.generator g)] (w.inspectHandle g) := by
  cases hlock : w.isLocked g with
  | true =>
    have hmark : w.inspectHandle g = Handle.mark (.generator g) := by
      cases hx : w.generator? g with
      | none => simp [inspectHandle, Handle.mark, hx]
      | some x =>
        have hlocked : x.locked = true := by simpa [isLocked, hx] using hlock
        simp [inspectHandle, Handle.mark, hx, hlocked]
    rw [hmark]
    exact .of_locked (.inr hlock)
  | false =>
    refine .of_free (by simp [hg, isTaken, hlock]) ?_
    cases hx : w.generator? g with
    | none => simp [isLocked, hx] at hlock
    | some x =>
      have hfree : x.locked = false := by simpa [isLocked, hx] using hlock
      simp only [guarded, inspectHandle, hx, hfree]
      exact .write _

/-- A cell on the path is locked; any other one is written with its target, one cell deeper. -/
theorem writes_cell {path : List CellId} {c : CellId}
    (htarget : c ∉ path → w.Writes ((c :: path).map .cell) [.value (w.heap.target c)]
      (w.heap.textBelow w.inspectHandle (c :: path) (w.heap.target c))) :
    w.Writes (path.map .cell) [.handle (.cell c)]
      (if c ∈ path then "&<locked>"
        else "&" ++ w.heap.textBelow w.inspectHandle (c :: path) (w.heap.target c)) := by
  split
  · next hc => exact .of_locked (.inl (List.mem_map_of_mem hc))
  · next hc => exact .of_free (by simpa [isTaken] using hc) ((Writes.write "&").append (htarget hc))

/-- Inside the cells of a path, with their locks in hand, a scribe writes the text below that path. -/
theorem writes_value (w : World H F S) (path : List CellId) (v : Value) :
    w.Writes (path.map .cell) [.value v] (w.heap.textBelow w.inspectHandle path v) := by
  induction path, v using Heap.byPath (h := w.heap) with
  | simple path v hv href =>
    refine Writes.value ?_
    cases v with
    | array | object => cases hv
    | reference c => exact absurd rfl (href c)
    | generator g => exact ((Writes.write _).append (writes_generator (by simp))).append (.write _)
    | _ => exact .write _
  | array path i t iht =>
    have hentries := Writes.intercalate t.toList (fun e he =>
      (Writes.write (e.1.inspect ++ ": ")).append (iht e.2 (List.mem_map_of_mem he))) ", "
    rw [Heap.textBelow_array]
    exact .value (((Writes.write _).append hentries).append (.write _))
  | object path i o iho =>
    have hproperties := Writes.intercalate o.properties (fun p hp =>
      ((Writes.write ("(" ++ Text.quote p.1 ++ ", ")).append (iho p.2 (List.mem_map_of_mem hp))).append
        (.write ")")) ", "
    rw [Heap.textBelow_object]
    exact .value (((Writes.write _).append hproperties).append (.write _))
  | reference path c ih =>
    rw [Heap.textBelow_reference]
    exact .value (((Writes.write _).append (writes_cell ih)).append (.write _))

end World

/-! ## Occurrences -/

namespace Scribe

variable {H F S : Type} {w : World H F S} {h : Heap} {root : Value} {path : List CellId} {held : List Handle}
  {ts : List Task} {s t : Scribe}

/-- A task at a place inside the cells of `path`. -/
def Task.Fits (h : Heap) (root : Value) (path : List CellId) : Task → Prop
  | .write _ => True
  | .value v => h.Occurs root path v
  | .handle x => h.Occurs root path x.toValue
  | .release _ => False

theorem fits_intercalate {α : Type} {f : α → List Task} {as : List α} {sep : String}
    (has : ∀ a ∈ as, ∀ t ∈ f a, t.Fits h root path) :
    ∀ t ∈ [.write sep].intercalate (as.map f), t.Fits h root path := by
  induction as with
  | nil => simp
  | cons a as ih =>
    obtain ⟨ha, hrest⟩ := List.forall_mem_cons.mp has
    cases as with
    | nil => simpa using ha
    | cons b bs =>
      rw [List.map_cons, List.map_cons, List.intercalate_cons_cons]
      simp only [List.forall_mem_append, List.forall_mem_singleton]
      exact ⟨⟨ha, trivial⟩, ih hrest⟩

theorem fits_pieces {v : Value} (hv : h.Occurs root path v) : ∀ t ∈ v.pieces, t.Fits h root path := by
  cases v with
  | array i t =>
    simp only [Value.pieces, List.forall_mem_append, List.forall_mem_singleton]
    refine ⟨⟨trivial, fits_intercalate fun e he => ?_⟩, trivial⟩
    simp only [List.forall_mem_cons]
    exact ⟨trivial, .entry hv (List.mem_map_of_mem he), nofun⟩
  | object i o =>
    simp only [Value.pieces, List.forall_mem_append, List.forall_mem_singleton]
    refine ⟨⟨trivial, fits_intercalate fun p hp => ?_⟩, trivial⟩
    simp only [List.forall_mem_cons]
    exact ⟨trivial, .property hv (List.mem_map_of_mem hp), trivial, nofun⟩
  | reference c | generator g =>
    simp only [Value.pieces, List.forall_mem_cons]
    exact ⟨trivial, hv, trivial, nofun⟩
  | _ =>
    simp only [Value.pieces, List.forall_mem_singleton]
    trivial

/-- The tasks ahead of a scribe that writes `root`, with the locks in its hands: each lock is released after the
tasks under it, and these are at places inside the cells that are held. -/
inductive Ahead (h : Heap) (root : Value) : List Handle → List Task → Prop where
  | done : Ahead h root [] []
  | write {held : List Handle} {s : String} {ts : List Task} (hts : Ahead h root held ts) :
      Ahead h root held (.write s :: ts)
  | task {path : List CellId} {t : Task} {ts : List Task} (ht : t.Fits h root path)
      (hts : Ahead h root (path.map .cell) ts) : Ahead h root (path.map .cell) (t :: ts)
  | release {held : List Handle} {x : Handle} {ts : List Task} (hts : Ahead h root held ts) :
      Ahead h root (x :: held) (.release x :: ts)

namespace Ahead

theorem append {us : List Task} (hus : ∀ t ∈ us, t.Fits h root path) (hts : Ahead h root (path.map .cell) ts) :
    Ahead h root (path.map .cell) (us ++ ts) := by
  induction us with
  | nil => exact hts
  | cons u us ih => exact .task (hus u List.mem_cons_self) (ih fun t ht => hus t (List.mem_cons_of_mem u ht))

/-- What a lock guards is at a place inside it. -/
theorem guarded {x : Handle} (hx : w.heap.Occurs root path x.toValue) (hfree : x ∉ path.map .cell)
    (hts : Ahead w.heap root (path.map .cell) ts) :
    Ahead w.heap root (x :: path.map .cell) (w.guarded x ++ .release x :: ts) := by
  cases x with
  | cell c =>
    have hc : c ∉ path := fun hc => hfree (List.mem_map_of_mem hc)
    have htarget : Ahead w.heap root ((c :: path).map .cell) (.value (w.heap.target c) :: .release (.cell c) :: ts) :=
      .task (.target hx hc) (.release hts)
    exact .write htarget
  | generator g =>
    simp only [World.guarded]
    split
    · exact .write (.release hts)
    · exact .release hts

theorem step (hs : Ahead w.heap root s.held s.tasks) (h : w.scribe s = .next t) :
    Ahead w.heap root t.held t.tasks := by
  obtain ⟨held, text, tasks⟩ := s
  cases hs with
  | done => cases h
  | write hts => cases h; exact hts
  | release hts =>
    cases h
    simpa using hts
  | @task path u ts hu hts =>
    cases u with
    | write s => cases h; exact hts
    | value v => cases h; exact append (fits_pieces hu) hts
    | release x => exact hu.elim
    | handle x =>
      simp only [World.scribe] at h
      split at h
      · cases h; exact hts
      · next hfree => cases h; exact guarded hu (fun hx => hfree (.inl hx)) hts

/-- A handle is met at a place inside the cells that are held. -/
theorem occurs {x : Handle} (hx : Ahead h root held (.handle x :: ts)) :
    ∃ path : List CellId, held = path.map .cell ∧ h.Occurs root path x.toValue := by
  cases hx with
  | task hx => exact ⟨_, rfl, hx⟩

end Ahead

/-- The tasks at a place are written, and then the locks are as before. -/
theorem exists_writes (hts : ∀ t ∈ ts, t.Fits w.heap root path) : ∃ text, w.Writes (path.map .cell) ts text := by
  induction ts with
  | nil => exact ⟨"", .nil⟩
  | cons t ts ih =>
    obtain ⟨ht, hrest⟩ := List.forall_mem_cons.mp hts
    obtain ⟨rest, hrest⟩ := ih hrest
    cases t with
    | write s => exact ⟨_, (World.Writes.write s).append hrest⟩
    | value v => exact ⟨_, (w.writes_value path v).append hrest⟩
    | release x => exact ht.elim
    | handle x =>
      cases x with
      | cell c => exact ⟨_, (World.writes_cell fun _ => w.writes_value _ _).append hrest⟩
      | generator g => exact ⟨_, (World.writes_generator (by simp)).append hrest⟩

/-- From a value the scribe comes to each of its pieces. -/
theorem reaches_piece {v : Value} {t : Task} (hv : w.heap.Occurs root path v) (ht : t ∈ v.pieces) (before : String)
    (rest : List Task) : ∃ n before' rest', Reaches w.scribe ⟨path.map .cell, before, .value v :: rest⟩ n
      ⟨path.map .cell, before', t :: rest'⟩ := by
  obtain ⟨us, us', hpieces⟩ := List.append_of_mem ht
  obtain ⟨text, hus⟩ := exists_writes (w := w) fun u hu =>
    fits_pieces hv u (hpieces ▸ List.mem_append_left (t :: us') hu)
  obtain ⟨n, hn⟩ := hus before (t :: (us' ++ rest))
  refine ⟨n + 1, _, _, .next ?_ hn⟩
  simp only [World.scribe, hpieces, List.append_assoc, List.cons_append]

theorem mem_intercalate {α : Type} {f : α → List Task} {as : List α} {a : α} {t : Task} (sep : Task) (ha : a ∈ as)
    (ht : t ∈ f a) : t ∈ [sep].intercalate (as.map f) := by
  induction as with
  | nil => cases ha
  | cons b bs ih =>
    cases bs with
    | nil =>
      obtain rfl := List.mem_singleton.mp ha
      simpa using ht
    | cons c cs =>
      rw [List.map_cons, List.map_cons, List.intercalate_cons_cons]
      obtain rfl | ha := List.mem_cons.mp ha
      · exact List.mem_append_left _ (List.mem_append_left _ ht)
      · exact List.mem_append_right _ (ih ha)

theorem value_mem_pieces_array {i : AllocationId} {t : Table Value} {v : Value} (hv : v ∈ t.values) :
    .value v ∈ (Value.array i t).pieces := by
  obtain ⟨e, he, rfl⟩ := List.mem_map.mp hv
  simp only [Value.pieces, List.mem_append]
  exact .inl (.inr (mem_intercalate _ he (by simp)))

theorem value_mem_pieces_object {i : AllocationId} {o : Object Value} {v : Value}
    (hv : v ∈ o.properties.map Prod.snd) : .value v ∈ (Value.object i o).pieces := by
  obtain ⟨p, hp, rfl⟩ := List.mem_map.mp hv
  simp only [Value.pieces, List.mem_append]
  exact .inl (.inr (mem_intercalate _ hp (by simp)))

/-- The scribe comes to every place in the text. -/
theorem reaches_occurrence {v : Value} (hv : w.heap.Occurs root path v) :
    ∃ n before rest, Reaches w.scribe ⟨[], "", [.value root]⟩ n ⟨path.map .cell, before, .value v :: rest⟩ := by
  induction hv with
  | root => exact ⟨0, _, _, .refl _⟩
  | entry harray hv ih =>
    obtain ⟨n, before, rest, hn⟩ := ih
    obtain ⟨k, before', rest', hk⟩ := reaches_piece harray (value_mem_pieces_array hv) before rest
    exact ⟨n + k, before', rest', hn.trans hk⟩
  | property hobject hv ih =>
    obtain ⟨n, before, rest, hn⟩ := ih
    obtain ⟨k, before', rest', hk⟩ := reaches_piece hobject (value_mem_pieces_object hv) before rest
    exact ⟨n + k, before', rest', hn.trans hk⟩
  | @target path c hcell hc ih =>
    obtain ⟨n, before, rest, hn⟩ := ih
    obtain ⟨k, before', rest', hk⟩ := reaches_piece (t := .handle (.cell c)) hcell (by simp [Value.pieces]) before rest
    have htake : w.scribe ⟨path.map .cell, before', .handle (.cell c) :: rest'⟩ =
        .next ⟨(c :: path).map .cell, before',
          .write "&" :: .value (w.heap.target c) :: .release (.cell c) :: rest'⟩ := by
      simp [World.scribe, World.isTaken, World.guarded, hc]
    exact ⟨n + k + 2, _, _, (hn.trans hk).trans (.next htake (.single rfl))⟩

end Scribe

namespace World

variable {H F S : Type} {w : World H F S}

theorem inspectHandle_eq_running_iff (g : GeneratorId) :
    w.inspectHandle g = "Generator(<running>)" ↔ w.isLocked g = true := by
  cases hx : w.generator? g with
  | none => simp [inspectHandle, isLocked, hx]
  | some x =>
    cases hlock : x.locked with
    | true => simp [inspectHandle, isLocked, hx, hlock]
    | false =>
      -- the two texts differ before their last character
      suffices w.inspectHandle g ≠ "Generator(<running>)" by simpa [isLocked, hx, hlock] using this
      intro heq
      have hend := congrArg (·.toList.reverse.take 2) heq
      cases hfinished : x.isFinished with
      | true => simp [inspectHandle, hx, hlock, hfinished] at hend
      | false => simp [inspectHandle, hx, hlock, hfinished] at hend

theorem ends_of_writes {ts : List Task} {text : String} (h : w.Writes [] ts text) :
    Ends w.scribe ⟨[], "", ts⟩ ([], text) := by
  obtain ⟨n, hn⟩ := h "" []
  rw [List.append_nil, String.empty_append] at hn
  exact hn.ends_iff.mpr (.halt rfl)

/-- A scribe writes the inspection text of any value in any world: it ends, whatever cells lead back to themselves,
with no lock in its hands, so a second text of the same value follows and is the same. It meets the cells and
generators that occur below the root, each with the locks of just the cells around it, and no others. A cell is
written as locked just when it is one of the cells around it, and else with the text of its target; a generator is
written as running just when it is locked. -/
theorem inspection_by_path (w : World H F S) (root : Value) :
    Ends w.scribe ⟨[], "", [.value root]⟩ ([], w.inspect root) ∧
    Ends w.scribe ⟨[], "", [.value root, .value root]⟩ ([], w.inspect root ++ w.inspect root) ∧
    (∀ n s x rest, Reaches w.scribe ⟨[], "", [.value root]⟩ n s → s.tasks = .handle x :: rest →
      ∃ path : List CellId, s.held = path.map .cell ∧ w.heap.Occurs root path x.toValue) ∧
    (∀ (path : List CellId) x, w.heap.Occurs root path x.toValue →
      ∃ n before rest, Reaches w.scribe ⟨[], "", [.value root]⟩ n ⟨path.map .cell, before, .handle x :: rest⟩) ∧
    (∀ (path : List CellId) c, ∃ text target, w.Writes (path.map .cell) [.handle (.cell c)] text ∧
      w.Writes ((c :: path).map .cell) [.value (w.heap.target c)] target ∧
      (text = "&<locked>" ↔ c ∈ path) ∧ (c ∉ path → text = "&" ++ target)) ∧
    ∀ (path : List CellId) g, ∃ text, w.Writes (path.map .cell) [.handle (.generator g)] text ∧
      (text = "Generator(<running>)" ↔ w.isLocked g = true) := by
  have hroot : w.Writes [] [.value root] (w.inspect root) := by
    rw [inspect, Heap.inspect_eq]
    exact w.writes_value [] root
  refine ⟨ends_of_writes hroot, ends_of_writes (hroot.append hroot), fun n s x rest hn hs => ?_,
    fun path x hx => ?_, fun path c => ?_, fun path g => ?_⟩
  · have hstart : Scribe.Ahead w.heap root ([].map Handle.cell) [.value root] := .task Heap.Occurs.root .done
    have hahead := hn.invariant (I := fun s => Scribe.Ahead w.heap root s.held s.tasks) hstart
      fun _ _ hs h => hs.step h
    rw [hs] at hahead
    exact hahead.occurs
  · obtain ⟨n, before, rest, hn⟩ := Scribe.reaches_occurrence hx
    have hpiece : .handle x ∈ x.toValue.pieces := by cases x <;> simp [Handle.toValue, Value.pieces]
    obtain ⟨k, before', rest', hk⟩ := Scribe.reaches_piece hx hpiece before rest
    exact ⟨n + k, before', rest', hn.trans hk⟩
  · refine ⟨_, _, writes_cell fun _ => w.writes_value _ _, w.writes_value _ _, ?_, fun hc => if_neg hc⟩
    split
    · next hc => exact ⟨fun _ => hc, fun _ => rfl⟩
    · next hc =>
      refine ⟨fun heq => ?_, fun h => absurd h hc⟩
      have htarget : w.heap.textBelow w.inspectHandle (c :: path) (w.heap.target c) = "<locked>" :=
        String.append_right_inj (s := "&") |>.mp heq
      exact absurd (by rw [← Heap.textBelow, htarget]; rfl) (Value.head?_inspectWith (w.heap.target c))
  · exact ⟨_, writes_generator (by simp), inspectHandle_eq_running_iff g⟩

/-- A cell that holds itself in a table, twice side by side: in full both times, and locked inside itself. -/
example : (⟨⟨#[.array 0 (.ofValues [.reference 0])], 1⟩, (), #[]⟩ : World Unit Unit Unit).inspect
    (.array 1 (.ofValues [.reference 0, .reference 0])) =
      "Array(\x7b0: Reference(&Array(\x7b0: Reference(&<locked>)\x7d)), " ++
        "1: Reference(&Array(\x7b0: Reference(&<locked>)\x7d))\x7d)" := by
  decide +kernel

end World

end YieldMachine
