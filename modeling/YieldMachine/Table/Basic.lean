import YieldMachine.Table.Key

/-!
Ordered tables: entries in order of first insertion, an index from keys to positions, and the append
cursor. The cursor is one past the largest integer key ever inserted, is never negative, and does not go
back when entries are removed.
-/

namespace YieldMachine

structure Table (α : Type) where
  entries : Array (Key × α)
  index : Std.TreeMap Key Nat
  cursor : Int64

namespace Table

variable {α : Type}

def empty : Table α := ⟨#[], ∅, 0⟩

instance : Inhabited (Table α) := ⟨empty⟩

def size (t : Table α) : Nat := t.entries.size

def isEmpty (t : Table α) : Bool := t.entries.isEmpty

def toList (t : Table α) : List (Key × α) := t.entries.toList

def keys (t : Table α) : List Key := t.toList.map Prod.fst

def values (t : Table α) : List α := t.toList.map Prod.snd

def contains (t : Table α) (k : Key) : Bool := t.index.contains k

def get? (t : Table α) (k : Key) : Option α :=
  t.index[k]?.bind fun pos => t.entries[pos]?.map Prod.snd

/-- The key that the next append takes; none is left while the largest integer is a key. -/
def nextIndex? (t : Table α) : Option Int64 :=
  if t.cursor ≠ Int64.maxValue ∨ !t.contains (.int Int64.maxValue) then some t.cursor else none

/-- The cursor after an insertion under `k`. -/
def raise (cursor : Int64) : Key → Int64
  | .int n => if cursor ≤ n then saturatingSucc n else cursor
  | .text _ => cursor

/-- A present key keeps its position and gets the new value; an absent one is appended. -/
def insert (t : Table α) (k : Key) (a : α) : Table α :=
  match t.index[k]? with
  | some pos =>
    { t with entries := t.entries.modify pos fun e => (e.1, a), cursor := raise t.cursor k }
  | none =>
    { entries := t.entries.push (k, a)
      index := t.index.insert k t.entries.size
      cursor := raise t.cursor k }

/-- Appends under the next free integer key and gives that key. -/
def push? (t : Table α) (a : α) : Option (Int64 × Table α) :=
  t.nextIndex?.map fun n => (n, t.insert (.int n) a)

/-- Lowers the recorded positions of these entries by one. -/
def closeGap (index : Std.TreeMap Key Nat) (es : List (Key × α)) : Std.TreeMap Key Nat :=
  es.foldl (fun index e => index.modify e.1 (· - 1)) index

/-- Takes out an entry, if there is one, and gives its value; the entries behind it move up by one. -/
def remove? (t : Table α) (k : Key) : Option (α × Table α) :=
  t.index[k]?.bind fun pos => t.entries[pos]?.map fun e =>
    let entries := t.entries.eraseIdxIfInBounds pos
    (e.2, { t with entries, index := closeGap (t.index.erase k) (entries.toList.drop pos) })

/-- Appends the values one by one. -/
def ofValues (as : List α) : Table α :=
  as.foldl (fun t a => ((t.push? a).map Prod.snd).getD t) empty

/-- Inserts the entries one by one. -/
def ofEntries (es : List (Key × α)) : Table α :=
  es.foldl (fun t e => t.insert e.1 e.2) empty

end Table

end YieldMachine
