import YieldMachine.Error
import YieldMachine.Heap
import YieldMachine.Value.Handles

/-!
Delegation: a generator takes its pairs from a table, walked in the order of the keys at the start, or from
another generator.
-/

namespace YieldMachine

inductive Delegation where
  /-- A captured table and the keys still to be visited. -/
  | table (table : Table Value) (pending : List Key)
  | child (g : GeneratorId)

namespace Delegation

def handles : Delegation → List Handle
  | .table t _ => Table.handles t
  | .child g => [.generator g]

/-- What advancing a source by one pair gives. -/
inductive Outcome where
  | pair (key value : Value)
  | exhausted (result : Value)
  | failed (e : DelegationError)

/-- The source that a value stands for. -/
def ofValue (h : Heap) (v : Value) : Except DelegationError Delegation :=
  match h.deref v with
  | .array _ t => .ok (.table t t.keys)
  | .generator g => .ok (.child g)
  | .object id o =>
    .error (if o.isGeneratorClass then .missingBinding
      else .unsupportedSource (Value.typeName (.object id o)))
  | w => .error (.unsupportedSource w.typeName)

/-- The pair at the next pending key, and the keys after it. -/
def visit (t : Table Value) : List Key → Option ((Value × Value) × List Key)
  | [] => none
  | k :: ks => some ((k.toValue, (t.get? k).getD .null), ks)

end Delegation

end YieldMachine
