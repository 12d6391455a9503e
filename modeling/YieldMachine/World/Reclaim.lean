import YieldMachine.World.Basic

/-!
Reclaiming what nothing points to. A cell or generator is dropped once neither a root nor anything that is
still kept names it, so things that name each other in a circle are kept. Whoever drives a generator holds
it, so a locked one is a root. A dropped generator's held frame is discarded.
-/

namespace YieldMachine

variable {H F S : Type}

/-- What a generator names: its arguments, its pair, values in transit, its source and its held frame. -/
def Generator.handles (E : Engine H F S) (x : Generator H F) : List Handle :=
  (x.arguments ++ [x.key, x.value, x.sent, x.delegationResult] ++ x.returnValue.toList ++
      (x.frame.map E.held).getD []).flatMap Value.handles ++
    (x.delegation.map Delegation.handles).getD []

namespace World

def nodes (w : World H F S) : List Handle :=
  (List.range w.heap.cells.size).map .cell ++ (List.range w.generators.size).map .generator

def namedBy (E : Engine H F S) (w : World H F S) : Handle → List Handle
  | .cell c => (w.heap.target c).handles
  | .generator g => ((w.generator? g).map (·.handles E)).getD []

/-- The generators that someone is driving. -/
def driven (w : World H F S) : List Handle :=
  ((List.range w.generators.size).filter w.isLocked).map .generator

/-- Those of `kept` that a root or one of `kept` names. -/
def sweep (E : Engine H F S) (w : World H F S) (roots kept : List Handle) : List Handle :=
  let named := roots ++ kept.flatMap (w.namedBy E)
  kept.filter named.contains

/-- Sweeps until nothing more is dropped; at most as often as there are things to drop. -/
def settle (E : Engine H F S) (w : World H F S) (roots : List Handle) :
    Nat → List Handle → List Handle
  | 0, kept => kept
  | n + 1, kept =>
    let next := w.sweep E roots kept
    if next.length = kept.length then kept else settle E w roots n next

/-- What stays, given the roots. -/
def kept (E : Engine H F S) (w : World H F S) (roots : List Handle) : List Handle :=
  settle E w (w.driven ++ roots) w.nodes.length w.nodes

/-- Discards the frame of a generator that nobody can advance any more. -/
def drop (E : Engine H F S) (w : World H F S) (g : GeneratorId) : World H F S :=
  match (w.generator? g).bind (·.frame) with
  | some frame =>
    { w with state := E.discard frame w.state }.modify g fun x => { x with frame := none }
  | none => w

/-- Drops every generator that is not kept. -/
def reclaim (E : Engine H F S) (w : World H F S) (roots : List Handle) : World H F S :=
  let kept := w.kept E roots
  (List.range w.generators.size).foldl
    (fun w g => if kept.contains (.generator g) then w else w.drop E g) w

end World

end YieldMachine
