import ModelExport.SourceGraph

/-!
# Wiring — which node feeds which, and an order that respects it

A node feeds another one when it writes a tensor that the other one reads.  `adjacency` lists, for
each node that feeds some other, the nodes it feeds; `topologicalOrder` puts nodes before the nodes
they feed.  The order is built from its end: a node is placed once everything it feeds is placed, so
nodes from which a cycle can be reached are left out.
-/

namespace ModelExport

structure Wire where
  name : String
  reads : List Value
  writes : List Value

namespace Wire

def provides (p : Wire) (x : Value) : Bool := p.writes.any fun y => x.same y

def feeds (p c : Wire) : Bool := p.name != c.name && c.reads.any p.provides

end Wire

/-- Names without repetitions, in order of first appearance. -/
def firstOccurrences (names : List String) : List String :=
  names.foldl (fun seen n => if seen.contains n then seen else seen ++ [n]) []

/-- The nodes that provide what a node reads, input by input. -/
def providers (ws : List Wire) (c : Wire) : List Wire :=
  c.reads.flatMap fun x => ws.filter fun p => p.name != c.name && p.provides x

def consumers (ws : List Wire) (p : Wire) : List String :=
  (ws.filter p.feeds).map Wire.name

/-- **Which node feeds which**: every node that feeds another one, in the order in which the nodes
reading from them come up, with the nodes it feeds. -/
def adjacency (ws : List Wire) : List (String × List String) :=
  (firstOccurrences ((ws.flatMap (providers ws)).map Wire.name)).map fun name =>
    (name, (ws.filter fun p => p.name == name).flatMap (consumers ws))

/-! ## Order -/

/-- Nodes with the nodes they still wait for. -/
abbrev Waiting := List (String × List String)

namespace Waiting

def size (w : Waiting) : Nat := (w.filter fun e => !e.2.isEmpty).length

/-- Nobody waits for the node any longer. -/
def strike (w : Waiting) (c : String) : Waiting := w.map fun e => (e.1, e.2.filter (· != c))

/-- The nodes that wait for this one only. -/
def freedBy (w : Waiting) (c : String) : List String :=
  (w.filter fun e => !e.2.isEmpty && (e.2.filter (· != c)).isEmpty).map Prod.fst

theorem size_strike (w : Waiting) (c : String) :
    (w.strike c).size + (w.freedBy c).length = w.size := by
  induction w with
  | nil => rfl
  | cons e w ih =>
    simp only [size, strike, freedBy, List.map_cons, List.filter_cons, List.length_map] at ih ⊢
    cases he : e.2 with
    | nil => simpa using ih
    | cons a as =>
      by_cases h : (List.filter (· != c) (a :: as)).isEmpty = true
      · simp only [h, List.isEmpty_cons, Bool.not_true, Bool.not_false, Bool.and_true,
          if_true, List.length_cons]
        simp
        omega
      · simp only [Bool.not_eq_true] at h
        simp only [h, List.isEmpty_cons, Bool.not_false, Bool.and_false, if_true,
          List.length_cons]
        simp
        omega

end Waiting

/-- Places nodes one after another, each followed in time by those that waited for it only. -/
def placeAll : List String → Waiting → List String
  | [], _ => []
  | c :: rest, w => c :: placeAll (rest ++ w.freedBy c) (w.strike c)
termination_by pending w => pending.length + w.size
decreasing_by
  have := w.size_strike c
  simp only [List.length_append, List.length_cons]
  omega

/-- **An order in which every node stands before the nodes it feeds.** -/
def topologicalOrder (ws : List Wire) : List String :=
  let table := adjacency ws
  let last := (ws.map Wire.name).filter fun n => !Assoc.contains table n
  (placeAll last table).reverse

/-! ## Graphs -/

def Node.wire (n : Node) : Wire := { name := n.name, reads := n.inputs, writes := n.outputs }

def slotMembers (slots : List (String × Value)) : Except Slip (List Value) := do
  .ok (← slots.mapM fun s => s.2.members).flatten

/-- What an operator reads, with nothing written yet. -/
def OpNode.reading (op : OpNode) : Except Slip Wire := do
  .ok { name := op.name, reads := ← slotMembers op.inputs, writes := [] }

/-- An operator with what it writes.  Whether that is a sequence shows only when another node reads
something. -/
def OpNode.writing (ws : List Wire) (op : OpNode) (w : Wire) : Except Slip Wire :=
  match slotMembers op.outputs with
  | .ok writes => .ok { w with writes }
  | .error e => if ws.any fun c => c.name != w.name && !c.reads.isEmpty then .error e else .ok w

def SourceGraph.wires (g : SourceGraph) : Except Slip (List Wire) := do
  let ops := g.nodes.map Prod.snd
  let ws ← ops.mapM OpNode.reading
  (ops.zip ws).mapM fun e => e.1.writing ws e.2

end ModelExport
