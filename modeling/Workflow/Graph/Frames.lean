import Workflow.Graph.Survey
/-!
# Frames

A depth-first walk keeps a stack of frames in place of a recursion.  A frame holds the edges that
leave a node and a cursor, which says how many of them were looked at.  A `Ranking` is a walk over
the whole graph that numbers the nodes as it meets them, and a `Search` is one that looks for
circuits.  Both go on step by step: each step looks at one edge, or leaves a frame that has none
left.
-/
namespace Workflow

/-- The edges that leave a node, and how many of them were looked at. -/
structure Frame where
  departures : List (Nat × NodeId)
  cursor : Nat

namespace Frame

/-- The edge to be looked at next. -/
def next? (f : Frame) : Option (Nat × NodeId) := f.departures[f.cursor]?

/-- The edge looked at last. -/
def last? (f : Frame) : Option (Nat × NodeId) :=
  match f.cursor with
  | 0 => none
  | k + 1 => f.departures[k]?

def advance (f : Frame) : Frame := { f with cursor := f.cursor + 1 }

/-- The edges that are still to be looked at. -/
def rest (f : Frame) : List (Nat × NodeId) := f.departures.drop f.cursor

variable {f : Frame} {e : Nat × NodeId}

theorem cursor_lt (h : f.next? = some e) : f.cursor < f.departures.length :=
  (List.getElem?_eq_some_iff.mp h).1

theorem rest_eq_cons (h : f.next? = some e) : f.rest = e :: f.advance.rest := by
  obtain ⟨hlt, rfl⟩ := List.getElem?_eq_some_iff.mp h
  exact List.drop_eq_getElem_cons hlt

theorem rest_eq_nil (h : f.next? = none) : f.rest = [] :=
  List.drop_eq_nil_of_le (List.getElem?_eq_none_iff.mp h)

theorem take_advance (h : f.next? = some e) :
    f.advance.departures.take f.advance.cursor = f.departures.take f.cursor ++ [e] := by
  obtain ⟨hlt, rfl⟩ := List.getElem?_eq_some_iff.mp h
  exact (List.take_append_getElem hlt).symm

end Frame

/-- The frame of a node when none of its edges was looked at. -/
def Definition.frame (d : Definition) (id : NodeId) : Frame := ⟨d.departures id, 0⟩

/-- A walk that ranks nodes, between two steps. -/
structure Ranking where
  ranks : Table Nat
  /-- How many nodes were met, which is the rank of the next one. -/
  met : Nat
  /-- The nodes from which the walk may still have to set out. -/
  roots : List NodeId
  /-- The open frames with the nodes that they belong to, the innermost first. -/
  stack : List (NodeId × Frame)

namespace Ranking

/-- Ranks a node and opens its frame. -/
def meet (d : Definition) (r : Ranking) (id : NodeId) : Ranking :=
  { r with ranks := r.ranks.insert id r.met, met := r.met + 1
           stack := (id, d.frame id) :: r.stack }

def step (d : Definition) (r : Ranking) : Ranking :=
  match r.stack with
  | [] =>
    match r.roots with
    | [] => r
    | root :: roots =>
      let r := { r with roots := roots }
      if r.ranks.contains root then r else r.meet d root
  | (id, frame) :: rest =>
    match frame.next? with
    | none => { r with stack := rest }
    | some (_, next) =>
      let r := { r with stack := (id, frame.advance) :: rest }
      if r.ranks.contains next then r else r.meet d next

/-- The nodes whose frames are open, the innermost first. -/
def trail (r : Ranking) : List NodeId := r.stack.map Prod.fst

/-- The edge that the next step looks at: the node that it leaves, where it stands, and the node
that it leads to. -/
def looksAt? (r : Ranking) : Option (NodeId × Nat × NodeId) :=
  match r.stack with
  | [] => none
  | (id, frame) :: _ => frame.next?.map (fun (position, next) => (id, position, next))

/-- No frame is open and there is no node left to set out from. -/
def isOver (r : Ranking) : Bool := r.stack.isEmpty && r.roots.isEmpty

end Ranking

/-- The ranking after this many steps. -/
def Definition.ranking (d : Definition) : Nat → Ranking
  | 0 => ⟨.empty, 0, d.byPrecedence, []⟩
  | n + 1 => (d.ranking n).step d

/-- A search for circuits, between two steps.  All three stacks have the innermost entry first. -/
structure Search where
  path : List NodeId
  /-- Where the edges along the path stand among those of the definition. -/
  taken : List Nat
  frames : List Frame
  found : List Circuit

namespace Search

/-- Looks at the next edge, through nodes of `scope` only, or goes back where there is none left. -/
def step (d : Definition) (scope : List NodeId) (start : NodeId) (s : Search) : Search :=
  match s.frames with
  | [] => s
  | frame :: rest =>
    match frame.next? with
    | none => { s with path := s.path.tail, taken := s.taken.tail, frames := rest }
    | some (position, next) =>
      let s := { s with frames := frame.advance :: rest }
      if next = start then
        { s with found := s.found ++ [⟨s.path.reverse, (position :: s.taken).reverse⟩] }
      else if next ∈ scope ∧ next ∉ s.path then
        { s with path := next :: s.path, taken := position :: s.taken
                 frames := d.frame next :: s.frames }
      else s

/-- The edges along the path and the one that the next step looks at. -/
def explores? (s : Search) : Option (List Nat) :=
  match s.frames with
  | [] => none
  | frame :: _ => frame.next?.map (fun (position, _) => (position :: s.taken).reverse)

end Search

namespace Definition

/-- The members of a component that the walk meets after a node. -/
def membersAfter (d : Definition) (component : List NodeId) (start : NodeId) : List NodeId :=
  component.filter (fun id => d.rank start < d.rank id)

/-- The search for circuits of a component from one of its members, after this many steps. -/
def search (d : Definition) (component : List NodeId) (start : NodeId) : Nat → Search
  | 0 => ⟨[start], [], [d.frame start], []⟩
  | n + 1 => (d.search component start n).step d (d.membersAfter component start) start

end Definition
end Workflow
