import Workflow.Definition.Node
/-!
# Workflow definitions

A definition is a complete graph: its nodes have different names, so have its edges, every edge
leads between declared nodes, the entry point is declared, and a node may run at least once.
`Definition.make?` checks all of this in a fixed order and reports the first flaw.
-/
namespace Workflow

/-- How often a node may run when nothing else is said. -/
def defaultCap : Nat := 10

/-- A workflow graph in which everything refers to something declared. -/
structure Definition where
  name : String
  nodes : List Node
  edges : List Edge
  entry : NodeId
  cap : Nat
  nodes_nodup : (nodes.map Node.id).Nodup
  edges_nodup : (edges.map Edge.id).Nodup
  ends_declared : ∀ e ∈ edges, e.source ∈ nodes.map Node.id ∧ e.target ∈ nodes.map Node.id
  entry_declared : entry ∈ nodes.map Node.id
  cap_pos : 0 < cap

namespace Definition

/-- The first name that repeats an earlier one. -/
def firstRepeated (seen : List String) : List String → Option String
  | [] => none
  | s :: rest => if s ∈ seen then some s else firstRepeated (seen ++ [s]) rest

theorem nodup_of_firstRepeated {seen l : List String} (hseen : seen.Nodup)
    (h : firstRepeated seen l = none) : (seen ++ l).Nodup := by
  induction l generalizing seen with
  | nil => simpa using hseen
  | cons s rest ih =>
      simp only [firstRepeated] at h
      split at h
      · cases h
      · rename_i hs
        have hseen' : (seen ++ [s]).Nodup :=
          List.nodup_append.mpr ⟨hseen, by simp, fun a ha b hb hab => by
            rw [List.mem_singleton] at hb
            exact hs (hb ▸ hab ▸ ha)⟩
        simpa using ih hseen' h

/-- The first flaw among the edges, edge by edge: a name that is taken, then an end that is not
declared, the source before the target. -/
def edgeFlaw? (ids : List NodeId) (seen : List String) : List Edge → Option Flaw
  | [] => none
  | e :: rest =>
    if e.id ∈ seen then some (.duplicateEdge e.id)
    else if e.source ∉ ids then some (.unknownEndpoint e.id e.source)
    else if e.target ∉ ids then some (.unknownEndpoint e.id e.target)
    else edgeFlaw? ids (seen ++ [e.id]) rest

theorem sound_of_edgeFlaw? {ids : List NodeId} {seen : List String} {l : List Edge}
    (hseen : seen.Nodup) (h : edgeFlaw? ids seen l = none) :
    (seen ++ l.map Edge.id).Nodup ∧ ∀ e ∈ l, e.source ∈ ids ∧ e.target ∈ ids := by
  induction l generalizing seen with
  | nil => exact ⟨by simpa using hseen, by simp⟩
  | cons e rest ih =>
      simp only [edgeFlaw?] at h
      split at h
      · cases h
      split at h
      · cases h
      split at h
      · cases h
      rename_i hid hs ht
      have hseen' : (seen ++ [e.id]).Nodup :=
        List.nodup_append.mpr ⟨hseen, by simp, fun a ha b hb hab => by
          rw [List.mem_singleton] at hb
          exact hid (hb ▸ hab ▸ ha)⟩
      obtain ⟨hnodup, hends⟩ := ih hseen' h
      refine ⟨by simpa using hnodup, fun e' he' => ?_⟩
      rcases List.mem_cons.mp he' with rfl | he'
      · exact ⟨Decidable.not_not.mp hs, Decidable.not_not.mp ht⟩
      · exact hends e' he'

/-- The nodes that no edge leads to. -/
def roots (ids : List NodeId) (edges : List Edge) : List NodeId :=
  ids.filter (fun n => !(edges.any (fun e => e.target == n)))

/-- Where a run begins: at the given node, else at the only node that no edge leads to, else, if
there is none such, at the first node. -/
def entryOf (first : NodeId) (rest : List NodeId) (edges : List Edge) (given : Option NodeId) :
    Except Flaw { e : NodeId // e ∈ first :: rest } :=
  match given with
  | some e => if h : e ∈ first :: rest then .ok ⟨e, h⟩ else .error (.unknownEntry e)
  | none =>
    match h : roots (first :: rest) edges with
    | [e] => .ok ⟨e, (List.mem_filter.mp (h ▸ List.mem_singleton.mpr rfl)).1⟩
    | [] => .ok ⟨first, List.mem_cons_self⟩
    | candidates => .error (.ambiguousEntry candidates)

/-- Puts a definition together.  The checks come in this order: there is a node, the names of the
nodes differ, the edges are sound, there is an entry point, and the cap is not zero. -/
def make? (name : String) (nodes : List Node) (edges : List Edge) (entry : Option NodeId)
    (cap : Option Nat) : Except Flaw Definition :=
  match nodes with
  | [] => .error .noNodes
  | n :: rest =>
    match hn : firstRepeated [] ((n :: rest).map Node.id) with
    | some id => .error (.duplicateNode id)
    | none =>
      match he : edgeFlaw? ((n :: rest).map Node.id) [] edges with
      | some flaw => .error flaw
      | none =>
        match entryOf n.id (rest.map Node.id) edges entry with
        | .error flaw => .error flaw
        | .ok ⟨e, h⟩ =>
          if hc : cap.getD defaultCap = 0 then .error (.invalidCap 0)
          else
            .ok { name, nodes := n :: rest, edges, entry := e, cap := cap.getD defaultCap
                  nodes_nodup := by simpa using nodup_of_firstRepeated List.nodup_nil hn
                  edges_nodup := by simpa using (sound_of_edgeFlaw? List.nodup_nil he).1
                  ends_declared := (sound_of_edgeFlaw? List.nodup_nil he).2
                  entry_declared := h
                  cap_pos := Nat.pos_of_ne_zero hc }

/-- The names of the nodes in the order of declaration. -/
def ids (d : Definition) : List NodeId := d.nodes.map Node.id

def node? (d : Definition) (id : NodeId) : Option Node := d.nodes.find? (fun n => n.id == id)

/-- Where a node stands in the order of declaration. -/
def position? (d : Definition) (id : NodeId) : Option Nat :=
  d.nodes.findIdx? (fun n => n.id == id)

/-- The edges that leave a node, in the order of declaration. -/
def outgoing (d : Definition) (id : NodeId) : List Edge :=
  d.edges.filter (fun e => e.source == id)

/-- The edges that lead to a node, in the order of declaration. -/
def incoming (d : Definition) (id : NodeId) : List Edge :=
  d.edges.filter (fun e => e.target == id)

def withCap (d : Definition) (cap : Nat) : Except Flaw Definition :=
  make? d.name d.nodes d.edges (some d.entry) (some cap)

def withEntry (d : Definition) (entry : NodeId) : Except Flaw Definition :=
  make? d.name d.nodes d.edges (some entry) (some d.cap)

instance : BEq Definition :=
  ⟨fun a b => a.name == b.name && a.nodes == b.nodes && a.edges == b.edges &&
    a.entry == b.entry && a.cap == b.cap⟩

end Definition
end Workflow
