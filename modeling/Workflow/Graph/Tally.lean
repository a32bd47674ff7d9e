import Workflow.Graph.Order
import Workflow.Table
/-!
# Ordering by counting

An order is found quickly by counting: for every node one keeps the number of edges that lead to it
and have not been followed yet.  A node is ready when none is left.  Time and again the ready node
that takes precedence is taken, and each edge that leaves it is followed, which lowers the count of
the node that it leads to.  A count of zero cannot be lowered, so counting may break down; nodes
whose count stays above zero cannot be arranged.
-/
namespace Workflow

/-- The edges still to be followed, counted by the node that they lead to, and the nodes that are
ready to be taken. -/
structure Tally where
  counts : Table Nat
  ready : List NodeId

namespace Tally

/-- What is left to count and to take. -/
def weight (t : Tally) : Nat := t.counts.values.foldr (· + ·) 0 + t.ready.length

/-- Lowers the count of a node to what is left.  The node is ready when nothing is. -/
def lower (t : Tally) (target : NodeId) (left : Nat) : Tally :=
  ⟨t.counts.insert target left, if left = 0 then t.ready.insert target else t.ready⟩

/-- Follows an edge to a node, which breaks down if none is left to be followed there. -/
def follow (t : Tally) (target : NodeId) : Option Tally :=
  match t.counts.get? target with
  | some (left + 1) => some (t.lower target left)
  | _ => none

/-- Lowering an entry by one lowers the sum by one. -/
theorem foldr_insertEntry {key : String} {left : Nat} {l : List (String × Nat)}
    (hordered : l.Pairwise (fun a b => a.1 < b.1)) (hlookup : l.lookup key = some (left + 1)) :
    ((Table.insertEntry key left l).map Prod.snd).foldr (· + ·) 0 + 1 =
      (l.map Prod.snd).foldr (· + ·) 0 := by
  induction l with
  | nil => simp at hlookup
  | cons head rest ih =>
      obtain ⟨k, v⟩ := head
      obtain ⟨hk, hrest⟩ := List.pairwise_cons.mp hordered
      rw [Table.lookup_cons_eq] at hlookup
      by_cases hkey : key = k
      · subst hkey
        rw [if_pos rfl, Option.some.injEq] at hlookup
        subst hlookup
        simp only [Table.insertEntry, String.lt_irrefl, if_false, if_true, List.map_cons,
          List.foldr_cons]
        omega
      · rw [if_neg hkey] at hlookup
        obtain ⟨before, after, hsplit, _⟩ := List.lookup_eq_some_iff.mp hlookup
        have hmem : (key, left + 1) ∈ rest := by simp [hsplit]
        have hnlt : ¬ key < k := fun h => String.lt_irrefl _ (String.lt_trans h (hk _ hmem))
        have hsum := ih hrest hlookup
        simp only [Table.insertEntry, if_neg hkey, if_neg hnlt, List.map_cons, List.foldr_cons]
        omega

/-- Following an edge takes as much from the counts as it can add to what is ready. -/
theorem weight_follow_le {t t' : Tally} {target : NodeId} (h : t.follow target = some t') :
    t'.weight ≤ t.weight := by
  unfold follow at h
  split at h
  · rename_i left hleft
    obtain rfl := Option.some.inj h
    have hsum : (t.counts.insert target left).values.foldr (· + ·) 0 + 1 =
        t.counts.values.foldr (· + ·) 0 := foldr_insertEntry t.counts.ordered hleft
    have hready : (if left = 0 then t.ready.insert target else t.ready).length ≤
        t.ready.length + 1 := by
      split
      · rw [List.length_insert]
        split <;> omega
      · omega
    simp only [weight, lower]
    omega
  · cases h

theorem weight_foldlM_follow_le {t t' : Tally} {targets : List NodeId}
    (h : targets.foldlM follow t = some t') : t'.weight ≤ t.weight := by
  induction targets generalizing t with
  | nil =>
      obtain rfl := Option.some.inj h
      exact Nat.le_refl _
  | cons target targets ih =>
      rw [List.foldlM_cons, Option.bind_eq_bind, Option.bind_eq_some_iff] at h
      obtain ⟨followed, hfollow, hrest⟩ := h
      exact Nat.le_trans (ih hrest) (weight_follow_le hfollow)

/-- Takes ready nodes as long as there are any, the first of `precedence` each time, and follows the
edges of each.  Gives the nodes in the order taken, and the counts that are left. -/
def takeAll (precedence : List NodeId) (targets : NodeId → List NodeId) (t : Tally) :
    Option (List NodeId × Table Nat) :=
  match _hfirst : precedence.find? (fun v => t.ready.contains v) with
  | none => some ([], t.counts)
  | some v =>
    match _hfollow : (targets v).foldlM follow { t with ready := t.ready.erase v } with
    | none => none
    | some t' =>
      (takeAll precedence targets t').map (fun (taken, left) => (v :: taken, left))
termination_by t.weight
decreasing_by
  have hle := weight_foldlM_follow_le _hfollow
  have hv : v ∈ t.ready := by simpa using List.find?_some _hfirst
  have hlength := List.length_erase_of_mem hv
  have hpos := List.length_pos_of_mem hv
  simp only [weight] at hle ⊢
  omega

end Tally

/-- The nodes that the edges leaving a node lead to, edge by edge. -/
def targetsOf (edges : List Edge) (id : NodeId) : List NodeId :=
  (edges.filter (fun e => e.source == id)).map Edge.target

namespace Definition

/-- The counts of the given edges before any is followed. -/
def tally (d : Definition) (edges : List Edge) : Tally :=
  let counts := Table.ofList (d.ids.map fun id => (id, edges.countP (fun e => e.target == id)))
  ⟨counts, d.ids.filter (fun id => counts.get? id == some 0)⟩

/-- The order along the given edges, or the nodes that cannot be arranged, found by counting.  There
is none if the counting breaks down. -/
def countedOrder (d : Definition) (edges : List Edge) :
    Option (Except (List NodeId) (List NodeId)) :=
  (Tally.takeAll d.byPrecedence (targetsOf edges) (d.tally edges)).map fun (taken, left) =>
    if taken.length < d.ids.length then
      .error (d.ids.filter (fun id => 0 < (left.get? id).getD 0))
    else .ok taken

end Definition
end Workflow
