/-!
# Depth-first walks

A walk visits nodes depth first and lists each once, in the order in which it meets them.  Only
nodes of a given finite list are visited, so every walk ends.
-/
namespace Workflow

variable {V : Type u} [DecidableEq V]

def unvisited (nodes visited : List V) : List V := nodes.filter (fun v => v ∉ visited)

theorem length_unvisited_lt {nodes visited : List V} {v : V} (hv : v ∈ nodes)
    (hnew : v ∉ visited) :
    (unvisited nodes (visited ++ [v])).length < (unvisited nodes visited).length := by
  have hsplit : unvisited nodes (visited ++ [v]) =
      (unvisited nodes visited).filter (fun u => u ≠ v) := by
    simp only [unvisited, List.filter_filter]
    congr 1
    funext u
    by_cases h : u = v <;> simp [h]
  rw [hsplit]
  exact List.length_filter_lt_length_iff_exists.2
    ⟨v, by simp [unvisited, hv, hnew], by simp⟩

/-- Visits the nodes of a stack, the top first.  A node met for the first time is listed and its
successors are put on top of the stack. -/
def walk (successors : V → List V) (nodes : List V) : (stack visited : List V) → List V
  | [], visited => visited
  | v :: stack, visited =>
    if _h : v ∈ nodes ∧ v ∉ visited then
      walk successors nodes (successors v ++ stack) (visited ++ [v])
    else walk successors nodes stack visited
termination_by stack visited => ((unvisited nodes visited).length, stack.length)
decreasing_by
  · exact Prod.Lex.left _ _ (length_unvisited_lt _h.1 _h.2)
  · exact Prod.Lex.right _ (Nat.lt_succ_self _)

end Workflow
