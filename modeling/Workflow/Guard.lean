import Workflow.Behaviour
/-!
# Guards

The condition of an edge is a text that an evaluator judges after the source of the edge has run.
The standard evaluator compares the verdict of the source with a literal: `true`, `yes` and `1`,
or `false`, `no` and `0`, in any case, behind any number of exclamation marks, each of which
negates it.
-/
namespace Workflow

/-- What a condition is judged by: the node that has just run. -/
structure Guard.State where
  node : NodeId
  kind : String
  verdict : Option Bool
  outputs : Fields
  iteration : Nat

/-- Judges conditions. -/
abbrev Evaluator := String → Guard.State → Except Failure Bool

namespace Guard

theorem length_trim_le (cs : List Char) : (Text.trim cs).length ≤ cs.length := by
  simp only [Text.trim, Text.trimRight, Text.trimLeft, List.length_reverse]
  refine Nat.le_trans (List.dropWhile_sublist _).length_le ?_
  rw [List.length_reverse]
  exact (List.dropWhile_sublist _).length_le

/-- The truth value that a literal names, in any case of its ASCII letters. -/
def literal? (cs : List Char) : Option Bool :=
  let s := String.ofList (cs.map Char.toLower)
  if s = "true" ∨ s = "yes" ∨ s = "1" then some true
  else if s = "false" ∨ s = "no" ∨ s = "0" then some false
  else none

/-- The verdict that an expression expects. -/
def expected? (cs : List Char) : Option Bool :=
  match h : Text.trim cs with
  | '!' :: rest =>
    have : rest.length < cs.length := by
      have := length_trim_le cs
      rw [h] at this
      exact this
    (expected? rest).map (!·)
  | trimmed => literal? trimmed
termination_by cs.length

/-- Follows an edge when the source has the verdict that the expression expects.  A source without a
verdict follows no conditional edge. -/
def byVerdict : Evaluator := fun expression state =>
  match expected? expression.toList with
  | none =>
    .error (.misconfigured ("unsupported condition expression '" ++ expression ++
      "' on edge from '" ++ state.node ++ "'"))
  | some b => .ok (state.verdict == some b)

end Guard
end Workflow
