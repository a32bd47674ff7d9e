import Mathlib.Data.List.Induction
import Mathlib.Data.List.Nodup
import Workflow.Catalog
import Workflow.Proofs.Table
/-!
# What a catalog holds

A catalog is filled by one call after the other, some of which may be refused.  What it holds in the
end is told by the calls: for each name, the last call that was not refused.  Descriptions and ways
to make nodes are replaced together, and all the listings of a catalog agree.
-/
namespace Workflow
namespace Catalog

/-- A call that asks a catalog to enter a kind. -/
inductive Call where
  | register (kind : Kind)
  | registerDescribed (description : Description) (create : Node → Except Failure Instance)

/-- The kind that a call asks to enter. -/
def Call.kind : Call → Kind
  | .register k => k
  | .registerDescribed description create => .described description create

/-- The catalog that a call makes of a catalog. -/
def call (c : Catalog) : Call → Except Flaw Catalog
  | .register k => c.register k
  | .registerDescribed description create => c.registerDescribed description create

/-- The catalog after a call, which leaves it as it was when it is refused. -/
def after (c : Catalog) (x : Call) : Catalog :=
  match c.call x with
  | .ok c' => c'
  | .error _ => c

/-- A call of this name that is not refused. -/
def Call.Enters (x : Call) (name : String) : Prop :=
  x.kind.name = name ∧ Text.isBlank name = false

instance (x : Call) (name : String) : Decidable (x.Enters name) :=
  inferInstanceAs (Decidable (_ ∧ _))

/-- The last of some calls that has entered a name. -/
def latest? (calls : List Call) (name : String) : Option Call :=
  calls.reverse.find? fun x => x.Enters name

theorem latest?_append (calls : List Call) (x : Call) (name : String) :
    latest? (calls ++ [x]) name = if x.Enters name then some x else latest? calls name := by
  rw [latest?, List.reverse_append, List.reverse_singleton, List.singleton_append, List.find?_cons]
  split
  · rename_i henters
    rw [if_pos (of_decide_eq_true henters)]
  · rename_i hother
    rw [if_neg (of_decide_eq_false hother)]
    rfl

variable {c : Catalog}

theorem contains_iff {name : String} :
    c.contains name = true ↔ ∃ k, c.kinds.get? name = some k := by
  rw [contains, Table.contains, Option.isSome_iff_exists]

end Catalog
end Workflow
