import Workflow.Run.State
/-!
# Driving a run

The engine starts executions for as long as it can, then takes the next execution that ends, and
so on until nothing is in flight.  Which execution ends next, how it ends and when the run is
cancelled is up to a `World`.  Every run ends, whatever the world is like: `weight` falls with
every step.

An execution that ends always answers, with an output or with a `Failure`.  A node that breaks down
without an answer, and the internal error with which the run would fail then, are left out.
-/
namespace Workflow

/-- The surroundings of a run, over a state of their own. -/
structure World (σ : Type) where
  cancelled : σ → Bool
  /-- Takes note of what happens in the run. -/
  observe : σ → Moment → σ
  /-- Waits until one of the executions in flight ends: which one, and how. -/
  next : (w : σ) → (l : List Execution) → l ≠ [] → Fin l.length × Outcome × σ

namespace Run

/-- A sum over a list does not rise when no term does. -/
theorem foldr_add_le {α : Type} {f g : α → Nat} {l : List α} (hle : ∀ x ∈ l, g x ≤ f x) :
    l.foldr (fun x sum => g x + sum) 0 ≤ l.foldr (fun x sum => f x + sum) 0 := by
  induction l with
  | nil => exact Nat.le_refl _
  | cons b l ih =>
      have hb := hle b (by simp)
      have hl := ih (fun x hx => hle x (by simp [hx]))
      simp only [List.foldr_cons]
      omega

/-- A sum over a list falls when no term rises and one falls. -/
theorem foldr_add_lt {α : Type} {f g : α → Nat} {l : List α} {a : α} (ha : a ∈ l)
    (hle : ∀ x ∈ l, g x ≤ f x) (hlt : g a < f a) :
    l.foldr (fun x sum => g x + sum) 0 < l.foldr (fun x sum => f x + sum) 0 := by
  induction l with
  | nil => cases ha
  | cons b l ih =>
      have hb := hle b (by simp)
      have hl : ∀ x ∈ l, g x ≤ f x := fun x hx => hle x (by simp [hx])
      simp only [List.foldr_cons]
      rcases List.mem_cons.mp ha with rfl | ha
      · have := foldr_add_le hl
        omega
      · have := ih ha hl
        omega

theorem count_enter (r : Run) (id other : NodeId) :
    (r.enter id).count other = if other = id then r.count id + 1 else r.count other := by
  simp only [count, enter, Table.get?_insert]
  split <;> rfl

theorem budget_enter_lt {j : Job} {r : Run} {id : NodeId} (hid : id ∈ j.definition.ids)
    (hcap : r.count id < j.cap) : (r.enter id).budget j < r.budget j := by
  refine foldr_add_lt hid (fun other _ => ?_) ?_
  · rw [count_enter]
    split
    · rename_i h
      subst h
      omega
    · exact Nat.le_refl _
  · rw [count_enter, if_pos rfl]
    omega

theorem weight_launch_lt {j : Job} {r : Run} {id : NodeId} {made : Instance}
    (hid : id ∈ j.definition.ids) (hcap : r.count id < j.cap) :
    (r.launch j id made).weight j < r.weight j := by
  have hb : (r.launch j id made).budget j = (r.enter id).budget j := rfl
  have hl : (r.launch j id made).inFlight.length = r.inFlight.length + 1 := by
    simp [launch]
  have := budget_enter_lt hid hcap
  simp only [weight, hb, hl]
  omega

theorem choose_start {j : Job} {r : Run} {id : NodeId} {made : Instance}
    (h : r.choose j = .start id made) :
    r.count id < j.cap ∧ id ∈ j.definition.ids := by
  unfold choose at h
  split at h
  · cases h
  split at h
  · cases h
  split at h
  · cases h
  rename_i hcap
  split at h
  · cases h
  rename_i i hi
  cases h
  exact ⟨Nat.lt_of_not_le hcap, j.instance_declared _ _ hi⟩

variable {σ : Type}

/-- Starts executions until there is nothing more to start. -/
def dispatch (j : Job) (world : World σ) (r : Run) (w : σ) : Run × σ :=
  match h : r.choose j with
  | .idle => (r, w)
  | .capped id => ({ r with stop := some (.capReached id (r.count id)) }, w)
  | .missing id =>
    let moments := repeats id (r.count id + 1)
    ({ (r.enter id).noteAll moments with error := some (.missingInstance id) },
      moments.foldl world.observe w)
  | .start id made =>
    have : (r.launch j id made).weight j < r.weight j :=
      weight_launch_lt (choose_start h).2 (choose_start h).1
    dispatch j world (r.launch j id made) ((startMoments (r.contextOf j id)).foldl world.observe w)
termination_by r.weight j

theorem count_enter_ge (r : Run) (id other : NodeId) :
    r.count other ≤ (r.enter id).count other := by
  rw [count_enter]
  split
  · rename_i h
    subst h
    omega
  · exact Nat.le_refl _

theorem budget_enter_le (j : Job) (r : Run) (id : NodeId) :
    (r.enter id).budget j ≤ r.budget j := by
  refine foldr_add_le (fun other _ => ?_)
  have := count_enter_ge r id other
  omega

theorem weight_dispatch_le (j : Job) (world : World σ) (r : Run) (w : σ) :
    (dispatch j world r w).1.weight j ≤ r.weight j := by
  fun_induction dispatch j world r w with
  | case1 => exact Nat.le_refl _
  | case2 => exact Nat.le_refl _
  | case3 r w id h moments =>
      have := budget_enter_le j r id
      simp only [weight]
      exact Nat.add_le_add (Nat.mul_le_mul_left 2 this) (Nat.le_refl _)
  | case4 r w id made h hlt ih => exact Nat.le_trans ih (Nat.le_of_lt hlt)

theorem complete_budget (j : Job) (c : Bool) (r : Run) (i : Fin r.inFlight.length)
    (o : Outcome) : (r.complete j c i o).budget j = r.budget j := by
  unfold complete
  split
  · split
    · rfl
    · dsimp only
      split <;> rfl
  · split <;> rfl
  · rfl

theorem complete_inFlight (j : Job) (c : Bool) (r : Run) (i : Fin r.inFlight.length)
    (o : Outcome) : (r.complete j c i o).inFlight = r.inFlight.eraseIdx i := by
  unfold complete
  split
  · split
    · rfl
    · dsimp only
      split <;> rfl
  · split <;> rfl
  · rfl

theorem weight_complete_lt (j : Job) (c : Bool) (r : Run) (i : Fin r.inFlight.length)
    (o : Outcome) : (r.complete j c i o).weight j < r.weight j := by
  have hlen : (r.inFlight.eraseIdx i).length + 1 = r.inFlight.length := by
    rw [List.length_eraseIdx_of_lt i.isLt]
    have := i.isLt
    omega
  simp only [weight, complete_budget, complete_inFlight]
  omega

/-- Stops the run if it has been cancelled and has not stopped yet. -/
def heed (world : World σ) (r : Run) (w : σ) : Run :=
  if r.stop.isNone && world.cancelled w then { r with stop := some .cancelled } else r

theorem weight_heed (j : Job) (world : World σ) (r : Run) (w : σ) :
    (heed world r w).weight j = r.weight j := by
  unfold heed
  split <;> rfl

/-- Drives the run to its end: heed a cancellation, start what can start, then handle the next end
of an execution. -/
def drive (j : Job) (world : World σ) (r : Run) (w : σ) : Run × σ :=
  let s := dispatch j world (heed world r w) w
  if s.1.error.isSome then s
  else if hne : s.1.inFlight = [] then s
  else
    let e := world.next s.2 s.1.inFlight hne
    let after := s.1.complete j (world.cancelled e.2.2) e.1 e.2.1
    have : after.weight j < r.weight j := by
      have h1 := weight_complete_lt j (world.cancelled e.2.2) s.1 e.1 e.2.1
      have h2 := weight_dispatch_le j world (heed world r w) w
      rw [weight_heed] at h2
      exact Nat.lt_of_lt_of_le h1 h2
    if after.error.isSome then (after, e.2.2)
    else drive j world after e.2.2
termination_by r.weight j

end Run
end Workflow
