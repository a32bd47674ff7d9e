import Workflow.Proofs.Run.Step
/-!
# The loop of a run

Driving a run goes in turns.  In each turn the run heeds a cancellation, starts what can start, and
handles the next end of an execution; the last turn is the one after which it does not go on.  How a
run ends can be told from each state in which its loop comes to its head.
-/
namespace Workflow

open Relation

variable {σ : Type}

namespace Run

variable {j : Job} {world : World σ}

/-- The next execution in flight ends. -/
def handle (j : Job) (world : World σ) (s : Run × σ) (hne : s.1.inFlight ≠ []) : Run × σ :=
  let e := world.next s.2 s.1.inFlight hne
  (s.1.complete j (world.cancelled e.2.2) e.1 e.2.1, e.2.2)

/-- A turn brings the run closer to its end. -/
theorem weight_handle_lt {r : Run} {w : σ} {t : Run × σ}
    (hstarted : dispatch j world (heed world r w) w = t) (hne : t.1.inFlight ≠ []) :
    (handle j world t hne).1.weight j < r.weight j := by
  subst hstarted
  apply Nat.lt_of_lt_of_le (weight_complete_lt j _ _ _ _)
  rw [← weight_heed j world r w]
  exact weight_dispatch_le j world _ w

theorem dispatch_eq (j : Job) (world : World σ) (r : Run) (w : σ) :
    dispatch j world r w = match r.choose j with
      | .idle => (r, w)
      | .capped id => ({ r with stop := some (.capReached id (r.count id)) }, w)
      | .missing id =>
          ({ (r.enter id).noteAll (repeats id (r.count id + 1)) with
              error := some (.missingInstance id) },
            (repeats id (r.count id + 1)).foldl world.observe w)
      | .start id made =>
          dispatch j world (r.launch j id made)
            ((startMoments (r.contextOf j id)).foldl world.observe w) := by
  rw [dispatch]
  split
  all_goals
    rename_i hchoose
    simp only [hchoose]

theorem drive_of_started {r : Run} {w : σ} {t : Run × σ}
    (hstarted : dispatch j world (heed world r w) w = t) :
    drive j world r w =
      if t.1.error.isSome then t
      else if hne : t.1.inFlight = [] then t
      else if (handle j world t hne).1.error.isSome then handle j world t hne
      else drive j world (handle j world t hne).1 (handle j world t hne).2 := by
  subst hstarted
  rw [drive]
  rfl

/-- The run ends in a turn in which it fails to start a node, or that leaves nothing in flight. -/
theorem drive_of_ended {r : Run} {w : σ} {t : Run × σ}
    (hstarted : dispatch j world (heed world r w) w = t)
    (hended : t.1.error ≠ none ∨ t.1.inFlight = []) : drive j world r w = t := by
  rw [drive_of_started hstarted]
  rcases hended with herror | hempty
  · exact if_pos (Option.isSome_iff_ne_none.mpr herror)
  · rw [dif_pos hempty, ite_self]

/-- The run ends with an execution the end of which is an error. -/
theorem drive_of_broken {r : Run} {w : σ} {t : Run × σ}
    (hstarted : dispatch j world (heed world r w) w = t) (herror : t.1.error = none)
    (hne : t.1.inFlight ≠ []) (hbroken : (handle j world t hne).1.error ≠ none) :
    drive j world r w = handle j world t hne := by
  rw [drive_of_started hstarted, if_neg (by simp [herror]), dif_neg hne]
  exact if_pos (Option.isSome_iff_ne_none.mpr hbroken)

/-- What has started in a turn is where the rest of the run goes on from. -/
theorem drive_steps_of_started {r : Run} {w : σ} {t : Run × σ}
    (hstarted : dispatch j world (heed world r w) w = t) :
    ReflTransGen (Step j world) t (drive j world r w) := by
  have hidle : t.1.choose j = .idle := hstarted ▸ choose_dispatch j world _ w
  rw [drive_of_started hstarted]
  split
  · exact ReflTransGen.refl
  · rename_i herror
    split
    · exact ReflTransGen.refl
    · rename_i hne
      have hends : Step j world t (handle j world t hne) :=
        .finish (by simpa using herror) hidle hne rfl
      split
      · exact ReflTransGen.single hends
      · exact ReflTransGen.head hends (drive_steps j world _ _)

/-- One turn of the loop, after which it goes on: what can start has started, and the end of an
execution has been handled. -/
inductive Turn (j : Job) (world : World σ) (s : Run × σ) : Run × σ → Prop where
  | handled {t : Run × σ} (hstarted : dispatch j world (heed world s.1 s.2) s.2 = t)
      (herror : t.1.error = none) (hne : t.1.inFlight ≠ [])
      (hafter : (handle j world t hne).1.error = none) : Turn j world s (handle j world t hne)

theorem Turn.steps {s s' : Run × σ} (h : Turn j world s s') :
    ReflTransGen (Step j world) s s' := by
  obtain ⟨rfl, herror, hne, hafter⟩ := h
  refine ((heed_steps j world s.1 s.2).trans (dispatch_steps j world _ s.2)).tail ?_
  exact .finish herror (choose_dispatch j world _ s.2) hne rfl

theorem Turn.error_eq_none {s s' : Run × σ} (h : Turn j world s s') : s'.1.error = none := by
  obtain ⟨hstarted, herror, hne, hafter⟩ := h
  exact hafter

theorem Turn.drive_eq {s s' : Run × σ} (h : Turn j world s s') :
    drive j world s.1 s.2 = drive j world s'.1 s'.2 := by
  obtain ⟨hstarted, herror, hne, hafter⟩ := h
  rw [drive_of_started hstarted, if_neg (by simp [herror]), dif_neg hne, if_neg (by simp [hafter])]

end Run

namespace Job

/-- The loop of a run comes to its head in this state. -/
def Heads (j : Job) (world : World σ) (w : σ) : Run × σ → Prop :=
  ReflTransGen (Run.Turn j world) (j.begin world w)

variable {j : Job} {world : World σ} {w : σ} {s : Run × σ}

theorem Heads.passes (h : j.Heads world w s) : j.Passes world w s := by
  induction h with
  | refl => exact ReflTransGen.refl
  | tail _ hturn ih => exact ih.trans hturn.steps

theorem Heads.error_eq_none (h : j.Heads world w s) : s.1.error = none := by
  cases h with
  | refl => rfl
  | tail _ hturn => exact hturn.error_eq_none

/-- How the run ends is decided by how it goes on from the head. -/
theorem Heads.final_eq (h : j.Heads world w s) :
    j.final world w = Run.drive j world s.1 s.2 := by
  induction h with
  | refl => rfl
  | tail _ hturn ih => rw [ih, hturn.drive_eq]

end Job
end Workflow
