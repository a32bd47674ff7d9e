import Workflow.Run.Clock
/-!
# Worlds that leave a run alone

When nobody cancels a run and no time limit cuts an execution short, how an execution ends is up to
the node and what it was given.  The simulated clock is such a world, unless it is told otherwise.
-/
namespace Workflow

variable {σ : Type}

/-- The context in which an execution of a job started. -/
def Job.contextFor (j : Job) (e : Execution) : Context :=
  ⟨e.node, e.iteration, e.inputs, j.initial⟩

/-- The execution is of a node that was made ready. -/
def Job.Launched (j : Job) (e : Execution) : Prop :=
  ∃ made, j.instance? e.node = some made ∧ e.activity = made.execute (j.contextFor e)

/-- The world never cancels the run, and how an execution ends is up to its context alone.  This
holds in the safe states of the world, which it does not leave; when executions end, and which of
them first, is left open. -/
structure World.Obeys (world : World σ) (j : Job) (behave : Context → Outcome)
    (safe : σ → Prop) : Prop where
  observe : ∀ w m, safe w → safe (world.observe w m)
  uncancelled : ∀ w, safe w → world.cancelled w = false
  next : ∀ w l hne i outcome w', world.next w l hne = (i, outcome, w') → safe w → safe w'
  outcome : ∀ w l hne i outcome w', world.next w l hne = (i, outcome, w') → safe w →
    (∀ e ∈ l, j.Launched e) → outcome = behave (j.contextFor (l.get i))

theorem World.Obeys.observeAll {world : World σ} {j : Job} {behave : Context → Outcome}
    {safe : σ → Prop} (h : world.Obeys j behave safe) (moments : List Moment) {w : σ}
    (hw : safe w) : safe (moments.foldl world.observe w) := by
  induction moments generalizing w with
  | nil => exact hw
  | cons m moments ih => exact ih (h.observe w m hw)

/-! ### The simulated clock -/

/-- Unless the run is cancelled, how an activity ends does not depend on when it begins. -/
theorem Activity.outcome_finish (network : Http.Request → Http.Reply) (a : Activity)
    (time time' : Nat) : (a.finish network none time).2 = (a.finish network none time').2 := by
  induction a generalizing time time' with
  | done outcome => rfl
  | sleep millis next ih => exact ih _ _
  | wait millis next interrupted ih _ => exact ih _ _
  | send request next interrupted ih _ => exact ih (network request) _ _

/-- What the nodes of a job do when their activities are left to run. -/
def Job.behaviour (j : Job) (network : Http.Request → Http.Reply) (c : Context) : Outcome :=
  match j.instance? c.node with
  | none => .error .cancelled
  | some made => ((made.execute c).finish network none 0).2

namespace Clock

/-- Nothing has cancelled the run, and nothing is going to. -/
def Undisturbed (c : Clock) : Prop :=
  c.cancelTime = none ∧ c.cancelEvent = none

theorem foldl_earlier {n : Nat} (finish : Fin n → Finish n) (l : List (Fin n)) (i : Fin n) :
    ∃ k, l.foldl (fun a i => a.earlier (finish i)) (finish i) = finish k := by
  induction l generalizing i with
  | nil => exact ⟨i, rfl⟩
  | cons next l ih =>
      rw [List.foldl_cons, Finish.earlier]
      split
      · exact ih next
      · exact ih i

/-- On a clock without a time limit, how an execution ends is up to its context alone. -/
theorem world_obeys (j : Job) (network : Http.Request → Http.Reply) :
    (world network none).Obeys j (j.behaviour network) Undisturbed where
  observe c m hc := by
    obtain ⟨htime, hevent⟩ := hc
    cases m with
    | event e => simp [world, observe, Undisturbed, htime, hevent]
    | dispatched id iteration inputs => exact ⟨htime, hevent⟩
    | ended id outcome => exact ⟨htime, hevent⟩
    | judged judgement => exact ⟨htime, hevent⟩
  uncancelled c hc := by
    change c.cancelTime.any _ = false
    rw [hc.1]
    rfl
  next c l hne i outcome c' hnext hc := by
    obtain ⟨_, hc'⟩ := Prod.mk.inj (Prod.mk.inj hnext).2
    rw [← hc']
    exact hc
  outcome c l hne i outcome c' hnext hc hlaunched := by
    obtain ⟨hindex, hrest⟩ := Prod.mk.inj hnext
    obtain ⟨houtcome, _⟩ := Prod.mk.inj hrest
    obtain ⟨k, hk⟩ := foldl_earlier (fun i => _) (List.finRange l.length)
      ⟨0, List.length_pos_iff.2 hne⟩
    rw [hk] at hindex houtcome
    change k = i at hindex
    subst hindex
    change ((l.get k).activity.finish network c.cancelTime _).2 = outcome at houtcome
    obtain ⟨made, hmade, hactivity⟩ := hlaunched (l.get k) (List.get_mem l k)
    have hbehaviour : j.behaviour network (j.contextFor (l.get k)) =
        ((made.execute (j.contextFor (l.get k))).finish network none 0).2 := by
      rw [Job.behaviour, show (j.contextFor (l.get k)).node = (l.get k).node from rfl, hmade]
    rw [← houtcome, hbehaviour, hc.1, hactivity]
    exact Activity.outcome_finish network _ _ _

end Clock
end Workflow
