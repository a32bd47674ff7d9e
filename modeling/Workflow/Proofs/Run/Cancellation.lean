import Workflow.Proofs.Run.Events
import Workflow.Proofs.Run.History
import Workflow.Proofs.Run.Turn
/-!
# Cancelled runs

A run that finds itself cancelled starts nothing more.  What is in flight is left to end, one
execution after the other, and only a failure cuts that short.  A run that is never cancelled does
not end as a cancelled one, and then an execution that ends as if it were has failed.
-/
namespace Workflow

open Relation

variable {σ : Type}

/-- A cancellation is not taken back while a run waits. -/
def World.KeepsCancelled (world : World σ) : Prop :=
  ∀ w l hne, world.cancelled w = true → world.cancelled (world.next w l hne).2.2 = true

theorem Clock.world_keepsCancelled (network : Http.Request → Http.Reply) (limit : Option Nat) :
    (Clock.world network limit).KeepsCancelled := by
  intro c l hne hcancelled
  change c.cancelTime.any (fun t => t ≤ c.now) = true at hcancelled
  change c.cancelTime.any (fun t => t ≤ max c.now _) = true
  simp only [Option.any_eq_true, decide_eq_true_eq] at hcancelled ⊢
  obtain ⟨time, htime, hpassed⟩ := hcancelled
  exact ⟨time, htime, Nat.le_trans hpassed (Nat.le_max_left _ _)⟩

/-- How executions in flight end when nothing more starts: one by one, each when the world has it
end, until none is left or one fails.  The list tells what ended and how, in order. -/
inductive Drains (world : World σ) : List Execution → σ → List (Execution × Outcome) → Prop where
  | done {w : σ} : Drains world [] w []
  | failed {l : List Execution} {w : σ} {hne : l ≠ []} {i : Fin l.length} {f : Failure} {w' : σ}
      (hnext : world.next w l hne = (i, .error f, w')) (hf : f ≠ .cancelled) :
      Drains world l w [(l.get i, .error f)]
  | next {l : List Execution} {w : σ} {hne : l ≠ []} {i : Fin l.length} {outcome : Outcome} {w' : σ}
      {rest : List (Execution × Outcome)} (hnext : world.next w l hne = (i, outcome, w'))
      (houtcome : ∀ f, outcome = .error f → f = .cancelled)
      (hrest : Drains world (l.eraseIdx i) w' rest) : Drains world l w ((l.get i, outcome) :: rest)

namespace Run

variable {j : Job} {world : World σ}

/-! ### A run that has stopped -/

theorem heed_of_stop {r : Run} {w : σ} (h : r.stop ≠ none) : heed world r w = r := by
  unfold heed
  rw [if_neg (by simp [h])]

theorem heed_of_cancelled {r : Run} {w : σ} (hstop : r.stop = none)
    (hcancelled : world.cancelled w = true) :
    heed world r w = { r with stop := some .cancelled } := by
  unfold heed
  rw [if_pos (by simp [hstop, hcancelled])]

theorem dispatch_of_stop {r : Run} {w : σ} (h : r.stop ≠ none) :
    dispatch j world r w = (r, w) := by
  rw [dispatch_eq, choose_eq_idle_of_stop (Or.inl h)]

theorem started_of_stop {r : Run} {w : σ} (h : r.stop ≠ none) :
    dispatch j world (heed world r w) w = (r, w) := by
  rw [heed_of_stop h, dispatch_of_stop h]

theorem drive_of_cancelled {r : Run} {w : σ} (hstop : r.stop = none)
    (hcancelled : world.cancelled w = true) :
    drive j world r w = drive j world { r with stop := some .cancelled } w := by
  have hstopped : ({ r with stop := some .cancelled } : Run).stop ≠ none := Option.some_ne_none _
  rw [drive_of_started (started_of_stop hstopped), drive_of_started]
  rw [heed_of_cancelled hstop hcancelled, dispatch_of_stop hstopped]

/-! ### Ends in a run that has stopped -/

section

variable {cancelled : Bool} {r r' : Run} {i : Fin r.inFlight.length} {outcome : Outcome}

theorem Completes.trace_of_stop (h : Completes j cancelled r i outcome r') (hstop : r.stop ≠ none) :
    r'.trace = .ended (r.inFlight.get i).node outcome :: r.trace := by
  cases h with
  | kept _ => rfl
  | astray hnone hfollow => exact absurd hnone hstop
  | followed hnone hfollow => exact absurd hnone hstop
  | cancelled hcancelled => rfl
  | failed hf => rfl

theorem Completes.get?_outputs_of_ok {output : Output}
    (h : Completes j cancelled r i (.ok output) r') (hstop : r.stop ≠ none) (id : NodeId) :
    r'.outputs.get? id = if id = (r.inFlight.get i).node then some output.fields
      else r.outputs.get? id := by
  cases h with
  | kept _ => exact Table.get?_insert _ _ _ _
  | astray hnone hfollow => exact absurd hnone hstop
  | followed hnone hfollow => exact absurd hnone hstop

theorem Completes.outputs_of_error {f : Failure} (h : Completes j cancelled r i (.error f) r') :
    r'.outputs = r.outputs := by
  cases h with
  | cancelled hcancelled => rfl
  | failed hf => rfl

/-- In a run that has been cancelled only a failure is an error. -/
theorem Completes.error_of_unfailed (h : Completes j true r i outcome r') (hstop : r.stop ≠ none)
    (houtcome : ∀ f, outcome = .error f → f = .cancelled) : r'.error = r.error := by
  cases h with
  | kept _ => rfl
  | astray hnone hfollow => exact absurd hnone hstop
  | followed hnone hfollow => exact absurd hnone hstop
  | cancelled hcancelled => rfl
  | failed hf => cases hf (houtcome _ rfl)

/-- In a run that is not cancelled no end stops it as if it were. -/
theorem Completes.stop_ne_cancelled (h : Completes j false r i outcome r')
    (hstop : r.stop ≠ some .cancelled) : r'.stop ≠ some .cancelled := by
  cases h with
  | kept _ => exact hstop
  | astray hnone hfollow => exact hstop
  | followed hnone hfollow => exact hstop
  | cancelled hcancelled => cases hcancelled
  | failed hf => exact hstop

theorem Completes.error_of_failed {f : Failure} (h : Completes j cancelled r i (.error f) r')
    (hf : f ≠ .cancelled) : r'.error = some (.node (r.inFlight.get i).node f) := by
  cases h with
  | cancelled hcancelled => exact absurd rfl hf
  | failed _ => rfl

end

end Run

theorem Drains.mem {world : World σ} {l : List Execution} {w : σ}
    {ended : List (Execution × Outcome)} (h : Drains world l w ended) :
    ∀ e ∈ ended, e.1 ∈ l := by
  induction h with
  | done => exact nofun
  | failed hnext hf =>
      intro e he
      rw [List.mem_singleton.mp he]
      exact List.get_mem _ _
  | next hnext houtcome hrest ih =>
      intro e he
      rcases List.mem_cons.mp he with rfl | he
      · exact List.get_mem _ _
      · exact List.mem_of_mem_eraseIdx (ih e he)

namespace Run

variable {j : Job} {world : World σ} {r r' : Run} {ended : List (Execution × Outcome)}

/-- What has become of a cancelled run when these executions have ended. -/
structure Drained (r : Run) (ended : List (Execution × Outcome)) (r' : Run) : Prop where
  stop : r'.stop = some .cancelled
  trace : r'.trace = (ended.map fun e => .ended e.1.node e.2).reverse ++ r.trace
  kept : ∀ e output, (e, .ok output) ∈ ended → r'.outputs.get? e.node = some output.fields
  others : ∀ id, (∀ e output, (e, .ok output) ∈ ended → e.node ≠ id) →
    r'.outputs.get? id = r.outputs.get? id
  failed : ∀ e f, (e, .error f) ∈ ended → f ≠ .cancelled → r'.error = some (.node e.node f)
  unfailed : (∀ e f, (e, .error f) ∈ ended → f = .cancelled) →
    r'.error = none ∧ (ended.map Prod.fst).Perm r.inFlight

theorem drained_nil (hstop : r.stop = some .cancelled) (herror : r.error = none)
    (hflight : r.inFlight = []) : r.Drained [] r where
  stop := hstop
  trace := rfl
  kept := nofun
  others _ _ := rfl
  failed := nofun
  unfailed _ := ⟨herror, hflight ▸ List.Perm.refl _⟩

section

variable {r₁ : Run} {i : Fin r.inFlight.length} {outcome : Outcome}

/-- A failure ends the run. -/
theorem drained_failure {cancelled : Bool} (hstop : r.stop = some .cancelled) {f : Failure}
    (hf : f ≠ .cancelled) (h : Completes j cancelled r i (.error f) r') :
    r.Drained [(r.inFlight.get i, .error f)] r' where
  stop := h.stop_eq_cancelled hstop
  trace := h.trace_of_stop (hstop ▸ Option.some_ne_none _)
  kept e output he := by
    cases (Prod.mk.inj (List.mem_singleton.mp he)).2
  others id _ := by
    rw [h.outputs_of_error]
  failed e f' he _ := by
    obtain ⟨rfl, hsame⟩ := Prod.mk.inj (List.mem_singleton.mp he)
    obtain rfl := Except.error.inj hsame
    exact h.error_of_failed hf
  unfailed hall := absurd (hall _ f List.mem_cons_self) hf

/-- Whatever else ends, the executions that are left end as they would have. -/
theorem Drained.cons (hnodup : r.running.Nodup) (hstop : r.stop ≠ none)
    (hcompletes : Completes j true r i outcome r₁)
    (houtcome : ∀ f, outcome = .error f → f = .cancelled)
    (hmem : ∀ e ∈ ended, e.1 ∈ r₁.inFlight) (h : r₁.Drained ended r') :
    r.Drained ((r.inFlight.get i, outcome) :: ended) r' where
  stop := h.stop
  trace := by
    rw [h.trace, hcompletes.trace_of_stop hstop, List.map_cons, List.reverse_cons,
      List.append_assoc]
    rfl
  kept e output he := by
    rcases List.mem_cons.mp he with hnow | hlater
    · obtain ⟨rfl, rfl⟩ := Prod.mk.inj hnow
      -- no execution of the same node is left to overwrite what was kept
      have hgone : (r.inFlight.get i).node ∉ r₁.running := by
        rw [hcompletes.running_eq hnodup]
        exact hnodup.not_mem_erase
      rw [h.others, hcompletes.get?_outputs_of_ok hstop, if_pos rfl]
      rintro e' output' he' hsame
      exact hgone (hsame ▸ List.mem_map_of_mem (hmem _ he'))
    · exact h.kept e output hlater
  others id hid := by
    rw [h.others id fun e output he => hid e output (List.mem_cons_of_mem _ he)]
    cases outcome with
    | ok output =>
        rw [hcompletes.get?_outputs_of_ok hstop,
          if_neg fun hsame => hid _ output List.mem_cons_self hsame.symm]
    | error f => rw [hcompletes.outputs_of_error]
  failed e f he hf := by
    rcases List.mem_cons.mp he with hnow | hlater
    · exact absurd (houtcome f (Prod.mk.inj hnow).2.symm) hf
    · exact h.failed e f hlater hf
  unfailed hall := by
    obtain ⟨herror, hperm⟩ := h.unfailed fun e f he => hall e f (List.mem_cons_of_mem _ he)
    rw [hcompletes.inFlight_eq] at hperm
    refine ⟨herror, (hperm.cons _).trans ?_⟩
    exact List.getElem_cons_eraseIdx_perm i.isLt

end

section

variable {w w' : σ} {hne : r.inFlight ≠ []} {i : Fin r.inFlight.length} {outcome : Outcome}

theorem handle_of_next (hnext : world.next w r.inFlight hne = (i, outcome, w'))
    (hcancelled : world.cancelled w' = true) :
    handle j world (r, w) hne = (r.complete j true i outcome, w') := by
  dsimp only [handle]
  rw [hnext, hcancelled]

/-- A cancelled run goes on after an execution that has not failed. -/
theorem drive_of_unfailed (hstop : r.stop ≠ none) (herror : r.error = none)
    (hnext : world.next w r.inFlight hne = (i, outcome, w'))
    (hcancelled : world.cancelled w' = true)
    (houtcome : ∀ f, outcome = .error f → f = .cancelled) :
    drive j world r w = drive j world (r.complete j true i outcome) w' := by
  have hhandle := handle_of_next (j := j) hnext hcancelled
  have hafter : (handle j world (r, w) hne).1.error = none := by
    rw [hhandle, (completes_complete j true r i outcome).error_of_unfailed hstop houtcome, herror]
  have hturn : Turn j world (r, w) (handle j world (r, w) hne) :=
    .handled (started_of_stop hstop) herror hne hafter
  rw [hhandle] at hturn
  exact hturn.drive_eq

/-- A cancelled run ends with an execution that fails. -/
theorem drive_of_failed (hstop : r.stop ≠ none) (herror : r.error = none) {f : Failure}
    (hnext : world.next w r.inFlight hne = (i, .error f, w'))
    (hcancelled : world.cancelled w' = true) (hf : f ≠ .cancelled) :
    drive j world r w = (r.complete j true i (.error f), w') := by
  have hhandle := handle_of_next (j := j) hnext hcancelled
  have hbroken : (handle j world (r, w) hne).1.error ≠ none := by
    rw [hhandle, (completes_complete j true r i _).error_of_failed hf]
    exact Option.some_ne_none _
  rw [drive_of_broken (started_of_stop hstop) herror hne hbroken, hhandle]

end

/-- A cancelled run lets what is in flight end. -/
theorem exists_drained (hkeeps : world.KeepsCancelled) {w : σ} (hstop : r.stop = some .cancelled)
    (herror : r.error = none) (hnodup : r.running.Nodup) (hcancelled : world.cancelled w = true) :
    ∃ ended, Drains world r.inFlight w ended ∧ r.Drained ended (drive j world r w).1 := by
  have hstopped : r.stop ≠ none := hstop ▸ Option.some_ne_none _
  induction hlength : r.inFlight.length generalizing r w with
  | zero =>
      have hflight := List.eq_nil_of_length_eq_zero hlength
      refine ⟨[], hflight ▸ .done, ?_⟩
      rw [drive_of_ended (started_of_stop hstopped) (Or.inr hflight)]
      exact drained_nil hstop herror hflight
  | succ n ih =>
      have hne : r.inFlight ≠ [] := List.ne_nil_of_length_eq_add_one hlength
      have hcancelled' := hkeeps w r.inFlight hne hcancelled
      obtain ⟨i, outcome, w', hnext⟩ :
          ∃ i outcome w', world.next w r.inFlight hne = (i, outcome, w') := ⟨_, _, _, rfl⟩
      rw [hnext] at hcancelled'
      have hcompletes := completes_complete j true r i outcome
      by_cases houtcome : ∀ f, outcome = .error f → f = .cancelled
      · have hflight := hcompletes.inFlight_eq
        have hstop' := hcompletes.stop_eq_cancelled hstop
        have hnodup' : (r.complete j true i outcome).running.Nodup := by
          rw [hcompletes.running_eq hnodup]
          exact hnodup.erase _
        have hlength' : (r.complete j true i outcome).inFlight.length = n := by
          rw [hflight, List.length_eraseIdx_of_lt i.isLt, hlength, Nat.add_sub_cancel]
        obtain ⟨ended, hdrains, hdrained⟩ := ih hstop'
          ((hcompletes.error_of_unfailed hstopped houtcome).trans herror) hnodup' hcancelled'
          (hstop' ▸ Option.some_ne_none _) hlength'
        rw [hflight] at hdrains
        refine ⟨(r.inFlight.get i, outcome) :: ended, .next hnext houtcome hdrains, ?_⟩
        rw [drive_of_unfailed hstopped herror hnext hcancelled' houtcome]
        exact hdrained.cons hnodup hstopped hcompletes houtcome
          fun e he => hflight ▸ hdrains.mem e he
      · push Not at houtcome
        obtain ⟨f, rfl, hf⟩ := houtcome
        refine ⟨[(r.inFlight.get i, .error f)], .failed hnext hf, ?_⟩
        rw [drive_of_failed hstopped herror hnext hcancelled' hf]
        exact drained_failure hstop hf hcompletes

/-- A run that is never cancelled does not stop as a cancelled one. -/
theorem stop_ne_cancelled_step {s s' : Run × σ} (huncancelled : world.cancelled s.2 = false)
    (huncancelled' : world.cancelled s'.2 = false) (hstop : s.1.stop ≠ some .cancelled)
    (hstep : Step j world s s') : s'.1.stop ≠ some .cancelled := by
  cases hstep with
  | cancel hnone hcancelled =>
      rw [huncancelled] at hcancelled
      cases hcancelled
  | cap hchoose => exact nofun
  | missing hchoose => exact hstop
  | start hchoose => exact hstop
  | @finish r w herror hidle hne i outcome w' hnext =>
      have hcompletes := completes_complete j (world.cancelled w') r i outcome
      rw [show world.cancelled w' = false from huncancelled'] at hcompletes ⊢
      exact hcompletes.stop_ne_cancelled hstop

end Run

namespace Job

variable {j : Job} {world : World σ} {w : σ} {s : Run × σ}

theorem Passes.stop_ne_cancelled
    (huncancelled : ∀ s, j.Passes world w s → world.cancelled s.2 = false)
    (h : j.Passes world w s) : s.1.stop ≠ some .cancelled :=
  h.induction (P := fun s => s.1.stop ≠ some .cancelled) nofun
    fun s s' hpasses hstep hstop => Run.stop_ne_cancelled_step (huncancelled s hpasses)
      (huncancelled s' (hpasses.tail hstep)) hstop hstep

end Job

/-- The result of a run that was cancelled before these executions ended. -/
structure Result.Drained (before : Run) (ended : List (Execution × Outcome)) (r : Result) :
    Prop where
  /-- Nothing has happened but that executions ended. -/
  trace : r.trace = (ended.map fun e => .ended e.1.node e.2).reverse ++ before.trace
  starts : dispatches r.trace = dispatches before.trace
  uncapped : ∀ id count cap, .capReached id count cap ∉ r.events
  uncompleted : ∀ success capped counts, .completed success capped counts ∉ r.events
  kept : ∀ e output, (e, .ok output) ∈ ended → r.outputs.get? e.node = some output.fields
  others : ∀ id, (∀ e output, (e, .ok output) ∈ ended → e.node ≠ id) →
    r.outputs.get? id = before.outputs.get? id
  failed : ∀ e f, (e, .error f) ∈ ended → f ≠ .cancelled →
    r.status = .failed ∧ r.error = some (RunError.node e.node f).message
  cancelled : (∀ e f, (e, .error f) ∈ ended → f = .cancelled) →
    r.status = .cancelled ∧ r.error = none ∧ r.status.isSuccess = false ∧
      (ended.map Prod.fst).Perm before.inFlight

theorem Run.endEvents_of_cancelled {j : Job} {r : Run} (h : r.stop = some .cancelled) :
    r.endEvents j = [] := by
  unfold endEvents
  rw [h]
  split <;> simp_all

/-- A run that has been cancelled has told of its start and of repeated executions, and tells of
nothing else. -/
theorem Run.Drained.events_result {j : Job} {r r' : Run} {ended : List (Execution × Outcome)}
    (h : r.Drained ended r') (hnarrated : r.Narrated j) :
    ∀ e ∈ (r'.result j).events, e = j.startEvent ∨ e.IsRepeat := by
  intro e he
  have hends : told (ended.map fun e => Moment.ended e.1.node e.2).reverse = [] := by
    simp [told, Moment.event?]
  rw [Run.events_result, endEvents_of_cancelled h.stop, List.append_nil, h.trace, told_append,
    hends, List.append_nil] at he
  obtain ⟨repeated, hbegins, hrepeated⟩ := hnarrated.begins
  rw [hbegins, List.mem_cons] at he
  exact he.imp_right (hrepeated e)

theorem Run.Drained.result {j : Job} {r r' : Run} {ended : List (Execution × Outcome)}
    (h : r.Drained ended r') (hnarrated : r.Narrated j) : (r'.result j).Drained r ended := by
  have htrace : (r'.result j).trace =
      (ended.map fun e => .ended e.1.node e.2).reverse ++ r.trace := by
    rw [← h.trace, Run.result, endEvents_of_cancelled h.stop]
    rfl
  have hevents := h.events_result hnarrated
  constructor
  case trace => exact htrace
  case starts =>
    have hends : dispatches (ended.map fun e => Moment.ended e.1.node e.2).reverse = [] := by
      simp [dispatches]
    rw [htrace, dispatches_append, hends, List.nil_append]
  case uncapped =>
    intro id count cap htold
    rcases hevents _ htold with hstart | ⟨_, _, hrepeat⟩
    · cases hstart
    · cases hrepeat
  case uncompleted =>
    intro success capped counts htold
    rcases hevents _ htold with hstart | ⟨_, _, hrepeat⟩
    · cases hstart
    · cases hrepeat
  case kept => exact h.kept
  case others => exact h.others
  case failed =>
    intro e f he hf
    have herror := h.failed e f he hf
    exact ⟨Run.status_eq_failed_iff.mpr (herror ▸ Option.some_ne_none _),
      congrArg (Option.map RunError.message) herror⟩
  case cancelled =>
    intro hall
    obtain ⟨herror, hperm⟩ := h.unfailed hall
    have hstatus : (r'.result j).status = .cancelled :=
      Run.status_eq_cancelled_iff.mpr ⟨herror, h.stop⟩
    exact ⟨hstatus, congrArg (Option.map RunError.message) herror, by rw [hstatus]; rfl, hperm⟩

/-- A run that is cancelled lets what is in flight end and starts nothing more.  If it has been
cancelled when its loop comes to its head, and nothing has stopped it before, the executions in
flight end one by one until one fails, and nothing else happens; what those that end well put out is
kept.  If one fails, so does the run; otherwise it ends as a cancelled run, which is neither an
error nor a success.  And a run that is never cancelled does not end as a cancelled one, and if an
execution ends as if it were, the run fails with that. -/
theorem Job.cancellation_drains_the_run (j : Job) {world : World σ} (hkeeps : world.KeepsCancelled)
    (w : σ) :
    (∀ s, j.Heads world w s → s.1.stop = none → world.cancelled s.2 = true →
      ∃ ended, Drains world s.1.inFlight s.2 ended ∧
        (j.execute world w).1.Drained s.1 ended) ∧
    ((∀ s, j.Passes world w s → world.cancelled s.2 = false) →
      (j.execute world w).1.status ≠ .cancelled ∧
      ∀ n, .ended n (.error .cancelled) ∈ (j.execute world w).1.trace →
        (j.execute world w).1.status = .failed ∧
        (j.execute world w).1.error = some (RunError.node n .cancelled).message) := by
  have hpasses := j.passes_final world w
  constructor
  · intro s hhead hstop hcancelled
    have hbounded := hhead.passes.bounded
    obtain ⟨ended, hdrains, hdrained⟩ := Run.exists_drained (j := j)
      (r := { s.1 with stop := some .cancelled }) hkeeps rfl hhead.error_eq_none
      hbounded.running_nodup hcancelled
    rw [← Run.drive_of_cancelled hstop hcancelled, ← hhead.final_eq] at hdrained
    have hstopped : j.Passes world w ({ s.1 with stop := some .cancelled }, s.2) :=
      hhead.passes.tail (.cancel hstop hcancelled)
    have hresult := hdrained.result hstopped.narrated
    exact ⟨ended, hdrains, { hresult with }⟩
  · intro huncancelled
    have hstop := hpasses.stop_ne_cancelled huncancelled
    refine ⟨fun hstatus => hstop (Run.status_eq_cancelled_iff.mp hstatus).2, ?_⟩
    intro n hended
    obtain ⟨told, htrace⟩ := Run.result_trace j (j.final world w).1
    have hended' : .ended n (.error .cancelled) ∈ (j.final world w).1.trace := by
      rw [execute_fst, htrace] at hended
      simpa using hended
    have herror := (hpasses.answered n .cancelled hended').resolve_right
      fun hheeded => hstop hheeded.2
    exact ⟨Run.status_eq_failed_iff.mpr (herror ▸ Option.some_ne_none _),
      congrArg (Option.map RunError.message) herror⟩

/-- The node whose execution a moment tells of as failed, and why it failed. -/
def Moment.failure? : Moment → Option (NodeId × Failure)
  | .ended id (.error f) => some (id, f)
  | _ => none

theorem Moment.eq_of_failure? {m : Moment} {id : NodeId} {f : Failure}
    (h : m.failure? = some (id, f)) : m = .ended id (.error f) := by
  unfold failure? at h
  split at h
  · obtain ⟨rfl, rfl⟩ := Prod.mk.inj (Option.some.inj h)
    rfl
  · cases h

/-- Three steps that may run together. -/
def spread : Definition :=
  .plain "spread"
    [.plain "split" "step", .plain "left" "step", .plain "middle" "step", .plain "right" "step"]
    [.plain "e1" "split" "left", .plain "e2" "split" "middle", .plain "e3" "split" "right"]
    "split" 1

/-- A node that pauses, the longer the further to the right, and on the right ends as if the run had
been cancelled. -/
def pausing : Instance where
  kind := "step"
  problems := []
  execute c :=
    if c.node = "left" then .sleep 10 (.done (.ok (.ofList [])))
    else if c.node = "middle" then .sleep 20 (.done (.ok (.ofList [("kept", .bool true)])))
    else if c.node = "right" then .sleep 30 (.done (.error .cancelled))
    else .done (.ok (.ofList []))

/-- A catalog in which every node of `spread` is that node. -/
def pausingKinds : Catalog where
  kinds := Table.ofList [("step", ⟨"step", .bare "step", fun _ => .ok pausing⟩)]

/-- The run of `spread` on three nodes at a time. -/
def spreadJob : Job where
  plan := ⟨spread, ["split", "left", "middle", "right"], spread.loops, spread.validate pausingKinds,
    Table.ofList [("split", []), ("left", ["split"]), ("middle", ["split"]), ("right", ["split"])]⟩
  instance? id := if id ∈ spread.ids then some pausing else none
  instance_declared id _ h := by
    by_contra hid
    rw [if_neg hid] at h
    cases h
  evaluator := Guard.byVerdict
  parallel := 3
  initial := .empty

/-- A clock on which every request fails and nothing takes too long. -/
abbrev idleWorld : World Clock := Clock.world (fun _ => .unreachable) none

/-- When the run is cancelled after five milliseconds, the step on the left is still left to end,
and the loop comes to its head with the other two in flight. -/
theorem exists_head_spreadJob :
    ∃ s, spreadJob.Heads idleWorld (Clock.start (some 5) none) s ∧ s.1.stop = none ∧
      idleWorld.cancelled s.2 = true ∧ s.1.running = ["middle", "right"] := by
  have hsplit := @Run.Turn.handled Clock spreadJob idleWorld
    (spreadJob.begin idleWorld (Clock.start (some 5) none)) _ rfl (by decide +kernel)
    (by decide +kernel) (by decide +kernel)
  refine ⟨_, (ReflTransGen.single hsplit).tail (.handled rfl (by decide +kernel)
    (by decide +kernel) (by decide +kernel)), ?_, ?_, ?_⟩
  all_goals decide +kernel

/-- The step in the middle ends and is kept, the one on the right heeds the cancellation; when
nobody has cancelled the run, it fails. -/
theorem spread_drained :
    (∃ s ended, spreadJob.Heads idleWorld (Clock.start (some 5) none) s ∧
      s.1.running = ["middle", "right"] ∧ Drains idleWorld s.1.inFlight s.2 ended ∧
      (spreadJob.execute idleWorld (Clock.start (some 5) none)).1.Drained s.1 ended) ∧
    (spreadJob.execute idleWorld (Clock.start none none)).1.status = .failed ∧
    (spreadJob.execute idleWorld (Clock.start none none)).1.error =
      some "node 'right' failed: Cancelled" := by
  have hkeeps : idleWorld.KeepsCancelled := Clock.world_keepsCancelled _ _
  constructor
  · obtain ⟨s, hhead, hstop, hcancelled, hrunning⟩ := exists_head_spreadJob
    obtain ⟨ended, hdrains, hdrained⟩ := (spreadJob.cancellation_drains_the_run hkeeps
      (Clock.start (some 5) none)).1 s hhead hstop hcancelled
    exact ⟨s, ended, hhead, hrunning, hdrains, hdrained⟩
  · have hworld := Clock.world_obeys spreadJob fun _ => .unreachable
    have hclock : (Clock.start none none).Undisturbed := ⟨rfl, rfl⟩
    obtain ⟨_, hfailed⟩ := (spreadJob.cancellation_drains_the_run hkeeps (Clock.start none none)).2
      fun s hs => hworld.uncancelled _ (hworld.safe_and_launched hclock hs).1
    have hright : ("right", .cancelled) ∈ (spreadJob.execute idleWorld
        (Clock.start none none)).1.trace.filterMap Moment.failure? := by decide +kernel
    obtain ⟨m, hm, hfailure⟩ := List.mem_filterMap.mp hright
    rw [Moment.eq_of_failure? hfailure] at hm
    exact hfailed "right" hm

end Workflow
