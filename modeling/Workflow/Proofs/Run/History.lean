import Workflow.Proofs.Run.Bounds
import Workflow.Proofs.Run.World
/-!
# The history of a run

The trace of a run tells how the run came about.  Every end of an execution in it was the next to
come in the state that the run was in when its trace was what stands before that end; and every
start is followed by an end, unless the execution is still in flight.  An end that is a failure
breaks the run off.
-/
namespace Workflow

open Relation

namespace Run

variable {j : Job} {r r' : Run} {σ : Type} {world : World σ} {s s' : Run × σ}

/-- Nothing more can start in this state, and the execution that ends next is one of this node, with
this outcome. -/
def Ends (j : Job) (world : World σ) (s : Run × σ) (n : NodeId) (outcome : Outcome) : Prop :=
  s.1.error = none ∧ s.1.choose j = .idle ∧ ∃ hne : s.1.inFlight ≠ [],
    (s.1.inFlight.get (world.next s.2 s.1.inFlight hne).1).node = n ∧
      (world.next s.2 s.1.inFlight hne).2.1 = outcome

theorem ends_of_next {w w' : σ} (herror : r.error = none) (hidle : r.choose j = .idle)
    (hne : r.inFlight ≠ []) {i : Fin r.inFlight.length} {outcome : Outcome}
    (hnext : world.next w r.inFlight hne = (i, outcome, w')) :
    Ends j world (r, w) (r.inFlight.get i).node outcome := by
  refine ⟨herror, hidle, hne, ?_, ?_⟩
  · rw [hnext]
  · rw [hnext]

/-! ### What a step adds to the trace -/

theorem ended_not_mem_repeats (n id : NodeId) (outcome : Outcome) (iteration : Nat) :
    Moment.ended n outcome ∉ (repeats id iteration).reverse := by
  unfold repeats
  split <;> simp

/-- A step adds either no end at all, or the one that came next. -/
theorem Step.trace_eq (h : Step j world s s') :
    ∃ new, s'.1.trace = new ++ s.1.trace ∧
      ((∀ n outcome, Moment.ended n outcome ∉ new) ∨
        ∃ n outcome, ∃ judgements : List Judgement,
          new = (judgements.map Moment.judged).reverse ++ [.ended n outcome] ∧
            Ends j world s n outcome) := by
  cases h with
  | cancel hstop hcancelled => exact ⟨[], rfl, Or.inl fun _ _ => List.not_mem_nil⟩
  | cap hchoose => exact ⟨[], rfl, Or.inl fun _ _ => List.not_mem_nil⟩
  | missing hchoose =>
      exact ⟨_, rfl, Or.inl fun n outcome => ended_not_mem_repeats n _ outcome _⟩
  | @start r w id made hchoose =>
      refine ⟨.dispatched id (r.count id + 1) (r.inputsOf j id) ::
        (repeats id (r.count id + 1)).reverse, trace_launch j r id made, Or.inl ?_⟩
      intro n outcome hmem
      rcases List.mem_cons.mp hmem with h | h
      · cases h
      · exact ended_not_mem_repeats n id outcome _ h
  | @finish r w herror hidle hne i outcome w' hnext =>
      obtain ⟨judgements, htrace⟩ :=
        (completes_complete j (world.cancelled w') r i outcome).trace_eq
      refine ⟨(judgements.map Moment.judged).reverse ++ [.ended (r.inFlight.get i).node outcome],
        ?_, Or.inr ⟨_, outcome, judgements, rfl, ends_of_next herror hidle hne hnext⟩⟩
      rw [htrace, List.append_assoc]
      rfl

theorem Step.stop_eq_none (h : Step j world s s') (hstop : s'.1.stop = none) :
    s.1.stop = none := by
  cases h with
  | cancel hnone hcancelled => exact hnone
  | cap hchoose =>
      cases chooses_of_eq hchoose with
      | capped hready hcap => exact hready.stop
  | missing hchoose => exact hstop
  | start hchoose => exact hstop
  | finish herror hidle hne hnext => exact (completes_complete j _ _ _ _).stop_eq_none hstop

/-- The one end among the judgements of its edges. -/
theorem split_judged {judgements : List Judgement} {n n' : NodeId} {outcome outcome' : Outcome}
    {later middle : List Moment}
    (h : (judgements.map Moment.judged).reverse ++ [.ended n outcome] =
      later ++ .ended n' outcome' :: middle) : n = n' ∧ outcome = outcome' ∧ middle = [] := by
  rcases split_append h with ⟨rest, _, hlast⟩ | ⟨rest, hjudged, _⟩
  · rcases List.cons_eq_append_iff.mp hlast with ⟨_, hcons⟩ | ⟨_, _, hnil⟩
    · obtain ⟨hmoment, hmiddle⟩ := List.cons.inj hcons
      obtain ⟨hn, houtcome⟩ := Moment.ended.inj hmoment
      exact ⟨hn.symm, houtcome.symm, hmiddle⟩
    · simp at hnil
  · have hmem : Moment.ended n' outcome' ∈ (judgements.map Moment.judged).reverse := by
      rw [hjudged]
      exact List.mem_append_right later List.mem_cons_self
    simp at hmem

/-- The executions that have started are in flight or have ended. -/
def Concluded (trace : List Moment) (running : List NodeId) : Prop :=
  ∀ later id iteration inputs earlier,
    trace = later ++ .dispatched id iteration inputs :: earlier →
      id ∈ running ∨ ∃ outcome, .ended id outcome ∈ later

theorem Concluded.append {new trace : List Moment} {running running' : List NodeId}
    (h : Concluded trace running) (hnew : dispatches new = [])
    (hrunning : ∀ m ∈ running, m ∈ running' ∨ ∃ outcome, .ended m outcome ∈ new) :
    Concluded (new ++ trace) running' := by
  intro later id iteration inputs earlier hsplit
  obtain ⟨middle, rfl, htrace⟩ := split_of_dispatches_eq_nil hnew hsplit
  rcases h middle id iteration inputs earlier htrace with hruns | ⟨outcome, hended⟩
  · refine (hrunning id hruns).imp_right ?_
    rintro ⟨outcome, hended⟩
    exact ⟨outcome, List.mem_append_left middle hended⟩
  · exact Or.inr ⟨outcome, List.mem_append_right new hended⟩

theorem Concluded.cons {trace : List Moment} {running : List NodeId} (h : Concluded trace running)
    (id : NodeId) (iteration : Nat) (inputs : Inputs) :
    Concluded (.dispatched id iteration inputs :: trace) (running ++ [id]) := by
  intro later id' iteration' inputs' earlier hsplit
  rcases List.cons_eq_append_iff.mp hsplit with ⟨rfl, heq⟩ | ⟨middle, rfl, htrace⟩
  · obtain ⟨hmoment, _⟩ := List.cons.inj heq
    obtain ⟨rfl, _, _⟩ := Moment.dispatched.inj hmoment
    exact Or.inl (List.mem_append_right running List.mem_cons_self)
  · rcases h middle id' iteration' inputs' earlier htrace with hruns | ⟨outcome, hended⟩
    · exact Or.inl (List.mem_append_left [id] hruns)
    · exact Or.inr ⟨outcome, List.mem_cons_of_mem _ hended⟩

theorem concluded_step (h : Concluded s.1.trace s.1.running) (hnodup : s.1.running.Nodup)
    (hstep : Step j world s s') : Concluded s'.1.trace s'.1.running := by
  cases hstep with
  | cancel hstop hcancelled => exact h
  | cap hchoose => exact h
  | missing hchoose => exact h.append (dispatches_repeats ..) fun _ hm => Or.inl hm
  | @start r w id made hchoose =>
      rw [trace_launch, running_launch]
      exact (h.append (dispatches_repeats ..) fun _ hm => Or.inl hm).cons _ _ _
  | @finish r w herror hidle hne i outcome w' hnext =>
      have hcompletes := completes_complete j (world.cancelled w') r i outcome
      obtain ⟨judgements, htrace⟩ := hcompletes.trace_eq
      rw [htrace, hcompletes.running_eq hnodup, List.append_cons]
      refine h.append ?_ fun m hm => ?_
      · rw [dispatches_append, dispatches_judged, dispatches_ended, List.append_nil]
      · by_cases hended : m = (r.inFlight.get i).node
        · rw [hended]
          exact Or.inr ⟨outcome, List.mem_append_right _ List.mem_cons_self⟩
        · exact Or.inl ((List.mem_erase_of_ne hended).mpr hm)

/-- A failed execution has broken the run off with its failure, or has heeded a cancellation. -/
def Answered (r : Run) : Prop :=
  ∀ n f, .ended n (.error f) ∈ r.trace →
    r.error = some (.node n f) ∨ (f = .cancelled ∧ r.stop = some .cancelled)

/-- As long as the run goes on, no execution has failed. -/
theorem Answered.not_mem (h : r.Answered) (hstop : r.stop = none) (herror : r.error = none)
    (n : NodeId) (f : Failure) : .ended n (.error f) ∉ r.trace := by
  intro hended
  rcases h n f hended with hfails | ⟨_, hstops⟩
  · rw [herror] at hfails
    cases hfails
  · rw [hstop] at hstops
    cases hstops

theorem Answered.completes (h : r.Answered) (herror : r.error = none) {cancelled : Bool}
    {i : Fin r.inFlight.length} {outcome : Outcome}
    (hcompletes : Completes j cancelled r i outcome r') : r'.Answered := by
  intro n f hended
  obtain ⟨judgements, htrace⟩ := hcompletes.trace_eq
  rw [htrace, List.mem_append, List.mem_cons] at hended
  rcases hended with hjudged | hnow | hold
  · simp at hjudged
  · obtain ⟨rfl, rfl⟩ := Moment.ended.inj hnow
    cases hcompletes with
    | cancelled hcancelled => exact Or.inr ⟨rfl, rfl⟩
    | failed hf => exact Or.inl rfl
  · rcases h n f hold with hfails | ⟨hf, hstops⟩
    · rw [herror] at hfails
      cases hfails
    · refine Or.inr ⟨hf, ?_⟩
      rcases hcompletes.stop_eq with hsame | hcancelled
      · rw [hsame, hstops]
      · exact hcancelled

theorem Answered.step (h : s.1.Answered) (hstep : Step j world s s') : s'.1.Answered := by
  cases hstep with
  | cancel hstop hcancelled =>
      intro n f hended
      exact (h n f hended).imp_right fun hheeded => ⟨hheeded.1, rfl⟩
  | cap hchoose =>
      cases chooses_of_eq hchoose with
      | capped hready hcap =>
          intro n f hended
          exact absurd hended (h.not_mem hready.stop hready.error n f)
  | missing hchoose =>
      cases chooses_of_eq hchoose with
      | missing hready hcap hnone =>
          intro n f hended
          rcases List.mem_append.mp hended with hnew | hold
          · exact absurd hnew (ended_not_mem_repeats n _ _ _)
          · exact absurd hold (h.not_mem hready.stop hready.error n f)
  | start hchoose =>
      cases chooses_of_eq hchoose with
      | start hready hcap hmade =>
          intro n f hended
          rw [trace_launch, List.mem_cons, List.mem_append] at hended
          rcases hended with hnew | hnew | hold
          · cases hnew
          · exact absurd hnew (ended_not_mem_repeats n _ _ _)
          · exact absurd hold (h.not_mem hready.stop hready.error n f)
  | finish herror hidle hne hnext => exact h.completes herror (completes_complete j _ _ _ _)

end Run

namespace Job

variable {σ : Type} {j : Job} {world : World σ} {w : σ} {s : Run × σ}

/-- Every end in the trace came next in an earlier state of the run.  If the run has not stopped, it
had not stopped then. -/
theorem Passes.exists_ends (h : j.Passes world w s) {later earlier : List Moment} {n : NodeId}
    {outcome : Outcome} (hsplit : s.1.trace = later ++ .ended n outcome :: earlier) :
    ∃ s₀, j.Passes world w s₀ ∧ s₀.1.trace = earlier ∧ Run.Ends j world s₀ n outcome ∧
      (s.1.stop = none → s₀.1.stop = none) := by
  refine h.induction (P := fun s => ∀ later earlier n outcome,
    s.1.trace = later ++ .ended n outcome :: earlier →
      ∃ s₀, j.Passes world w s₀ ∧ s₀.1.trace = earlier ∧ Run.Ends j world s₀ n outcome ∧
        (s.1.stop = none → s₀.1.stop = none)) ?_ ?_ later earlier n outcome hsplit
  · intro later earlier n outcome hsplit
    have hmem : Moment.ended n outcome ∈ [Moment.event j.startEvent] := by
      rw [show [Moment.event j.startEvent] = _ from hsplit]
      exact List.mem_append_right later List.mem_cons_self
    simp at hmem
  · intro s s' hpasses hstep ih later earlier n outcome hsplit
    obtain ⟨new, htrace, hnew⟩ := hstep.trace_eq
    rw [htrace] at hsplit
    rcases split_append hsplit with ⟨middle, _, hold⟩ | ⟨middle, hadded, rfl⟩
    · obtain ⟨s₀, hpasses₀, htrace₀, hends, hgoes⟩ := ih middle earlier n outcome hold
      exact ⟨s₀, hpasses₀, htrace₀, hends, fun hstop => hgoes (hstep.stop_eq_none hstop)⟩
    · rcases hnew with hnone | ⟨n', outcome', judgements, rfl, hends⟩
      · have hmem : Moment.ended n outcome ∈ new := by
          rw [hadded]
          exact List.mem_append_right later List.mem_cons_self
        exact absurd hmem (hnone n outcome)
      · obtain ⟨rfl, rfl, rfl⟩ := Run.split_judged hadded
        exact ⟨s, hpasses, rfl, hends, fun hstop => hstep.stop_eq_none hstop⟩

theorem Passes.concluded (h : j.Passes world w s) : Run.Concluded s.1.trace s.1.running := by
  refine h.induction (P := fun s => Run.Concluded s.1.trace s.1.running) ?_ ?_
  · have hnone : Run.Concluded [] [] := by simp [Run.Concluded]
    exact hnone.append (show dispatches [.event j.startEvent] = [] from rfl) nofun
  · exact fun s s' hpasses hstep hconcluded =>
      Run.concluded_step hconcluded hpasses.bounded.running_nodup hstep

theorem Passes.answered (h : j.Passes world w s) : s.1.Answered := by
  refine h.induction (P := fun s => s.1.Answered) ?_ fun _ _ _ hstep hanswered =>
    hanswered.step hstep
  intro n f hended
  simp [begin, Run.noteAll, Run.start] at hended

/-- All that is in flight are executions of nodes that were made ready. -/
theorem Passes.launched (h : j.Passes world w s) : ∀ e ∈ s.1.inFlight, j.Launched e := by
  refine h.induction (P := fun s => ∀ e ∈ s.1.inFlight, j.Launched e) nofun ?_
  intro s s' _ hstep hlaunched
  cases hstep with
  | cancel hstop hcancelled => exact hlaunched
  | cap hchoose => exact hlaunched
  | missing hchoose => exact hlaunched
  | @start r w id made hchoose =>
      cases Run.chooses_of_eq hchoose with
      | start hready hcap hmade =>
          intro e he
          rcases List.mem_append.mp he with he | he
          · exact hlaunched e he
          · obtain rfl := List.mem_singleton.mp he
            exact ⟨made, hmade, rfl⟩
  | @finish r w herror hidle hne i outcome w' hnext =>
      intro e he
      rw [Run.complete_inFlight] at he
      exact hlaunched e (List.mem_of_mem_eraseIdx he)

end Job

/-! ### Runs that are left alone -/

namespace World.Obeys

variable {σ : Type} {j : Job} {world : World σ} {w : σ} {s : Run × σ} {behave : Context → Outcome}
  {safe : σ → Prop}

/-- A world that leaves the run alone goes on to do so, and all that is in flight are executions of
nodes that were made ready. -/
theorem safe_and_launched (hworld : world.Obeys j behave safe) (hw : safe w)
    (hs : j.Passes world w s) : safe s.2 ∧ ∀ e ∈ s.1.inFlight, j.Launched e := by
  refine ⟨hs.induction (P := fun s => safe s.2) (hworld.observe w _ hw) ?_, hs.launched⟩
  intro s s' _ hstep hsafe
  cases hstep with
  | cancel hstop hcancelled => exact hsafe
  | cap hchoose => exact hsafe
  | missing hchoose => exact hworld.observeAll _ hsafe
  | start hchoose => exact hworld.observeAll _ hsafe
  | @finish r w herror hidle hne i outcome w' hnext =>
      exact hworld.next w _ hne _ _ _ hnext hsafe

/-- How an execution ends is what its node does in its context. -/
theorem exists_launched_of_ends (hworld : world.Obeys j behave safe) (hw : safe w)
    (hs : j.Passes world w s) {n : NodeId} {outcome : Outcome}
    (hends : Run.Ends j world s n outcome) :
    ∃ e, j.Launched e ∧ e.node = n ∧ outcome = behave (j.contextFor e) := by
  obtain ⟨_, _, hne, hnode, houtcome⟩ := hends
  obtain ⟨hsafe, hlaunched⟩ := hworld.safe_and_launched hw hs
  refine ⟨_, hlaunched _ (List.get_mem _ _), hnode, ?_⟩
  rw [← houtcome]
  exact hworld.outcome _ _ hne _ _ _ rfl hsafe hlaunched

end World.Obeys
end Workflow
