import Workflow.Engine
import Workflow.Proofs.Findings
import Workflow.Proofs.Run.History
import Workflow.Proofs.Run.Setup
import Workflow.Proofs.Standard
/-!
# Runs of validated workflows

A workflow of standard nodes that has a plan does not fail for the way it is configured.  Its nodes
can be made ready, its conditions come to their verdicts, and what is left are the guards that
cannot be read, the time limit, and the data that only the run brings to light.
-/
namespace Workflow

open Relation

variable {σ : Type}

/-- Whatever the world does with clocks, networks and cancellations, an execution ends as its
activity can end, unless a time limit cuts it off. -/
def World.Faithful (world : World σ) (limit : Option Nat) : Prop :=
  ∀ w l hne i outcome w', world.next w l hne = (i, outcome, w') →
    (l.get i).activity.EndsIn outcome ∨ ∃ ms, limit = some ms ∧ outcome = .error (.timedOut ms)

/-! ### The simulated clock -/

theorem Activity.endsIn_finish (network : Http.Request → Http.Reply) (cancelTime : Option Nat)
    (time : Nat) (a : Activity) : a.EndsIn (a.finish network cancelTime time).2 := by
  induction a generalizing time with
  | done outcome => exact .done
  | sleep millis next ih => exact .sleep (ih _)
  | wait millis next interrupted ih ih' =>
      unfold finish
      split
      · split
        · exact .waitInterrupted (ih' _)
        · exact .wait (ih _)
      · exact .wait (ih _)
  | send request next interrupted ih ih' =>
      unfold finish
      split
      · exact .sendInterrupted (ih' _)
      · exact .send (network request) (ih _ _)

theorem Execution.endsIn_finish (network : Http.Request → Http.Reply)
    (limit cancelTime : Option Nat) (startTime : Nat) (e : Execution) :
    e.activity.EndsIn (e.finish network limit cancelTime startTime).2 ∨
      ∃ ms, limit = some ms ∧
        (e.finish network limit cancelTime startTime).2 = .error (.timedOut ms) := by
  have hends := Activity.endsIn_finish network cancelTime startTime e.activity
  cases limit with
  | none => exact Or.inl hends
  | some ms =>
      unfold finish
      dsimp only
      split
      · exact Or.inr ⟨ms, rfl, rfl⟩
      · exact Or.inl hends

/-- A simulated clock is faithful under its time limit. -/
theorem Clock.world_faithful (network : Http.Request → Http.Reply) (limit : Option Nat) :
    (world network limit).Faithful limit := by
  intro c l hne i outcome c' hnext
  obtain ⟨hindex, hrest⟩ := Prod.mk.inj hnext
  obtain ⟨houtcome, _⟩ := Prod.mk.inj hrest
  obtain ⟨k, hk⟩ := foldl_earlier (fun i => _) (List.finRange l.length)
    ⟨0, List.length_pos_iff.2 hne⟩
  rw [hk] at hindex houtcome
  change k = i at hindex
  subst hindex
  change ((l.get k).finish network limit c.cancelTime _).2 = outcome at houtcome
  rw [← houtcome]
  exact Execution.endsIn_finish ..

namespace Standard

/-- Why a run of well configured standard nodes can fail: a guard is no expression, an execution
takes longer than the limit, or a node stumbles over what it is given. -/
inductive Fails (d : Definition) (initial : Fields) (limit : Option Nat) : RunError → Prop where
  | guard {e : Edge} {expression : String} {f : Failure} (declared : e ∈ d.edges)
      (condition : e.condition = some expression)
      (unread : Guard.expected? expression.toList = none) : Fails d initial limit (.guard e.id f)
  | timeout {n : Node} {ms : Nat} (declared : n ∈ d.nodes) (limited : limit = some ms) :
      Fails d initial limit (.node n.id (.timedOut ms))
  | stumbles {n : Node} {f : Failure} (declared : n ∈ d.nodes) (h : Stumbles n initial f) :
      Fails d initial limit (.node n.id f)

end Standard

theorem Guard.expected?_eq_none {expression : String} {state : Guard.State} {f : Failure}
    (h : byVerdict expression state = .error f) : expected? expression.toList = none := by
  unfold byVerdict at h
  split at h
  · assumption
  · cases h

/-! ### Runs -/

/-- A job of a plan whose nodes are of standard kinds and have no remarks about their configuration,
with the standard guards. -/
structure Job.Standard (j : Job) : Prop where
  guards : j.evaluator = Guard.byVerdict
  made : ∀ id ∈ j.definition.ids, ∃ made, j.instance? id = some made
  configured : ∀ id made, j.instance? id = some made → ∃ n ∈ j.definition.nodes, n.id = id ∧
    Standard.catalog.instantiate n = .ok made ∧ made.problems = []

namespace Job.Standard

variable {j : Job} {world : World σ} {limit : Option Nat} {w : σ}

/-- How an execution in flight ends: as a node of its name has promised, or cut off by the limit. -/
theorem promised_of_launched (hj : j.Standard) (hworld : world.Faithful limit) {l : List Execution}
    (hl : ∀ e ∈ l, j.Launched e) {hne : l ≠ []} {i : Fin l.length} {outcome : Outcome} {w w' : σ}
    (hnext : world.next w l hne = (i, outcome, w')) :
    ∃ n ∈ j.definition.nodes, n.id = (l.get i).node ∧
      (Standard.Promised n j.initial outcome ∨
        ∃ ms, limit = some ms ∧ outcome = .error (.timedOut ms)) := by
  obtain ⟨made, hmade, hactivity⟩ := hl (l.get i) (List.get_mem l i)
  obtain ⟨n, hn, hid, hinstance, hproblems⟩ := hj.configured _ _ hmade
  refine ⟨n, hn, hid, (hworld w l hne i outcome w' hnext).imp_left fun hends => ?_⟩
  rw [hactivity] at hends
  exact Standard.promised_of_instantiate hinstance hproblems hends

/-- What the end of an execution makes of a run: if it fails, then for one of the reasons. -/
theorem fails_of_completes (hj : j.Standard) (hworld : world.Faithful limit) {r r' : Run}
    (hlaunched : ∀ e ∈ r.inFlight, j.Launched e) (herror : r.error = none) {hne : r.inFlight ≠ []}
    {i : Fin r.inFlight.length} {outcome : Outcome} {w w' : σ}
    (hnext : world.next w r.inFlight hne = (i, outcome, w')) {cancelled : Bool}
    (hcompletes : Run.Completes j cancelled r i outcome r') {e : RunError}
    (he : r'.error = some e) : Standard.Fails j.definition j.initial limit e := by
  obtain ⟨n, hn, hid, hpromised⟩ := hj.promised_of_launched hworld hlaunched hnext
  cases hcompletes with
  | kept hstop =>
      cases herror.symm.trans he
  | @astray output judgements e' hstop hfollow =>
      obtain rfl := Option.some.inj he
      cases Job.strays_of_follow (congrArg Prod.snd hfollow) with
      | noVerdict found kind none =>
          obtain rfl := Option.some.inj
            ((Definition.node?_eq_some_iff.mpr ⟨hn, hid⟩).symm.trans found)
          rcases hpromised with hpromised | ⟨_, _, htimeout⟩
          · obtain ⟨_, b, houtput, hverdict⟩ := hpromised.verdict kind
            obtain rfl := Except.ok.inj houtput
            cases none.symm.trans hverdict
          · cases htimeout
      | guard declared condition judged =>
          rw [hj.guards] at judged
          exact .guard declared condition (Guard.expected?_eq_none judged)
  | followed hstop hfollow =>
      cases herror.symm.trans he
  | cancelled hcancelled =>
      cases herror.symm.trans he
  | @failed f hf =>
      obtain rfl := Option.some.inj he
      rw [← hid]
      rcases hpromised with hpromised | ⟨ms, hlimit, hms⟩
      · exact .stumbles hn (hpromised.stumbles f rfl)
      · obtain rfl := Except.error.inj hms
        exact .timeout hn hlimit

/-- Whatever a run comes to, if it fails then for one of the reasons. -/
theorem fails_of_passes (hj : j.Standard) (hworld : world.Faithful limit) {s : Run × σ}
    (hs : j.Passes world w s) {e : RunError} (he : s.1.error = some e) :
    Standard.Fails j.definition j.initial limit e := by
  refine hs.induction (P := fun s => ∀ e, s.1.error = some e →
    Standard.Fails j.definition j.initial limit e) nofun ?_ e he
  intro s s' hpasses hstep ih e he
  cases hstep with
  | cancel hstop hcancelled => exact ih e he
  | cap hchoose => exact ih e he
  | missing hchoose =>
      cases Run.chooses_of_eq hchoose with
      | missing hready hcap hnone =>
          obtain ⟨made, hmade⟩ := hj.made _ (hpasses.bounded.declared _ hready.pending)
          cases hnone.symm.trans hmade
  | start hchoose => exact ih e he
  | finish herror hidle hne hnext =>
      exact hj.fails_of_completes hworld hpasses.launched herror hnext
        (Run.completes_complete j _ _ _ _) he

end Job.Standard

/-- A validated plan of standard nodes can be run, and its job is such a job. -/
theorem Definition.exists_standard_job {d : Definition} {strict : Bool} {p : Plan}
    (h : d.plan Standard.catalog strict = .ok p) (parallel : Nat) (initial : Fields) :
    ∃ j, Job.make? Standard.catalog Guard.byVerdict parallel p initial = .ok j ∧ j.Standard ∧
      j.definition = d ∧ j.initial = initial := by
  obtain ⟨rfl, _⟩ := Definition.sound_of_plan h
  have haccepts := Definition.exists_instance_of_plan h
  obtain ⟨j, hj⟩ := Job.exists_make? Guard.byVerdict parallel initial fun n hn =>
    (haccepts n hn).imp fun _ h => h.1
  obtain ⟨hguards, _, hinitial⟩ := Job.surroundings_of_make? hj
  have hplan := Job.plan_of_make? hj
  refine ⟨j, hj, ⟨hguards, fun id hid => ?_, fun id made hmade => ?_⟩, ?_, hinitial⟩
  · rw [Job.definition, hplan] at hid
    exact Job.exists_instance_of_make? hj hid
  · obtain ⟨n, hn, hid, hinstance⟩ := Job.exists_node_of_make? hj hmade
    obtain ⟨made', hmade', hproblems⟩ := haccepts n hn
    obtain rfl := Except.ok.inj (hinstance.symm.trans hmade')
    rw [Job.definition, hplan]
    exact ⟨n, hn, hid, hinstance, hproblems⟩
  · rw [Job.definition, hplan]

/-- Validation rules out that standard nodes fail for their configuration.  A node of a standard
kind without remarks about its configuration keeps what its kind promises.  And a workflow that has
a plan on the standard catalog can be run on it: all its nodes are made ready, and whatever the
initial state is, whatever requests are answered with, whenever the run is cancelled and in whatever
order executions end, the run fails only for a guard that is no expression, for a node that takes
longer than the limit, or for a node that stumbles over its data. -/
theorem Engine.standard_runs_fail_for_data_only (settings : Settings) (d : Definition) :
    (∀ n made, Standard.catalog.instantiate n = .ok made → made.problems = [] →
      ∀ c outcome, (made.execute c).EndsIn outcome → Standard.Promised n c.initial outcome) ∧
    ∀ p, (ofCatalog Standard.catalog settings).plan d = .ok p → ∀ initial, ∃ j,
      Job.make? Standard.catalog Guard.byVerdict settings.parallel p initial = .ok j ∧
      ∀ {σ : Type} (world : World σ) (w : σ),
        (ofCatalog Standard.catalog settings).executePlan p initial world w = j.execute world w ∧
        (world.Faithful settings.timeLimit → ∀ e, (j.final world w).1.error = some e →
          Standard.Fails d initial settings.timeLimit e) := by
  refine ⟨fun n made hmade h c outcome => Standard.promised_of_instantiate hmade h, ?_⟩
  intro p hplan initial
  obtain ⟨j, hj, hstandard, rfl, rfl⟩ := Definition.exists_standard_job hplan settings.parallel
    initial
  refine ⟨j, hj, fun world w => ⟨?_, fun hworld e he => ?_⟩⟩
  · rw [executePlan, Plan.execute, ofCatalog, hj]
  · exact hstandard.fails_of_passes hworld (j.passes_final world w) he

namespace Definition

/-- A text of the initial state is parsed, and what holds is kept. -/
def intake : Definition :=
  .plain "intake"
    [(Node.plain "read" "data_source").configure "state_key" (.string "text"),
      (Node.plain "parse" "data_processor").configure "operation" (.string "json_parse"),
      .plain "check" "condition", .plain "keep" "output"]
    [.plain "e1" "read" "parse", .plain "e2" "parse" "check",
      .guarded "e3" "check" "keep" "true"]
    "read" 1

/-- The plan of `intake`. -/
def intakePlan : Plan :=
  ⟨intake, ["read", "parse", "check", "keep"], intake.loops, intake.validate Standard.catalog,
    Table.ofList [("read", []), ("parse", ["read"]), ("check", ["parse", "read"]),
      ("keep", ["check", "parse", "read"])]⟩

theorem accepts_intake : ∀ n ∈ intake.nodes, Standard.catalog.Accepts n := by
  intro n hn
  simp only [intake, plain, List.mem_cons, List.not_mem_nil, or_false] at hn
  rcases hn with rfl | rfl | rfl | rfl
  · exact ⟨Standard.Source.kind, rfl, _, rfl, rfl⟩
  · exact ⟨Standard.Processor.kind, rfl, _, rfl, rfl⟩
  · exact ⟨Standard.Condition.kind, rfl, _, rfl, rfl⟩
  · exact ⟨Standard.Collector.kind, rfl, _, rfl, rfl⟩

theorem plan_intake : intake.plan Standard.catalog false = .ok intakePlan := by
  have hnodes : intake.nodes.filterMap (nodeError Standard.catalog) = [] :=
    List.filterMap_eq_nil_iff.mpr fun n hn => nodeError_eq_none_iff.mpr (accepts_intake n hn)
  have hloops : intake.loops = [] := by cbv
  exact plan_eq_ok hloops rfl hnodes (by decide +kernel) rfl

theorem intake_fails_for_data_only :
    (Engine.ofCatalog Standard.catalog Settings.standard).plan intake = .ok intakePlan ∧ ∃ j,
      Job.make? Standard.catalog Guard.byVerdict 10 intakePlan .empty = .ok j ∧
      ∀ e, (j.final (Clock.world (fun _ => .unreachable) none) (Clock.start none none)).1.error =
        some e → Standard.Fails intake .empty none e := by
  obtain ⟨_, hruns⟩ := Engine.standard_runs_fail_for_data_only Settings.standard intake
  obtain ⟨j, hj, hfails⟩ := hruns intakePlan plan_intake .empty
  exact ⟨plan_intake, j, hj, (hfails _ _).2 (Clock.world_faithful _ _)⟩

end Definition
end Workflow
