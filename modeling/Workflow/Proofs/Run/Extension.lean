import Workflow.Proofs.Findings
import Workflow.Proofs.Graph.Extension
import Workflow.Proofs.Precedence
import Workflow.Proofs.Run.Contexts
import Workflow.Proofs.Run.Retelling
import Workflow.Proofs.Run.Setup
/-!
# Runs see the live part only

A run never comes to a node that its entry point does not lead to.  So two workflows with the same
live part run in the same way, step by step, whatever else they have; only the event that a run
starts with tells how large its workflow is and whether it has loops.
-/
namespace Workflow

open Relation

variable {σ : Type}

/-! ### What is told of the size -/

/-- The event as it is told by someone who does not know how large the workflow is. -/
def Event.unsized : Event → Event
  | .started workflow entry _ _ cap => .started workflow entry 0 false cap
  | e => e

def Moment.unsized : Moment → Moment
  | .event e => .event e.unsized
  | m => m

/-- The result without the number of nodes, and without whether there are loops, in the event that
the run starts with. -/
def Result.unsized (r : Result) : Result :=
  { r with trace := r.trace.map Moment.unsized }

/-- The world goes on in the same way whatever a run tells of the size of its workflow. -/
def World.IgnoresSize (world : World σ) : Prop :=
  ∀ w e, world.observe w (.event (Event.unsized e)) = world.observe w (.event e)

theorem Clock.world_ignoresSize (network : Http.Request → Http.Reply) (limit : Option Nat) :
    (Clock.world network limit).IgnoresSize :=
  fun _ _ => rfl

/-! ### Where a run can come to -/

namespace Run

/-- The run has come to live nodes only. -/
structure Within (d : Definition) (r : Run) : Prop where
  pending : ∀ v ∈ r.pending, d.Live v
  running : ∀ v ∈ r.running, d.Live v
  outputs : ∀ v fields, r.outputs.get? v = some fields → d.Live v

variable {j j' : Job} {world : World σ} {r r' : Run} {w : σ}

theorem Within.start (j : Job) : (Run.start j).Within j.definition where
  pending v hv := by
    obtain rfl := List.mem_singleton.mp hv
    exact ReflTransGen.refl
  running v hv := nomatch hv
  outputs v fields hv := nomatch hv

theorem Within.enter (h : r.Within j.definition) (id : NodeId) :
    (r.enter id).Within j.definition where
  pending v hv := h.pending v (List.mem_of_mem_erase hv)
  running := h.running
  outputs := h.outputs

theorem Within.launch (h : r.Within j.definition) {id : NodeId} {made : Instance}
    (hchoose : r.choose j = .start id made) : (r.launch j id made).Within j.definition where
  pending := (h.enter id).pending
  running v hv := by
    rcases mem_running_launch.mp hv with hv | rfl
    · exact h.running v hv
    · exact h.pending v (ready_of_choose hchoose).pending
  outputs := h.outputs

theorem Within.conclude (h : r.Within j.definition) (i : Fin r.inFlight.length)
    (outcome : Outcome) : (r.conclude i outcome).Within j.definition where
  pending := h.pending
  running v hv := h.running v (mem_running_of_mem_eraseIdx hv)
  outputs := h.outputs

theorem Within.store (h : r.Within j.definition) {id : NodeId} (hid : j.definition.Live id)
    (output : Output) : (r.store id output).Within j.definition where
  pending := h.pending
  running := h.running
  outputs v fields hv := by
    rw [Run.store, Table.get?_insert] at hv
    split at hv
    · rename_i hsame
      rw [hsame]
      exact hid
    · exact h.outputs v fields hv

theorem Completes.within {cancelled : Bool} {i : Fin r.inFlight.length} {outcome : Outcome}
    (hends : Completes j cancelled r i outcome r') (h : r.Within j.definition) :
    r'.Within j.definition := by
  have hnode := h.running _ (r.node_mem_running i)
  have hrest := h.conclude i outcome
  cases hends with
  | kept _ => exact hrest.store hnode _
  | astray _ _ => exact ⟨hrest.pending, hrest.running, hrest.outputs⟩
  | @followed output judgements targets _ hfollow =>
      have hfollowed : (((r.conclude i (.ok output)).noteAll (judgements.map .judged)).enqueue
          targets).Within j.definition := by
        refine ⟨fun v hv => ?_, hrest.running, hrest.outputs⟩
        rcases mem_enqueue.mp hv with hv | hv
        · exact hrest.pending v hv
        · exact hnode.tail (Job.joins_of_mem_follow (congrArg Prod.snd hfollow) hv)
      exact hfollowed.store hnode output
  | cancelled _ => exact ⟨hrest.pending, hrest.running, hrest.outputs⟩
  | failed _ => exact ⟨hrest.pending, hrest.running, hrest.outputs⟩

/-- No step leads out of the live part. -/
theorem Step.within {s s' : Run × σ} (hstep : Step j world s s') (h : s.1.Within j.definition) :
    s'.1.Within j.definition := by
  cases hstep with
  | cancel _ _ => exact ⟨h.pending, h.running, h.outputs⟩
  | cap _ => exact ⟨h.pending, h.running, h.outputs⟩
  | @missing r w id _ =>
      have hentered := h.enter id
      exact ⟨hentered.pending, hentered.running, hentered.outputs⟩
  | start hchoose => exact h.launch hchoose
  | finish _ _ _ _ => exact (completes_complete j _ _ _ _).within h

theorem within_of_steps {s s' : Run × σ} (hsteps : ReflTransGen (Step j world) s s')
    (h : s.1.Within j.definition) : s'.1.Within j.definition := by
  induction hsteps with
  | refl => exact h
  | tail _ hstep ih => exact hstep.within ih

end Run

/-! ### Jobs with the same live part -/

/-- The jobs ask for the same run, as far as it can come. -/
structure Job.Alike (j j' : Job) : Prop where
  definition : j.definition.Alike j'.definition
  name : j'.definition.name = j.definition.name
  cap : j'.cap = j.cap
  precedes : ∀ a n, j.definition.Live a → j'.plan.precedes a n = j.plan.precedes a n
  instance? : ∀ v, j.definition.Live v → j'.instance? v = j.instance? v
  evaluator : j'.evaluator = j.evaluator
  parallel : j'.parallel = j.parallel
  initial : j'.initial = j.initial

theorem Job.Alike.refl (j : Job) : j.Alike j where
  definition := ⟨rfl, fun _ _ => rfl, fun _ _ => rfl⟩
  name := rfl
  cap := rfl
  precedes _ _ _ := rfl
  instance? _ _ := rfl
  evaluator := rfl
  parallel := rfl
  initial := rfl

namespace Run

variable {j j' : Job} {world : World σ} {r : Run} {w : σ} {tell : List Moment → List Moment}

section

variable (h : j.Alike j') (hr : r.Within j.definition)
include h hr

theorem isReady_retell : (r.retell tell).isReady j' = r.isReady j := by
  funext id
  have hclear : (r.pending ++ r.running).all
      (fun other => other == id || !j'.plan.precedes other id) =
        (r.pending ++ r.running).all (fun other => other == id || !j.plan.precedes other id) := by
    rw [Bool.eq_iff_iff, List.all_eq_true, List.all_eq_true]
    refine forall₂_congr fun other hother => ?_
    rw [h.precedes other id ((List.mem_append.mp hother).elim (hr.pending _) (hr.running _))]
  change (!r.running.contains id && _) = (!r.running.contains id && _)
  rw [← hclear]
  rfl

theorem choose_retell : (r.retell tell).choose j' = r.choose j := by
  have hlimit : j'.limit = j.limit := by rw [Job.limit, Job.limit, h.parallel]
  have hbusy : ((r.retell tell).stop.isSome || (r.retell tell).error.isSome ||
      j'.limit ≤ (r.retell tell).inFlight.length) =
    (r.stop.isSome || r.error.isSome || j.limit ≤ r.inFlight.length) := by
    rw [hlimit]
    rfl
  unfold choose
  rw [hbusy, isReady_retell h hr]
  split
  · rfl
  · have hwaits : (r.retell tell).pending = r.pending := rfl
    rw [hwaits]
    cases hfind : r.pending.find? (r.isReady j) with
    | none => rfl
    | some id =>
        dsimp only
        rw [h.cap, h.instance? id (hr.pending id (List.mem_of_find?_eq_some hfind))]
        rfl

/-- A node that is not live has put out nothing, so it does not matter where its edges lead. -/
theorem inputsOf_retell (id : NodeId) : (r.retell tell).inputsOf j' id = r.inputsOf j id := by
  refine Table.ext_get? fun a => Option.ext fun fields => ?_
  rw [get?_inputsOf, get?_inputsOf]
  refine and_congr_left fun hkept => ?_
  exact h.definition.joins_iff (hr.outputs a fields hkept)

theorem contextOf_retell (id : NodeId) : (r.retell tell).contextOf j' id = r.contextOf j id := by
  rw [contextOf, contextOf, inputsOf_retell h hr, h.initial]
  rfl

theorem dispatch_retell (htell : Retells tell) (world : World σ) (w : σ) :
    dispatch j' world (r.retell tell) w = retellAll tell (dispatch j world r w) := by
  fun_induction dispatch j world r w with
  | case1 r w hchoose =>
      rw [dispatch_eq, choose_retell h hr, hchoose]
      rfl
  | case2 r w id hchoose =>
      rw [dispatch_eq, choose_retell h hr, hchoose]
      rfl
  | case3 r w id hchoose moments =>
      rw [dispatch_eq, choose_retell h hr, hchoose]
      exact Prod.ext (missing_retell htell r id (r.count id + 1) _) rfl
  | case4 r w id made hchoose _ ih =>
      have hcontext : (r.retell tell).contextOf j' id = r.contextOf j id :=
        contextOf_retell h hr id
      rw [dispatch_eq, choose_retell h hr, hchoose]
      dsimp only
      rw [launch_retell htell hcontext, hcontext]
      exact ih (hr.launch hchoose)

end

/-- Turn by turn, runs with the same live part do the same. -/
theorem drive_retell (h : j.Alike j') (htell : Retells tell) (world : World σ)
    (hr : r.Within j.definition) (w : σ) :
    drive j' world (r.retell tell) w = retellAll tell (drive j world r w) := by
  have hinstep : InStep j j' world tell (Within j.definition) (fun _ _ => False) := by
    constructor
    · exact fun _ _ => within_of_steps
    · exact fun r w hr => Or.inl (dispatch_retell h hr htell world w)
    · intro r hr cancelled i outcome
      have hnode := hr.running _ (r.node_mem_running i)
      exact complete_retell htell cancelled i outcome (Job.follow_congr j j' h.evaluator
        (h.definition.node? _ hnode) (h.definition.outgoing _ hnode))
    · exact fun _ _ _ _ hcut _ _ => hcut
  exact (hinstep.drive hr w).resolve_right id

theorem endEvents_retell (h : j.Alike j') (r : Run) (tell tell' : List Moment → List Moment) :
    (r.retell tell').endEvents j' = (r.retell tell).endEvents j := by
  unfold endEvents
  rw [h.cap]
  rfl

/-- Runs that differ only in how they begin to be told come to the same result, if the beginnings
are the same but for the size. -/
theorem unsized_result_retell (h : j.Alike j') (r : Run) {past past' : List Moment}
    (hpast : past'.map Moment.unsized = past.map Moment.unsized) :
    ((r.retell (· ++ past')).result j').unsized = ((r.retell (· ++ past)).result j).unsized := by
  have htrace : ((r.retell (· ++ past')).result j').trace.map Moment.unsized =
      ((r.retell (· ++ past)).result j).trace.map Moment.unsized := by
    dsimp only [result]
    rw [endEvents_retell h r (· ++ past)]
    dsimp only [noteAll, retell]
    rw [List.map_append, List.map_append, List.map_append, List.map_append, hpast]
  change ({ ((r.retell (· ++ past)).result j) with
    trace := ((r.retell (· ++ past')).result j').trace.map Moment.unsized } : Result) = _
  rw [htrace]
  rfl

end Run

namespace Job

variable {j j' : Job} {world : World σ}

theorem Alike.unsized_startEvent (h : j.Alike j') :
    j'.startEvent.unsized = j.startEvent.unsized := by
  dsimp only [startEvent, Event.unsized]
  rw [h.name, h.definition.entry, h.cap]

theorem Alike.start (h : j.Alike j') : Run.start j' = Run.start j := by
  rw [Run.start, Run.start, h.definition.entry]

/-- The runs of both jobs are one and the same, but for how they begin to be told. -/
theorem Alike.final (h : j.Alike j') {w : σ} (hbegin : world.observe w (.event j'.startEvent) =
      world.observe w (.event j.startEvent)) :
    ∃ s : Run × σ, j.final world w = Run.retellAll (· ++ [.event j.startEvent]) s ∧
      j'.final world w = Run.retellAll (· ++ [.event j'.startEvent]) s := by
  have htell : ∀ past, Retells (· ++ past) := fun _ _ _ _ => rfl
  have hstart := Run.Within.start j
  refine ⟨_, Run.drive_retell (Alike.refl j) (htell _) world hstart _, ?_⟩
  rw [Job.final, hbegin, h.start]
  exact Run.drive_retell h (htell _) world hstart _

theorem Alike.unsized_execute (h : j.Alike j') (hworld : world.IgnoresSize) (w : σ) :
    (j'.execute world w).1.unsized = (j.execute world w).1.unsized ∧
      (j'.execute world w).2 = (j.execute world w).2 := by
  have hbegin : world.observe w (.event j'.startEvent) =
      world.observe w (.event j.startEvent) := by
    rw [← hworld w j'.startEvent, h.unsized_startEvent, hworld]
  obtain ⟨s, hfinal, hfinal'⟩ := h.final hbegin
  have hpast : [Moment.event j'.startEvent].map Moment.unsized =
      [Moment.event j.startEvent].map Moment.unsized :=
    congrArg (fun e => [Moment.event e]) h.unsized_startEvent
  constructor
  · rw [execute_fst, execute_fst, hfinal, hfinal']
    exact Run.unsized_result_retell h s.1 hpast
  · rw [execute_snd, execute_snd, hfinal, hfinal']
    dsimp only [Run.retellAll]
    rw [Run.endEvents_retell h s.1 (· ++ [.event j.startEvent])]

/-! ### The jobs of plans -/

variable {c c' : Catalog} {evaluator : Evaluator} {parallel : Nat} {p p' : Plan} {initial : Fields}

/-- The job of running an extension asks for the same run, if the shared nodes are made in the same
way. -/
theorem alike_of_make? (h : p'.definition.Extends p.definition)
    (hprecedes : ∀ a n, p.definition.Live a → p'.precedes a n = p.precedes a n)
    (hshared : ∀ n ∈ p.definition.nodes, c'.instantiate n = c.instantiate n)
    (hj : make? c evaluator parallel p initial = .ok j)
    (hj' : make? c' evaluator parallel p' initial = .ok j') : j.Alike j' := by
  obtain rfl := plan_of_make? hj
  obtain rfl := plan_of_make? hj'
  obtain ⟨hevaluator, hparallel, hinitial⟩ := surroundings_of_make? hj
  obtain ⟨hevaluator', hparallel', hinitial'⟩ := surroundings_of_make? hj'
  refine ⟨h.alike, h.name, h.cap, hprecedes, fun v hv => ?_, hevaluator'.trans hevaluator.symm,
    hparallel'.trans hparallel.symm, hinitial'.trans hinitial.symm⟩
  obtain ⟨i, hi⟩ := exists_instance_of_make? hj hv.declared
  obtain ⟨i', hi'⟩ := exists_instance_of_make? hj' (h.live hv).declared
  obtain ⟨n, hn, rfl, hmade⟩ := exists_node_of_make? hj hi
  obtain ⟨n', hn', hid, hmade'⟩ := exists_node_of_make? hj' hi'
  obtain rfl := List.inj_on_of_nodup_map j'.plan.definition.nodes_nodup hn' (h.nodes.subset hn) hid
  rw [hshared n' hn, hmade] at hmade'
  rw [hi, hi', Except.ok.inj hmade']

end Job

/-! ### Runs of an extension -/

namespace Plan

variable {p p' : Plan}

theorem Sound.precedes_eq_of_alike (hp : p.Sound) (hp' : p'.Sound)
    (h : p.definition.Alike p'.definition) {a : NodeId} (ha : p.definition.Live a) (n : NodeId) :
    p'.precedes a n = p.precedes a n := by
  rw [Bool.eq_iff_iff, hp.precedes_iff_leadsForward, hp'.precedes_iff_leadsForward]
  exact h.leadsForward_path_iff ha

/-- The runs of the plans, each on nodes made in its catalog, come to the same, but for what they
tell of the size of the workflow when they start: with the same evaluator, initial state and limit
of executions in flight, and in a world that cancels them and lets their executions end in the same
way after the same history. -/
def RunsAs (p' : Plan) (c' : Catalog) (p : Plan) (c : Catalog) : Prop :=
  ∀ (evaluator : Evaluator) (parallel : Nat) (initial : Fields) (σ : Type) (world : World σ)
    (w : σ), world.IgnoresSize →
      (p'.execute c' evaluator parallel initial world w).1.unsized =
        (p.execute c evaluator parallel initial world w).1.unsized ∧
      (p'.execute c' evaluator parallel initial world w).2 =
        (p.execute c evaluator parallel initial world w).2

theorem runsAs_of_extends {c c' : Catalog} (h : p'.definition.Extends p.definition)
    (hprecedes : ∀ a n, p.definition.Live a → p'.precedes a n = p.precedes a n)
    (hshared : ∀ n ∈ p.definition.nodes, c'.instantiate n = c.instantiate n)
    (hadded : ∀ n ∈ p'.definition.nodes, n ∈ p.definition.nodes ∨ ∃ i, c'.instantiate n = .ok i) :
    p'.RunsAs c' p c := by
  intro evaluator parallel initial σ world w hworld
  have hfails : ∀ e, Job.make? c' evaluator parallel p' initial = .error e ↔
      Job.make? c evaluator parallel p initial = .error e := by
    intro e
    rw [Job.make?_eq_error_iff, Job.make?_eq_error_iff]
    exact Job.instancesOf_eq_error_iff h.nodes (List.Nodup.of_map _ p'.definition.nodes_nodup)
      hshared hadded
  unfold execute
  cases hj : Job.make? c evaluator parallel p initial with
  | error e =>
      rw [(hfails e).mpr hj]
      exact ⟨rfl, rfl⟩
  | ok j =>
      cases hj' : Job.make? c' evaluator parallel p' initial with
      | error e =>
          rw [(hfails e).mp hj'] at hj
          cases hj
      | ok j' => exact (Job.alike_of_make? h hprecedes hshared hj hj').unsized_execute hworld w

end Plan

/-- What the entry point does not lead to does not matter.  Let a workflow be extended by nodes and
edges, also by edges into its live part, such that the entry point does not lead to the source of
any edge that was added.  If there are plans of both, then the same nodes are live, and a live node
precedes the same nodes in both plans.  And if the shared nodes are made in the same way, the runs
of both come to the same, with every start, every end, every judgement and every event, but for the
number of nodes and whether there are loops in the event that a run starts with.  The nodes that
were added can be made in the catalog of their plan; in another one they have to be makeable too. -/
theorem Definition.unreachable_parts_do_not_matter {d d' : Definition} (hextends : d'.Extends d)
    {c c' : Catalog} {strict strict' : Bool} {p p' : Plan} (hplan : d.plan c strict = .ok p)
    (hplan' : d'.plan c' strict' = .ok p') :
    (∀ v, d'.Live v ↔ d.Live v) ∧
    (∀ a n, d.Live a → p'.precedes a n = p.precedes a n) ∧
    ((∀ n ∈ d.nodes, c'.instantiate n = c.instantiate n) → p'.RunsAs c' p c) ∧
    ∀ r r' : Catalog, (∀ n ∈ d.nodes, r'.instantiate n = r.instantiate n) →
      (∀ n ∈ d'.nodes, n ∈ d.nodes ∨ ∃ i, r'.instantiate n = .ok i) → p'.RunsAs r' p r := by
  have hmade := exists_instance_of_plan hplan'
  obtain ⟨rfl, hsound⟩ := sound_of_plan hplan
  obtain ⟨rfl, hsound'⟩ := sound_of_plan hplan'
  have hprecedes : ∀ a n, p.definition.Live a → p'.precedes a n = p.precedes a n :=
    fun a n ha => hsound.precedes_eq_of_alike hsound' hextends.alike ha n
  refine ⟨fun v => hextends.alike.live_iff, hprecedes, fun hshared => ?_, fun r r' => ?_⟩
  · refine Plan.runsAs_of_extends hextends hprecedes hshared fun n hn => Or.inr ?_
    obtain ⟨i, hi, _⟩ := hmade n hn
    exact ⟨i, hi⟩
  · exact Plan.runsAs_of_extends hextends hprecedes

namespace Definition

/-- The workflow `retry` with an audit that nobody calls for.  One can appeal against it, and it
leads to the work. -/
def auditedRetry : Definition :=
  .plain "retry"
    [.plain "audit" "condition", .plain "work" "step", .plain "appeal" "step",
      .plain "check" "condition", .plain "end" "step"]
    [.plain "a1" "audit" "appeal", .plain "e1" "work" "check", .plain "a2" "appeal" "audit",
      .guarded "e2" "check" "work" "false", .guarded "e3" "check" "end" "true",
      .plain "a3" "audit" "work"]
    "work" 3

def auditedPlan : Plan :=
  ⟨auditedRetry, ["audit", "work", "appeal", "check", "end"], auditedRetry.loops,
    auditedRetry.validate secondTimeKinds,
    Table.ofList [("audit", []), ("work", ["audit"]), ("appeal", ["audit"]),
      ("check", ["audit", "work"]), ("end", ["audit", "check", "work"])]⟩

theorem auditedRetry_extends : auditedRetry.Extends retry where
  name := rfl
  entry := rfl
  cap := rfl
  nodes := .cons _ (.cons_cons _ (.cons _ (.cons_cons _ (.cons_cons _ .slnil))))
  edges := .cons _ (.cons_cons _ (.cons _ (.cons_cons _ (.cons_cons _ (.cons _ .slnil)))))
  unreached e he := by
    have hreach : auditedRetry.reachable auditedRetry.entry = ["work", "check", "end"] := by cbv
    have hedges : auditedRetry.edges.filter (fun e => e.source ∈ ["work", "check", "end"]) =
        retry.edges := rfl
    by_cases hsource : e.source ∈ ["work", "check", "end"]
    · left
      rw [← hedges]
      exact List.mem_filter.mpr ⟨he, decide_eq_true hsource⟩
    · right
      intro hlive
      rw [← mem_reachable_entry, hreach] at hlive
      exact hsource hlive

/-- The audit precedes the work, but the work does not wait for it. -/
theorem auditedRetry_runs_as_retry :
    auditedRetry.plan secondTimeKinds false = .ok auditedPlan ∧
    auditedPlan.precedes "audit" "work" = true ∧
    (∀ n, auditedPlan.precedes "work" n = retryJob.plan.precedes "work" n) ∧
    ((auditedPlan.execute secondTimeKinds Guard.byVerdict 2 .empty
        (Clock.world (fun _ => .unreachable) none) (Clock.start none none)).1.unsized =
      (retryJob.plan.execute secondTimeKinds Guard.byVerdict 2 .empty
        (Clock.world (fun _ => .unreachable) none) (Clock.start none none)).1.unsized) ∧
    auditedPlan.RunsAs bareKinds retryJob.plan bareKinds := by
  have hloops : auditedRetry.loops = [⟨["work", "check"], "e2", true, some "check"⟩,
      ⟨["audit", "appeal"], "a2", true, some "audit"⟩] := by cbv
  have hplan : auditedRetry.plan secondTimeKinds false = .ok auditedPlan :=
    plan_eq_ok hloops rfl rfl (by decide +kernel) rfl
  obtain ⟨_, hprecedes, hruns, hothers⟩ :=
    unreachable_parts_do_not_matter auditedRetry_extends plan_retry hplan
  have hbare : ∀ n ∈ auditedRetry.nodes, ∃ i, bareKinds.instantiate n = .ok i := by
    intro n hn
    have hkind : n.kind = "step" ∨ n.kind = "condition" := by
      revert n
      decide
    rcases hkind with hkind | hkind
    · exact ⟨_, by rw [Catalog.instantiate, hkind]; rfl⟩
    · exact ⟨_, by rw [Catalog.instantiate, hkind]; rfl⟩
  refine ⟨hplan, by decide +kernel, fun n => hprecedes "work" n ReflTransGen.refl, ?_, ?_⟩
  · exact (hruns (fun _ _ => rfl) Guard.byVerdict 2 .empty Clock _ _
      (Clock.world_ignoresSize (fun _ => .unreachable) none)).1
  · exact hothers bareKinds bareKinds (fun _ _ => rfl) fun n hn => Or.inr (hbare n hn)

end Definition
end Workflow
