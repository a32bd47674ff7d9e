import Workflow.Proofs.Run.Step
import Workflow.Run.Clock
/-!
# Activations

A node runs because it is the entry point, or because an execution that ended since it last started
has led to it.  When a run completes, everything that an execution has led to has run afterwards.
The trace of a run tells of both: it lists what happened, the latest first.
-/
namespace Workflow

/-- The nodes whose executions started in a trace, the latest first. -/
def dispatches (trace : List Moment) : List NodeId :=
  trace.filterMap fun m => match m with
    | .dispatched id _ _ => some id
    | _ => none

@[simp] theorem dispatches_append (new trace : List Moment) :
    dispatches (new ++ trace) = dispatches new ++ dispatches trace :=
  List.filterMap_append

theorem mem_dispatches {trace : List Moment} {id : NodeId} :
    id ∈ dispatches trace ↔ ∃ iteration inputs, .dispatched id iteration inputs ∈ trace := by
  simp only [dispatches, List.mem_filterMap]
  constructor
  · rintro ⟨m, hm, hid⟩
    split at hid
    · obtain rfl := Option.some.inj hid
      exact ⟨_, _, hm⟩
    · cases hid
  · rintro ⟨iteration, inputs, hm⟩
    exact ⟨_, hm, rfl⟩

@[simp] theorem dispatches_repeats (id : NodeId) (iteration : Nat) :
    dispatches (Run.repeats id iteration).reverse = [] := by
  unfold Run.repeats
  split <;> rfl

@[simp] theorem dispatches_judged (judgements : List Judgement) :
    dispatches (judgements.map Moment.judged).reverse = [] := by
  simp [dispatches]

@[simp] theorem dispatches_events (events : List Event) :
    dispatches (events.map Moment.event) = [] := by
  simp [dispatches]

@[simp] theorem dispatches_ended (id : NodeId) (outcome : Outcome) :
    dispatches [.ended id outcome] = [] :=
  rfl

/-- Where nothing starts, there is no start to be found. -/
theorem split_of_dispatches_eq_nil {new trace later earlier : List Moment} {id : NodeId}
    {iteration : Nat} {inputs : Inputs} (hnew : dispatches new = [])
    (hsplit : new ++ trace = later ++ .dispatched id iteration inputs :: earlier) :
    ∃ middle, later = new ++ middle ∧
      trace = middle ++ .dispatched id iteration inputs :: earlier := by
  rcases split_append hsplit with ⟨middle, hlater, htrace⟩ | ⟨middle, hstarted, _⟩
  · exact ⟨middle, hlater, htrace⟩
  · have hid : id ∈ dispatches new := by
      rw [mem_dispatches, hstarted]
      exact ⟨iteration, inputs, List.mem_append_right later List.mem_cons_self⟩
    rw [hnew] at hid
    cases hid

namespace Job

variable {j : Job} {new trace : List Moment} {m : NodeId}

/-- Since this node last started, an execution has ended that leads to it. -/
def Activated (j : Job) (trace : List Moment) (m : NodeId) : Prop :=
  ∃ later n output earlier targets, trace = later ++ .ended n (.ok output) :: earlier ∧
    m ∉ dispatches later ∧
    (j.follow n output ((dispatches earlier).count n)).2 = .ok targets ∧ m ∈ targets

/-- What has happened so far is reason for this node to run. -/
def Called (j : Job) (trace : List Moment) (m : NodeId) : Prop :=
  (dispatches trace = [] → m = j.definition.entry) ∧ (dispatches trace ≠ [] → j.Activated trace m)

/-- Every start in a trace had a reason. -/
def Founded (j : Job) (trace : List Moment) : Prop :=
  ∀ later id iteration inputs earlier,
    trace = later ++ .dispatched id iteration inputs :: earlier → j.Called earlier id

/-- What an execution has led to has started later in the trace or is still to run. -/
def Heard (j : Job) (trace : List Moment) (pending : List NodeId) : Prop :=
  ∀ later n output earlier, trace = later ++ .ended n (.ok output) :: earlier →
    ∃ targets, (j.follow n output ((dispatches earlier).count n)).2 = .ok targets ∧
      ∀ t ∈ targets, t ∈ pending ∨ t ∈ dispatches later

theorem Activated.append (h : j.Activated trace m) (hnew : m ∉ dispatches new) :
    j.Activated (new ++ trace) m := by
  obtain ⟨later, n, output, earlier, targets, rfl, hlater, hfollow, hm⟩ := h
  refine ⟨new ++ later, n, output, earlier, targets, (List.append_assoc ..).symm, ?_, hfollow, hm⟩
  rw [dispatches_append, List.mem_append, not_or]
  exact ⟨hnew, hlater⟩

theorem Called.append (h : j.Called trace m) (hnew : dispatches new = []) :
    j.Called (new ++ trace) m := by
  unfold Called
  rw [dispatches_append, hnew, List.nil_append]
  refine ⟨h.1, fun hbegun => (h.2 hbegun).append ?_⟩
  rw [hnew]
  exact List.not_mem_nil

/-- A reason to run outlasts the start of another node.  Before the first start only the entry point
has one, so then there is no other node. -/
theorem Called.append_dispatch {id : NodeId} (h : j.Called trace m) (hid : j.Called trace id)
    (hne : m ≠ id) (hnew : dispatches new = [id]) : j.Called (new ++ trace) m := by
  have hbegun : dispatches trace ≠ [] := by
    intro hnone
    exact hne ((h.1 hnone).trans (hid.1 hnone).symm)
  refine ⟨?_, fun _ => (h.2 hbegun).append ?_⟩
  · rw [dispatches_append, hnew]
    exact nofun
  · rw [hnew, List.mem_singleton]
    exact hne

theorem Founded.append (h : j.Founded trace) (hnew : dispatches new = []) :
    j.Founded (new ++ trace) := by
  intro later id iteration inputs earlier hsplit
  obtain ⟨middle, _, htrace⟩ := split_of_dispatches_eq_nil hnew hsplit
  exact h middle id iteration inputs earlier htrace

theorem Founded.cons {iteration : Nat} {inputs : Inputs} (h : j.Founded trace)
    (hm : j.Called trace m) : j.Founded (.dispatched m iteration inputs :: trace) := by
  intro later id iteration' inputs' earlier hsplit
  rcases List.cons_eq_append_iff.mp hsplit with ⟨rfl, heq⟩ | ⟨middle, rfl, htrace⟩
  · obtain ⟨hmoment, rfl⟩ := List.cons.inj heq
    injection hmoment with hid
    rw [hid]
    exact hm
  · exact h middle id iteration' inputs' earlier htrace

/-- As long as no execution ends, what is pending may only start. -/
theorem Heard.append {pending pending' : List NodeId} (h : j.Heard trace pending)
    (hnew : ∀ n output, .ended n (.ok output) ∉ new)
    (hpending : ∀ t ∈ pending, t ∈ pending' ∨ t ∈ dispatches new) :
    j.Heard (new ++ trace) pending' := by
  intro later n output earlier hsplit
  rcases split_append hsplit with ⟨middle, rfl, htrace⟩ | ⟨middle, hnew', _⟩
  · obtain ⟨targets, hfollow, htargets⟩ := h middle n output earlier htrace
    refine ⟨targets, hfollow, fun t ht => ?_⟩
    rw [dispatches_append, List.mem_append]
    rcases htargets t ht with hwaits | hruns
    · exact (hpending t hwaits).imp_right Or.inl
    · exact Or.inr (Or.inr hruns)
  · have hmem : .ended n (.ok output) ∈ new := by
      rw [hnew']
      exact List.mem_append_right later List.mem_cons_self
    exact absurd hmem (hnew n output)

theorem Heard.cons {pending pending' targets : List NodeId} {n : NodeId} {output : Output}
    (h : j.Heard trace pending)
    (hfollow : (j.follow n output ((dispatches trace).count n)).2 = .ok targets)
    (htargets : ∀ t ∈ targets, t ∈ pending') (hpending : ∀ t ∈ pending, t ∈ pending') :
    j.Heard (.ended n (.ok output) :: trace) pending' := by
  intro later n' output' earlier hsplit
  rcases List.cons_eq_append_iff.mp hsplit with ⟨rfl, heq⟩ | ⟨middle, rfl, htrace⟩
  · obtain ⟨hmoment, rfl⟩ := List.cons.inj heq
    injection hmoment with hn houtcome
    injection houtcome with houtput
    subst hn houtput
    exact ⟨targets, hfollow, fun t ht => Or.inl (htargets t ht)⟩
  · obtain ⟨targets, hfollow, hheard⟩ := h middle n' output' earlier htrace
    exact ⟨targets, hfollow, fun t ht => (hheard t ht).imp_left (hpending t)⟩

end Job

namespace Run

variable {j : Job} {r r' : Run} {σ : Type} {world : World σ}

/-- What every run keeps, whatever its nodes and the world do. -/
structure Accounted (j : Job) (r : Run) : Prop where
  founded : j.Founded r.trace
  pending_nodup : r.pending.Nodup
  called : ∀ m ∈ r.pending, j.Called r.trace m
  begun : ∀ m ∈ r.running, m ∈ dispatches r.trace
  counted : r.error = none → ∀ id, r.count id = (dispatches r.trace).count id
  entered : r.stop = none → r.error = none →
    j.definition.entry ∈ r.pending ∨ j.definition.entry ∈ dispatches r.trace
  heard : r.stop = none → r.error = none → j.Heard r.trace r.pending

theorem accounted_start (j : Job) : ((start j).noteAll [.event j.startEvent]).Accounted j where
  founded := by
    have hnone : j.Founded [] := by simp [Job.Founded]
    exact hnone.append (show dispatches [.event j.startEvent] = [] from rfl)
  pending_nodup := List.nodup_singleton _
  called m hm := ⟨fun _ => List.mem_singleton.mp hm, fun h => absurd rfl h⟩
  begun := nofun
  counted _ _ := rfl
  entered _ _ := Or.inl List.mem_cons_self
  heard _ _ := by
    have hnone : j.Heard [] [] := by simp [Job.Heard]
    have hquiet : ∀ n output, Moment.ended n (.ok output) ∉ [Moment.event j.startEvent] := by simp
    exact hnone.append hquiet nofun

/-- A step that breaks the run off leaves nothing to be heard, and starts nothing. -/
theorem Accounted.broken (h : r.Accounted j) (new : List Moment)
    (htrace : r'.trace = new ++ r.trace) (hnew : dispatches new = [])
    (hpending : r'.pending.Sublist r.pending) (hrunning : ∀ m ∈ r'.running, m ∈ r.running)
    (hcounts : r'.error = none → r.error = none ∧ r'.counts = r.counts)
    (hbroken : r'.stop = none → r'.error ≠ none) : r'.Accounted j where
  founded := by
    rw [htrace]
    exact h.founded.append hnew
  pending_nodup := h.pending_nodup.sublist hpending
  called m hm := by
    rw [htrace]
    exact (h.called m (hpending.subset hm)).append hnew
  begun m hm := by
    rw [htrace, dispatches_append, List.mem_append]
    exact Or.inr (h.begun m (hrunning m hm))
  counted herror id := by
    obtain ⟨herror, hcounts⟩ := hcounts herror
    rw [htrace, dispatches_append, hnew, List.nil_append, ← h.counted herror]
    simp only [count, hcounts]
  entered hstop herror := absurd herror (hbroken hstop)
  heard hstop herror := absurd herror (hbroken hstop)

theorem dispatches_launch (j : Job) (r : Run) (id : NodeId) (made : Instance) :
    dispatches (r.launch j id made).trace = id :: dispatches r.trace := by
  rw [trace_launch, ← List.singleton_append, dispatches_append, dispatches_append,
    dispatches_repeats]
  rfl

theorem mem_pending_launch_or {id m : NodeId} (hm : m ∈ r.pending) (made : Instance) :
    m ∈ (r.launch j id made).pending ∨ m = id := by
  by_cases hne : m = id
  · exact Or.inr hne
  · exact Or.inl ((List.mem_erase_of_ne hne).mpr hm)

/-- The reason to run is used up for the node that starts, and outlasts the start for the others. -/
theorem Accounted.called_launch (h : r.Accounted j) {id m : NodeId} (hid : id ∈ r.pending)
    {made : Instance} (hm : m ∈ (r.launch j id made).pending) :
    j.Called (r.launch j id made).trace m := by
  obtain ⟨hne, hwaits⟩ := (mem_pending_launch h.pending_nodup).mp hm
  rw [trace_launch, ← List.singleton_append, ← List.append_assoc]
  refine (h.called m hwaits).append_dispatch (h.called id hid) hne ?_
  rw [dispatches_append, dispatches_repeats]
  rfl

theorem Accounted.heard_launch (h : r.Accounted j) (hstop : r.stop = none)
    (herror : r.error = none) (id : NodeId) (made : Instance) :
    j.Heard (r.launch j id made).trace (r.launch j id made).pending := by
  rw [trace_launch, ← List.singleton_append, ← List.append_assoc]
  refine (h.heard hstop herror).append ?_ ?_
  · intro n output
    unfold repeats
    split <;> simp
  · intro t ht
    rw [dispatches_append, dispatches_repeats, List.append_nil]
    exact (mem_pending_launch_or ht made).imp_right List.mem_singleton.mpr

theorem Accounted.launch (h : r.Accounted j) {id : NodeId} (hid : id ∈ r.pending)
    (made : Instance) : (r.launch j id made).Accounted j where
  founded := by
    rw [trace_launch]
    exact (h.founded.append (dispatches_repeats ..)).cons
      ((h.called id hid).append (dispatches_repeats ..))
  pending_nodup := h.pending_nodup.erase id
  called _ hm := h.called_launch hid hm
  begun m hm := by
    rw [dispatches_launch, List.mem_cons]
    rcases mem_running_launch.mp hm with hruns | rfl
    · exact Or.inr (h.begun m hruns)
    · exact Or.inl rfl
  counted herror other := by
    rw [dispatches_launch, List.count_cons, ← h.counted herror, count_launch]
    by_cases hother : other = id
    · simp [hother]
    · simp [hother, Ne.symm hother]
  entered hstop herror := by
    rw [dispatches_launch, List.mem_cons]
    rcases h.entered hstop herror with hwaits | hruns
    · exact (mem_pending_launch_or hwaits made).imp_right Or.inl
    · exact Or.inr (Or.inr hruns)
  heard hstop herror := h.heard_launch hstop herror id made

section

variable {i : Fin r.inFlight.length} {output : Output} {judgements : List Judgement}
  {targets : List NodeId}

/-- The end of an execution starts nothing. -/
theorem Completes.dispatches_eq {cancelled : Bool} {outcome : Outcome}
    (h : Completes j cancelled r i outcome r') : dispatches r'.trace = dispatches r.trace := by
  obtain ⟨judgements, htrace⟩ := h.trace_eq
  rw [htrace, List.append_cons, dispatches_append, dispatches_append, dispatches_judged,
    dispatches_ended, List.append_nil, List.nil_append]

theorem dispatches_proceed :
    dispatches (r.proceed i output judgements targets).trace = dispatches r.trace := by
  rw [trace_proceed, List.append_cons, dispatches_append, dispatches_append, dispatches_judged,
    dispatches_ended, List.append_nil, List.nil_append]

/-- What the execution leads to has its end as a reason to run, which comes after some start. -/
theorem Accounted.called_proceed (h : r.Accounted j)
    (hfollow : (j.follow (r.inFlight.get i).node output
      ((dispatches r.trace).count (r.inFlight.get i).node)).2 = .ok targets) {m : NodeId}
    (hm : m ∈ (r.proceed i output judgements targets).pending) :
    j.Called (r.proceed i output judgements targets).trace m := by
  rcases mem_pending_proceed.mp hm with hwaits | htarget
  · rw [trace_proceed, List.append_cons]
    refine (h.called m hwaits).append ?_
    rw [dispatches_append, dispatches_judged, dispatches_ended, List.append_nil]
  · have hbegun : dispatches r.trace ≠ [] := List.ne_nil_of_mem (h.begun _ (node_mem_running r i))
    refine ⟨fun hnone => absurd (dispatches_proceed.symm.trans hnone) hbegun, fun _ => ?_⟩
    refine ⟨_, _, _, _, targets, trace_proceed .., ?_, hfollow, htarget⟩
    rw [dispatches_judged]
    exact List.not_mem_nil

theorem Accounted.heard_proceed (h : r.Accounted j) (hstop : r.stop = none)
    (herror : r.error = none)
    (hfollow : (j.follow (r.inFlight.get i).node output
      ((dispatches r.trace).count (r.inFlight.get i).node)).2 = .ok targets) :
    j.Heard (r.proceed i output judgements targets).trace
      (r.proceed i output judgements targets).pending := by
  have hended : j.Heard (.ended (r.inFlight.get i).node (.ok output) :: r.trace)
      (r.proceed i output judgements targets).pending :=
    (h.heard hstop herror).cons hfollow (fun t ht => mem_pending_proceed.mpr (Or.inr ht))
      fun t ht => mem_pending_proceed.mpr (Or.inl ht)
  rw [trace_proceed]
  exact hended.append (by simp) fun t ht => Or.inl ht

theorem Accounted.proceed (h : r.Accounted j) (hstop : r.stop = none) (herror : r.error = none)
    (hfollow : j.follow (r.inFlight.get i).node output (r.count (r.inFlight.get i).node) =
      (judgements, .ok targets)) : (r.proceed i output judgements targets).Accounted j := by
  have hfollowed : (j.follow (r.inFlight.get i).node output
      ((dispatches r.trace).count (r.inFlight.get i).node)).2 = .ok targets := by
    rw [← h.counted herror, hfollow]
  exact {
    founded := by
      rw [trace_proceed, List.append_cons]
      refine h.founded.append ?_
      rw [dispatches_append, dispatches_judged, dispatches_ended, List.append_nil]
    pending_nodup := enqueue_nodup h.pending_nodup
    called := fun _ hm => h.called_proceed hfollowed hm
    begun := fun m hm => by
      rw [dispatches_proceed]
      exact h.begun m (mem_running_of_mem_eraseIdx hm)
    counted := fun _ id => by
      rw [dispatches_proceed]
      exact h.counted herror id
    entered := fun _ _ => by
      rw [dispatches_proceed]
      exact (h.entered hstop herror).imp_left fun hwaits => mem_pending_proceed.mpr (Or.inl hwaits)
    heard := fun _ _ => h.heard_proceed hstop herror hfollowed }

end

theorem Accounted.completes (h : r.Accounted j) (herror : r.error = none) {cancelled : Bool}
    {i : Fin r.inFlight.length} {outcome : Outcome}
    (hcompletes : Completes j cancelled r i outcome r') : r'.Accounted j := by
  cases hcompletes with
  | kept hstop =>
      exact h.broken [_] rfl rfl (List.Sublist.refl _)
        (fun _ => mem_running_of_mem_eraseIdx) (fun _ => ⟨herror, rfl⟩)
        fun hgoes => absurd hgoes hstop
  | @astray output judgements e hstop hfollow =>
      refine h.broken ((judgements.map Moment.judged).reverse ++ [_]) (List.append_cons ..) ?_
        (List.Sublist.refl _) (fun _ => mem_running_of_mem_eraseIdx) nofun
        fun _ => Option.some_ne_none _
      rw [dispatches_append, dispatches_judged]
      rfl
  | followed hstop hfollow => exact h.proceed hstop herror hfollow
  | cancelled hcancelled =>
      exact h.broken [_] rfl rfl (List.Sublist.refl _)
        (fun _ => mem_running_of_mem_eraseIdx) (fun _ => ⟨herror, rfl⟩) nofun
  | failed hf =>
      exact h.broken [_] rfl rfl (List.Sublist.refl _)
        (fun _ => mem_running_of_mem_eraseIdx) nofun fun _ => Option.some_ne_none _

theorem Accounted.step {w w' : σ} (h : r.Accounted j) (hstep : Step j world (r, w) (r', w')) :
    r'.Accounted j := by
  cases hstep with
  | cancel hstop hcancelled =>
      exact h.broken [] rfl rfl (List.Sublist.refl _) (fun _ hm => hm)
        (fun herror => ⟨herror, rfl⟩) nofun
  | cap hchoose =>
      exact h.broken [] rfl rfl (List.Sublist.refl _) (fun _ hm => hm)
        (fun herror => ⟨herror, rfl⟩) nofun
  | missing hchoose =>
      exact h.broken _ rfl (dispatches_repeats ..) List.erase_sublist (fun _ hm => hm) nofun
        fun _ => Option.some_ne_none _
  | start hchoose =>
      cases chooses_of_eq hchoose with
      | start hready hcap hmade => exact h.launch hready.pending _
  | finish herror hidle hne hnext =>
      exact h.completes herror (completes_complete j (world.cancelled w') r _ _)

end Run

/-! ### Every activation is answered -/

variable {σ : Type}

theorem Job.Passes.accounted {j : Job} {world : World σ} {w : σ} {s : Run × σ}
    (h : j.Passes world w s) : s.1.Accounted j :=
  h.induction (P := fun s => s.1.Accounted j) (Run.accounted_start j)
    fun _ _ _ hstep haccounted => haccounted.step hstep

theorem Job.accounted_final (j : Job) (world : World σ) (w : σ) :
    (j.final world w).1.Accounted j :=
  (j.passes_final world w).accounted

/-- How a run ended is told by events only. -/
theorem Run.result_trace (j : Job) (r : Run) :
    ∃ told : List Event, (r.result j).trace = told.map Moment.event ++ r.trace :=
  ⟨(r.endEvents j).reverse, by simp only [result, noteAll, List.map_reverse]⟩

/-- The end of a run starts nothing. -/
theorem Job.dispatches_execute (j : Job) (world : World σ) (w : σ) :
    dispatches (j.execute world w).1.trace = dispatches (j.final world w).1.trace := by
  obtain ⟨told, htrace⟩ := Run.result_trace j (j.final world w).1
  rw [execute_fst, htrace, dispatches_append, dispatches_events, List.nil_append]

/-- No activation is lost, none is made up, and none is stuck, whatever the nodes and conditions do,
however many executions may be in flight and in whatever order they end.  When a run completes,
nothing is left to run, and whatever an execution has led to has started after it.  In every run the
entry point starts first, and later a node starts only when an execution that ended since its last
start has led to it. -/
theorem Job.activations_answered {d : Definition} {c : Catalog} {strict : Bool} {j : Job}
    (hplan : d.plan c strict = .ok j.plan) (world : World σ) (w : σ) :
    ((j.execute world w).1.status = .completed →
      (j.final world w).1.pending = [] ∧
      j.definition.entry ∈ dispatches (j.execute world w).1.trace ∧
      ∀ later n output earlier,
        (j.execute world w).1.trace = later ++ .ended n (.ok output) :: earlier →
        ∃ targets, (j.follow n output ((dispatches earlier).count n)).2 = .ok targets ∧
          ∀ t ∈ targets, t ∈ dispatches later) ∧
    ∀ later m iteration inputs earlier,
      (j.execute world w).1.trace = later ++ .dispatched m iteration inputs :: earlier →
      (dispatches earlier = [] → m = j.definition.entry) ∧
      (dispatches earlier ≠ [] → j.Activated earlier m) := by
  have haccounted := j.accounted_final world w
  obtain ⟨told, htrace⟩ := Run.result_trace j (j.final world w).1
  have htold : dispatches (told.map Moment.event) = [] := by simp [dispatches]
  rw [Job.execute_fst, htrace]
  refine ⟨fun hstatus => ?_, ?_⟩
  · obtain ⟨herror, hstop⟩ := Run.status_eq_completed_iff.mp hstatus
    obtain ⟨_, hpending⟩ := Job.final_of_completed (Definition.sound_of_plan hplan).2 herror hstop
    have hentered := haccounted.entered hstop herror
    have hheard := haccounted.heard hstop herror
    rw [hpending] at hentered hheard
    refine ⟨hpending, ?_, ?_⟩
    · rw [dispatches_append, htold]
      exact hentered.resolve_left List.not_mem_nil
    · intro later n output earlier hsplit
      have hall : j.Heard (told.map Moment.event ++ (j.final world w).1.trace) [] :=
        hheard.append (by simp) nofun
      obtain ⟨targets, hfollow, htargets⟩ := hall later n output earlier hsplit
      exact ⟨targets, hfollow, fun t ht => (htargets t ht).resolve_left List.not_mem_nil⟩
  · exact haccounted.founded.append htold

/-- A step that is checked and done again until the check passes. -/
def retry : Definition :=
  .plain "retry" [.plain "work" "step", .plain "check" "condition", .plain "end" "step"]
    [.plain "e1" "work" "check", .guarded "e2" "check" "work" "false",
      .guarded "e3" "check" "end" "true"]
    "work" 3

theorem retry_loops : retry.loops = [⟨["work", "check"], "e2", true, some "check"⟩] := by cbv

/-- A node that ends at once, with a verdict that is true the second time. -/
def secondTime : Instance where
  kind := "step"
  problems := []
  execute c := .done (.ok (.ofList [("result", .bool (c.iteration == 2))]))

/-- A catalog in which every node of `retry` is that node. -/
def secondTimeKinds : Catalog where
  kinds := Table.ofList [("step", ⟨"step", .bare "step", fun _ => .ok secondTime⟩),
    ("condition", ⟨"condition", .bare "condition", fun _ => .ok secondTime⟩)]

/-- The run of `retry` on two nodes at a time. -/
def retryJob : Job where
  plan := ⟨retry, ["work", "check", "end"], retry.loops, retry.validate secondTimeKinds,
    Table.ofList [("work", []), ("check", ["work"]), ("end", ["check", "work"])]⟩
  instance? id := if id ∈ retry.ids then some secondTime else none
  instance_declared id _ h := by
    by_contra hid
    rw [if_neg hid] at h
    cases h
  evaluator := Guard.byVerdict
  parallel := 2
  initial := .empty

theorem plan_retry : retry.plan secondTimeKinds false = .ok retryJob.plan :=
  Definition.plan_eq_ok retry_loops rfl rfl (by decide +kernel) rfl

/-- The work is done twice, and nothing is left when the run completes. -/
theorem retry_answered :
    dispatches (retryJob.execute (Clock.world (fun _ => .unreachable) none)
      (Clock.start none none)).1.trace = ["end", "check", "work", "check", "work"] ∧
    (retryJob.final (Clock.world (fun _ => .unreachable) none)
      (Clock.start none none)).1.pending = [] := by
  have hcompleted : (retryJob.execute (Clock.world (fun _ => .unreachable) none)
      (Clock.start none none)).1.status = .completed := by decide +kernel
  have hanswered := Job.activations_answered plan_retry (Clock.world (fun _ => .unreachable) none)
    (Clock.start none none)
  exact ⟨by decide +kernel, (hanswered.1 hcompleted).1⟩

end Workflow
