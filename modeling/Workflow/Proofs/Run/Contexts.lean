import Workflow.Proofs.Run.Outputs
import Workflow.Proofs.Run.Producers
/-!
# What a node is given when it starts

A node that starts is told how often it has run with this time, and is given the latest outputs of
the nodes that lead to it.  Nothing that precedes it is left to run or in flight then, so none of
these outputs is about to be replaced by one of the same pass.
-/
namespace Workflow

/-- The executions that started in a trace, in the order in which they did: the node, the number of
the execution, and its inputs. -/
def starts (trace : List Moment) : List (NodeId × Nat × Inputs) :=
  trace.reverse.filterMap fun m => match m with
    | .dispatched id iteration inputs => some (id, iteration, inputs)
    | _ => none

theorem mem_starts {trace : List Moment} {id : NodeId} {iteration : Nat} {inputs : Inputs} :
    (id, iteration, inputs) ∈ starts trace ↔ .dispatched id iteration inputs ∈ trace := by
  rw [starts, List.mem_filterMap]
  constructor
  · intro ⟨m, hm, hstart⟩
    split at hstart
    · cases hstart
      exact List.mem_reverse.mp hm
    · cases hstart
  · intro hm
    exact ⟨_, List.mem_reverse.mpr hm, rfl⟩

theorem starts_append (new trace : List Moment) :
    starts (new ++ trace) = starts trace ++ starts new := by
  simp [starts]

theorem starts_eq_nil {new : List Moment} (h : dispatches new = []) : starts new = [] := by
  apply List.eq_nil_iff_forall_not_mem.mpr
  intro ⟨id, iteration, inputs⟩ hmem
  have hid : id ∈ dispatches new := mem_dispatches.mpr ⟨iteration, inputs, mem_starts.mp hmem⟩
  rw [h] at hid
  cases hid

namespace Run

variable {j : Job} {r : Run}

/-- The inputs of a node are the outputs kept of the nodes that lead to it. -/
theorem get?_inputsOf {id a : NodeId} {fields : Fields} :
    (r.inputsOf j id).get? a = some fields ↔
      j.definition.Joins a id ∧ r.outputs.get? a = some fields := by
  have hmem : ∀ a fields, (a, fields) ∈ (j.definition.incoming id).filterMap (fun e =>
      (r.outputs.get? e.source).map fun fields => (e.source, fields)) ↔
        j.definition.Joins a id ∧ r.outputs.get? a = some fields := by
    intro a fields
    simp only [List.mem_filterMap, Definition.mem_incoming, Option.map_eq_some_iff,
      Prod.mk.injEq, Leads]
    constructor
    · rintro ⟨e, ⟨he, htarget⟩, _, hkept, rfl, rfl⟩
      exact ⟨⟨e, he, rfl, htarget⟩, hkept⟩
    · rintro ⟨⟨e, he, rfl, htarget⟩, hkept⟩
      exact ⟨e, ⟨he, htarget⟩, fields, hkept, rfl, rfl⟩
  rw [inputsOf, Table.get?_ofList_eq_some_iff, hmem]
  intro a fields fields' h h'
  rw [hmem] at h h'
  exact Option.some.inj (h.2.symm.trans h'.2)

end Run

namespace Job

variable {σ : Type} {j : Job} {world : World σ} {w : σ} {s : Run × σ}

/-- The node starts in this state of the run, as its execution of this number, with these inputs. -/
structure Starts (j : Job) (world : World σ) (w : σ) (s : Run × σ) (n : NodeId) (made : Instance)
    (iteration : Nat) (inputs : Inputs) : Prop where
  passes : j.Passes world w s
  chosen : s.1.choose j = .start n made
  iteration : iteration = s.1.count n + 1
  inputs : inputs = s.1.inputsOf j n
  started : ∃ w', j.Passes world w (s.1.launch j n made, w')

/-- Every start in the trace was made in an earlier state of the run. -/
theorem Passes.exists_starts (h : j.Passes world w s) {later earlier : List Moment} {n : NodeId}
    {iteration : Nat} {inputs : Inputs}
    (hsplit : s.1.trace = later ++ .dispatched n iteration inputs :: earlier) :
    ∃ s₀ made, j.Starts world w s₀ n made iteration inputs ∧
      earlier = (Run.repeats n iteration).reverse ++ s₀.1.trace := by
  apply h.induction (P := fun s => ∀ later, s.1.trace =
    later ++ .dispatched n iteration inputs :: earlier →
      ∃ s₀ made, j.Starts world w s₀ n made iteration inputs ∧
        earlier = (Run.repeats n iteration).reverse ++ s₀.1.trace) _ _ later hsplit
  · intro later hsplit
    have hsplit' : [.event j.startEvent] ++ [] =
      later ++ .dispatched n iteration inputs :: earlier := hsplit
    obtain ⟨_, _, hnone⟩ := split_of_dispatches_eq_nil rfl hsplit'
    simp at hnone
  · intro s s' hpasses hstep ih later hsplit
    rcases hstep.starts with ⟨new, htrace, hnew⟩ | ⟨id, made, hchoose, hlaunch⟩
    · rw [htrace] at hsplit
      obtain ⟨middle, _, hold⟩ := split_of_dispatches_eq_nil hnew hsplit
      exact ih middle hold
    · rw [hlaunch, Run.trace_launch] at hsplit
      rcases List.cons_eq_append_iff.mp hsplit with ⟨_, heq⟩ | ⟨middle, _, hold⟩
      · obtain ⟨hmoment, rfl⟩ := List.cons.inj heq
        obtain ⟨rfl, rfl, rfl⟩ := Moment.dispatched.inj hmoment
        refine ⟨s, made, ⟨hpasses, hchoose, rfl, rfl, s'.2, ?_⟩, rfl⟩
        rw [← hlaunch]
        exact hpasses.tail hstep
      · obtain ⟨middle', _, hold'⟩ := split_of_dispatches_eq_nil (dispatches_repeats id _) hold
        exact ih middle' hold'

/-- What a node sees when it starts.  In every run of a plan, each start of a node is given the
number of starts of that node so far, and for each node with an edge to it, whether that edge was
followed or not, what the latest execution that ended well has put out; that is what its execution
is handed, and nothing else but the initial state.  No node that precedes it is left to run or in
flight in the state in which it starts, nor in the one after that. -/
theorem start_sees_the_latest {d : Definition} {c : Catalog} {strict : Bool}
    (hplan : d.plan c strict = .ok j.plan) (world : World σ) (w : σ) {later earlier : List Moment}
    {n : NodeId} {iteration : Nat} {inputs : Inputs}
    (hsplit : (j.execute world w).1.trace = later ++ .dispatched n iteration inputs :: earlier) :
    iteration = (dispatches earlier).count n + 1 ∧
    (∀ a fields, inputs.get? a = some fields ↔
      d.Joins a n ∧ (latest? earlier a).map Output.fields = some fields) ∧
    ∃ s made w', j.Passes world w s ∧ s.1.choose j = .start n made ∧
      earlier = (Run.repeats n iteration).reverse ++ s.1.trace ∧
      j.Passes world w (s.1.launch j n made, w') ∧
      (s.1.launch j n made).inFlight = s.1.inFlight ++
        [⟨n, iteration, inputs, made.execute ⟨n, iteration, inputs, j.initial⟩⟩] ∧
      ∀ a, j.plan.precedes a n = true → a ∉ s.1.pending ++ s.1.running ∧
        a ∉ (s.1.launch j n made).pending ++ (s.1.launch j n made).running := by
  obtain ⟨rfl, hsound⟩ := Definition.sound_of_plan hplan
  obtain ⟨told, htrace⟩ := Run.result_trace j (j.final world w).1
  rw [execute_fst, htrace] at hsplit
  obtain ⟨_, _, hsplit'⟩ := split_of_dispatches_eq_nil (dispatches_events told) hsplit
  obtain ⟨s, made, hstarts, hearlier⟩ := (j.passes_final world w).exists_starts hsplit'
  have hready := Run.ready_of_choose hstarts.chosen
  have hkeeps := hstarts.passes.recorded.keeps hready.error
  obtain ⟨w', hstarted⟩ := hstarts.started
  refine ⟨?_, ?_, s, made, w', hstarts.passes, hstarts.chosen, hearlier, hstarted, ?_, ?_⟩
  · rw [hstarts.iteration, hstarts.passes.accounted.counted hready.error, hearlier,
      dispatches_append, dispatches_repeats, List.nil_append]
  · intro a fields
    rw [hstarts.inputs, Run.get?_inputsOf, hkeeps a, hearlier, latest?_repeats]
    rfl
  · rw [hstarts.iteration, hstarts.inputs]
    rfl
  · intro a ha
    have hclear := hready.not_mem_of_precedes hsound ha
    refine ⟨hclear, ?_⟩
    rw [List.mem_append, not_or] at hclear ⊢
    constructor
    · intro hwaits
      exact hclear.1 (List.mem_of_mem_erase hwaits)
    · intro hruns
      rcases Run.mem_running_launch.mp hruns with hruns | rfl
      · exact hclear.2 hruns
      · rw [hsound.not_precedes_self] at ha
        cases ha

end Job

/-- In the run of `retry` the work is done again with what the check has put out. -/
theorem retry_again_sees_check :
    ∃ later inputs earlier, (retryJob.execute (Clock.world (fun _ => .unreachable) none)
        (Clock.start none none)).1.trace = later ++ .dispatched "work" 2 inputs :: earlier ∧
      (dispatches earlier).count "work" = 1 ∧
      ∀ fields, inputs.get? "check" = some fields ↔
        (latest? earlier "check").map Output.fields = some fields := by
  have hstarts : ("work", 2) ∈ (starts (retryJob.execute (Clock.world (fun _ => .unreachable) none)
      (Clock.start none none)).1.trace).map fun start => (start.1, start.2.1) := by decide +kernel
  obtain ⟨⟨_, _, inputs⟩, hmem, heq⟩ := List.mem_map.mp hstarts
  cases heq
  obtain ⟨later, earlier, hsplit⟩ := List.append_of_mem (mem_starts.mp hmem)
  obtain ⟨hiteration, hinputs, _⟩ := Job.start_sees_the_latest plan_retry _ _ hsplit
  refine ⟨later, inputs, earlier, hsplit, Nat.succ.inj hiteration.symm, ?_⟩
  intro fields
  rw [hinputs, and_iff_right]
  decide

end Workflow
