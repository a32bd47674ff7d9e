import Workflow.Proofs.Run.History
/-!
# The latest outputs

The outputs that a run keeps of a node are those of its latest execution that ended well.  There is
one exception: an execution that ended well, but whose edges cannot be followed, breaks the run off
before its outputs are kept.
-/
namespace Workflow

/-- What an execution of this node has put out, if the moment is one at which it ended well. -/
def Moment.outputOf? (id : NodeId) : Moment → Option Output
  | .ended n (.ok output) => if n = id then some output else none
  | _ => none

/-- What the latest execution of a node that ended well has put out. -/
def latest? (trace : List Moment) (id : NodeId) : Option Output :=
  trace.findSome? (Moment.outputOf? id)

/-- Where no execution ends well, the latest outputs stay the same. -/
theorem latest?_append {new : List Moment} (hnew : ∀ n output, .ended n (.ok output) ∉ new)
    (trace : List Moment) (id : NodeId) : latest? (new ++ trace) id = latest? trace id := by
  have hnone : new.findSome? (Moment.outputOf? id) = none := by
    rw [List.findSome?_eq_none_iff]
    intro m hm
    unfold Moment.outputOf?
    split
    · exact absurd hm (hnew _ _)
    · rfl
  rw [latest?, List.findSome?_append, hnone, Option.none_or, latest?]

theorem latest?_ended (n : NodeId) (output : Output) (trace : List Moment) (id : NodeId) :
    latest? (.ended n (.ok output) :: trace) id =
      if id = n then some output else latest? trace id := by
  by_cases h : n = id
  · simp [latest?, Moment.outputOf?, h]
  · simp [latest?, Moment.outputOf?, h, Ne.symm h]

theorem latest?_judged (judgements : List Judgement) (trace : List Moment) (id : NodeId) :
    latest? ((judgements.map Moment.judged).reverse ++ trace) id = latest? trace id :=
  latest?_append (by simp) trace id

theorem latest?_repeats (n : NodeId) (iteration : Nat) (trace : List Moment) (id : NodeId) :
    latest? ((Run.repeats n iteration).reverse ++ trace) id = latest? trace id :=
  latest?_append (fun m output => Run.ended_not_mem_repeats m n (.ok output) iteration) trace id

/-- A failure that an execution which ended well has led to: it left no verdict where one was due,
or one of its edges could not be judged. -/
def RunError.IsAstray : RunError → Prop
  | .noVerdict _ | .guard _ _ => True
  | _ => False

namespace Job

variable {j : Job}

theorem isAstray_of_follow {id : NodeId} {output : Output} {iteration : Nat} {e : RunError}
    (h : (j.follow id output iteration).2 = .error e) : e.IsAstray := by
  cases strays_of_follow h with
  | noVerdict found kind none => trivial
  | guard declared condition judged => trivial

end Job

namespace Run

variable {j : Job} {r r' : Run} {σ : Type} {world : World σ} {s s' : Run × σ}

/-- The outputs kept of each node are the latest in the trace. -/
def Keeps (outputs : Table Fields) (trace : List Moment) : Prop :=
  ∀ id, outputs.get? id = (latest? trace id).map Output.fields

/-- What a run has kept. -/
inductive Recorded (j : Job) (r : Run) : Prop where
  | latest (hastray : ∀ e, r.error = some e → ¬ e.IsAstray) (hkeeps : Keeps r.outputs r.trace)
  /-- The last execution to end was not followed, and its outputs were not kept. -/
  | astray {n : NodeId} {output : Output} {judgements : List Judgement} {e : RunError}
      {earlier : List Moment} (herror : r.error = some e)
      (hfollow : j.follow n output ((dispatches earlier).count n) = (judgements, .error e))
      (htrace : r.trace = (judgements.map Moment.judged).reverse ++
        .ended n (.ok output) :: earlier)
      (hkeeps : Keeps r.outputs earlier)

theorem Keeps.store (h : Keeps r.outputs r.trace) (n : NodeId) (output : Output)
    (judgements : List Judgement) :
    Keeps (r.outputs.insert n output.fields)
      ((judgements.map Moment.judged).reverse ++ .ended n (.ok output) :: r.trace) := by
  intro id
  rw [latest?_judged, latest?_ended, Table.get?_insert, h id]
  by_cases hid : id = n <;> simp [hid]

/-- Where no execution ends well and no outputs are kept, the latest outputs stay the same. -/
theorem Keeps.quiet (h : Keeps r.outputs r.trace) (new : List Moment)
    (hnew : ∀ n output, .ended n (.ok output) ∉ new) : Keeps r.outputs (new ++ r.trace) := by
  intro id
  rw [latest?_append hnew, h id]

theorem Recorded.keeps (h : r.Recorded j) (herror : r.error = none) : Keeps r.outputs r.trace := by
  cases h with
  | latest hastray hkeeps => exact hkeeps
  | astray herror' hfollow htrace hkeeps =>
      rw [herror] at herror'
      cases herror'

theorem recorded_of_keeps (herror : r.error = none) (hkeeps : Keeps r.outputs r.trace) :
    r.Recorded j := by
  apply Recorded.latest _ hkeeps
  intro e he
  rw [herror] at he
  cases he

theorem recorded_start (j : Job) : ((start j).noteAll [.event j.startEvent]).Recorded j :=
  recorded_of_keeps rfl fun _ => rfl

theorem Recorded.completes (h : r.Recorded j) (haccounted : r.Accounted j) (herror : r.error = none)
    {cancelled : Bool} {i : Fin r.inFlight.length} {outcome : Outcome}
    (hcompletes : Completes j cancelled r i outcome r') : r'.Recorded j := by
  have hkeeps := h.keeps herror
  cases hcompletes with
  | @kept output hstop => exact recorded_of_keeps herror (hkeeps.store _ output [])
  | @astray output judgements e hstop hfollow =>
      rw [haccounted.counted herror] at hfollow
      exact .astray rfl hfollow rfl hkeeps
  | @followed output judgements targets hstop hfollow =>
      exact recorded_of_keeps herror (hkeeps.store _ output judgements)
  | cancelled hcancelled =>
      exact recorded_of_keeps herror (hkeeps.quiet [_] (by simp))
  | failed hf =>
      apply Recorded.latest _ (hkeeps.quiet [_] (by simp))
      intro e he
      obtain rfl := Option.some.inj he
      exact not_false

theorem Recorded.step (h : s.1.Recorded j) (haccounted : s.1.Accounted j)
    (hstep : Step j world s s') : s'.1.Recorded j := by
  cases hstep with
  | cancel hstop hcancelled =>
      cases h with
      | latest hastray hkeeps => exact .latest hastray hkeeps
      | astray herror hfollow htrace hkeeps => exact .astray herror hfollow htrace hkeeps
  | cap hchoose =>
      cases chooses_of_eq hchoose with
      | capped hready hcap => exact recorded_of_keeps hready.error (h.keeps hready.error)
  | @missing r w id hchoose =>
      cases chooses_of_eq hchoose with
      | missing hready hcap hnone =>
          have hquiet := (h.keeps hready.error).quiet _ fun n output =>
            ended_not_mem_repeats n id (.ok output) (r.count id + 1)
          apply Recorded.latest _ hquiet
          intro e he
          obtain rfl := Option.some.inj he
          exact not_false
  | @start r w id made hchoose =>
      cases chooses_of_eq hchoose with
      | start hready hcap hmade =>
          apply recorded_of_keeps (r := r.launch j id made) hready.error
          rw [trace_launch, ← List.cons_append]
          apply (h.keeps hready.error).quiet
          intro n output
          rw [List.mem_cons, not_or]
          exact ⟨nofun, ended_not_mem_repeats n id (.ok output) _⟩
  | finish herror hidle hne hnext =>
      exact h.completes haccounted herror (completes_complete j _ _ _ _)

theorem endEvents_of_error {e : RunError} (h : r.error = some e) : r.endEvents j = [] := by
  simp [endEvents, h]

end Run

namespace Job

variable {σ : Type} {j : Job} {world : World σ} {w : σ} {s : Run × σ}

theorem Passes.recorded (h : j.Passes world w s) : s.1.Recorded j :=
  h.induction (P := fun s => s.1.Recorded j) (Run.recorded_start j)
    fun _ _ hpasses hstep hrecorded => hrecorded.step hpasses.accounted hstep

/-- The outputs of a run are the latest.  However a run ends, its result holds for each node what
the latest execution that ended well has put out, and nothing for a node without such an execution,
unless the run has failed at an execution that ended well: its verdict was missing, or an edge could
not be judged.  Then this was the last execution to end, and the result holds for each node what was
the latest before it. -/
theorem outputs_are_the_latest (j : Job) (world : World σ) (w : σ) :
    ((∀ e, (j.final world w).1.error = some e → ¬ e.IsAstray) → ∀ id,
      (j.execute world w).1.outputs.get? id =
        (latest? (j.execute world w).1.trace id).map Output.fields) ∧
    ∀ e, (j.final world w).1.error = some e → e.IsAstray →
      (j.execute world w).1.status = .failed ∧
      (j.execute world w).1.error = some e.message ∧
      ∃ n output judgements earlier,
        j.follow n output ((dispatches earlier).count n) = (judgements, .error e) ∧
        (j.execute world w).1.trace = (judgements.map Moment.judged).reverse ++
          .ended n (.ok output) :: earlier ∧
        ∀ id, (j.execute world w).1.outputs.get? id = (latest? earlier id).map Output.fields := by
  have hrecorded := (j.passes_final world w).recorded
  rw [execute_fst]
  constructor
  · intro hastray id
    obtain ⟨told, htrace⟩ := Run.result_trace j (j.final world w).1
    have htold : latest? ((j.final world w).1.result j).trace id =
        latest? (j.final world w).1.trace id := by
      rw [htrace]
      exact latest?_append (by simp) _ id
    rw [htold]
    cases hrecorded with
    | latest _ hkeeps => exact hkeeps id
    | astray herror hfollow _ _ =>
        exact absurd (isAstray_of_follow (congrArg Prod.snd hfollow)) (hastray _ herror)
  · intro e herror he
    have hstatus : (j.final world w).1.status = .failed :=
      Run.status_eq_failed_iff.mpr (herror ▸ Option.some_ne_none e)
    refine ⟨hstatus, congrArg (Option.map RunError.message) herror, ?_⟩
    cases hrecorded with
    | latest hastray _ => exact absurd he (hastray e herror)
    | @astray n output judgements e' earlier herror' hfollow htrace hkeeps =>
        obtain rfl := Option.some.inj (herror.symm.trans herror')
        refine ⟨n, output, judgements, earlier, hfollow, ?_, hkeeps⟩
        simp only [Run.result, Run.endEvents_of_error herror, List.map_nil]
        exact htrace

end Job
/-- A condition and nothing else. -/
def mute : Definition :=
  .plain "mute" [.plain "check" "condition"] [] "check" 3

/-- A node that puts something out but gives no verdict. -/
def silent : Instance where
  kind := "condition"
  problems := []
  execute _ := .done (.ok (.ofList [("data", .string "no verdict here")]))

/-- A catalog in which a condition is that node. -/
def silentKinds : Catalog where
  kinds := Table.ofList [("condition", ⟨"condition", .bare "condition", fun _ => .ok silent⟩)]

/-- The run of `mute` on one node at a time. -/
def muteJob : Job where
  plan := ⟨mute, ["check"], mute.loops, mute.validate silentKinds, Table.ofList [("check", [])]⟩
  instance? id := if id ∈ mute.ids then some silent else none
  instance_declared id _ h := by
    by_contra hid
    rw [if_neg hid] at h
    cases h
  evaluator := Guard.byVerdict
  parallel := 1
  initial := .empty

def muteRun : Result :=
  (muteJob.execute (Clock.world (fun _ => .unreachable) none) (Clock.start none none)).1

/-- The condition has ended well, but without a verdict, and the result does not hold what it put
out. -/
theorem muteRun_lacks_outputs :
    mute.plan silentKinds false = .ok muteJob.plan ∧ muteRun.status = .failed ∧
    muteRun.error = some "condition node 'check' did not produce a boolean 'result'" ∧
    ((latest? muteRun.trace "check").map fun output => output.fields.keys) = some ["data"] ∧
    muteRun.outputs.contains "check" = false := by
  have hloops : mute.loops = [] := by cbv
  refine ⟨Definition.plan_eq_ok hloops rfl rfl (by decide +kernel) rfl, ?_⟩
  decide +kernel

end Workflow
