import Workflow.Engine
import Workflow.Proofs.Run.Bounds
import Workflow.Proofs.Run.Setup
/-!
# The events of a run

A run that takes place tells of its start, then of every execution of a node but the first, with its
number, and then of its end in the way that its status demands.  A run that cannot begin tells of
nothing.
-/
namespace Workflow

/-- The event that a moment consists in. -/
def Moment.event? : Moment → Option Event
  | .event e => some e
  | _ => none

/-- The events of a trace in the order in which they happened. -/
def told (trace : List Moment) : List Event := trace.reverse.filterMap Moment.event?

@[simp] theorem told_append (new trace : List Moment) :
    told (new ++ trace) = told trace ++ told new := by
  simp [told]

@[simp] theorem told_judged (judgements : List Judgement) :
    told (judgements.map Moment.judged).reverse = [] := by
  simp [told, Moment.event?]

@[simp] theorem told_ended (id : NodeId) (outcome : Outcome) (trace : List Moment) :
    told (.ended id outcome :: trace) = told trace := by
  simp [told, Moment.event?]

@[simp] theorem told_dispatched (id : NodeId) (iteration : Nat) (inputs : Inputs)
    (trace : List Moment) : told (.dispatched id iteration inputs :: trace) = told trace := by
  simp [told, Moment.event?]

theorem told_events (events : List Event) :
    told (events.map Moment.event).reverse = events := by
  simp [told, List.filterMap_map, Function.comp_def, Moment.event?]

theorem told_repeats (id : NodeId) (iteration : Nat) :
    told (Run.repeats id iteration).reverse =
      if 1 < iteration then [.repeated id iteration] else [] := by
  unfold Run.repeats
  split <;> rfl

theorem Result.events_eq_told (r : Result) : r.events = told r.trace := by
  unfold Result.events told Moment.event?
  congr 1

namespace Event

/-- The event tells that a node runs again. -/
def IsRepeat (e : Event) : Prop :=
  ∃ id iteration, e = .repeated id iteration

/-- Which execution of a node the event tells of. -/
def iterationOf? (id : NodeId) : Event → Option Nat
  | .repeated node iteration => if node = id then some iteration else none
  | _ => none

/-- Whether the event tells that the cap has stopped the run. -/
def isCapReached : Event → Bool
  | .capReached .. => true
  | _ => false

theorem IsRepeat.isCapReached_eq_false {e : Event} (h : e.IsRepeat) : e.isCapReached = false := by
  obtain ⟨id, iteration, rfl⟩ := h
  rfl

end Event

/-! ### What a run tells while it goes on -/

namespace Run

variable {j : Job} {r r' : Run} {σ : Type} {world : World σ}

/-- What a run has told before its end. -/
structure Narrated (j : Job) (r : Run) : Prop where
  begins : ∃ repeats, told r.trace = j.startEvent :: repeats ∧ ∀ e ∈ repeats, e.IsRepeat
  /-- Each node is told of with the numbers of all its executions but the first. -/
  numbered : ∀ id, (told r.trace).filterMap (Event.iterationOf? id) =
    List.range' 2 (r.count id - 1)
  /-- The cap has stopped the run at a node that has used it up. -/
  capped : ∀ id count, r.stop = some (.capReached id count) →
    count = j.cap ∧ r.count id = j.cap

theorem narrated_start (j : Job) : ((start j).noteAll [.event j.startEvent]).Narrated j where
  begins := ⟨[], rfl, nofun⟩
  numbered _ := rfl
  capped := nofun

/-- A step that starts nothing tells of nothing. -/
theorem Narrated.untold (h : r.Narrated j) (hcounts : r'.counts = r.counts)
    (htold : told r'.trace = told r.trace)
    (hcapped : ∀ id count, r'.stop = some (.capReached id count) →
      count = j.cap ∧ r.count id = j.cap) : r'.Narrated j where
  begins := by
    rw [htold]
    exact h.begins
  numbered id := by
    simp only [htold, count, hcounts]
    exact h.numbered id
  capped id n hstop := by
    simp only [count, hcounts]
    exact hcapped id n hstop

/-- The number of a further execution follows the numbers told so far. -/
theorem iterations_repeats (id : NodeId) (n : Nat) :
    List.range' 2 (n - 1) ++
      (told (repeats id (n + 1)).reverse).filterMap (Event.iterationOf? id) = List.range' 2 n := by
  rw [told_repeats]
  cases n with
  | zero => rfl
  | succ n =>
      have hagain : 1 < n + 1 + 1 := by omega
      have hnumber : n + 1 + 1 = 2 + n := by omega
      rw [if_pos hagain, hnumber, List.range'_concat, Nat.one_mul, Nat.add_sub_cancel]
      simp [Event.iterationOf?]

theorem iterations_repeats_of_ne {id other : NodeId} (hne : other ≠ id) (n : Nat) :
    (told (repeats id n).reverse).filterMap (Event.iterationOf? other) = [] := by
  rw [told_repeats]
  split
  · simp [Event.iterationOf?, Ne.symm hne]
  · rfl

/-- A node that is entered is told of if it has run before. -/
theorem Narrated.enter (h : r.Narrated j) (id : NodeId) (hcounts : r'.counts = (r.enter id).counts)
    (htold : told r'.trace = told r.trace ++ told (repeats id (r.count id + 1)).reverse)
    (hstop : r'.stop = none) : r'.Narrated j where
  begins := by
    obtain ⟨repeated, hevents, hrepeated⟩ := h.begins
    refine ⟨repeated ++ told (repeats id (r.count id + 1)).reverse, ?_, fun e he => ?_⟩
    · rw [htold, hevents, List.cons_append]
    · rcases List.mem_append.mp he with he | he
      · exact hrepeated e he
      · rw [told_repeats] at he
        split at he
        · exact ⟨_, _, List.mem_singleton.mp he⟩
        · cases he
  numbered other := by
    have hcount : r'.count other = if other = id then r.count id + 1 else r.count other := by
      rw [← count_enter]
      simp only [count, hcounts]
    rw [htold, List.filterMap_append, h.numbered other, hcount]
    by_cases hother : other = id
    · rw [if_pos hother, hother, Nat.add_sub_cancel]
      exact iterations_repeats id (r.count id)
    · rw [if_neg hother, iterations_repeats_of_ne hother, List.append_nil]
  capped id count hcapped := by
    rw [hstop] at hcapped
    cases hcapped

theorem Narrated.completes (h : r.Narrated j) {cancelled : Bool} {i : Fin r.inFlight.length}
    {outcome : Outcome} (hcompletes : Completes j cancelled r i outcome r') : r'.Narrated j := by
  obtain ⟨judgements, htrace⟩ := hcompletes.trace_eq
  refine h.untold hcompletes.counts_eq ?_ ?_
  · rw [htrace, told_append, told_judged, List.append_nil, told_ended]
  · intro id count hstop
    rcases hcompletes.stop_eq with hsame | hcancelled
    · exact h.capped id count (hsame ▸ hstop)
    · rw [hcancelled] at hstop
      cases hstop

theorem Narrated.step {s s' : Run × σ} (h : s.1.Narrated j) (hbounded : s.1.Bounded j)
    (hstep : Step j world s s') : s'.1.Narrated j := by
  cases hstep with
  | cancel hstop hcancelled => exact h.untold rfl rfl nofun
  | @cap r w id hchoose =>
      cases chooses_of_eq hchoose with
      | capped hready hcap =>
          have hcount : r.count id = j.cap := Nat.le_antisymm (hbounded.count_le id) hcap
          refine h.untold rfl rfl fun id' count hstop => ?_
          obtain ⟨rfl, rfl⟩ := Stop.capReached.inj (Option.some.inj hstop)
          exact ⟨hcount, hcount⟩
  | @missing r w id hchoose =>
      cases chooses_of_eq hchoose with
      | missing hready hcap hnone => exact h.enter id rfl (told_append ..) hready.stop
  | @start r w id made hchoose =>
      cases chooses_of_eq hchoose with
      | start hready hcap hmade =>
          refine h.enter id rfl ?_ hready.stop
          rw [trace_launch, told_dispatched, told_append]
  | finish herror hidle hne hnext => exact h.completes (completes_complete j _ _ _ _)

end Run

/-! ### What a run tells in all -/

variable {σ : Type}

theorem Job.Passes.narrated {j : Job} {world : World σ} {w : σ} {s : Run × σ}
    (h : j.Passes world w s) : s.1.Narrated j :=
  h.induction (P := fun s => s.1.Narrated j) (Run.narrated_start j)
    fun _ _ hpasses hstep hnarrated => hnarrated.step hpasses.bounded hstep

namespace Result

/-- The events that a run with this result ends with. -/
inductive Closes (cap : Nat) (r : Result) : List Event → Prop where
  | completed (hstatus : r.status = .completed) : Closes cap r [.completed true false r.counts]
  /-- The node at which the cap stopped the run has run as often as it may. -/
  | capped {id : NodeId} (hstatus : r.status = .capped) (hnode : r.cappedNode = some id)
      (hcount : r.count id = cap) :
      Closes cap r [.capReached id cap cap, .completed true true r.counts]
  | failed (hstatus : r.status = .failed) : Closes cap r []
  | cancelled (hstatus : r.status = .cancelled) : Closes cap r []

/-- The run failed before it could tell of anything. -/
def Silent (r : Result) : Prop :=
  r.status = .failed ∧ r.events = []

/-- The run has told of its start, of the repeated executions, and of its end. -/
structure Tells (r : Result) (start : Event) (cap : Nat) : Prop where
  order : ∃ repeats ending, r.events = start :: (repeats ++ ending) ∧
    (∀ e ∈ repeats, e.IsRepeat) ∧ r.Closes cap ending
  /-- Each node is told of with the numbers of all its executions but the first. -/
  numbered : ∀ id, r.events.filterMap (Event.iterationOf? id) = List.range' 2 (r.count id - 1)

end Result

theorem Run.events_result (j : Job) (r : Run) :
    (r.result j).events = told r.trace ++ r.endEvents j := by
  have htrace : (r.result j).trace = ((r.endEvents j).map Moment.event).reverse ++ r.trace := rfl
  rw [Result.events_eq_told, htrace, told_append, told_events]

theorem Run.endEvents_of_completed {j : Job} {r : Run} (herror : r.error = none)
    (hstop : r.stop = none) : r.endEvents j = [.completed true false r.counts] := by
  simp [endEvents, herror, hstop]

theorem Run.Narrated.closes {j : Job} {r : Run} (h : r.Narrated j) :
    (r.result j).Closes j.cap (r.endEvents j) := by
  cases herror : r.error with
  | some e =>
      have hend : r.endEvents j = [] := by simp [endEvents, herror]
      rw [hend]
      exact .failed (by simp [result, status, herror])
  | none =>
      cases hstop : r.stop with
      | none =>
          rw [endEvents_of_completed herror hstop]
          exact .completed (by simp [result, status, herror, hstop])
      | some stop =>
          cases stop with
          | cancelled =>
              have hend : r.endEvents j = [] := by simp [endEvents, herror, hstop]
              rw [hend]
              exact .cancelled (by simp [result, status, herror, hstop])
          | capReached id count =>
              obtain ⟨rfl, hcount⟩ := h.capped id count hstop
              have hend : r.endEvents j =
                  [.capReached id j.cap j.cap, .completed true true r.counts] := by
                simp [endEvents, herror, hstop]
              rw [hend]
              exact .capped (by simp [result, status, herror, hstop])
                (by simp [result, cappedNode, herror, hstop]) hcount

theorem Run.Narrated.tells {j : Job} {r : Run} (h : r.Narrated j) :
    (r.result j).Tells j.startEvent j.cap where
  order := by
    obtain ⟨repeated, htold, hrepeated⟩ := h.begins
    refine ⟨repeated, r.endEvents j, ?_, hrepeated, h.closes⟩
    rw [Run.events_result, htold, List.cons_append]
  numbered id := by
    have hending : (r.endEvents j).filterMap (Event.iterationOf? id) = [] := by
      unfold Run.endEvents
      split <;> rfl
    rw [Run.events_result, List.filterMap_append, hending, List.append_nil]
    exact h.numbered id

/-- The events of every run, whatever its plan, its nodes and its conditions are like, whenever it
is cancelled and in whatever order its executions end.  A definition without a plan, and a plan
whose nodes cannot be set up, tell of nothing and fail.  Every other run tells of its start once,
then of nothing but repeated executions, for each node with the numbers from two up to the count of
the result, and then of its end: of its completion, with the counts of the result; of the node that
has used up the cap, and of its completion; or of nothing if it failed or was cancelled. -/
theorem Engine.events_tell_the_run (e : Engine) (d : Definition) (p : Plan) (initial : Fields)
    (world : World σ) (w : σ) :
    (∀ reason, e.plan d = .error reason → (e.execute d initial world w).1.Silent) ∧
    (e.plan d = .ok p → e.execute d initial world w = e.executePlan p initial world w) ∧
    (∀ reason, Job.make? e.catalog e.evaluator e.settings.parallel p initial = .error reason →
      (e.executePlan p initial world w).1.Silent) ∧
    ∀ j, Job.make? e.catalog e.evaluator e.settings.parallel p initial = .ok j →
      (e.executePlan p initial world w).1.Tells j.startEvent p.definition.cap := by
  refine ⟨fun reason hreason => ?_, fun hplan => ?_, fun reason hreason => ?_, fun j hjob => ?_⟩
  · rw [execute, hreason]
    exact ⟨rfl, rfl⟩
  · rw [execute, hplan]
  · rw [executePlan, Plan.execute, hreason]
    exact ⟨rfl, rfl⟩
  · rw [executePlan, Plan.execute, hjob, ← Job.plan_of_make? hjob]
    exact (j.passes_final world w).narrated.tells

end Workflow
