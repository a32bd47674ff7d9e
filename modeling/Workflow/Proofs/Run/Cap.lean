import Workflow.Proofs.Cap
import Workflow.Proofs.Run.Contexts
import Workflow.Proofs.Run.Events
import Workflow.Proofs.Run.Retelling
/-!
# Runs under another cap

The cap is looked at when a node is about to start, and nowhere else.  Under a higher cap a run
therefore does the same until the lower one stops it, and a run that the lower cap does not stop is
the same under every higher one, but for the cap that it tells of when it starts.
-/
namespace Workflow

open Relation

/-! ### What is told of the cap -/

/-- The event as it is told under another cap. -/
def Event.recap (cap : Nat) : Event → Event
  | .started workflow entry nodes hasLoops _ => .started workflow entry nodes hasLoops cap
  | e => e

def Moment.recap (cap : Nat) : Moment → Moment
  | .event e => .event (e.recap cap)
  | m => m

variable {σ : Type}

/-- The world goes on in the same way whatever cap a run tells of when it starts. -/
def World.IgnoresCap (world : World σ) : Prop :=
  ∀ w e cap, world.observe w (.event (Event.recap cap e)) = world.observe w (.event e)

theorem Clock.world_ignoresCap (network : Http.Request → Http.Reply) (limit : Option Nat) :
    (Clock.world network limit).IgnoresCap :=
  fun _ _ _ => rfl

section

variable {cap : Nat} {trace : List Moment}

theorem starts_recap : starts (trace.map (Moment.recap cap)) = starts trace := by
  rw [starts, starts, ← List.map_reverse, List.filterMap_map]
  congr 1
  funext m
  cases m <;> rfl

theorem told_recap :
    told (trace.map (Moment.recap cap)) = (told trace).map (Event.recap cap) := by
  rw [told, told, ← List.map_reverse, List.filterMap_map, List.map_filterMap]
  congr 1
  funext m
  cases m <;> rfl

end

/-! ### The same state under another cap -/

/-- The job of running the same plan under another cap. -/
def Job.recap (j : Job) (cap : Nat) (h : 0 < cap) : Job :=
  { j with plan := j.plan.recap cap h, instance_declared := j.instance_declared }

namespace Run

/-- The state as it is under another cap. -/
def recap (r : Run) (cap : Nat) : Run :=
  { r with trace := r.trace.map (Moment.recap cap) }

variable {j : Job} {world : World σ} {r : Run} {w : σ} {cap : Nat} {hcap : 0 < cap}

theorem retells_recap (cap : Nat) : Retells (List.map (Moment.recap cap)) := by
  intro m trace hm
  cases m with
  | event e =>
      cases e with
      | started _ _ _ _ _ => cases hm
      | _ => rfl
  | _ => rfl

theorem launch_recap (id : NodeId) (made : Instance) :
    (r.recap cap).launch (j.recap cap hcap) id made = (r.launch j id made).recap cap :=
  launch_retell (retells_recap cap) rfl made

/-- As long as the lower cap does not stop the run, the same node is chosen. -/
theorem choose_recap (hcap : 0 < cap) (hle : j.cap ≤ cap) {choice : Choice}
    (h : r.choose j = choice) (huncapped : ∀ id, choice ≠ .capped id) :
    (r.recap cap).choose (j.recap cap hcap) = choice := by
  subst h
  have hbusy : ((r.recap cap).stop.isSome || (r.recap cap).error.isSome ||
      (j.recap cap hcap).limit ≤ (r.recap cap).inFlight.length) =
    (r.stop.isSome || r.error.isSome || j.limit ≤ r.inFlight.length) := rfl
  have hfirst : (r.recap cap).pending.find? ((r.recap cap).isReady (j.recap cap hcap)) =
    r.pending.find? (r.isReady j) := rfl
  unfold choose at huncapped ⊢
  rw [hbusy, hfirst]
  split
  · rfl
  · rename_i hfree
    rw [if_neg hfree] at huncapped
    cases hfind : r.pending.find? (r.isReady j) with
    | none => rfl
    | some id =>
        have hlow : ¬ j.cap ≤ r.count id := by
          intro hused
          apply huncapped id
          rw [hfind]
          exact if_pos hused
        have hhigh : ¬ (j.recap cap hcap).cap ≤ (r.recap cap).count id :=
          fun hused => hlow (Nat.le_trans hle hused)
        dsimp only
        rw [if_neg hlow, if_neg hhigh]
        rfl

theorem complete_recap (cancelled : Bool) (i : Fin r.inFlight.length) (outcome : Outcome) :
    (r.recap cap).complete (j.recap cap hcap) cancelled i outcome =
      (r.complete j cancelled i outcome).recap cap :=
  complete_retell (retells_recap cap) cancelled i outcome
    (Job.follow_congr j (j.recap cap hcap) rfl rfl rfl)

/-! ### One run behind the other -/

/-- A run that has stopped starts nothing more. -/
theorem starts_eq_of_stop {s s' : Run × σ} (h : ReflTransGen (Step j world) s s')
    (hstop : s.1.stop ≠ none) : s'.1.stop ≠ none ∧ starts s'.1.trace = starts s.1.trace := by
  induction h with
  | refl => exact ⟨hstop, rfl⟩
  | @tail s₁ s₂ _ hstep ih =>
      obtain ⟨hstopped, hsame⟩ := ih
      refine ⟨fun hnone => hstopped (hstep.stop_eq_none hnone), ?_⟩
      rcases hstep.starts with ⟨new, htrace, hnew⟩ | ⟨id, made, hchoose, _⟩
      · rw [htrace, starts_append, starts_eq_nil hnew, List.append_nil, hsame]
      · exact absurd (ready_of_choose hchoose).stop hstopped

/-- What has started is not forgotten. -/
theorem starts_of_steps {s s' : Run × σ} (h : ReflTransGen (Step j world) s s') :
    starts s.1.trace <+: starts s'.1.trace := by
  induction h with
  | refl => exact ⟨[], List.append_nil _⟩
  | @tail s₁ s₂ _ hstep ih =>
      obtain ⟨new, htrace, _⟩ := hstep.trace_eq
      rw [htrace, starts_append]
      exact ih.trans ⟨starts new, rfl⟩

/-- The one run has been stopped where the other may have gone on. -/
def CutFrom (low high : Run × σ) : Prop :=
  low.1.stop ≠ none ∧ starts low.1.trace <+: starts high.1.trace

theorem CutFrom.steps {low high low' high' : Run × σ} (h : CutFrom low high)
    (hlow : ReflTransGen (Step j world) low low')
    (hhigh : ReflTransGen (Step (j.recap cap hcap) world) high high') : CutFrom low' high' := by
  obtain ⟨hstop, hstarts⟩ := starts_eq_of_stop hlow h.1
  refine ⟨hstop, ?_⟩
  rw [hstarts]
  exact h.2.trans (starts_of_steps hhigh)

theorem dispatch_recap (world : World σ) (hcap : 0 < cap) (hle : j.cap ≤ cap) (r : Run) (w : σ) :
    dispatch (j.recap cap hcap) world (r.recap cap) w =
        ((dispatch j world r w).1.recap cap, (dispatch j world r w).2) ∨
      CutFrom (dispatch j world r w) (dispatch (j.recap cap hcap) world (r.recap cap) w) := by
  fun_induction dispatch j world r w with
  | case1 r w hchoose =>
      have hsame := choose_recap hcap hle hchoose (by simp)
      left
      rw [dispatch_eq, hsame]
  | case2 r w id hchoose =>
      right
      refine ⟨Option.some_ne_none _, ?_⟩
      have hgoes := starts_of_steps (dispatch_steps (j.recap cap hcap) world (r.recap cap) w)
      rw [recap, starts_recap] at hgoes
      exact hgoes
  | case3 r w id hchoose moments =>
      have hsame := choose_recap hcap hle hchoose (by simp)
      left
      rw [dispatch_eq, hsame]
      exact Prod.ext (missing_retell (retells_recap cap) r id (r.count id + 1) _) rfl
  | case4 r w id made hchoose _ ih =>
      have hsame := choose_recap hcap hle hchoose (by simp)
      rw [dispatch_eq (j.recap cap hcap), hsame]
      dsimp only
      rw [launch_recap]
      exact ih

/-- Turn by turn, a run does the same under a higher cap, or the lower cap has stopped it. -/
theorem drive_recap (world : World σ) (hcap : 0 < cap) (hle : j.cap ≤ cap) (r : Run) (w : σ) :
    drive (j.recap cap hcap) world (r.recap cap) w =
        ((drive j world r w).1.recap cap, (drive j world r w).2) ∨
      CutFrom (drive j world r w) (drive (j.recap cap hcap) world (r.recap cap) w) := by
  have hinstep : InStep j (j.recap cap hcap) world (List.map (Moment.recap cap))
      (fun _ => True) CutFrom := by
    constructor
    · exact fun _ _ _ _ => trivial
    · exact fun r w _ => dispatch_recap world hcap hle r w
    · exact fun r _ cancelled i outcome => complete_recap cancelled i outcome
    · exact fun _ _ _ _ hcut hlow hhigh => hcut.steps hlow hhigh
  exact hinstep.drive trivial w

theorem starts_result (j : Job) (r : Run) : starts (r.result j).trace = starts r.trace := by
  obtain ⟨told, htrace⟩ := result_trace j r
  rw [htrace, starts_append, starts_eq_nil (dispatches_events told), List.append_nil]

end Run

/-! ### Whole runs -/

/-- What a run came to under a lower cap is a cut of what it came to under this one: what has
started is what started first under this cap, and if the run was completed, it is the same under
this cap but for the cap that it tells of. -/
structure Result.IsCutOf (low high : Result) (cap : Nat) : Prop where
  starts : starts low.trace <+: starts high.trace
  completed : low.status = .completed → high.status = .completed ∧ high.counts = low.counts ∧
    high.outputs = low.outputs ∧ high.events = low.events.map (Event.recap cap)

namespace Job

variable {j : Job} {world : World σ} {cap : Nat}

theorem final_recap (hworld : world.IgnoresCap) (hcap : 0 < cap) (hle : j.cap ≤ cap) (w : σ) :
    (j.recap cap hcap).final world w =
        ((j.final world w).1.recap cap, (j.final world w).2) ∨
      Run.CutFrom (j.final world w) ((j.recap cap hcap).final world w) := by
  have hbegin : world.observe w (.event (j.recap cap hcap).startEvent) =
    world.observe w (.event j.startEvent) := hworld w j.startEvent cap
  unfold final
  rw [hbegin]
  exact Run.drive_recap world hcap hle ((Run.start j).noteAll [.event j.startEvent]) _

theorem isCutOf_recap (hworld : world.IgnoresCap) (hcap : 0 < cap) (hle : j.cap ≤ cap) (w : σ) :
    (j.execute world w).1.IsCutOf ((j.recap cap hcap).execute world w).1 cap := by
  rw [execute_fst, execute_fst]
  rcases final_recap hworld hcap hle w with hsame | ⟨hstop, hstarts⟩
  · rw [hsame]
    constructor
    · rw [Run.starts_result, Run.starts_result, Run.recap, starts_recap]
    · intro hstatus
      obtain ⟨herror, hstop⟩ := Run.status_eq_completed_iff.mp hstatus
      refine ⟨hstatus, rfl, rfl, ?_⟩
      rw [Run.events_result, Run.events_result, Run.endEvents_of_completed herror hstop,
        Run.endEvents_of_completed (r := (j.final world w).1.recap cap) herror hstop,
        List.map_append, ← told_recap]
      rfl
  · constructor
    · rw [Run.starts_result, Run.starts_result]
      exact hstarts
    · intro hstatus
      exact absurd (Run.status_eq_completed_iff.mp hstatus).2 hstop

theorem make?_recap (c : Catalog) (evaluator : Evaluator) (parallel : Nat) (p : Plan)
    (hcap : 0 < cap) (initial : Fields) : make? c evaluator parallel (p.recap cap hcap) initial =
      (make? c evaluator parallel p initial).map fun j => j.recap cap hcap := by
  unfold make?
  change Except.map _ (instancesOf c p.definition.nodes) = _
  cases instancesOf c p.definition.nodes with
  | error e => rfl
  | ok made => rfl

end Job

/-- The cap only cuts a run short.  A workflow that has a plan has one under every cap but zero, the
same but for the cap.  Its runs under a lower and a higher cap, on the same nodes, with the same
evaluator and initial state, and in a world that cancels them and lets their executions end in the
same way after the same history, start the same executions with the same inputs up to where the
lower cap stops the one; and the run that completes under the lower cap completes under the higher
one with the same counts, outputs and events, but for the cap told of at the start. -/
theorem Definition.cap_only_cuts {d : Definition} {c : Catalog} {strict : Bool} {p : Plan}
    (hplan : d.plan c strict = .ok p) {n n' : Nat} (hn : 0 < n) (hle : n ≤ n') (c' : Catalog)
    (evaluator : Evaluator) (parallel : Nat) (initial : Fields) {world : World σ}
    (hworld : world.IgnoresCap) (w : σ) :
    d.withCap n = .ok (d.recap n hn) ∧
    d.withCap n' = .ok (d.recap n' (Nat.lt_of_lt_of_le hn hle)) ∧
    (d.recap n hn).plan c strict = .ok (p.recap n hn) ∧
    (d.recap n' (Nat.lt_of_lt_of_le hn hle)).plan c strict =
      .ok (p.recap n' (Nat.lt_of_lt_of_le hn hle)) ∧
    ((p.recap n hn).execute c' evaluator parallel initial world w).1.IsCutOf
      ((p.recap n' (Nat.lt_of_lt_of_le hn hle)).execute c' evaluator parallel initial world w).1
      n' := by
  have hn' := Nat.lt_of_lt_of_le hn hle
  refine ⟨d.withCap_eq_ok hn, d.withCap_eq_ok hn', plan_recap hplan, plan_recap hplan, ?_⟩
  have hmade := Job.make?_recap c' evaluator parallel (p.recap n hn) hn' initial
  change (Plan.execute _ c' evaluator parallel initial world w).1.IsCutOf
    (Plan.execute ((p.recap n hn).recap n' hn') c' evaluator parallel initial world w).1 n'
  unfold Plan.execute
  rw [hmade]
  cases hjob : Job.make? c' evaluator parallel (p.recap n hn) initial with
  | error e => exact ⟨⟨[], rfl⟩, nofun⟩
  | ok j =>
      have hcap : j.cap = n := by rw [Job.cap, Job.definition, Job.plan_of_make? hjob]; rfl
      exact Job.isCutOf_recap hworld hn' (hcap ▸ hle) w

/-- What the run of `retry` comes to under this cap. -/
def retryUnder (cap : Nat) (h : 0 < cap) : Result :=
  ((retryJob.plan.recap cap h).execute secondTimeKinds Guard.byVerdict 2 .empty
    (Clock.world (fun _ => .unreachable) none) (Clock.start none none)).1

/-- Once is too little for `retry`, and more than twice changes nothing. -/
theorem retryUnder_two :
    (retryUnder 1 (by decide)).status = .capped ∧
    starts (retryUnder 1 (by decide)).trace <+: starts (retryUnder 2 (by decide)).trace ∧
    (retryUnder 9 (by decide)).status = .completed ∧
    (retryUnder 9 (by decide)).counts = (retryUnder 2 (by decide)).counts ∧
    (retryUnder 9 (by decide)).outputs = (retryUnder 2 (by decide)).outputs ∧
    (retryUnder 9 (by decide)).events = (retryUnder 2 (by decide)).events.map (Event.recap 9) := by
  have hworld := Clock.world_ignoresCap (fun _ => .unreachable) none
  have honce := Definition.cap_only_cuts plan_retry (by decide : 0 < 1) (by decide : 1 ≤ 2)
    secondTimeKinds Guard.byVerdict 2 .empty hworld (Clock.start none none)
  have htwice := Definition.cap_only_cuts plan_retry (by decide : 0 < 2) (by decide : 2 ≤ 9)
    secondTimeKinds Guard.byVerdict 2 .empty hworld (Clock.start none none)
  have hcompleted : (retryUnder 2 (by decide)).status = .completed := by decide +kernel
  exact ⟨by decide +kernel, honce.2.2.2.2.starts, htwice.2.2.2.2.completed hcompleted⟩

end Workflow
