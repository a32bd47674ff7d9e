import Workflow.Proofs.Precedence
import Workflow.Proofs.Run.History
/-!
# Producers come first

Loops may start their members, and what follows them, time and again.  A node behind no loop starts
at most once, and when it starts, whatever precedes it is done with for good: it has ended and does
not start again, or it does not start at all.
-/
namespace Workflow

namespace Run

variable {j : Job} {r r' : Run} {σ : Type} {world : World σ} {s s' : Run × σ}

/-- A step starts nothing, or it starts the node that is chosen. -/
theorem Step.starts (h : Step j world s s') :
    (∃ new, s'.1.trace = new ++ s.1.trace ∧ dispatches new = []) ∨
      ∃ id made, s.1.choose j = .start id made ∧ s'.1 = s.1.launch j id made := by
  cases h with
  | cancel hstop hcancelled => exact Or.inl ⟨[], rfl, rfl⟩
  | cap hchoose => exact Or.inl ⟨[], rfl, rfl⟩
  | missing hchoose => exact Or.inl ⟨_, rfl, dispatches_repeats ..⟩
  | @start r w id made hchoose => exact Or.inr ⟨id, made, hchoose, rfl⟩
  | @finish r w herror hidle hne i outcome w' hnext =>
      obtain ⟨judgements, htrace⟩ :=
        (completes_complete j (world.cancelled w') r i outcome).trace_eq
      rw [List.append_cons] at htrace
      refine Or.inl ⟨_, htrace, ?_⟩
      rw [dispatches_append, dispatches_judged, dispatches_ended, List.append_nil]

/-- A node behind no loop that has started is not left to run, nor is anything left to run or in
flight that precedes it. -/
structure Served (j : Job) (r : Run) : Prop where
  gone : ∀ n ∈ dispatches r.trace, ¬ j.definition.BehindLoop n → n ∉ r.pending
  before : ∀ n ∈ dispatches r.trace, ¬ j.definition.BehindLoop n →
    ∀ a, j.plan.precedes a n = true → a ∉ r.pending ++ r.running

theorem served_start (j : Job) : ((start j).noteAll [.event j.startEvent]).Served j where
  gone := nofun
  before := nofun

/-- A step that starts nothing and leads to nothing keeps what is done with. -/
theorem Served.shrink (h : r.Served j) (htrace : dispatches r'.trace = dispatches r.trace)
    (hpending : ∀ m ∈ r'.pending, m ∈ r.pending) (hrunning : ∀ m ∈ r'.running, m ∈ r.running) :
    r'.Served j where
  gone n hn hout hwaits := by
    rw [htrace] at hn
    exact h.gone n hn hout (hpending n hwaits)
  before n hn hout a ha hmem := by
    rw [htrace] at hn
    refine h.before n hn hout a ha (List.mem_append.mpr ?_)
    exact (List.mem_append.mp hmem).imp (hpending a) (hrunning a)

/-- A ready node has nothing before it, and being pending it does not precede what has started. -/
theorem Served.launch (h : r.Served j) (hplan : j.plan.Sound) (hnodup : r.pending.Nodup)
    {id : NodeId} (hready : r.Ready j id) (made : Instance) : (r.launch j id made).Served j where
  gone n hn hout hwaits := by
    obtain ⟨hne, hold⟩ := (mem_pending_launch hnodup).mp hwaits
    rw [dispatches_launch, List.mem_cons] at hn
    exact h.gone n (hn.resolve_left hne) hout hold
  before n hn hout a ha hmem := by
    have hleft : a ∈ r.pending ++ r.running := by
      rw [List.mem_append, mem_running_launch] at hmem
      rw [List.mem_append]
      rcases hmem with hwaits | hruns | rfl
      · exact Or.inl ((mem_pending_launch hnodup).mp hwaits).2
      · exact Or.inr hruns
      · exact Or.inl hready.pending
    rw [dispatches_launch, List.mem_cons] at hn
    rcases hn with rfl | hn
    · exact hready.not_mem_of_precedes hplan ha hleft
    · exact h.before n hn hout a ha hleft

/-- What an execution leads to neither has started behind no loop nor precedes what has: the node of
the execution, which was in flight, would precede it too. -/
theorem Served.proceed (h : r.Served j) (hplan : j.plan.Sound) {i : Fin r.inFlight.length}
    {output : Output} {judgements : List Judgement} {targets : List NodeId} {iteration : Nat}
    (hfollow : (j.follow (r.inFlight.get i).node output iteration).2 = .ok targets) :
    (r.proceed i output judgements targets).Served j where
  gone n hn hout hwaits := by
    rw [dispatches_proceed] at hn
    rcases mem_pending_proceed.mp hwaits with hold | htarget
    · exact h.gone n hn hout hold
    · have hprecedes := hplan.precedes_of_joins (Job.joins_of_mem_follow hfollow htarget) hout
      exact h.before n hn hout _ hprecedes (List.mem_append_right _ (node_mem_running r i))
  before n hn hout a ha hmem := by
    rw [dispatches_proceed] at hn
    rcases List.mem_append.mp hmem with hwaits | hruns
    · rcases mem_pending_proceed.mp hwaits with hold | htarget
      · exact h.before n hn hout a ha (List.mem_append_left _ hold)
      · have hprecedes := hplan.precedes_of_joins (Job.joins_of_mem_follow hfollow htarget)
          (hplan.not_behindLoop ha hout)
        exact h.before n hn hout _ (hplan.precedes_trans hprecedes ha)
          (List.mem_append_right _ (node_mem_running r i))
    · exact h.before n hn hout a ha
        (List.mem_append_right _ (mem_running_of_mem_eraseIdx hruns))

theorem Served.completes (h : r.Served j) (hplan : j.plan.Sound) {cancelled : Bool}
    {i : Fin r.inFlight.length} {outcome : Outcome}
    (hcompletes : Completes j cancelled r i outcome r') : r'.Served j := by
  have htrace := hcompletes.dispatches_eq
  cases hcompletes with
  | kept hstop => exact h.shrink htrace (fun _ hm => hm) fun _ => mem_running_of_mem_eraseIdx
  | astray hstop hfollow =>
      exact h.shrink htrace (fun _ hm => hm) fun _ => mem_running_of_mem_eraseIdx
  | followed hstop hfollow => exact h.proceed hplan (congrArg Prod.snd hfollow)
  | cancelled hcancelled =>
      exact h.shrink htrace (fun _ hm => hm) fun _ => mem_running_of_mem_eraseIdx
  | failed hf => exact h.shrink htrace (fun _ hm => hm) fun _ => mem_running_of_mem_eraseIdx

theorem Served.step (h : s.1.Served j) (hplan : j.plan.Sound) (hnodup : s.1.pending.Nodup)
    (hstep : Step j world s s') : s'.1.Served j := by
  cases hstep with
  | cancel hstop hcancelled => exact h.shrink rfl (fun _ hm => hm) fun _ hm => hm
  | cap hchoose => exact h.shrink rfl (fun _ hm => hm) fun _ hm => hm
  | missing hchoose =>
      refine h.shrink ?_ (fun _ hm => List.mem_of_mem_erase hm) fun _ hm => hm
      exact (dispatches_append ..).trans (by rw [dispatches_repeats, List.nil_append]; rfl)
  | start hchoose =>
      cases chooses_of_eq hchoose with
      | start hready hcap hmade => exact h.launch hplan hnodup hready _
  | finish herror hidle hne hnext => exact h.completes hplan (completes_complete j _ _ _ _)

/-- When a node behind no loop starts, whatever precedes it has ended well if it has started at all,
and does not start later. -/
def ProducersFirst (j : Job) (trace : List Moment) : Prop :=
  ∀ later n iteration inputs earlier, trace = later ++ .dispatched n iteration inputs :: earlier →
    ¬ j.definition.BehindLoop n → ∀ a, j.plan.precedes a n = true →
      a ∉ dispatches later ∧ (a ∈ dispatches earlier → ∃ output, .ended a (.ok output) ∈ earlier)

theorem ProducersFirst.append {new trace : List Moment} (h : ProducersFirst j trace)
    (hnew : dispatches new = []) : ProducersFirst j (new ++ trace) := by
  intro later n iteration inputs earlier hsplit hout a ha
  obtain ⟨middle, rfl, htrace⟩ := split_of_dispatches_eq_nil hnew hsplit
  rw [dispatches_append, hnew, List.nil_append]
  exact h middle n iteration inputs earlier htrace hout a ha

theorem ProducersFirst.cons {trace : List Moment} (h : ProducersFirst j trace) {id : NodeId}
    (hended : ∀ a, j.plan.precedes a id = true → a ∈ dispatches trace →
      ∃ output, .ended a (.ok output) ∈ trace)
    (hnew : ∀ n ∈ dispatches trace, ¬ j.definition.BehindLoop n → j.plan.precedes id n = false)
    (iteration : Nat) (inputs : Inputs) :
    ProducersFirst j (.dispatched id iteration inputs :: trace) := by
  intro later n iteration' inputs' earlier hsplit hout a ha
  rcases List.cons_eq_append_iff.mp hsplit with ⟨rfl, heq⟩ | ⟨middle, rfl, htrace⟩
  · obtain ⟨hmoment, rfl⟩ := List.cons.inj heq
    obtain ⟨rfl, _, _⟩ := Moment.dispatched.inj hmoment
    exact ⟨List.not_mem_nil, hended a ha⟩
  · obtain ⟨hlater, hearlier⟩ := h middle n iteration' inputs' earlier htrace hout a ha
    refine ⟨?_, hearlier⟩
    rw [← List.singleton_append, dispatches_append, List.mem_append, not_or]
    refine ⟨?_, hlater⟩
    intro hid
    obtain rfl : a = id := List.mem_singleton.mp hid
    have hn : n ∈ dispatches trace := by
      rw [mem_dispatches, htrace]
      exact ⟨iteration', inputs', List.mem_append_right middle List.mem_cons_self⟩
    rw [hnew n hn hout] at ha
    cases ha

end Run

namespace Job

variable {σ : Type} {j : Job} {world : World σ} {w : σ} {s : Run × σ}

theorem Passes.served (hplan : j.plan.Sound) (h : j.Passes world w s) : s.1.Served j :=
  h.induction (P := fun s => s.1.Served j) (Run.served_start j)
    fun _ _ hpasses hstep hserved => hserved.step hplan hpasses.accounted.pending_nodup hstep

/-- What has started and is not in flight has ended, and well if the run goes on. -/
theorem Passes.ended_of_dispatched (h : j.Passes world w s) (hstop : s.1.stop = none)
    (herror : s.1.error = none) {a : NodeId} (hstarted : a ∈ dispatches s.1.trace)
    (hidle : a ∉ s.1.running) : ∃ output, .ended a (.ok output) ∈ s.1.trace := by
  obtain ⟨iteration, inputs, hmem⟩ := mem_dispatches.mp hstarted
  obtain ⟨later, earlier, hsplit⟩ := List.append_of_mem hmem
  obtain ⟨outcome, hended⟩ :=
    (h.concluded later a iteration inputs earlier hsplit).resolve_left hidle
  have hended' : .ended a outcome ∈ s.1.trace := by
    rw [hsplit]
    exact List.mem_append_left _ hended
  cases outcome with
  | ok output => exact ⟨output, hended'⟩
  | error f => exact absurd hended' (h.answered.not_mem hstop herror a f)

theorem Passes.producersFirst (hplan : j.plan.Sound) (h : j.Passes world w s) :
    Run.ProducersFirst j s.1.trace := by
  refine h.induction (P := fun s => Run.ProducersFirst j s.1.trace) ?_ ?_
  · have hnone : Run.ProducersFirst j [] := by simp [Run.ProducersFirst]
    exact hnone.append (show dispatches [.event j.startEvent] = [] from rfl)
  · rintro s s' hpasses hstep hfirst
    rcases hstep.starts with ⟨new, htrace, hnew⟩ | ⟨id, made, hchoose, hlaunch⟩
    · rw [htrace]
      exact hfirst.append hnew
    · have hready := Run.ready_of_choose hchoose
      have hleft : ∀ a, j.plan.precedes a id = true → a ∈ dispatches s.1.trace →
          ∃ output, .ended a (.ok output) ∈ s.1.trace := by
        intro a ha hstarted
        have hclear := hready.not_mem_of_precedes hplan ha
        exact hpasses.ended_of_dispatched hready.stop hready.error hstarted
          fun hruns => hclear (List.mem_append_right _ hruns)
      rw [hlaunch, Run.trace_launch]
      refine (hfirst.append (dispatches_repeats ..)).cons ?_ ?_ _ _
      · intro a ha hstarted
        rw [dispatches_append, dispatches_repeats, List.nil_append] at hstarted
        obtain ⟨output, hended⟩ := hleft a ha hstarted
        exact ⟨output, List.mem_append_right _ hended⟩
      · intro n hn hout
        rw [dispatches_append, dispatches_repeats, List.nil_append] at hn
        refine Bool.eq_false_iff.mpr fun hprecedes => ?_
        exact (hpasses.served hplan).before n hn hout id hprecedes
          (List.mem_append_left _ hready.pending)

theorem Passes.count_dispatches_le_one (hplan : j.plan.Sound) (h : j.Passes world w s) {n : NodeId}
    (hout : ¬ j.definition.BehindLoop n) : (dispatches s.1.trace).count n ≤ 1 := by
  refine h.induction (P := fun s => (dispatches s.1.trace).count n ≤ 1) (Nat.zero_le 1) ?_
  rintro s s' hpasses hstep honce
  rcases hstep.starts with ⟨new, htrace, hnew⟩ | ⟨id, made, hchoose, hlaunch⟩
  · rw [htrace, dispatches_append, hnew, List.nil_append]
    exact honce
  · rw [hlaunch, Run.dispatches_launch]
    by_cases hid : id = n
    · subst hid
      have hfresh : id ∉ dispatches s.1.trace := fun hstarted =>
        (hpasses.served hplan).gone id hstarted hout (Run.ready_of_choose hchoose).pending
      rw [List.count_cons_self, List.count_eq_zero_of_not_mem hfresh]
    · rw [List.count_cons_of_ne hid]
      exact honce

/-- The cap stops a run only at a node that has started, and so behind a loop. -/
theorem Passes.behindLoop_of_capReached (hplan : j.plan.Sound) (h : j.Passes world w s)
    {id : NodeId} {count : Nat} (hstop : s.1.stop = some (.capReached id count)) :
    j.definition.BehindLoop id := by
  refine h.induction (P := fun s => ∀ id count, s.1.stop = some (.capReached id count) →
    j.definition.BehindLoop id) nofun ?_ id count hstop
  rintro s s' hpasses hstep ih id count hstop
  cases hstep with
  | cancel hnone hcancelled => cases hstop
  | cap hchoose =>
      cases Run.chooses_of_eq hchoose with
      | capped hready hcap =>
          obtain ⟨rfl, _⟩ := Stop.capReached.inj (Option.some.inj hstop)
          by_contra hout
          have hfresh := fun hstarted =>
            (hpasses.served hplan).gone _ hstarted hout hready.pending
          rw [hpasses.accounted.counted hready.error, List.count_eq_zero_of_not_mem hfresh] at hcap
          exact absurd hcap (Nat.not_le.mpr j.definition.cap_pos)
  | missing hchoose => exact ih id count hstop
  | start hchoose => exact ih id count hstop
  | finish herror hidle hne hnext =>
      rcases (Run.completes_complete j _ _ _ _).stop_eq with hsame | hcancelled
      · exact ih id count (hsame ▸ hstop)
      · rw [hcancelled] at hstop
        cases hstop

/-- Outside loops every node comes once, and after all that precedes it.  In every run of a plan,
whatever its nodes, its conditions and the world do and however it ends, a node that lies on no
cycle and cannot be reached from one starts at most once, and the cap never stops the run at it.
When it starts, each node that precedes it has ended well and does not start again, or does not
start in the run at all. -/
theorem once_and_after_producers {d : Definition} {c : Catalog} {strict : Bool}
    (hplan : d.plan c strict = .ok j.plan) (world : World σ) (w : σ) {n : NodeId}
    (hout : ¬ d.BehindLoop n) :
    (dispatches (j.execute world w).1.trace).count n ≤ 1 ∧
    (j.execute world w).1.cappedNode ≠ some n ∧
    ∀ later iteration inputs earlier,
      (j.execute world w).1.trace = later ++ .dispatched n iteration inputs :: earlier →
      ∀ a, j.plan.precedes a n = true →
        ((∃ output, .ended a (.ok output) ∈ earlier) ∧ a ∉ dispatches later) ∨
        a ∉ dispatches (j.execute world w).1.trace := by
  obtain ⟨rfl, hsound⟩ := Definition.sound_of_plan hplan
  have hpasses := j.passes_final world w
  refine ⟨?_, ?_, ?_⟩
  · rw [dispatches_execute]
    exact hpasses.count_dispatches_le_one hsound hout
  · intro hcapped
    rw [execute_fst] at hcapped
    obtain ⟨count, hstop⟩ := Run.exists_stop_of_cappedNode hcapped
    exact hout (hpasses.behindLoop_of_capReached hsound hstop)
  · obtain ⟨told, htrace⟩ := Run.result_trace j (j.final world w).1
    have hfirst : Run.ProducersFirst j (j.execute world w).1.trace := by
      rw [execute_fst, htrace]
      exact (hpasses.producersFirst hsound).append (dispatches_events told)
    intro later iteration inputs earlier hsplit a ha
    obtain ⟨hlater, hearlier⟩ := hfirst later n iteration inputs earlier hsplit hout a ha
    by_cases hstarted : a ∈ dispatches earlier
    · exact Or.inl ⟨hearlier hstarted, hlater⟩
    · refine Or.inr ?_
      have hne : a ≠ n := by
        rintro rfl
        rw [hsound.not_precedes_self] at ha
        cases ha
      rw [hsplit, ← List.singleton_append, dispatches_append, dispatches_append, List.mem_append,
        List.mem_append, not_or, not_or]
      exact ⟨hlater, fun hsame => hne (List.mem_singleton.mp hsame), hstarted⟩

end Job

/-- A step leads to the join at once and by way of another one, and after the join the work is done
again until the check passes. -/
def staged : Definition :=
  .plain "staged"
    [.plain "split" "step", .plain "side" "step", .plain "join" "step", .plain "work" "step",
      .plain "check" "condition", .plain "end" "step"]
    [.plain "e1" "split" "side", .plain "e2" "split" "join", .plain "e3" "side" "join",
      .plain "e4" "join" "work", .plain "e5" "work" "check", .guarded "e6" "check" "work" "false",
      .guarded "e7" "check" "end" "true"]
    "split" 3

def stagedAncestors : Table (List NodeId) :=
  Table.ofList [("split", []), ("side", ["split"]), ("join", ["side", "split"]),
    ("work", ["join", "side", "split"]), ("check", ["join", "side", "split", "work"]),
    ("end", ["check", "join", "side", "split", "work"])]

/-- The run of `staged` on two nodes at a time. -/
def stagedJob : Job where
  plan := ⟨staged, ["split", "side", "join", "work", "check", "end"], staged.loops,
    staged.validate secondTimeKinds, stagedAncestors⟩
  instance? id := if id ∈ staged.ids then some secondTime else none
  instance_declared id _ h := by
    by_contra hid
    rw [if_neg hid] at h
    cases h
  evaluator := Guard.byVerdict
  parallel := 2
  initial := .empty

def stagedRun : Result :=
  (stagedJob.execute (Clock.world (fun _ => .unreachable) none) (Clock.start none none)).1

theorem plan_staged : staged.plan secondTimeKinds false = .ok stagedJob.plan := by
  have hloops : staged.loops = [⟨["work", "check"], "e6", true, some "check"⟩] := by cbv
  exact Definition.plan_eq_ok hloops rfl rfl (by decide +kernel) rfl

theorem staged_join_not_behindLoop : ¬ staged.BehindLoop "join" := by
  have hcycles : staged.cycles = [["work", "check"]] := by cbv
  have hwork : staged.reachable "work" = ["work", "check", "end"] := by cbv
  have hcheck : staged.reachable "check" = ["check", "work", "end"] := by cbv
  rw [Definition.behindLoop_iff, hcycles]
  simp [hwork, hcheck]

/-- The join is led to twice and starts once, after both that lead to it. -/
theorem staged_join_once :
    dispatches stagedRun.trace =
      ["end", "check", "work", "check", "work", "join", "side", "split"] ∧
    ¬ staged.BehindLoop "join" ∧ (dispatches stagedRun.trace).count "join" ≤ 1 ∧
    stagedRun.cappedNode ≠ some "join" ∧
    ∀ later iteration inputs earlier,
      stagedRun.trace = later ++ .dispatched "join" iteration inputs :: earlier →
      (∃ output, .ended "side" (.ok output) ∈ earlier) ∧ "side" ∉ dispatches later := by
  have hstarts : dispatches stagedRun.trace =
      ["end", "check", "work", "check", "work", "join", "side", "split"] := by decide +kernel
  obtain ⟨honce, hcapped, hafter⟩ := Job.once_and_after_producers plan_staged
    (Clock.world (fun _ => .unreachable) none) (Clock.start none none) staged_join_not_behindLoop
  refine ⟨hstarts, staged_join_not_behindLoop, honce, hcapped, ?_⟩
  intro later iteration inputs earlier hsplit
  refine (hafter later iteration inputs earlier hsplit "side" (by decide +kernel)).resolve_right ?_
  intro hnever
  change "side" ∉ dispatches stagedRun.trace at hnever
  rw [hstarts] at hnever
  exact hnever (by decide)

end Workflow
