import Mathlib.Tactic.FinCases
import Workflow.Proofs.Guard
import Workflow.Proofs.Run.Events
import Workflow.Proofs.Run.History
/-!
# Runaway loops

A loop each member of which always leads on to the next would go round for ever.  The cap stops it:
no activation is lost, so the loop goes round until the run stops, and nothing but the cap stops a
run that nobody cancels.
-/
namespace Workflow

variable {σ : Type}

/-- The latest start of one of some nodes. -/
theorem exists_latest_dispatch {trace : List Moment} {members : List NodeId}
    (h : ∃ m ∈ members, m ∈ dispatches trace) :
    ∃ later u iteration inputs earlier, trace = later ++ .dispatched u iteration inputs :: earlier ∧
      u ∈ members ∧ ∀ m ∈ members, m ∉ dispatches later := by
  obtain ⟨m, hm, hdispatched⟩ := h
  induction trace with
  | nil => cases hdispatched
  | cons moment trace ih =>
      by_cases hlatest : ∃ u ∈ members, u ∈ dispatches [moment]
      · obtain ⟨u, hu, hstarts⟩ := hlatest
        obtain ⟨iteration, inputs, hmoment⟩ := mem_dispatches.mp hstarts
        obtain rfl := List.mem_singleton.mp hmoment
        exact ⟨[], u, iteration, inputs, trace, rfl, hu, fun _ _ => List.not_mem_nil⟩
      · push Not at hlatest
        rw [← List.singleton_append, dispatches_append, List.mem_append] at hdispatched
        obtain ⟨later, u, iteration, inputs, earlier, rfl, hu, hlater⟩ :=
          ih (hdispatched.resolve_left (hlatest m hm))
        refine ⟨moment :: later, u, iteration, inputs, earlier, rfl, hu, fun v hv => ?_⟩
        rw [← List.singleton_append, dispatches_append, List.mem_append, not_or]
        exact ⟨hlatest v hv, hlater v hv⟩

/-- An execution that ends well and whose edges can be judged does not break the run off. -/
theorem Run.Completes.goes_on {j : Job} {cancelled : Bool} {r r' : Run} {i : Fin r.inFlight.length}
    {output : Output} (h : Completes j cancelled r i (.ok output) r')
    (hjudged : r.stop = none → ∃ targets,
      (j.follow (r.inFlight.get i).node output (r.count (r.inFlight.get i).node)).2 = .ok targets) :
    r'.error = r.error ∧ r'.stop = r.stop := by
  cases h with
  | kept hstop => exact ⟨rfl, rfl⟩
  | astray hstop hfollow =>
      obtain ⟨targets, htargets⟩ := hjudged hstop
      rw [hfollow] at htargets
      cases htargets
  | followed hstop hfollow => exact ⟨rfl, rfl⟩

namespace Job

/-- Nobody cancels the run, no execution fails, and it can be told which edges to follow. -/
structure Smooth (j : Job) (world : World σ) (w : σ) : Prop where
  uncancelled : ∀ s, j.Passes world w s → world.cancelled s.2 = false
  succeeds : ∀ s n outcome, j.Passes world w s → Run.Ends j world s n outcome →
    ∃ output, outcome = .ok output
  judged : ∀ s n output, j.Passes world w s → Run.Ends j world s n (.ok output) →
    s.1.stop = none → ∃ targets, (j.follow n output (s.1.count n)).2 = .ok targets

/-- Some member of the cycle runs, and every member that ends while the run goes on leads to the
next one. -/
structure Circles (j : Job) (world : World σ) (w : σ) (members : List NodeId) : Prop where
  cycle : IsCycle j.definition.Joins members
  begun : ∃ m ∈ members, m ∈ dispatches (j.execute world w).1.trace
  again : ∀ s u output, j.Passes world w s → Run.Ends j world s u (.ok output) →
    s.1.stop = none → (hu : u ∈ members) →
      ∃ targets, (j.follow u output (s.1.count u)).2 = .ok targets ∧ members.next u hu ∈ targets

variable {j : Job} {world : World σ} {w : σ} {s : Run × σ} {members : List NodeId}

/-- Nothing but the cap stops the run. -/
theorem Smooth.unbroken (h : j.Smooth world w)
    (hmade : ∀ id ∈ j.definition.ids, ∃ made, j.instance? id = some made)
    (hs : j.Passes world w s) : s.1.error = none ∧ s.1.stop ≠ some .cancelled := by
  refine hs.induction (P := fun s => s.1.error = none ∧ s.1.stop ≠ some .cancelled)
    ⟨rfl, nofun⟩ ?_
  rintro s s' hpasses hstep ⟨herror, hstop⟩
  cases hstep with
  | cancel hnone hcancelled =>
      rw [h.uncancelled _ hpasses] at hcancelled
      cases hcancelled
  | cap hchoose => exact ⟨herror, nofun⟩
  | missing hchoose =>
      cases Run.chooses_of_eq hchoose with
      | missing hready hcap hnone =>
          obtain ⟨made, hsome⟩ := hmade _ (hpasses.bounded.declared _ hready.pending)
          rw [hnone] at hsome
          cases hsome
  | start hchoose => exact ⟨herror, hstop⟩
  | @finish r w' _ hidle hne i outcome w'' hnext =>
      have hends := Run.ends_of_next herror hidle hne hnext
      obtain ⟨output, rfl⟩ := h.succeeds _ _ _ hpasses hends
      obtain ⟨herror', hstop'⟩ :=
        (Run.completes_complete j (world.cancelled w'') r i (.ok output)).goes_on
          (h.judged _ _ _ hpasses hends)
      rw [herror', hstop']
      exact ⟨herror, hstop⟩

/-- While the run goes on, a member that has ended has called the next one. -/
theorem Circles.called_next (h : j.Circles world w members) (hsmooth : j.Smooth world w)
    (hs : j.Passes world w s) (hstop : s.1.stop = none) {later earlier : List Moment} {u : NodeId}
    {outcome : Outcome} (hsplit : s.1.trace = later ++ .ended u outcome :: earlier)
    (hu : u ∈ members) : ∃ output targets, outcome = .ok output ∧
      (j.follow u output ((dispatches earlier).count u)).2 = .ok targets ∧
      members.next u hu ∈ targets := by
  obtain ⟨s₀, hpasses, rfl, hends, hgoes⟩ := hs.exists_ends hsplit
  obtain ⟨output, rfl⟩ := hsmooth.succeeds _ _ _ hpasses hends
  obtain ⟨targets, hfollow, hnext⟩ := h.again _ _ _ hpasses hends (hgoes hstop) hu
  rw [hpasses.accounted.counted hends.1] at hfollow
  exact ⟨output, targets, rfl, hfollow, hnext⟩

/-- A loop that goes round does not let the run complete: the member that started last has ended,
and so has called the next one, which has started after it. -/
theorem Circles.stops (h : j.Circles world w members) (hplan : j.plan.Sound)
    (hsmooth : j.Smooth world w)
    (hmade : ∀ id ∈ j.definition.ids, ∃ made, j.instance? id = some made) :
    (j.final world w).1.stop ≠ none := by
  intro hstop
  have hpasses := j.passes_final world w
  obtain ⟨herror, _⟩ := hsmooth.unbroken hmade hpasses
  obtain ⟨hinFlight, hpending⟩ := final_of_completed hplan herror hstop
  have hbegun := h.begun
  rw [dispatches_execute] at hbegun
  obtain ⟨later, u, iteration, inputs, earlier, hsplit, hu, hlatest⟩ :=
    exists_latest_dispatch hbegun
  have hended : ∃ outcome, .ended u outcome ∈ later := by
    refine (hpasses.concluded later u iteration inputs earlier hsplit).resolve_left ?_
    simp [Run.running, hinFlight]
  obtain ⟨outcome, hended⟩ := hended
  obtain ⟨after, before, rfl⟩ := List.append_of_mem hended
  rw [List.append_assoc, List.cons_append] at hsplit
  obtain ⟨output, targets, rfl, hfollow, hnext⟩ :=
    h.called_next hsmooth hpasses hstop hsplit hu
  obtain ⟨heard, hfollow', hheard⟩ :=
    hpasses.accounted.heard hstop herror after u output _ hsplit
  obtain rfl := Except.ok.inj (hfollow.symm.trans hfollow')
  have hstarts : members.next u hu ∈ dispatches after := by
    refine (hheard _ hnext).resolve_left ?_
    rw [hpending]
    exact List.not_mem_nil
  refine hlatest _ (List.next_mem members u hu) ?_
  rw [dispatches_append, List.mem_append]
  exact Or.inl hstarts

end Job

namespace World.Obeys

variable {j : Job} {world : World σ} {w : σ} {behave : Context → Outcome} {safe : σ → Prop}

/-- A run is smooth if no node fails and its edges can be judged by what it hands on. -/
theorem smooth (hworld : world.Obeys j behave safe) (hw : safe w)
    (hwell : ∀ e, j.Launched e → ∃ output, behave (j.contextFor e) = .ok output ∧
      ∀ iteration, ∃ targets, (j.follow e.node output iteration).2 = .ok targets) :
    j.Smooth world w where
  uncancelled s hs := hworld.uncancelled _ (hworld.safe_and_launched hw hs).1
  succeeds s n outcome hs hends := by
    obtain ⟨e, hlaunched, _, rfl⟩ := hworld.exists_launched_of_ends hw hs hends
    obtain ⟨output, houtput, _⟩ := hwell e hlaunched
    exact ⟨output, houtput⟩
  judged s n output hs hends _ := by
    obtain ⟨e, hlaunched, rfl, hended⟩ := hworld.exists_launched_of_ends hw hs hends
    obtain ⟨output', houtput, hfollow⟩ := hwell e hlaunched
    obtain rfl := Except.ok.inj (hended.trans houtput)
    exact hfollow _

/-- A cycle goes round if some member runs and every member always leads to the next one. -/
theorem circles (hworld : world.Obeys j behave safe) (hw : safe w) {members : List NodeId}
    (hcycle : IsCycle j.definition.Joins members)
    (hbegun : ∃ m ∈ members, m ∈ dispatches (j.execute world w).1.trace)
    (hagain : ∀ e output, j.Launched e → behave (j.contextFor e) = .ok output →
      (he : e.node ∈ members) → ∀ iteration, ∃ targets,
        (j.follow e.node output iteration).2 = .ok targets ∧ members.next e.node he ∈ targets) :
    j.Circles world w members where
  cycle := hcycle
  begun := hbegun
  again s u output hs hends _ hu := by
    obtain ⟨e, hlaunched, rfl, hended⟩ := hworld.exists_launched_of_ends hw hs hends
    exact hagain e output hlaunched hended.symm hu _

end World.Obeys

namespace Result

/-- The cap has stopped the run at a node that has run as often as it may, which the run has told
once.  All the same the run is a success. -/
structure Capped (r : Result) (cap : Nat) : Prop where
  status : r.status = .capped
  success : r.status.isSuccess = true
  error : r.error = none
  count_le : ∀ id, r.count id ≤ cap
  told : ∃ id, r.cappedNode = some id ∧ r.count id = cap ∧
    r.events.filter Event.isCapReached = [.capReached id cap cap]

/-- A run that the cap has stopped has told of that once. -/
theorem Tells.told_of_capped {r : Result} {start : Event} {cap : Nat} (h : r.Tells start cap)
    (hstart : start.isCapReached = false) (hstatus : r.status = .capped) :
    ∃ id, r.cappedNode = some id ∧ r.count id = cap ∧
      r.events.filter Event.isCapReached = [.capReached id cap cap] := by
  obtain ⟨repeated, ending, hevents, hrepeated, hcloses⟩ := h.order
  have hnone : repeated.filter Event.isCapReached = [] := by
    rw [List.filter_eq_nil_iff]
    intro e he
    rw [(hrepeated e he).isCapReached_eq_false]
    exact Bool.false_ne_true
  cases hcloses with
  | completed hother => rw [hstatus] at hother; cases hother
  | @capped id _ hnode hcount =>
      refine ⟨id, hnode, hcount, ?_⟩
      rw [hevents, List.filter_cons_of_neg (by simp [hstart]), List.filter_append, hnone]
      rfl
  | failed hother => rw [hstatus] at hother; cases hother
  | cancelled hother => rw [hstatus] at hother; cases hother

end Result

/-- A loop that goes round ends in the cap.  Let a plan be run on any number of nodes at a time,
with nobody to cancel it and nothing to fail, and let its executions end in any order.  If some
member of a cycle runs, and each member that ends while the run goes on leads to the next, then the
cap stops the run: it is a success without an error, it tells once of the node that has used up the
cap, and no node has run more often. -/
theorem Plan.runaway_loop_is_capped {d : Definition} {c : Catalog} {strict : Bool} {p : Plan}
    (hplan : d.plan c strict = .ok p) {c' : Catalog} {evaluator : Evaluator} {parallel : Nat}
    {initial : Fields} {j : Job} (hjob : Job.make? c' evaluator parallel p initial = .ok j)
    {world : World σ} {w : σ} (hsmooth : j.Smooth world w) {members : List NodeId}
    (hcircles : j.Circles world w members) :
    (p.execute c' evaluator parallel initial world w).1.Capped d.cap := by
  obtain ⟨rfl, hsound⟩ := Definition.sound_of_plan hplan
  have hp : j.plan = p := Job.plan_of_make? hjob
  have hmade : ∀ id ∈ j.definition.ids, ∃ made, j.instance? id = some made := by
    intro id hid
    rw [Job.definition, hp] at hid
    exact Job.exists_instance_of_make? hjob hid
  have hpasses := j.passes_final world w
  obtain ⟨herror, huncancelled⟩ := hsmooth.unbroken hmade hpasses
  have hstatus : (j.final world w).1.status = .capped := by
    cases hstop : (j.final world w).1.stop with
    | none => exact absurd hstop (hcircles.stops (hp ▸ hsound) hsmooth hmade)
    | some stop =>
        cases stop with
        | capReached id count => simp [Run.status, herror, hstop]
        | cancelled => exact absurd hstop huncancelled
  rw [execute, hjob, ← hp]
  change ((j.final world w).1.result j).Capped j.cap
  exact {
    status := hstatus
    success := by
      rw [show ((j.final world w).1.result j).status = .capped from hstatus]
      rfl
    error := by
      change (j.final world w).1.error.map RunError.message = none
      rw [herror]
      rfl
    count_le := hpasses.bounded.count_le
    told := hpasses.narrated.tells.told_of_capped rfl hstatus }

/-- What a check finds when something is not right. -/
def wrong : Output := .ofList [("result", .bool false)]

/-- A node that ends at once and never finds anything right. -/
def neverRight : Instance where
  kind := "step"
  problems := []
  execute _ := .done (.ok wrong)

/-- A catalog in which every node of `retry` is that node. -/
def neverRightKinds : Catalog where
  kinds := Table.ofList [("step", ⟨"step", .bare "step", fun _ => .ok neverRight⟩),
    ("condition", ⟨"condition", .bare "condition", fun _ => .ok neverRight⟩)]

/-- The run of `retry` on such nodes, two at a time. -/
def endlessRetry : Job where
  plan := ⟨retry, ["work", "check", "end"], retry.loops, retry.validate neverRightKinds,
    Table.ofList [("work", []), ("check", ["work"]), ("end", ["check", "work"])]⟩
  instance? := Job.lookupDeclared retry.ids
    [("work", neverRight), ("check", neverRight), ("end", neverRight)]
  instance_declared _ _ h := Job.mem_of_lookupDeclared h
  evaluator := Guard.byVerdict
  parallel := 2
  initial := .empty

/-- Each time the node does the same, so the work leads to the check and the check to the work. -/
theorem endlessRetry_leads {e : Execution} (h : endlessRetry.Launched e) :
    endlessRetry.behaviour (fun _ => .unreachable) (endlessRetry.contextFor e) = .ok wrong ∧
    ∀ iteration, ∃ targets, (endlessRetry.follow e.node wrong iteration).2 = .ok targets ∧
      ∀ he : e.node ∈ ["work", "check"], ["work", "check"].next e.node he ∈ targets := by
  obtain ⟨made, hmade, _⟩ := h
  have hid : e.node ∈ ["work", "check", "end"] := endlessRetry.instance_declared _ _ hmade
  have hnever : ∀ id ∈ ["work", "check", "end"], endlessRetry.instance? id = some neverRight := by
    intro id hid
    fin_cases hid <;> rfl
  constructor
  · rw [Job.behaviour, show (endlessRetry.contextFor e).node = e.node from rfl, hnever _ hid]
    rfl
  · have hedges : ∀ id ∈ ["work", "check", "end"], ∀ edge ∈ retry.outgoing id,
        ∀ expression ∈ edge.condition, ∃ expected,
          Guard.Expects expression.toList expected := by decide +kernel
    have hverdict : wrong.verdict = some false := rfl
    intro iteration
    refine ⟨_, Job.follow_of_verdict (j := endlessRetry) rfl hverdict (hedges _ hid) iteration, ?_⟩
    generalize e.node = id at hid
    revert id
    decide +kernel

/-- The work is done as often as the cap allows. -/
theorem endlessRetry_is_capped :
    (endlessRetry.plan.execute neverRightKinds Guard.byVerdict 2 .empty
      (Clock.world (fun _ => .unreachable) none) (Clock.start none none)).1.Capped 3 := by
  have hplan : retry.plan neverRightKinds false = .ok endlessRetry.plan :=
    Definition.plan_eq_ok retry_loops rfl rfl (by decide +kernel) rfl
  have hjob : Job.make? neverRightKinds Guard.byVerdict 2 endlessRetry.plan .empty =
      .ok endlessRetry := rfl
  have hworld := Clock.world_obeys endlessRetry fun _ => .unreachable
  have hclock : (Clock.start none none).Undisturbed := ⟨rfl, rfl⟩
  have hsmooth : endlessRetry.Smooth (Clock.world (fun _ => .unreachable) none)
      (Clock.start none none) := by
    refine hworld.smooth hclock fun e he => ?_
    obtain ⟨hwrong, hleads⟩ := endlessRetry_leads he
    refine ⟨wrong, hwrong, fun iteration => ?_⟩
    obtain ⟨targets, hfollow, _⟩ := hleads iteration
    exact ⟨targets, hfollow⟩
  have hcircles : endlessRetry.Circles (Clock.world (fun _ => .unreachable) none)
      (Clock.start none none) ["work", "check"] := by
    refine hworld.circles hclock (by decide) (by decide +kernel) ?_
    intro e output he houtput hmember iteration
    obtain ⟨hwrong, hleads⟩ := endlessRetry_leads he
    obtain rfl := Except.ok.inj (houtput.symm.trans hwrong)
    obtain ⟨targets, hfollow, hnext⟩ := hleads iteration
    exact ⟨targets, hfollow, hnext hmember⟩
  exact Plan.runaway_loop_is_capped hplan hjob hsmooth hcircles

end Workflow
