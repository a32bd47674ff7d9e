import Workflow.Proofs.Run.Agreement
/-!
# Runs without loops

The run of a workflow without a loop comes to what a sequential pass comes to, however many
executions may be in flight and in whatever order they end.  It fails exactly when something fails
in the pass.
-/
namespace Workflow

variable {σ : Type}

namespace Run

/-- The run goes on along the pass, or has failed where the pass fails. -/
structure Tracks (j : Job) (behave : Context → Outcome) (p : Pass) (safe : σ → Prop) (r : Run)
    (w : σ) : Prop where
  safe : safe w
  stop : r.stop = none
  agrees : r.error = none → r.Agrees j behave p
  failed : r.error ≠ none → p.errors ≠ []

section

variable {j : Job} {behave : Context → Outcome} {p : Pass} {safe : σ → Prop} {world : World σ}
  {r r' : Run} {w w' : σ}

theorem Tracks.completes (h : r.Tracks j behave p safe w) (hplan : j.plan.Sound)
    (hp : p.Settled j behave j.plan.order) (herror : r.error = none) (hsafe : safe w')
    {i : Fin r.inFlight.length} {outcome : Outcome}
    (hended : outcome = behave (j.contextFor (r.inFlight.get i)))
    (hcompletes : Completes j false r i outcome r') : r'.Tracks j behave p safe w' := by
  have hagrees := h.agrees herror
  have hstarted : r.Started (r.inFlight.get i).node := Or.inl (node_mem_running r i)
  have hran : (r.inFlight.get i).node ∈ p.ran := hagrees.ran _ (Or.inr hstarted)
  have hcount := hagrees.toOnce.count_eq_one hstarted
  obtain ⟨⟨made, hmade, _⟩, hcontext⟩ :=
    hagrees.executions (r.inFlight.get i) (List.getElem_mem i.isLt)
  rw [hcontext] at hended
  cases hcompletes with
  | kept hstop => exact absurd h.stop hstop
  | astray hstop hfollow =>
      rw [hcount] at hfollow
      have hattempt := Job.attempt_of_ok hmade hended.symm
      rw [hfollow] at hattempt
      exact ⟨hsafe, h.stop, nofun, fun _ => hp.errors_ne_nil hran hattempt⟩
  | @followed output judgements targets hstop hfollow =>
      rw [hcount] at hfollow
      have hattempt := Job.attempt_eq_ok_iff.mpr
        ⟨⟨made, hmade⟩, hended.symm, congrArg Prod.snd hfollow⟩
      exact ⟨hsafe, h.stop, fun _ => hagrees.proceed hplan hp hattempt judgements,
        fun hsome => absurd herror hsome⟩
  | cancelled hcancelled => cases hcancelled
  | failed hf =>
      have hattempt := Job.attempt_of_error hmade hended.symm
      exact ⟨hsafe, h.stop, nofun, fun _ => hp.errors_ne_nil hran hattempt⟩

theorem Tracks.step (h : r.Tracks j behave p safe w) (hplan : j.plan.Straight)
    (hp : p.Settled j behave j.plan.order) (hworld : world.Obeys j behave safe)
    (hstep : Step j world (r, w) (r', w')) : r'.Tracks j behave p safe w' := by
  cases hstep with
  | cancel hstop hcancelled =>
      rw [hworld.uncancelled w h.safe] at hcancelled
      cases hcancelled
  | cap hchoose =>
      -- a pending node has not started, and a node may run at least once
      cases chooses_of_eq hchoose with
      | capped hready hcap =>
          rw [(h.agrees hready.error).toOnce.count_eq_zero hready.pending] at hcap
          exact absurd hcap (Nat.not_le.mpr j.definition.cap_pos)
  | missing hchoose =>
      cases chooses_of_eq hchoose with
      | missing hready hcap hnone =>
          have hran := (h.agrees hready.error).ran _ (Or.inl hready.pending)
          exact ⟨hworld.observeAll _ h.safe, h.stop, nofun,
            fun _ => hp.errors_ne_nil hran (Job.attempt_of_none hnone)⟩
  | start hchoose =>
      cases chooses_of_eq hchoose with
      | start hready hcap hmade =>
          exact ⟨hworld.observeAll _ h.safe, h.stop,
            fun _ => (h.agrees hready.error).launch hplan hp hready hmade,
            fun hsome => absurd hready.error hsome⟩
  | @finish _ _ herror hidle hne i outcome _ hnext =>
      have hsafe : safe w' := hworld.next w r.inFlight hne i outcome w' hnext h.safe
      have hlaunched : ∀ e ∈ r.inFlight, j.Launched e :=
        fun e he => ((h.agrees herror).executions e he).1
      have hended := hworld.outcome w r.inFlight hne i outcome w' hnext h.safe hlaunched
      refine h.completes hplan.toSound hp herror hsafe hended ?_
      rw [← hworld.uncancelled w' hsafe]
      exact completes_complete j _ r i outcome

end

end Run

namespace Job

theorem final_tracks {j : Job} (hplan : j.plan.Straight) {behave : Context → Outcome}
    {world : World σ} {safe : σ → Prop} (hworld : world.Obeys j behave safe) {w : σ}
    (hw : safe w) :
    (j.final world w).1.Tracks j behave (j.pass behave) safe (j.final world w).2 := by
  have hp := Pass.settled_pass hplan behave
  refine j.final_induction (P := fun r w => r.Tracks j behave (j.pass behave) safe w) ?_ ?_
  · exact ⟨hworld.observe w _ hw, rfl, fun _ => Run.agrees_start hplan.toSound hp,
      fun hsome => absurd rfl hsome⟩
  · exact fun r w r' w' hstep h => h.step hplan hp hworld hstep

end Job

/-- Runs of a workflow without a loop do what a sequential pass over the order of its plan does,
when nobody cancels them and how an execution ends is up to its context alone.  If nothing fails in
the pass, every run completes with just the outputs of the pass, and each node that the pass runs
has run once and no other has; if something fails there, every run fails.  So neither the number of
executions that may be in flight nor the order in which they end makes a difference. -/
theorem Job.execute_agrees_with_pass {d : Definition} {c : Catalog} {strict : Bool} {j : Job}
    (hplan : d.plan c strict = .ok j.plan) (hacyclic : ∀ members, ¬ IsCycle d.Joins members)
    (parallel : Nat) {world : World σ} {behave : Context → Outcome} {safe : σ → Prop}
    (hworld : world.Obeys j behave safe) {w : σ} (hw : safe w) :
    ((j.pass behave).errors = [] →
      ({ j with parallel := parallel }.execute world w).1.status = .completed ∧
      ({ j with parallel := parallel }.execute world w).1.outputs = (j.pass behave).outputs ∧
      ∀ id, ({ j with parallel := parallel }.execute world w).1.counts.get? id =
        if id ∈ (j.pass behave).ran then some 1 else none) ∧
    ((j.pass behave).errors ≠ [] →
      ({ j with parallel := parallel }.execute world w).1.status = .failed) := by
  rw [← Job.pass_parallel j parallel behave]
  have hobeys : world.Obeys { j with parallel := parallel } behave safe :=
    ⟨hworld.observe, hworld.uncancelled, hworld.next, hworld.outcome⟩
  have hstraight : { j with parallel := parallel }.plan.Straight :=
    Definition.straight_of_plan hplan hacyclic
  generalize { j with parallel := parallel } = j at hobeys hstraight ⊢
  have hp := Pass.settled_pass hstraight behave
  have htracks := Job.final_tracks hstraight hobeys hw
  rw [Job.execute_fst]
  cases herror : (j.final world w).1.error with
  | some e =>
      have herrors := htracks.failed (by rw [herror]; exact Option.some_ne_none e)
      refine ⟨fun hnone => absurd hnone herrors, fun _ => Run.status_eq_failed_iff.mpr ?_⟩
      rw [herror]
      exact Option.some_ne_none e
  | none =>
      obtain ⟨hinFlight, hpending⟩ :=
        Job.final_of_completed hstraight.toSound herror htracks.stop
      obtain ⟨herrors, houtputs, hcounts⟩ :=
        (htracks.agrees herror).complete hstraight hp hpending hinFlight
      exact ⟨fun _ => ⟨Run.status_eq_completed_iff.mpr ⟨herror, htracks.stop⟩, houtputs, hcounts⟩,
        fun hfailed => absurd herrors hfailed⟩

/-- Two branches that meet again. -/
def diamond : Definition :=
  .plain "diamond"
    [.plain "split" "step", .plain "left" "step", .plain "right" "step", .plain "join" "step"]
    [.plain "e1" "split" "left", .plain "e2" "split" "right", .plain "e3" "left" "join",
      .plain "e4" "right" "join"]
    "split" 1

/-- A node that hands on what it was given, on the left branch after a longer pause. -/
def relay : Instance where
  kind := "step"
  problems := []
  execute c := .sleep (if c.node = "left" then 20 else 10)
    (.done (.ok (.ofList [("seen", c.mergedInputs)])))

/-- A catalog in which every node of `diamond` is that node. -/
def relayKinds : Catalog where
  kinds := Table.ofList [("step", ⟨"step", .bare "step", fun _ => .ok relay⟩)]

/-- The run of `diamond` on one node at a time. -/
def diamondJob : Job where
  plan := ⟨diamond, ["split", "left", "right", "join"], diamond.loops, diamond.validate relayKinds,
    Table.ofList [("split", []), ("left", ["split"]), ("right", ["split"]),
      ("join", ["left", "right", "split"])]⟩
  instance? id := if id ∈ diamond.ids then some relay else none
  instance_declared id _ h := by
    by_contra hid
    rw [if_neg hid] at h
    cases h
  evaluator := Guard.byVerdict
  parallel := 1
  initial := .empty

/-- With both branches in flight at once, the node that joins them runs once, as in the pass. -/
theorem diamond_agrees :
    ({ diamondJob with parallel := 2 }.execute (Clock.world (fun _ => .unreachable) none)
      (Clock.start none none)).1.outputs =
        (diamondJob.pass (diamondJob.behaviour fun _ => .unreachable)).outputs ∧
    ({ diamondJob with parallel := 2 }.execute (Clock.world (fun _ => .unreachable) none)
      (Clock.start none none)).1.counts.get? "join" = some 1 := by
  have hnone : diamond.cycles = [] := by cbv
  have hloops : diamond.loops = [] := by
    rw [Definition.loops, hnone]
    rfl
  have hplan : diamond.plan relayKinds false = .ok diamondJob.plan :=
    Definition.plan_eq_ok hloops rfl rfl (by decide +kernel) rfl
  have hacyclic : ∀ members, ¬ IsCycle diamond.Joins members := by
    intro members hcycle
    obtain ⟨listed, hlisted, _⟩ := Definition.exists_mem_cycles hcycle
    rw [hnone] at hlisted
    cases hlisted
  have hpass : (diamondJob.pass (diamondJob.behaviour fun _ => .unreachable)).errors = [] ∧
      (diamondJob.pass (diamondJob.behaviour fun _ => .unreachable)).ran =
        ["split", "left", "right", "join"] := by decide +kernel
  have hclock : (Clock.start none none).Undisturbed := ⟨rfl, rfl⟩
  obtain ⟨_, houtputs, hcounts⟩ := (Job.execute_agrees_with_pass hplan hacyclic 2
    (Clock.world_obeys diamondJob fun _ => .unreachable) hclock).1 hpass.1
  refine ⟨houtputs, (hcounts "join").trans ?_⟩
  rw [hpass.2]
  decide

end Workflow
