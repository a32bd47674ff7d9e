import Workflow.Proofs.Retry
import Workflow.Proofs.Run.Setup
/-!
# How often steps are done again

The run of a workflow whose steps are done again until a check passes goes round and round: the
start runs once, and then the steps and the check run in turn.  When the check passes, the output
runs and the run completes; when the cap is used up before, the run stops at the first step.  Both
follow from one induction on the number of rounds.
-/
namespace Workflow
namespace Retry

/-- One round: the steps and the check, each with this number. -/
def lap (l : Retry) (n : Nat) : List (NodeId × Nat) := l.members.map (·, n)

/-- The start and this many rounds. -/
def laps (l : Retry) (n : Nat) : List (NodeId × Nat) :=
  (l.start, 1) :: (List.range' 1 n).flatMap l.lap

/-- The check comes to a verdict each time, and it passes exactly from this execution on. -/
def PassesFrom (l : Retry) (k : Nat) (id : NodeId) (iteration : Nat) (output : Output) : Prop :=
  id = l.check → output.verdict = some (decide (k ≤ iteration))

/-- What comes of a run in which the check passes from its `k`-th execution on and no node may run
more often than the cap: it completes if that is often enough, and else stops at the first step. -/
structure ComesTo (l : Retry) (k cap : Nat) (r : Result) : Prop where
  completed : k ≤ cap → r.status = .completed ∧ r.count l.start = 1 ∧
    (∀ m ∈ l.members, r.count m = k) ∧ r.count l.output = 1
  capped : cap < k → r.status = .capped ∧ r.cappedNode = some l.first ∧
    .capReached l.first cap cap ∈ r.events ∧ r.count l.start = 1 ∧
      (∀ m ∈ l.members, r.count m = cap) ∧ r.count l.output = 0
  repeated : r.events.filterMap Event.repeat? = (List.range' 2 (min k cap - 1)).flatMap l.lap

variable {l : Retry} {d : Definition} {id : NodeId} {n : Nat}

/-! ### Counting rounds -/

theorem laps_succ (l : Retry) (n : Nat) : l.laps (n + 1) = l.laps n ++ l.lap (n + 1) := by
  rw [laps, List.range'_concat, List.flatMap_append, List.flatMap_singleton, Nat.one_mul,
    Nat.add_comm 1 n]
  rfl

theorem map_fst_lap (l : Retry) (n : Nat) : (l.lap n).map Prod.fst = l.members := by
  simp [lap, Function.comp_def]

theorem timesIn_laps (l : Retry) (n : Nat) (id : NodeId) :
    timesIn (l.laps n) id = [l.start].count id + n * l.members.count id := by
  induction n with
  | zero => simp [laps, timesIn]
  | succ n ih =>
      rw [laps_succ, timesIn_append, ih, timesIn, map_fst_lap, Nat.succ_mul, Nat.add_assoc]

theorem filter_laps (l : Retry) (n : Nat) :
    (l.laps n).filter (fun x => 1 < x.2) = (List.range' 2 (n - 1)).flatMap l.lap := by
  have hlap : ∀ n, (l.lap n).filter (fun x => 1 < x.2) = if 1 < n then l.lap n else [] := by
    intro n
    by_cases hagain : 1 < n
    · rw [if_pos hagain]
      exact List.filter_eq_self.mpr (by simp [lap, hagain])
    · rw [if_neg hagain]
      exact List.filter_eq_nil_iff.mpr (by simp [lap, Nat.not_lt.mp hagain])
  induction n with
  | zero => rfl
  | succ n ih =>
      rw [laps_succ, List.filter_append, ih, hlap]
      cases n with
      | zero => simp
      | succ n =>
          rw [if_pos (by omega), Nat.add_sub_cancel, Nat.add_sub_cancel, List.range'_concat,
            List.flatMap_append, List.flatMap_singleton, Nat.one_mul, Nat.add_comm 2 n]

namespace Shapes

theorem members_nodup (h : l.Shapes d) : l.members.Nodup :=
  (List.nodup_cons.mp h.row_nodup).2

theorem timesIn_start (h : l.Shapes d) (n : Nat) : timesIn (l.laps n) l.start = 1 := by
  have hfresh : l.start ∉ l.members := (List.nodup_cons.mp h.row_nodup).1
  rw [timesIn_laps, List.count_eq_zero.mpr hfresh]
  simp

theorem timesIn_member (h : l.Shapes d) (n : Nat) (hid : id ∈ l.members) :
    timesIn (l.laps n) id = n := by
  have hne : l.start ≠ id := by
    rintro rfl
    exact (List.nodup_cons.mp h.row_nodup).1 hid
  rw [timesIn_laps, List.count_eq_one_of_mem h.members_nodup hid, Nat.mul_one]
  simp [hne]

theorem timesIn_output (h : l.Shapes d) (n : Nat) : timesIn (l.laps n) l.output = 0 := by
  obtain ⟨hstart, hmembers⟩ : l.output ≠ l.start ∧ l.output ∉ l.members := by
    simpa [row] using h.output_not_mem_row
  rw [timesIn_laps, List.count_eq_zero.mpr hmembers]
  simp [hstart.symm]

/-- When the steps have run once more, the check has not yet. -/
theorem timesIn_check (h : l.Shapes d) (n : Nat) :
    timesIn (l.laps n ++ (l.first :: l.rest).map (·, n + 1)) l.check = n := by
  obtain ⟨_, _, hfresh⟩ := List.nodup_append'.mp h.members_nodup
  have hzero : timesIn ((l.first :: l.rest).map (·, n + 1)) l.check = 0 := by
    rw [timesIn, List.map_map, List.count_eq_zero]
    simpa [Function.comp_def] using fun hmem => hfresh hmem List.mem_cons_self
  have hcheck : l.check ∈ l.members := List.mem_append_right _ List.mem_cons_self
  rw [timesIn_append, h.timesIn_member n hcheck, hzero, Nat.add_zero]

end Shapes

/-! ### Going round -/

variable {σ : Type} {j : Job} {world : World σ} {w : σ} {s : Run × σ} {k : Nat}

/-- A job of this shape on the standard evaluator, all nodes of which have been made ready, in a
world where nothing goes wrong and the check passes from its `k`-th execution on. -/
structure Runs (l : Retry) (k : Nat) (j : Job) (world : World σ) (w : σ) : Prop where
  shapes : l.Shapes j.definition
  evaluator : j.evaluator = Guard.byVerdict
  made : ∀ id ∈ j.definition.ids, ∃ made, j.instance? id = some made
  provides : j.Provides world w (l.PassesFrom k)

namespace Runs

theorem exists_made (h : l.Runs k j world w) (hid : id ∈ l.row ++ [l.output]) :
    ∃ made, j.instance? id = some made :=
  h.made id (h.shapes.nodes.mem_iff.mpr hid)

/-- At first the start runs. -/
theorem exists_begun (h : l.Runs k j world w) :
    ∃ s, j.Heads world w s ∧ s.1.Stands (some l.first) (l.laps 0) := by
  have hstands : (j.begin world w).1.Stands (some l.start) [] :=
    h.shapes.entry ▸ Run.stands_start j
  have hleads : (l.start, l.first) ∈ l.row.zip l.row.tail := List.mem_cons_self
  exact h.provides.turn Relation.ReflTransGen.refl hstands j.definition.cap_pos
    (h.exists_made List.mem_cons_self) fun _ _ => h.shapes.leadsTo_along hleads

/-- Unless the cap is used up, there is another round; the verdict of the check in that round
decides what is to run next. -/
theorem exists_lap (h : l.Runs k j world w) (hn : n < j.cap) (hs : j.Heads world w s)
    (hstands : s.1.Stands (some l.first) (l.laps n)) :
    ∃ s', j.Heads world w s' ∧
      s'.1.Stands (some (if k ≤ n + 1 then l.output else l.first)) (l.laps (n + 1)) := by
  have hmembers : ∀ id ∈ l.members, id ∈ l.row ++ [l.output] :=
    fun id hid => List.mem_append_left _ (List.mem_cons_of_mem _ hid)
  have hsteps : ∀ id ∈ l.first :: l.rest, id ∈ l.members :=
    fun id hid => List.mem_append_left _ hid
  obtain ⟨hnodup, _⟩ := List.nodup_append'.mp h.shapes.members_nodup
  have hchain : (l.first :: l.rest ++ [l.check]).IsChain fun u v =>
      ∀ output, l.PassesFrom k u (n + 1) output → j.LeadsTo u (n + 1) output (some v) :=
    isChain_iff_forall_mem_zip_tail.mpr fun ends hends _ _ =>
      h.shapes.leadsTo_along (List.mem_cons_of_mem _ hends)
  -- first along the steps to the check, and then by its verdict
  obtain ⟨s', hs', hstands'⟩ := h.provides.row hn hnodup
    (fun id hid => h.shapes.timesIn_member n (hsteps id hid))
    (fun id hid => h.exists_made (hmembers id (hsteps id hid))) hchain hs hstands
  have htimes := h.shapes.timesIn_check n
  have hleads : ∀ output, l.PassesFrom k l.check (n + 1) output →
      j.LeadsTo l.check (n + 1) output (some (if k ≤ n + 1 then l.output else l.first)) := by
    intro output hpasses
    have hlead : j.LeadsTo l.check (n + 1) output
        (some (if decide (k ≤ n + 1) then l.output else l.first)) :=
      h.shapes.leadsTo_by_verdict h.evaluator (hpasses rfl)
    simpa only [decide_eq_true_eq] using hlead
  obtain ⟨s'', hs'', hstands''⟩ := h.provides.turn hs' hstands' (htimes.symm ▸ hn)
    (h.exists_made (hmembers _ (List.mem_append_right _ List.mem_cons_self)))
    (htimes.symm ▸ hleads)
  refine ⟨s'', hs'', ?_⟩
  rw [htimes, List.append_assoc] at hstands''
  rw [laps_succ, lap, members, List.map_append]
  exact hstands''

/-- As long as the check does not pass and the cap is not used up, the first step is to run
again. -/
theorem exists_round (h : l.Runs k j world w) (hn : n < k) (hcap : n ≤ j.cap) :
    ∃ s, j.Heads world w s ∧ s.1.Stands (some l.first) (l.laps n) := by
  induction n with
  | zero => exact h.exists_begun
  | succ n ih =>
      obtain ⟨s, hs, hstands⟩ := ih (by omega) (by omega)
      have hlap := h.exists_lap hcap hs hstands
      rwa [if_neg (Nat.not_le.mpr hn)] at hlap

/-- The check passes, and the output runs last. -/
theorem stands_final (h : l.Runs k j world w) (hk : 0 < k) (hcap : k ≤ j.cap) :
    (j.final world w).1.Stands none (l.laps k ++ [(l.output, 1)]) := by
  obtain ⟨n, rfl⟩ := Nat.exists_eq_add_one_of_ne_zero hk.ne'
  obtain ⟨s, hs, hstands⟩ := h.exists_round (Nat.lt_succ_self n) (Nat.le_of_succ_le hcap)
  obtain ⟨s', hs', hstands'⟩ := h.exists_lap hcap hs hstands
  rw [if_pos (Nat.le_refl _)] at hstands'
  have hzero := h.shapes.timesIn_output (n + 1)
  obtain ⟨s'', hs'', hstands''⟩ := h.provides.turn hs' hstands' (hzero ▸ j.definition.cap_pos)
    (h.exists_made (List.mem_append_right _ List.mem_cons_self))
    fun _ _ => h.shapes.leadsTo_none
  rw [hzero] at hstands''
  rw [h.provides.final_of_done hs'' hstands'']
  exact hstands''

/-- The cap is used up when the first step is to run again. -/
theorem exists_stopped (h : l.Runs k j world w) (hcap : j.cap < k) :
    ∃ r : Run, r.Stands (some l.first) (l.laps j.cap) ∧
      (j.final world w).1 = { r with stop := some (.capReached l.first j.cap) } := by
  obtain ⟨s, hs, hstands⟩ := h.exists_round hcap (Nat.le_refl _)
  have htimes : timesIn (l.laps j.cap) l.first = j.cap :=
    h.shapes.timesIn_member j.cap List.mem_cons_self
  refine ⟨s.1, hstands, ?_⟩
  rw [h.provides.final_of_capped hs hstands (Nat.le_of_eq htimes.symm), hstands.count, htimes]

theorem completed (h : l.Runs k j world w) (hk : 0 < k) (hcap : k ≤ j.cap) :
    l.ComesTo k j.cap (j.execute world w).1 := by
  have hstands := h.stands_final hk hcap
  have hcount : ∀ id, (j.execute world w).1.count id =
      timesIn (l.laps k) id + timesIn [(l.output, 1)] id := by
    intro id
    rw [← timesIn_append]
    exact hstands.count id
  refine ⟨fun _ => ⟨?_, ?_, fun m hm => ?_, ?_⟩, fun hlt => absurd hcap (Nat.not_le.mpr hlt), ?_⟩
  · exact Run.status_eq_completed_iff.mpr ⟨hstands.error, hstands.stop⟩
  · have hne : l.output ≠ l.start := fun heq =>
      h.shapes.output_not_mem_row (heq ▸ List.mem_cons_self)
    rw [hcount, h.shapes.timesIn_start]
    simp [timesIn, hne]
  · have hne : l.output ≠ m := fun heq =>
      h.shapes.output_not_mem_row (heq ▸ List.mem_cons_of_mem _ hm)
    rw [hcount, h.shapes.timesIn_member k hm]
    simp [timesIn, hne]
  · rw [hcount, h.shapes.timesIn_output]
    simp [timesIn]
  · rw [Job.execute_fst, Run.filterMap_repeat_result, hstands.repeated, List.filter_append,
      filter_laps, Nat.min_eq_left hcap]
    simp

theorem capped (h : l.Runs k j world w) (hcap : j.cap < k) :
    l.ComesTo k j.cap (j.execute world w).1 := by
  obtain ⟨r, hstands, hfinal⟩ := h.exists_stopped hcap
  have hcount : ∀ id, (j.execute world w).1.count id = timesIn (l.laps j.cap) id := by
    intro id
    rw [Job.execute_fst, hfinal]
    exact hstands.count id
  refine ⟨fun hle => absurd hcap (Nat.not_lt.mpr hle), fun _ => ⟨?_, ?_, ?_, ?_, ?_, ?_⟩, ?_⟩
  · rw [Job.execute_fst, hfinal]
    simp [Run.result, Run.status, hstands.error]
  · rw [Job.execute_fst, hfinal]
    simp [Run.result, Run.cappedNode, hstands.error]
  · rw [Job.execute_fst, hfinal, Run.events_result]
    simp [Run.endEvents, hstands.error]
  · rw [hcount, h.shapes.timesIn_start]
  · intro m hm
    rw [hcount, h.shapes.timesIn_member j.cap hm]
  · rw [hcount, h.shapes.timesIn_output]
  · rw [Job.execute_fst, Run.filterMap_repeat_result, hfinal, Nat.min_eq_right hcap.le]
    change (told r.trace).filterMap Event.repeat? = _
    rw [hstands.repeated, filter_laps]

end Runs
end Retry

/-- The cap is exact on steps that are done again until a check passes, however many there are.  The
workflow has a plan if the catalog accepts its nodes, and all of them can be made ready.  Let the
plan be run under the standard evaluator, on any number of nodes at a time, with nobody to cancel
it and nothing to fail, and let the check pass from its `k`-th execution on.  If the cap allows for
`k` executions, the run completes: the start and the output have run once, and the steps and the
check `k` times.  If not, the cap stops the run at the first step: the steps and the check have run
as often as it allows, and the output has not run.  In both cases the run tells of the rounds but
the first, one after the other, and in each of the steps and then of the check. -/
theorem Retry.cap_is_exact (l : Retry) {d : Definition} (hd : l.Shapes d) {c : Catalog}
    (haccepts : ∀ n ∈ d.nodes, c.Accepts n) (parallel : Nat) (initial : Fields) :
    ∃ p j, d.plan c false = .ok p ∧
      Job.make? c Guard.byVerdict parallel p initial = .ok j ∧
      ∀ {σ : Type} (world : World σ) (w : σ) (k : Nat), 0 < k →
        j.Provides world w (l.PassesFrom k) →
          l.ComesTo k d.cap (p.execute c Guard.byVerdict parallel initial world w).1 := by
  obtain ⟨p, hplan⟩ := hd.exists_plan haccepts
  obtain ⟨rfl, _⟩ := Definition.sound_of_plan hplan
  have hready : ∀ n ∈ p.definition.nodes, ∃ i, c.instantiate n = .ok i := by
    intro n hn
    obtain ⟨made, hmade, _⟩ := Definition.exists_instance_of_plan hplan n hn
    exact ⟨made, hmade⟩
  obtain ⟨j, hjob⟩ := Job.exists_make? Guard.byVerdict parallel initial hready
  refine ⟨p, j, hplan, hjob, fun world w k hk hprovides => ?_⟩
  have hp : j.plan = p := Job.plan_of_make? hjob
  have hruns : l.Runs k j world w := {
    shapes := by
      rw [Job.definition, hp]
      exact hd
    evaluator := (Job.surroundings_of_make? hjob).1
    made := fun id hid => by
      rw [Job.definition, hp] at hid
      exact Job.exists_instance_of_make? hjob hid
    provides := hprovides }
  rw [Plan.execute, hjob, ← hp]
  change l.ComesTo k j.cap (j.execute world w).1
  rcases Nat.lt_or_ge j.cap k with hcap | hcap
  · exact hruns.capped hcap
  · exact hruns.completed hk hcap

/-- Something is drafted and polished until a review lets it pass. -/
def proofread : Definition :=
  .plain "proofread"
    [.plain "begin" "step", .plain "draft" "step", .plain "polish" "step",
      .plain "review" "condition", .plain "publish" "step"]
    [.plain "e1" "begin" "draft", .plain "e2" "draft" "polish", .plain "e3" "polish" "review",
      .guarded "e4" "review" "draft" "false", .guarded "e5" "review" "publish" "true"]
    "begin" 3

def proofreading : Retry := ⟨"begin", "draft", ["polish"], "review", "publish"⟩

theorem proofreading_shapes : proofreading.Shapes proofread where
  nodes := List.Perm.refl _
  edges := List.Perm.refl _
  entry := rfl
  condition := by decide

/-- A node that ends at once, with a verdict that is true from this execution on. -/
def trueFrom (k : Nat) : Instance where
  kind := "step"
  problems := []
  execute c := .done (.ok (.ofList [("result", .bool (decide (k ≤ c.iteration)))]))

/-- A catalog in which every node of `proofread` is that node. -/
def trueFromKinds (k : Nat) : Catalog where
  kinds := Table.ofList [("step", ⟨"step", .bare "step", fun _ => .ok (trueFrom k)⟩),
    ("condition", ⟨"condition", .bare "condition", fun _ => .ok (trueFrom k)⟩)]

theorem instantiate_trueFrom (k : Nat) : ∀ n ∈ proofread.nodes,
    (trueFromKinds k).Accepts n ∧ (trueFromKinds k).instantiate n = .ok (trueFrom k) := by
  intro n hn
  have hknown : (trueFromKinds k).kinds.get? n.kind =
      some ⟨n.kind, .bare n.kind, fun _ => .ok (trueFrom k)⟩ := by
    have hkind : n.kind = "step" ∨ n.kind = "condition" := by
      revert n
      decide
    rw [trueFromKinds, Table.get?_ofList]
    rcases hkind with hkind | hkind
    · rw [hkind]
      rfl
    · rw [hkind]
      rfl
  refine ⟨⟨_, hknown, trueFrom k, rfl, rfl⟩, ?_⟩
  rw [Catalog.instantiate, hknown]
  rfl

theorem proofread_provides {k : Nat} {p : Plan} {j : Job}
    (hplan : proofread.plan (trueFromKinds k) false = .ok p)
    (hjob : Job.make? (trueFromKinds k) Guard.byVerdict 4 p .empty = .ok j) :
    j.Provides (Clock.world (fun _ => .unreachable) none) (Clock.start none none)
      (proofreading.PassesFrom k) := by
  have hworld := Clock.world_obeys j fun _ => .unreachable
  refine hworld.provides ⟨rfl, rfl⟩ fun e he => ?_
  obtain ⟨made, hmade, _⟩ := he
  obtain ⟨n, hn, _, hinstance⟩ := Job.exists_node_of_make? hjob hmade
  rw [(Definition.sound_of_plan hplan).1] at hn
  obtain rfl := Except.ok.inj (hinstance.symm.trans (instantiate_trueFrom k n hn).2)
  refine ⟨.ofList [("result", .bool (decide (k ≤ e.iteration)))], ?_, fun _ => rfl⟩
  rw [Job.behaviour, show (j.contextFor e).node = e.node from rfl, hmade]
  rfl

/-- A review that passes the second time is in time, and one that passes the fourth time is not. -/
theorem proofread_rounds :
    (∃ p, proofread.plan (trueFromKinds 2) false = .ok p ∧
      proofreading.ComesTo 2 3 (p.execute (trueFromKinds 2) Guard.byVerdict 4 .empty
        (Clock.world (fun _ => .unreachable) none) (Clock.start none none)).1) ∧
    ∃ p, proofread.plan (trueFromKinds 4) false = .ok p ∧
      proofreading.ComesTo 4 3 (p.execute (trueFromKinds 4) Guard.byVerdict 4 .empty
        (Clock.world (fun _ => .unreachable) none) (Clock.start none none)).1 := by
  have hcomes : ∀ k, 0 < k → ∃ p, proofread.plan (trueFromKinds k) false = .ok p ∧
      proofreading.ComesTo k 3 (p.execute (trueFromKinds k) Guard.byVerdict 4 .empty
        (Clock.world (fun _ => .unreachable) none) (Clock.start none none)).1 := by
    intro k hk
    have haccepts : ∀ n ∈ proofread.nodes, (trueFromKinds k).Accepts n :=
      fun n hn => (instantiate_trueFrom k n hn).1
    obtain ⟨p, j, hplan, hjob, hcomes⟩ :=
      proofreading.cap_is_exact proofreading_shapes haccepts 4 .empty
    exact ⟨p, hplan, hcomes _ _ k hk (proofread_provides hplan hjob)⟩
  exact ⟨hcomes 2 (by decide), hcomes 4 (by decide)⟩

end Workflow
