import Workflow.Proofs.Run.Events
import Workflow.Proofs.Run.Follow
import Workflow.Proofs.Run.History
import Workflow.Proofs.Run.Turn
/-!
# Runs with one thing to do at a time

When only one node is to run and nothing is in flight, the next turn of the run is known: the node
runs, and then what it leads to is to run.  As long as every node leads to one other, the run goes
along a row of nodes, and the executions so far tell its counts and its events.
-/
namespace Workflow

/-- Which node runs again, and the number of that execution. -/
def Event.repeat? : Event → Option (NodeId × Nat)
  | .repeated id iteration => some (id, iteration)
  | _ => none

/-- How often the node is among some executions that are told with their numbers. -/
def timesIn (done : List (NodeId × Nat)) (id : NodeId) : Nat := (done.map Prod.fst).count id

theorem timesIn_append (done new : List (NodeId × Nat)) (id : NodeId) :
    timesIn (done ++ new) id = timesIn done id + timesIn new id := by
  rw [timesIn, List.map_append, List.count_append]
  rfl

theorem filterMap_repeat_repeats (id : NodeId) (iteration : Nat) :
    (told (Run.repeats id iteration).reverse).filterMap Event.repeat? =
      [(id, iteration)].filter fun x => 1 < x.2 := by
  rw [told_repeats]
  by_cases hagain : 1 < iteration
  · simp [hagain, Event.repeat?]
  · simp [hagain]

namespace Job

variable {σ : Type}

/-- Nobody cancels the run, and every execution ends well, with outputs that fit its node and its
number. -/
structure Provides (j : Job) (world : World σ) (w : σ) (fits : NodeId → Nat → Output → Prop) :
    Prop where
  uncancelled : ∀ s, j.Passes world w s → world.cancelled s.2 = false
  succeeds : ∀ s hne i outcome w', j.Passes world w s → s.1.choose j = .idle →
    world.next s.2 s.1.inFlight hne = (i, outcome, w') →
      ∃ output, outcome = .ok output ∧
        fits (s.1.inFlight.get i).node (s.1.inFlight.get i).iteration output

/-- An execution of the node that ends with this output leads to just this node, if any. -/
def LeadsTo (j : Job) (id : NodeId) (iteration : Nat) (output : Output) (next : Option NodeId) :
    Prop :=
  ∃ targets, (j.follow id output iteration).2 = .ok targets ∧ ∀ t, t ∈ targets ↔ t ∈ next

end Job

theorem World.Obeys.provides {σ : Type} {world : World σ} {j : Job} {behave : Context → Outcome}
    {safe : σ → Prop} (hworld : world.Obeys j behave safe) {w : σ} (hw : safe w)
    {fits : NodeId → Nat → Output → Prop}
    (hfits : ∀ e, j.Launched e →
      ∃ output, behave (j.contextFor e) = .ok output ∧ fits e.node e.iteration output) :
    j.Provides world w fits where
  uncancelled s hs := hworld.uncancelled _ (hworld.safe_and_launched hw hs).1
  succeeds s hne i outcome w' hs _ hnext := by
    obtain ⟨hsafe, hlaunched⟩ := hworld.safe_and_launched hw hs
    rw [hworld.outcome _ _ hne _ _ _ hnext hsafe hlaunched]
    exact hfits _ (hlaunched _ (List.get_mem _ _))

namespace Run

variable {j : Job} {r : Run} {id : NodeId} {made : Instance} {next : Option NodeId}
  {done : List (NodeId × Nat)} {σ : Type} {world : World σ} {w : σ}

/-- Between two executions: nothing is in flight, only this node is to run, if any, and these
executions have taken place, each told of with its number if it was not the first. -/
structure Stands (r : Run) (next : Option NodeId) (done : List (NodeId × Nat)) : Prop where
  pending : r.pending = next.toList
  inFlight : r.inFlight = []
  stop : r.stop = none
  error : r.error = none
  count : ∀ id, r.count id = timesIn done id
  repeated : (told r.trace).filterMap Event.repeat? = done.filter fun x => 1 < x.2

theorem stands_start (j : Job) :
    ((start j).noteAll [.event j.startEvent]).Stands (some j.definition.entry) [] where
  pending := rfl
  inFlight := rfl
  stop := rfl
  error := rfl
  count _ := rfl
  repeated := rfl

theorem choose_of_pending_eq_nil (h : r.pending = []) : r.choose j = .idle := by
  unfold choose
  rw [h]
  split <;> rfl

/-- The only node that is to run is ready, and there is room for it. -/
theorem Stands.choose_eq (h : r.Stands (some id) done) : r.choose j =
    if j.cap ≤ timesIn done id then .capped id
    else ((j.instance? id).map (Choice.start id)).getD (.missing id) := by
  have hroom : ¬ j.limit ≤ 0 := Nat.not_le.mpr (Nat.le_max_left 1 j.parallel)
  have hready : r.isReady j id = true := by
    simp [isReady, running, h.inFlight, h.pending]
  simp only [choose, h.stop, h.error, h.inFlight, h.pending, h.count, Option.isSome_none,
    Bool.or_self, List.length_nil, hroom, decide_false, Option.toList_some,
    List.find?_cons, hready, Bool.false_eq_true, if_false]
  cases j.instance? id <;> rfl

theorem Stands.pending_launch (h : r.Stands (some id) done) :
    (r.launch j id made).pending = [] := by
  change r.pending.erase id = []
  rw [h.pending, Option.toList_some, List.erase_cons_head]

/-- The node starts, and then there is nothing more to start. -/
theorem Stands.dispatch_eq (h : r.Stands (some id) done) (hcap : timesIn done id < j.cap)
    (hmade : j.instance? id = some made) (world : World σ) (w : σ) : dispatch j world r w =
      (r.launch j id made, (startMoments (r.contextOf j id)).foldl world.observe w) := by
  have hchoose : r.choose j = .start id made := by
    rw [h.choose_eq, if_neg (Nat.not_le.mpr hcap), hmade]
    rfl
  rw [Run.dispatch_eq, hchoose]
  dsimp only
  rw [Run.dispatch_eq, choose_of_pending_eq_nil h.pending_launch]

/-- What is to run after one execution that leads to one node at most. -/
theorem pending_enqueue_of_nil {targets : List NodeId} (h : r.pending = [])
    (htargets : ∀ t, t ∈ targets ↔ t ∈ next) : (r.enqueue targets).pending = next.toList := by
  have hnodup : (r.enqueue targets).pending.Nodup := enqueue_nodup (by simp [h])
  have hmem : ∀ t, t ∈ (r.enqueue targets).pending ↔ t ∈ next.toList := by
    intro t
    simp [mem_enqueue, h, htargets]
  cases next with
  | none => exact List.eq_nil_iff_forall_not_mem.mpr fun t ht => by simpa using (hmem t).mp ht
  | some v =>
      exact List.perm_singleton.mp
        ((List.perm_ext_iff_of_nodup hnodup (List.nodup_singleton v)).mpr hmem)

/-- The only execution in flight is the one that has just started. -/
theorem Stands.get_launch (h : r.Stands (some id) done)
    (i : Fin (r.launch j id made).inFlight.length) :
    ((r.launch j id made).inFlight.get i).node = id ∧
      ((r.launch j id made).inFlight.get i).iteration = timesIn done id + 1 := by
  have hall : ∀ e ∈ (r.launch j id made).inFlight,
      e.node = id ∧ e.iteration = timesIn done id + 1 := by
    intro e he
    change e ∈ r.inFlight ++ [_] at he
    rw [h.inFlight, List.nil_append, List.mem_singleton] at he
    rw [he, contextOf, h.count]
    exact ⟨rfl, rfl⟩
  exact hall _ (List.get_mem _ i)

theorem Stands.proceed (h : r.Stands (some id) done)
    {i : Fin (r.launch j id made).inFlight.length} {output : Output}
    {judgements : List Judgement} {targets : List NodeId}
    (htargets : ∀ t, t ∈ targets ↔ t ∈ next) :
    ((r.launch j id made).proceed i output judgements targets).Stands next
      (done ++ [(id, timesIn done id + 1)]) where
  pending := by
    have hpending : (r.launch j id made).pending = [] := h.pending_launch
    exact pending_enqueue_of_nil hpending htargets
  inFlight := by
    have hlength : (r.launch j id made).inFlight.length = 1 := by simp [launch, h.inFlight]
    apply List.eq_nil_of_length_eq_zero
    change ((r.launch j id made).inFlight.eraseIdx i).length = 0
    rw [List.length_eraseIdx_of_lt i.isLt, hlength]
  stop := h.stop
  error := h.error
  count other := by
    have hcount : ((r.launch j id made).proceed i output judgements targets).count other =
        (r.launch j id made).count other := rfl
    rw [hcount, count_launch, h.count, h.count, timesIn_append]
    by_cases hother : other = id
    · simp [hother, timesIn]
    · simp [hother, timesIn, Ne.symm hother]
  repeated := by
    rw [trace_proceed, told_append, told_judged, List.append_nil, told_ended, trace_launch,
      told_dispatched, told_append, List.filterMap_append, h.repeated, h.count,
      filterMap_repeat_repeats, List.filter_append]

/-- The execution ends and leads on. -/
theorem Stands.complete (h : r.Stands (some id) done) (cancelled : Bool)
    (i : Fin (r.launch j id made).inFlight.length) {output : Output}
    (hleads : j.LeadsTo id (timesIn done id + 1) output next) :
    ((r.launch j id made).complete j cancelled i (.ok output)).Stands next
      (done ++ [(id, timesIn done id + 1)]) := by
  obtain ⟨targets, hfollow, htargets⟩ := hleads
  have hcount : (r.launch j id made).count id = timesIn done id + 1 := by
    rw [count_launch, if_pos rfl, h.count]
  have hfollowed : j.follow ((r.launch j id made).inFlight.get i).node output
      ((r.launch j id made).count ((r.launch j id made).inFlight.get i).node) =
        ((j.follow id output (timesIn done id + 1)).1, .ok targets) := by
    rw [(h.get_launch i).1, hcount, ← hfollow]
  have hstop : (r.launch j id made).stop = none := h.stop
  rw [(Completes.followed hstop hfollowed).eq_complete]
  exact h.proceed htargets

end Run

namespace Job

variable {σ : Type} {j : Job} {world : World σ} {w : σ} {s : Run × σ}
  {fits : NodeId → Nat → Output → Prop} {id : NodeId} {next : Option NodeId}
  {done : List (NodeId × Nat)}

theorem Provides.heed_eq (hprovides : j.Provides world w fits) (hs : j.Heads world w s) :
    Run.heed world s.1 s.2 = s.1 := by
  rw [Run.heed, hprovides.uncancelled _ hs.passes, Bool.and_false]
  rfl

/-- One turn: the node runs, and then what it leads to is to run. -/
theorem Provides.turn (hprovides : j.Provides world w fits) (hs : j.Heads world w s)
    (h : s.1.Stands (some id) done) (hcap : timesIn done id < j.cap)
    (hmade : ∃ made, j.instance? id = some made)
    (hleads : ∀ output, fits id (timesIn done id + 1) output →
      j.LeadsTo id (timesIn done id + 1) output next) :
    ∃ s', j.Heads world w s' ∧ s'.1.Stands next (done ++ [(id, timesIn done id + 1)]) := by
  obtain ⟨made, hmade⟩ := hmade
  obtain ⟨r, w₀⟩ := s
  have hheed : Run.heed world r w₀ = r := hprovides.heed_eq hs
  have hstarted := h.dispatch_eq hcap hmade world w₀
  generalize (Run.startMoments (r.contextOf j id)).foldl world.observe w₀ = w₁ at hstarted
  have hpasses : j.Passes world w (r.launch j id made, w₁) :=
    hstarted ▸ hs.passes.trans (Run.dispatch_steps j world r w₀)
  have hidle : (r.launch j id made).choose j = .idle :=
    (congrArg (fun t => t.1.choose j = .idle) hstarted).mp (Run.choose_dispatch j world r w₀)
  have hne : (r.launch j id made).inFlight ≠ [] := by simp [Run.launch]
  rcases hnext : world.next w₁ (r.launch j id made).inFlight hne with ⟨i, outcome, w₂⟩
  obtain ⟨output, rfl, hfits⟩ := hprovides.succeeds _ hne i outcome w₂ hpasses hidle hnext
  obtain ⟨hnode, hiteration⟩ := h.get_launch i
  dsimp only at hfits
  rw [hnode, hiteration] at hfits
  have hafter := h.complete (world.cancelled w₂) i (hleads output hfits)
  have hhandle : Run.handle j world (r.launch j id made, w₁) hne =
      ((r.launch j id made).complete j (world.cancelled w₂) i (.ok output), w₂) := by
    simp only [Run.handle, hnext]
  refine ⟨_, hs.tail (.handled (t := (r.launch j id made, w₁)) ?_ h.error hne ?_), ?_⟩
  · rw [hheed]
    exact hstarted
  · rw [hhandle]
    exact hafter.error
  · rw [hhandle]
    exact hafter

/-- Along a row of nodes that have all run equally often, each of which leads to the next, every
node runs once more. -/
theorem Provides.row (hprovides : j.Provides world w fits) {n : Nat} (hn : n < j.cap)
    {ids : List NodeId} {last : NodeId} (hnodup : ids.Nodup)
    (htimes : ∀ id ∈ ids, timesIn done id = n)
    (hmade : ∀ id ∈ ids, ∃ made, j.instance? id = some made)
    (hleads : (ids ++ [last]).IsChain fun u v =>
      ∀ output, fits u (n + 1) output → j.LeadsTo u (n + 1) output (some v))
    (hs : j.Heads world w s) (h : s.1.Stands (ids ++ [last]).head? done) :
    ∃ s', j.Heads world w s' ∧ s'.1.Stands (some last) (done ++ ids.map (·, n + 1)) := by
  induction ids generalizing s done with
  | nil => exact ⟨s, hs, by simpa using h⟩
  | cons id ids ih =>
      obtain ⟨hfresh, hnodup⟩ := List.nodup_cons.mp hnodup
      obtain ⟨hid, hids⟩ := List.forall_mem_cons.mp htimes
      obtain ⟨hmadeid, hmade⟩ := List.forall_mem_cons.mp hmade
      obtain ⟨hfirst, hleads⟩ := List.isChain_cons.mp hleads
      obtain ⟨v, hv⟩ : ∃ v, (ids ++ [last]).head? = some v := by
        cases ids <;> exact ⟨_, rfl⟩
      subst hid
      obtain ⟨s', hs', h'⟩ := hprovides.turn hs h hn hmadeid (hfirst v hv)
      rw [← hv] at h'
      -- the nodes behind this one have run as often as before
      have hbehind : ∀ other ∈ ids,
          timesIn (done ++ [(id, timesIn done id + 1)]) other = timesIn done id := by
        intro other hother
        have hne : id ≠ other := fun heq => hfresh (heq ▸ hother)
        rw [timesIn_append, hids other hother]
        simp [timesIn, hne]
      obtain ⟨s'', hs'', h''⟩ := ih hnodup hbehind hmade hleads hs' h'
      refine ⟨s'', hs'', ?_⟩
      rw [List.append_assoc] at h''
      exact h''

/-- The run is over when there is nothing more to run. -/
theorem Provides.final_of_done (hprovides : j.Provides world w fits) (hs : j.Heads world w s)
    (h : s.1.Stands none done) : j.final world w = s := by
  rw [hs.final_eq]
  refine Run.drive_of_ended ?_ (Or.inr h.inFlight)
  rw [hprovides.heed_eq hs, Run.dispatch_eq, Run.choose_of_pending_eq_nil h.pending]

/-- The run is over when the node that is to run has used up the cap. -/
theorem Provides.final_of_capped (hprovides : j.Provides world w fits) (hs : j.Heads world w s)
    (h : s.1.Stands (some id) done) (hcap : j.cap ≤ timesIn done id) :
    j.final world w = ({ s.1 with stop := some (.capReached id (s.1.count id)) }, s.2) := by
  have hchoose : s.1.choose j = .capped id := by rw [h.choose_eq, if_pos hcap]
  rw [hs.final_eq]
  refine Run.drive_of_ended ?_ (Or.inr h.inFlight)
  rw [hprovides.heed_eq hs, Run.dispatch_eq, hchoose]

end Job

/-- The executions that are told of as repeated are told while the run goes on. -/
theorem Run.filterMap_repeat_result (j : Job) (r : Run) :
    (r.result j).events.filterMap Event.repeat? = (told r.trace).filterMap Event.repeat? := by
  have hending : (r.endEvents j).filterMap Event.repeat? = [] := by
    unfold Run.endEvents
    split <;> rfl
  rw [events_result, List.filterMap_append, hending, List.append_nil]

end Workflow
