import Mathlib.Data.Finset.Max
import Workflow.Proofs.Plan
import Workflow.Run.Result
/-!
# The steps of a run

Driving a run is a sequence of small steps: the run is cancelled, it is stopped by the cap, an
execution starts, or an execution in flight ends.  A fact that every step keeps holds of the whole
run, whatever the world does; and a run that is not broken off ends with nothing in flight and
nothing left that could start.
-/
namespace Workflow

open Relation

namespace Run

/-! ### What is chosen -/

/-- The run goes on, has room for one more execution, and this pending node is ready. -/
structure Ready (j : Job) (r : Run) (id : NodeId) : Prop where
  stop : r.stop = none
  error : r.error = none
  room : r.inFlight.length < j.limit
  pending : id ∈ r.pending
  ready : r.isReady j id = true

theorem Ready.not_running {j : Job} {r : Run} {id : NodeId} (h : r.Ready j id) :
    id ∉ r.running := by
  have hready := h.ready
  simp only [isReady, Bool.and_eq_true, Bool.not_eq_true', List.contains_eq_mem,
    decide_eq_false_iff_not] at hready
  exact hready.1

/-- Nothing that precedes a ready node is left to run or in flight. -/
theorem Ready.not_mem_of_precedes {j : Job} (hplan : j.plan.Sound) {r : Run} {a id : NodeId}
    (h : r.Ready j id) (ha : j.plan.precedes a id = true) : a ∉ r.pending ++ r.running := by
  intro hmem
  have hclear := h.ready
  rw [isReady, Bool.and_eq_true, List.all_eq_true] at hclear
  have hsame := hclear.2 a hmem
  rw [ha, Bool.not_true, Bool.or_false, beq_iff_eq] at hsame
  rw [hsame, hplan.not_precedes_self] at ha
  cases ha

/-- What each choice means. -/
inductive Chooses (j : Job) (r : Run) : Choice → Prop where
  | idle (hidle : r.stop = none → r.error = none → r.inFlight.length < j.limit →
      ∀ id ∈ r.pending, r.isReady j id = false) : Chooses j r .idle
  | capped {id : NodeId} (hready : r.Ready j id) (hcap : j.cap ≤ r.count id) :
      Chooses j r (.capped id)
  | missing {id : NodeId} (hready : r.Ready j id) (hcap : r.count id < j.cap)
      (hnone : j.instance? id = none) : Chooses j r (.missing id)
  | start {id : NodeId} {made : Instance} (hready : r.Ready j id) (hcap : r.count id < j.cap)
      (hmade : j.instance? id = some made) : Chooses j r (.start id made)

theorem chooses_choose (j : Job) (r : Run) : r.Chooses j (r.choose j) := by
  unfold choose
  split
  · rename_i hbusy
    refine .idle fun hstop herror hroom => ?_
    simp [hstop, herror, Nat.not_le.mpr hroom] at hbusy
  · rename_i hfree
    simp only [Bool.or_eq_true, decide_eq_true_eq, not_or, Bool.not_eq_true, Nat.not_le,
      Option.isSome_eq_false_iff, Option.isNone_iff_eq_none] at hfree
    obtain ⟨⟨hstop, herror⟩, hroom⟩ := hfree
    split
    · rename_i hnone
      refine .idle fun _ _ _ id hid => ?_
      simpa using List.find?_eq_none.mp hnone id hid
    · rename_i id hfind
      have hready : r.Ready j id :=
        ⟨hstop, herror, hroom, List.mem_of_find?_eq_some hfind, List.find?_some hfind⟩
      split
      · rename_i hcap
        exact .capped hready hcap
      · rename_i hcap
        split
        · rename_i hnone
          exact .missing hready (Nat.lt_of_not_le hcap) hnone
        · rename_i made hmade
          exact .start hready (Nat.lt_of_not_le hcap) hmade

theorem chooses_of_eq {j : Job} {r : Run} {choice : Choice} (h : r.choose j = choice) :
    r.Chooses j choice :=
  h ▸ chooses_choose j r

theorem ready_of_choose {j : Job} {r : Run} {id : NodeId} {made : Instance}
    (h : r.choose j = .start id made) : r.Ready j id := by
  cases chooses_of_eq h with
  | start hready hcap hmade => exact hready

/-- A run that has stopped or failed starts nothing. -/
theorem choose_eq_idle_of_stop {j : Job} {r : Run} (h : r.stop ≠ none ∨ r.error ≠ none) :
    r.choose j = .idle := by
  have hbusy : (r.stop.isSome || r.error.isSome || j.limit ≤ r.inFlight.length) = true := by
    rcases h with h | h
    · simp [Option.isSome_iff_ne_none.mpr h]
    · simp [Option.isSome_iff_ne_none.mpr h]
  unfold choose
  rw [if_pos hbusy]

/-! ### Pending nodes -/

theorem mem_enqueue {r : Run} {targets : List NodeId} {id : NodeId} :
    id ∈ (r.enqueue targets).pending ↔ id ∈ r.pending ∨ id ∈ targets := by
  simp only [enqueue]
  generalize r.pending = pending
  induction targets generalizing pending with
  | nil => simp
  | cons t targets ih =>
      rw [List.foldl_cons, ih, List.mem_cons, ← or_assoc]
      apply or_congr_left
      split
      · rename_i ht
        refine (or_iff_left_of_imp ?_).symm
        rintro rfl
        exact List.contains_iff_mem.mp ht
      · rw [List.mem_append, List.mem_singleton]

/-- A node that is pending already does not become pending twice. -/
theorem enqueue_nodup {r : Run} {targets : List NodeId} (h : r.pending.Nodup) :
    (r.enqueue targets).pending.Nodup := by
  simp only [enqueue]
  generalize r.pending = pending at h
  induction targets generalizing pending with
  | nil => exact h
  | cons t targets ih =>
      rw [List.foldl_cons]
      apply ih
      split
      · exact h
      · rename_i ht
        rw [List.contains_iff_mem] at ht
        rw [← List.concat_eq_append]
        exact h.concat ht

/-! ### What a start changes -/

theorem running_launch (j : Job) (r : Run) (id : NodeId) (made : Instance) :
    (r.launch j id made).running = r.running ++ [id] :=
  List.map_append

theorem mem_running_launch {j : Job} {r : Run} {id : NodeId} {made : Instance} {m : NodeId} :
    m ∈ (r.launch j id made).running ↔ m ∈ r.running ∨ m = id := by
  rw [running_launch, List.mem_append, List.mem_singleton]

theorem mem_pending_launch {j : Job} {r : Run} (hnodup : r.pending.Nodup) {id : NodeId}
    {made : Instance} {m : NodeId} :
    m ∈ (r.launch j id made).pending ↔ m ≠ id ∧ m ∈ r.pending :=
  hnodup.mem_erase_iff

theorem count_launch (j : Job) (r : Run) (id : NodeId) (made : Instance) (other : NodeId) :
    (r.launch j id made).count other = if other = id then r.count id + 1 else r.count other :=
  count_enter r id other

/-- The start of a node is the last that has happened. -/
theorem trace_launch (j : Job) (r : Run) (id : NodeId) (made : Instance) :
    (r.launch j id made).trace = .dispatched id (r.count id + 1) (r.inputsOf j id) ::
      ((repeats id (r.count id + 1)).reverse ++ r.trace) := by
  simp [launch, noteAll, enter, startMoments, contextOf]

/-! ### How executions end -/

/-- The run without one of its executions, the end of which is noted. -/
def conclude (r : Run) (i : Fin r.inFlight.length) (outcome : Outcome) : Run :=
  { r with inFlight := r.inFlight.eraseIdx i }.noteAll [.ended (r.inFlight.get i).node outcome]

/-- The run after an execution that ended well: the targets of the edges followed are pending, and
the outputs are kept. -/
def proceed (r : Run) (i : Fin r.inFlight.length) (output : Output) (judgements : List Judgement)
    (targets : List NodeId) : Run :=
  (((r.conclude i (.ok output)).noteAll (judgements.map .judged)).enqueue targets).store
    (r.inFlight.get i).node output

theorem mem_running_of_mem_eraseIdx {r : Run} {i : Fin r.inFlight.length} {m : NodeId}
    (hm : m ∈ (r.inFlight.eraseIdx i).map Execution.node) : m ∈ r.running := by
  obtain ⟨e, he, rfl⟩ := List.mem_map.mp hm
  exact List.mem_map_of_mem (List.mem_of_mem_eraseIdx he)

theorem map_node_eraseIdx {r : Run} (hnodup : r.running.Nodup) (i : Fin r.inFlight.length) :
    (r.inFlight.eraseIdx i).map Execution.node = r.running.erase (r.inFlight.get i).node := by
  have herase := hnodup.erase_getElem i (by simp [running])
  rw [← List.eraseIdx_map]
  simpa [running] using herase.symm

theorem node_mem_running (r : Run) (i : Fin r.inFlight.length) :
    (r.inFlight.get i).node ∈ r.running :=
  List.mem_map_of_mem (List.getElem_mem i.isLt)

theorem trace_proceed (r : Run) (i : Fin r.inFlight.length) (output : Output)
    (judgements : List Judgement) (targets : List NodeId) :
    (r.proceed i output judgements targets).trace = (judgements.map Moment.judged).reverse ++
      .ended (r.inFlight.get i).node (.ok output) :: r.trace :=
  rfl

theorem mem_pending_proceed {r : Run} {i : Fin r.inFlight.length} {output : Output}
    {judgements : List Judgement} {targets : List NodeId} {m : NodeId} :
    m ∈ (r.proceed i output judgements targets).pending ↔ m ∈ r.pending ∨ m ∈ targets :=
  mem_enqueue

/-- What the end of an execution makes of a run. -/
inductive Completes (j : Job) (cancelled : Bool) (r : Run) (i : Fin r.inFlight.length) :
    Outcome → Run → Prop where
  /-- The run has stopped: the outputs are kept and nothing follows. -/
  | kept {output : Output} (hstop : r.stop ≠ none) :
      Completes j cancelled r i (.ok output)
        ((r.conclude i (.ok output)).store (r.inFlight.get i).node output)
  /-- An edge cannot be judged, or a verdict is missing. -/
  | astray {output : Output} {judgements : List Judgement} {e : RunError} (hstop : r.stop = none)
      (hfollow : j.follow (r.inFlight.get i).node output (r.count (r.inFlight.get i).node) =
        (judgements, .error e)) :
      Completes j cancelled r i (.ok output)
        { (r.conclude i (.ok output)).noteAll (judgements.map .judged) with error := some e }
  | followed {output : Output} {judgements : List Judgement} {targets : List NodeId}
      (hstop : r.stop = none)
      (hfollow : j.follow (r.inFlight.get i).node output (r.count (r.inFlight.get i).node) =
        (judgements, .ok targets)) :
      Completes j cancelled r i (.ok output) (r.proceed i output judgements targets)
  /-- The execution ended itself because the run was cancelled. -/
  | cancelled (hcancelled : cancelled = true) :
      Completes j cancelled r i (.error .cancelled)
        { r.conclude i (.error .cancelled) with stop := some .cancelled }
  | failed {f : Failure} (hf : f = .cancelled → cancelled = false) :
      Completes j cancelled r i (.error f)
        { r.conclude i (.error f) with error := some (.node (r.inFlight.get i).node f) }

theorem completes_complete (j : Job) (cancelled : Bool) (r : Run) (i : Fin r.inFlight.length)
    (outcome : Outcome) : Completes j cancelled r i outcome (r.complete j cancelled i outcome) := by
  unfold complete
  split
  · rename_i output
    split
    · rename_i hstop
      exact .kept (Option.isSome_iff_ne_none.mp hstop)
    · rename_i hstop
      have hnone : r.stop = none := by simpa using hstop
      dsimp only
      split
      · rename_i e hfollow
        exact .astray hnone (Prod.ext rfl hfollow)
      · rename_i targets hfollow
        exact .followed hnone (Prod.ext rfl hfollow)
  · split
    · rename_i hcancelled
      exact .cancelled hcancelled
    · rename_i hcancelled
      exact .failed fun _ => Bool.eq_false_iff.mpr hcancelled
  · rename_i f hf
    exact .failed fun h => absurd h hf

section

variable {j : Job} {cancelled : Bool} {r r' : Run} {i : Fin r.inFlight.length} {outcome : Outcome}

/-- Nothing but the handling of an end does what it does. -/
theorem Completes.eq_complete (h : Completes j cancelled r i outcome r') :
    r.complete j cancelled i outcome = r' := by
  cases h with
  | kept hstop => exact if_pos (Option.isSome_iff_ne_none.mpr hstop)
  | @astray output judgements e hstop hfollow =>
      have hjudged : j.follow r.inFlight[i].node output (r.count r.inFlight[i].node) =
        (judgements, .error e) := hfollow
      dsimp only [complete]
      rw [if_neg (by simp [hstop]), hjudged]
      rfl
  | @followed output judgements targets hstop hfollow =>
      have hjudged : j.follow r.inFlight[i].node output (r.count r.inFlight[i].node) =
        (judgements, .ok targets) := hfollow
      dsimp only [complete]
      rw [if_neg (by simp [hstop]), hjudged]
      rfl
  | cancelled hcancelled => exact if_pos hcancelled
  | @failed f hf =>
      cases f with
      | cancelled => exact if_neg (by simp [hf rfl])
      | _ => rfl

theorem Completes.counts_eq (h : Completes j cancelled r i outcome r') : r'.counts = r.counts := by
  cases h <;> rfl

theorem Completes.inFlight_eq (h : Completes j cancelled r i outcome r') :
    r'.inFlight = r.inFlight.eraseIdx i := by
  cases h <;> rfl

theorem Completes.running_eq (h : Completes j cancelled r i outcome r') (hnodup : r.running.Nodup) :
    r'.running = r.running.erase (r.inFlight.get i).node := by
  rw [running, h.inFlight_eq, map_node_eraseIdx hnodup]

/-- The end of an execution stops the run only if that has been cancelled. -/
theorem Completes.stop_eq (h : Completes j cancelled r i outcome r') :
    r'.stop = r.stop ∨ r'.stop = some .cancelled := by
  cases h with
  | kept hstop => exact Or.inl rfl
  | astray hstop hfollow => exact Or.inl rfl
  | followed hstop hfollow => exact Or.inl rfl
  | cancelled hcancelled => exact Or.inr rfl
  | failed hf => exact Or.inl rfl

/-- A run that has been cancelled stays so. -/
theorem Completes.stop_eq_cancelled (h : Completes j cancelled r i outcome r')
    (hstop : r.stop = some .cancelled) : r'.stop = some .cancelled := by
  rcases h.stop_eq with hsame | hcancelled
  · rw [hsame, hstop]
  · exact hcancelled

/-- The end of an execution is noted first, and then what was judged after it. -/
theorem Completes.trace_eq (h : Completes j cancelled r i outcome r') :
    ∃ judgements : List Judgement, r'.trace = (judgements.map Moment.judged).reverse ++
      .ended (r.inFlight.get i).node outcome :: r.trace := by
  cases h with
  | kept hstop => exact ⟨[], rfl⟩
  | @astray output judgements e hstop hfollow => exact ⟨judgements, rfl⟩
  | @followed output judgements targets hstop hfollow => exact ⟨judgements, rfl⟩
  | cancelled hcancelled => exact ⟨[], rfl⟩
  | failed hf => exact ⟨[], rfl⟩

end

/-! ### Steps -/

variable {σ : Type}

/-- One step of a run and its world. -/
inductive Step (j : Job) (world : World σ) : Run × σ → Run × σ → Prop where
  | cancel {r : Run} {w : σ} (hstop : r.stop = none) (hcancelled : world.cancelled w = true) :
      Step j world (r, w) ({ r with stop := some .cancelled }, w)
  | cap {r : Run} {w : σ} {id : NodeId} (hchoose : r.choose j = .capped id) :
      Step j world (r, w) ({ r with stop := some (.capReached id (r.count id)) }, w)
  | missing {r : Run} {w : σ} {id : NodeId} (hchoose : r.choose j = .missing id) :
      Step j world (r, w)
        ({ (r.enter id).noteAll (repeats id (r.count id + 1)) with
            error := some (.missingInstance id) },
          (repeats id (r.count id + 1)).foldl world.observe w)
  | start {r : Run} {w : σ} {id : NodeId} {made : Instance}
      (hchoose : r.choose j = .start id made) :
      Step j world (r, w)
        (r.launch j id made, (startMoments (r.contextOf j id)).foldl world.observe w)
  | finish {r : Run} {w : σ} (herror : r.error = none) (hidle : r.choose j = .idle)
      (hne : r.inFlight ≠ []) {i : Fin r.inFlight.length} {outcome : Outcome} {w' : σ}
      (hnext : world.next w r.inFlight hne = (i, outcome, w')) :
      Step j world (r, w) (r.complete j (world.cancelled w') i outcome, w')

theorem dispatch_steps (j : Job) (world : World σ) (r : Run) (w : σ) :
    ReflTransGen (Step j world) (r, w) (dispatch j world r w) := by
  fun_induction dispatch j world r w with
  | case1 r w hchoose => exact ReflTransGen.refl
  | case2 r w id hchoose => exact ReflTransGen.single (.cap hchoose)
  | case3 r w id hchoose moments => exact ReflTransGen.single (.missing hchoose)
  | case4 r w id made hchoose _ ih => exact ReflTransGen.head (.start hchoose) ih

/-- A dispatch goes on until there is nothing to start. -/
theorem choose_dispatch (j : Job) (world : World σ) (r : Run) (w : σ) :
    (dispatch j world r w).1.choose j = .idle := by
  fun_induction dispatch j world r w with
  | case1 r w hchoose => exact hchoose
  | case2 r w id hchoose => exact choose_eq_idle_of_stop (Or.inl (Option.some_ne_none _))
  | case3 r w id hchoose moments =>
      exact choose_eq_idle_of_stop (Or.inr (Option.some_ne_none _))
  | case4 r w id made hchoose _ ih => exact ih

theorem heed_steps (j : Job) (world : World σ) (r : Run) (w : σ) :
    ReflTransGen (Step j world) (r, w) (heed world r w, w) := by
  unfold heed
  split
  · rename_i hheed
    rw [Bool.and_eq_true, Option.isNone_iff_eq_none] at hheed
    exact ReflTransGen.single (.cancel hheed.1 hheed.2)
  · exact ReflTransGen.refl

/-- Driving a run takes it from step to step. -/
theorem drive_steps (j : Job) (world : World σ) (r : Run) (w : σ) :
    ReflTransGen (Step j world) (r, w) (drive j world r w) := by
  fun_induction drive j world r w with
  | case1 r w s herror =>
      exact (heed_steps j world r w).trans (dispatch_steps j world _ w)
  | case2 r w s herror hne =>
      exact (heed_steps j world r w).trans (dispatch_steps j world _ w)
  | case3 r w s herror hne e after _ hafter =>
      refine ((heed_steps j world r w).trans (dispatch_steps j world _ w)).tail ?_
      exact .finish (by simpa using herror) (choose_dispatch j world _ w) hne rfl
  | case4 r w s herror hne e after _ hafter ih =>
      refine (((heed_steps j world r w).trans (dispatch_steps j world _ w)).tail ?_).trans ih
      exact .finish (by simpa using herror) (choose_dispatch j world _ w) hne rfl

/-- A run that did not fail ends with nothing in flight and nothing to start. -/
theorem drive_done (j : Job) (world : World σ) (r : Run) (w : σ)
    (herror : (drive j world r w).1.error = none) :
    (drive j world r w).1.inFlight = [] ∧ (drive j world r w).1.choose j = .idle := by
  fun_induction drive j world r w with
  | case1 r w s hsome =>
      rw [herror] at hsome
      cases hsome
  | case2 r w s _ hne => exact ⟨hne, choose_dispatch j world _ w⟩
  | case3 r w s _ hne e after _ hafter =>
      rw [herror] at hafter
      cases hafter
  | case4 r w s _ hne e after _ hafter ih => exact ih herror

/-- Nothing is forgotten: with nothing in flight, a pending node that none of the others precedes is
ready, so a run that has nothing to start has nothing pending. -/
theorem pending_eq_nil_of_idle {j : Job} (hplan : j.plan.Sound) {r : Run} (hstop : r.stop = none)
    (herror : r.error = none) (hflight : r.inFlight = []) (hidle : r.choose j = .idle) :
    r.pending = [] := by
  by_contra hpending
  obtain ⟨id, hid, hfirst⟩ := Finset.exists_min_image r.pending.toFinset j.plan.order.idxOf
    (List.toFinset_nonempty_iff _ |>.mpr hpending)
  rw [List.mem_toFinset] at hid
  have hready : r.isReady j id = true := by
    simp only [isReady, running, hflight, List.map_nil, List.append_nil, List.contains_nil,
      Bool.not_false, Bool.true_and, List.all_eq_true, Bool.or_eq_true, Bool.not_eq_true']
    intro other hother
    refine Or.inr (Bool.eq_false_iff.mpr fun hprecedes => ?_)
    exact absurd (hplan.idxOf_lt hprecedes)
      (Nat.not_lt.mpr (hfirst other (List.mem_toFinset.mpr hother)))
  have hroom : r.inFlight.length < j.limit := by
    rw [hflight]
    exact Nat.lt_of_lt_of_le Nat.zero_lt_one (Nat.le_max_left 1 j.parallel)
  cases chooses_of_eq hidle with
  | idle hnone => simp [hnone hstop herror hroom id hid] at hready

/-! ### The whole run -/

theorem status_eq_completed_iff {r : Run} :
    r.status = .completed ↔ r.error = none ∧ r.stop = none := by
  unfold status
  split <;> simp_all

theorem status_eq_failed_iff {r : Run} : r.status = .failed ↔ r.error ≠ none := by
  unfold status
  split <;> simp_all

theorem status_eq_cancelled_iff {r : Run} :
    r.status = .cancelled ↔ r.error = none ∧ r.stop = some .cancelled := by
  unfold status
  split <;> simp_all

theorem exists_stop_of_cappedNode {r : Run} {id : NodeId} (h : r.cappedNode = some id) :
    ∃ count, r.stop = some (.capReached id count) := by
  unfold cappedNode at h
  split at h
  · rename_i capped count _ hstop
    obtain rfl := Option.some.inj h
    exact ⟨count, hstop⟩
  · cases h

end Run

namespace Job

/-- Where the run of a job begins, and what the world has come to by then. -/
def begin (j : Job) (world : World σ) (w : σ) : Run × σ :=
  ((Run.start j).noteAll [.event j.startEvent], world.observe w (.event j.startEvent))

/-- Where the run of a job ends, and what the world has come to. -/
def final (j : Job) (world : World σ) (w : σ) : Run × σ :=
  Run.drive j world ((Run.start j).noteAll [.event j.startEvent])
    (world.observe w (.event j.startEvent))

/-- The run of a job can come to this state. -/
def Passes (j : Job) (world : World σ) (w : σ) : Run × σ → Prop :=
  ReflTransGen (Run.Step j world) (j.begin world w)

theorem execute_fst (j : Job) (world : World σ) (w : σ) :
    (j.execute world w).1 = (j.final world w).1.result j :=
  rfl

theorem execute_snd (j : Job) (world : World σ) (w : σ) :
    (j.execute world w).2 =
      (((j.final world w).1.endEvents j).map Moment.event).foldl world.observe
        (j.final world w).2 :=
  rfl

theorem passes_final (j : Job) (world : World σ) (w : σ) : j.Passes world w (j.final world w) :=
  Run.drive_steps j world _ _

/-- What holds before the first step and is kept by every step holds in every state of the run. -/
theorem Passes.induction {j : Job} {world : World σ} {w : σ} {P : Run × σ → Prop}
    (hstart : P (j.begin world w))
    (hstep : ∀ s s', j.Passes world w s → Run.Step j world s s' → P s → P s') {s : Run × σ}
    (h : j.Passes world w s) : P s := by
  induction h with
  | refl => exact hstart
  | tail hpasses hlast ih => exact hstep _ _ hpasses hlast ih

/-- What holds before the first step and is kept by every step holds at the end. -/
theorem final_induction {j : Job} {world : World σ} {w : σ} {P : Run → σ → Prop}
    (hstart : P ((Run.start j).noteAll [.event j.startEvent])
      (world.observe w (.event j.startEvent)))
    (hstep : ∀ r w r' w', Run.Step j world (r, w) (r', w') → P r w → P r' w') :
    P (j.final world w).1 (j.final world w).2 :=
  (j.passes_final world w).induction (P := fun s => P s.1 s.2) hstart
    fun s s' _ hlast => hstep s.1 s.2 s'.1 s'.2 hlast

/-- A run that completes has done all that was to do. -/
theorem final_of_completed {j : Job} (hplan : j.plan.Sound) {world : World σ} {w : σ}
    (herror : (j.final world w).1.error = none) (hstop : (j.final world w).1.stop = none) :
    (j.final world w).1.inFlight = [] ∧ (j.final world w).1.pending = [] := by
  obtain ⟨hflight, hidle⟩ := Run.drive_done j world _ _ herror
  exact ⟨hflight, Run.pending_eq_nil_of_idle hplan hstop herror hflight hidle⟩

end Job
end Workflow
