import Workflow.Proofs.Run.Activation
import Workflow.Proofs.Run.Follow
/-!
# Bounds of a run

No node runs more often than the cap allows or twice at a time, no more executions are in flight
than the limit allows, and every run ends: each of its steps uses up something of which there is
only a finite amount at the start.
-/
namespace Workflow

open Relation

namespace Run

variable {j : Job} {r r' : Run} {σ : Type} {world : World σ}

/-! ### What every step keeps -/

/-- The bounds that every run keeps, whatever its nodes and the world do. -/
structure Bounded (j : Job) (r : Run) : Prop where
  count_le : ∀ id, r.count id ≤ j.cap
  running_nodup : r.running.Nodup
  room : r.inFlight.length ≤ j.limit
  declared : ∀ id ∈ r.pending, id ∈ j.definition.ids
  /-- Every start has taken one execution from the budget. -/
  spent : (dispatches r.trace).length + r.budget j ≤ j.definition.ids.length * j.cap

theorem budget_congr (h : r'.counts = r.counts) : r'.budget j = r.budget j := by
  simp only [budget, count, h]

theorem budget_start (j : Job) :
    ((start j).noteAll [.event j.startEvent]).budget j = j.definition.ids.length * j.cap := by
  simp only [budget]
  induction j.definition.ids with
  | nil => simp
  | cons id ids ih =>
      rw [List.foldr_cons, ih, List.length_cons, Nat.succ_mul, Nat.add_comm]
      rfl

theorem bounded_start (j : Job) : ((start j).noteAll [.event j.startEvent]).Bounded j where
  count_le _ := Nat.zero_le _
  running_nodup := List.nodup_nil
  room := Nat.zero_le _
  declared id hid := by
    obtain rfl := List.mem_singleton.mp hid
    exact j.definition.entry_declared
  spent := by
    rw [budget_start]
    exact Nat.le_of_eq (Nat.zero_add _)

/-- A step that starts nothing keeps the bounds. -/
theorem Bounded.unstarted (h : r.Bounded j) (hcounts : r'.counts = r.counts)
    (hflight : r'.inFlight.Sublist r.inFlight)
    (hpending : ∀ id ∈ r'.pending, id ∈ r.pending ∨ id ∈ j.definition.ids)
    (htrace : dispatches r'.trace = dispatches r.trace) : r'.Bounded j where
  count_le id := by
    simp only [count, hcounts]
    exact h.count_le id
  running_nodup := h.running_nodup.sublist (hflight.map Execution.node)
  room := Nat.le_trans hflight.length_le h.room
  declared id hid := (hpending id hid).elim (h.declared id) fun hdeclared => hdeclared
  spent := by
    rw [htrace, budget_congr hcounts]
    exact h.spent

theorem count_enter_le (h : ∀ id, r.count id ≤ j.cap) {id : NodeId} (hcap : r.count id < j.cap)
    (other : NodeId) : (r.enter id).count other ≤ j.cap := by
  rw [count_enter]
  split
  · exact hcap
  · exact h other

theorem Bounded.launch (h : r.Bounded j) {id : NodeId} (hready : r.Ready j id)
    (hcap : r.count id < j.cap) (made : Instance) : (r.launch j id made).Bounded j where
  count_le := count_enter_le h.count_le hcap
  running_nodup := by
    rw [running_launch, ← List.concat_eq_append]
    exact h.running_nodup.concat hready.not_running
  room := by
    have hlength : (r.launch j id made).inFlight.length = r.inFlight.length + 1 := by
      simp [Run.launch]
    rw [hlength]
    exact hready.room
  declared other hother := h.declared other (List.mem_of_mem_erase hother)
  spent := by
    have hless : (r.launch j id made).budget j < r.budget j :=
      budget_enter_lt (h.declared id hready.pending) hcap
    have hspent := h.spent
    rw [dispatches_launch, List.length_cons]
    omega

/-- A node that cannot be run is counted but does not start. -/
theorem Bounded.missing (h : r.Bounded j) {id : NodeId} (hcap : r.count id < j.cap) :
    ({ (r.enter id).noteAll (repeats id (r.count id + 1)) with
        error := some (.missingInstance id) } : Run).Bounded j where
  count_le := count_enter_le h.count_le hcap
  running_nodup := h.running_nodup
  room := h.room
  declared other hother := h.declared other (List.mem_of_mem_erase hother)
  spent := by
    have hless := budget_enter_le j r id
    have hspent := h.spent
    change (dispatches ((repeats id (r.count id + 1)).reverse ++ r.trace)).length +
      (r.enter id).budget j ≤ _
    rw [dispatches_append, dispatches_repeats, List.nil_append]
    omega

theorem Bounded.completes (h : r.Bounded j) {cancelled : Bool} {i : Fin r.inFlight.length}
    {outcome : Outcome} (hcompletes : Completes j cancelled r i outcome r') : r'.Bounded j := by
  refine h.unstarted hcompletes.counts_eq ?_ ?_ hcompletes.dispatches_eq
  · rw [hcompletes.inFlight_eq]
    exact List.eraseIdx_sublist _ _
  · intro id hid
    cases hcompletes with
    | kept hstop => exact Or.inl hid
    | astray hstop hfollow => exact Or.inl hid
    | followed hstop hfollow =>
        rcases mem_pending_proceed.mp hid with hwaits | htarget
        · exact Or.inl hwaits
        · have htargets := congrArg Prod.snd hfollow
          exact Or.inr (Definition.target_declared (Job.joins_of_mem_follow htargets htarget))
    | cancelled hcancelled => exact Or.inl hid
    | failed hf => exact Or.inl hid

theorem Bounded.step {s s' : Run × σ} (h : s.1.Bounded j) (hstep : Step j world s s') :
    s'.1.Bounded j := by
  cases hstep with
  | cancel hstop hcancelled =>
      exact h.unstarted rfl (List.Sublist.refl _) (fun _ => Or.inl) rfl
  | cap hchoose => exact h.unstarted rfl (List.Sublist.refl _) (fun _ => Or.inl) rfl
  | missing hchoose =>
      cases chooses_of_eq hchoose with
      | missing hready hcap hnone => exact h.missing hcap
  | start hchoose =>
      cases chooses_of_eq hchoose with
      | start hready hcap hmade => exact h.launch hready hcap _
  | finish herror hidle hne hnext => exact h.completes (completes_complete j _ _ _ _)

/-! ### What every step uses up -/

/-- How many steps the run may still take, its end by a stop and by an error included. -/
def stepsLeft (j : Job) (r : Run) : Nat :=
  r.weight j + (if r.stop = none then 1 else 0) + if r.error = none then 1 else 0

/-- A step that uses up an execution, a start, the stop or the error leaves fewer steps. -/
theorem stepsLeft_lt (hweight : r'.weight j ≤ r.weight j) (hstop : r'.stop = none → r.stop = none)
    (herror : r'.error = none → r.error = none)
    (hused : r'.weight j < r.weight j ∨ (r.stop = none ∧ r'.stop ≠ none) ∨
      (r.error = none ∧ r'.error ≠ none)) : r'.stepsLeft j < r.stepsLeft j := by
  have hstops : (if r'.stop = none then 1 else 0) ≤ if r.stop = none then 1 else 0 := by
    split
    · rw [if_pos (hstop ‹_›)]
    · exact Nat.zero_le _
  have herrors : (if r'.error = none then 1 else 0) ≤ if r.error = none then 1 else 0 := by
    split
    · rw [if_pos (herror ‹_›)]
    · exact Nat.zero_le _
  simp only [stepsLeft]
  rcases hused with hless | ⟨hgoes, hstops'⟩ | ⟨hgoes, hfails⟩
  · omega
  · rw [if_pos hgoes, if_neg hstops']
    omega
  · rw [if_pos hgoes, if_neg hfails]
    omega

/-- A run that has stopped does not go on. -/
theorem Completes.stop_eq_none {cancelled : Bool} {i : Fin r.inFlight.length} {outcome : Outcome}
    (h : Completes j cancelled r i outcome r') (hstop : r'.stop = none) : r.stop = none := by
  rcases h.stop_eq with hsame | hcancelled
  · rw [← hsame, hstop]
  · rw [hcancelled] at hstop
    cases hstop

theorem stepsLeft_step_lt {s s' : Run × σ} (h : Step j world s s') :
    s'.1.stepsLeft j < s.1.stepsLeft j := by
  cases h with
  | cancel hstop hcancelled =>
      exact stepsLeft_lt (Nat.le_refl _) (fun _ => hstop) (fun herror => herror)
        (Or.inr (Or.inl ⟨hstop, Option.some_ne_none _⟩))
  | cap hchoose =>
      cases chooses_of_eq hchoose with
      | capped hready hcap =>
          exact stepsLeft_lt (Nat.le_refl _) (fun _ => hready.stop) (fun herror => herror)
            (Or.inr (Or.inl ⟨hready.stop, Option.some_ne_none _⟩))
  | @missing r w id hchoose =>
      cases chooses_of_eq hchoose with
      | missing hready hcap hnone =>
          have hless : 2 * (r.enter id).budget j ≤ 2 * r.budget j :=
            Nat.mul_le_mul_left 2 (budget_enter_le j r id)
          exact stepsLeft_lt (Nat.add_le_add_right hless _) (fun hstop => hstop) nofun
            (Or.inr (Or.inr ⟨hready.error, Option.some_ne_none _⟩))
  | @start r w id made hchoose =>
      have hless : (r.launch j id made).weight j < r.weight j :=
        weight_launch_lt (choose_start hchoose).2 (choose_start hchoose).1
      exact stepsLeft_lt (Nat.le_of_lt hless) (fun hstop => hstop) (fun herror => herror)
        (Or.inl hless)
  | @finish r w herror hidle hne i outcome w' hnext =>
      have hless := weight_complete_lt j (world.cancelled w') r i outcome
      have hstop := (completes_complete j (world.cancelled w') r i outcome).stop_eq_none
      exact stepsLeft_lt (Nat.le_of_lt hless) hstop (fun _ => herror) (Or.inl hless)

/-- However the world goes on, a run takes no more steps than it has left. -/
theorem length_steps_le {s : Run × σ} {states : List (Run × σ)}
    (h : List.IsChain (Step j world) (s :: states)) : states.length ≤ s.1.stepsLeft j := by
  induction states generalizing s with
  | nil => exact Nat.zero_le _
  | cons s' states ih =>
      obtain ⟨hstep, hrest⟩ := List.isChain_cons_cons.mp h
      have hless := stepsLeft_step_lt hstep
      have hle := ih hrest
      rw [List.length_cons]
      omega

theorem stepsLeft_start (j : Job) : ((start j).noteAll [.event j.startEvent]).stepsLeft j =
    2 * (j.definition.ids.length * j.cap) + 2 := by
  change 2 * ((start j).noteAll [.event j.startEvent]).budget j + 0 + 1 + 1 = _
  rw [budget_start]

end Run

/-! ### Every run is bounded -/

variable {σ : Type}

namespace Job

variable {j : Job} {world : World σ} {w : σ} {s : Run × σ}

theorem Passes.bounded (h : j.Passes world w s) : s.1.Bounded j :=
  h.induction (P := fun s => s.1.Bounded j) (Run.bounded_start j)
    fun _ _ _ hstep hbounded => hbounded.step hstep

/-- A run stays within its bounds, whatever its plan, its nodes and its conditions are like and in
whatever order its executions end.  In each of its states no node has started more often than the
cap allows, none is in flight or pending twice, and the limit on executions in flight holds; and a
dispatch that does not stop the run leaves room only if no pending node is ready.  The run therefore
ends: it takes a bounded number of steps, with at most the cap of starts for each node, to a final
state, and has one of the four final statuses there. -/
theorem run_stays_in_bounds (j : Job) (world : World σ) (w : σ) :
    (∀ s, j.Passes world w s →
      (∀ id, s.1.count id ≤ j.cap) ∧ s.1.running.Nodup ∧
      s.1.inFlight.length ≤ max 1 j.parallel ∧ s.1.pending.Nodup ∧
      ((Run.dispatch j world s.1 s.2).1.stop = none →
        (Run.dispatch j world s.1 s.2).1.error = none →
        (Run.dispatch j world s.1 s.2).1.inFlight.length = max 1 j.parallel ∨
        ∀ id ∈ (Run.dispatch j world s.1 s.2).1.pending,
          (Run.dispatch j world s.1 s.2).1.isReady j id = false)) ∧
    (∀ states, List.IsChain (Run.Step j world) (j.begin world w :: states) →
      states.length ≤ 2 * (j.definition.nodes.length * j.cap) + 2) ∧
    j.Passes world w (j.final world w) ∧
    (dispatches (j.execute world w).1.trace).length ≤ j.definition.nodes.length * j.cap ∧
    (j.execute world w).1.status ∈ [.completed, .failed, .capped, .cancelled] := by
  have hlength : j.definition.ids.length = j.definition.nodes.length := List.length_map _
  refine ⟨fun s hs => ?_, fun states hstates => ?_, j.passes_final world w, ?_, ?_⟩
  · refine ⟨hs.bounded.count_le, hs.bounded.running_nodup, hs.bounded.room,
      hs.accounted.pending_nodup, fun hstop herror => ?_⟩
    have hafter : j.Passes world w (Run.dispatch j world s.1 s.2) :=
      hs.trans (Run.dispatch_steps j world s.1 s.2)
    rcases Nat.lt_or_eq_of_le hafter.bounded.room with hroom | hfull
    · refine Or.inr ?_
      cases Run.chooses_of_eq (Run.choose_dispatch j world s.1 s.2) with
      | idle hidle => exact hidle hstop herror hroom
    · exact Or.inl hfull
  · have hle := Run.length_steps_le hstates
    rw [begin, Run.stepsLeft_start, hlength] at hle
    exact hle
  · have hspent := (j.passes_final world w).bounded.spent
    rw [dispatches_execute, ← hlength]
    omega
  · rw [execute_fst]
    change (j.final world w).1.status ∈ _
    unfold Run.status
    split <;> simp

end Job
end Workflow
