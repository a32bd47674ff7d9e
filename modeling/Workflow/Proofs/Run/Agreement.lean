import Workflow.Proofs.Run.Pass
import Workflow.Proofs.Run.Step
import Workflow.Proofs.Run.World
/-!
# Runs that agree with a pass

In a workflow without a loop each node runs at most once, and a run comes to what a sequential pass
comes to.  What carries this is that a node starts only when each node which leads to it has ended
for good or never runs, so that it is given what the pass gives it.
-/
namespace Workflow
namespace Run

/-! ### Running once -/

/-- An execution of the node has ended and left its outputs. -/
def Done (r : Run) (id : NodeId) : Prop :=
  r.outputs.get? id ≠ none

def Started (r : Run) (id : NodeId) : Prop :=
  id ∈ r.running ∨ r.Done id

def Reached (r : Run) (id : NodeId) : Prop :=
  id ∈ r.pending ∨ r.Started id

/-- A node is pending, in flight or done, but never two of these, and it has started once or not at
all. -/
structure Once (r : Run) : Prop where
  pending_nodup : r.pending.Nodup
  running_nodup : r.running.Nodup
  waiting : ∀ id ∈ r.pending, ¬ r.Started id
  busy : ∀ id ∈ r.running, ¬ r.Done id
  counted : ∀ id, r.Started id → r.counts.get? id = some 1
  uncounted : ∀ id, ¬ r.Started id → r.counts.get? id = none

section

variable {j : Job} {r : Run} {id m : NodeId} {made : Instance}

theorem Once.count_eq_one (h : r.Once) (hid : r.Started id) : r.count id = 1 := by
  rw [count, h.counted id hid]
  rfl

theorem Once.count_eq_zero (h : r.Once) (hid : id ∈ r.pending) : r.count id = 0 := by
  rw [count, h.uncounted id (h.waiting id hid)]
  rfl

theorem started_launch : (r.launch j id made).Started m ↔ r.Started m ∨ m = id := by
  rw [Started, Started, mem_running_launch, or_right_comm]
  exact Iff.rfl

theorem reached_launch (h : r.Once) (hid : id ∈ r.pending) :
    (r.launch j id made).Reached m ↔ r.Reached m := by
  rw [Reached, Reached, started_launch, mem_pending_launch h.pending_nodup]
  by_cases hm : m = id
  · simp [hm, hid]
  · simp [hm]

theorem Once.get?_counts_launch (h : r.Once) (hid : id ∈ r.pending) (made : Instance)
    (m : NodeId) :
    (r.launch j id made).counts.get? m = if m = id then some 1 else r.counts.get? m := by
  rw [← Nat.zero_add 1, ← h.count_eq_zero hid]
  exact Table.get?_insert ..

theorem Once.launch (h : r.Once) (hid : id ∈ r.pending) : (r.launch j id made).Once where
  pending_nodup := h.pending_nodup.erase id
  running_nodup := by
    rw [running_launch, ← List.concat_eq_append]
    exact h.running_nodup.concat fun hruns => h.waiting id hid (Or.inl hruns)
  waiting m hm := by
    obtain ⟨hne, hwaits⟩ := (mem_pending_launch h.pending_nodup).mp hm
    rw [started_launch, not_or]
    exact ⟨h.waiting m hwaits, hne⟩
  busy m hm := by
    rcases mem_running_launch.mp hm with hruns | rfl
    · exact h.busy m hruns
    · exact fun hdone => h.waiting m hid (Or.inr hdone)
  counted m hm := by
    rw [h.get?_counts_launch hid]
    by_cases hne : m = id
    · exact if_pos hne
    · rw [if_neg hne]
      exact h.counted m ((started_launch.mp hm).resolve_right hne)
  uncounted m hm := by
    rw [started_launch, not_or] at hm
    rw [h.get?_counts_launch hid, if_neg hm.2]
    exact h.uncounted m hm.1

end

section

variable {r : Run} {i : Fin r.inFlight.length} {output : Output} {judgements : List Judgement}
  {targets : List NodeId} {m : NodeId}

theorem get?_outputs_proceed (m : NodeId) : (r.proceed i output judgements targets).outputs.get? m =
    if m = (r.inFlight.get i).node then some output.fields else r.outputs.get? m :=
  Table.get?_insert ..

theorem mem_running_proceed (h : r.Once) :
    m ∈ (r.proceed i output judgements targets).running ↔
      m ≠ (r.inFlight.get i).node ∧ m ∈ r.running := by
  rw [show (r.proceed i output judgements targets).running = r.running.erase (r.inFlight.get i).node
    from map_node_eraseIdx h.running_nodup i, h.running_nodup.mem_erase_iff]

theorem done_proceed : (r.proceed i output judgements targets).Done m ↔
    m = (r.inFlight.get i).node ∨ r.Done m := by
  rw [Done, Done, get?_outputs_proceed]
  by_cases hm : m = (r.inFlight.get i).node
  · rw [if_pos hm]
    exact iff_of_true (Option.some_ne_none _) (Or.inl hm)
  · rw [if_neg hm, or_iff_right hm]

theorem started_proceed (h : r.Once) :
    (r.proceed i output judgements targets).Started m ↔ r.Started m := by
  rw [Started, Started, mem_running_proceed h, done_proceed]
  by_cases hm : m = (r.inFlight.get i).node
  · exact iff_of_true (Or.inr (Or.inl hm)) (Or.inl (hm ▸ node_mem_running r i))
  · rw [and_iff_right hm, or_iff_right hm]

theorem reached_proceed (h : r.Once) :
    (r.proceed i output judgements targets).Reached m ↔ r.Reached m ∨ m ∈ targets := by
  rw [Reached, Reached, started_proceed h, mem_pending_proceed, or_right_comm]

theorem Once.proceed (h : r.Once) (hfresh : ∀ t ∈ targets, ¬ r.Started t) :
    (r.proceed i output judgements targets).Once where
  pending_nodup := enqueue_nodup h.pending_nodup
  running_nodup := by
    have herased := h.running_nodup.erase (r.inFlight.get i).node
    rw [← map_node_eraseIdx h.running_nodup i] at herased
    exact herased
  waiting m hm := by
    rw [started_proceed h]
    rcases mem_pending_proceed.mp hm with hwaits | htarget
    · exact h.waiting m hwaits
    · exact hfresh m htarget
  busy m hm := by
    obtain ⟨hne, hruns⟩ := (mem_running_proceed h).mp hm
    rw [done_proceed, not_or]
    exact ⟨hne, h.busy m hruns⟩
  counted m hm := h.counted m ((started_proceed h).mp hm)
  uncounted m hm := h.uncounted m fun hold => hm ((started_proceed h).mpr hold)

end

/-! ### Agreement -/

/-- The run has come to a part of what the pass comes to. -/
structure Agrees (j : Job) (behave : Context → Outcome) (p : Pass) (r : Run) : Prop
    extends r.Once where
  ran : ∀ id, r.Reached id → id ∈ p.ran
  outputs : ∀ id fields, r.outputs.get? id = some fields → p.outputs.get? id = some fields
  executions : ∀ e ∈ r.inFlight, j.Launched e ∧
    j.contextFor e = ⟨e.node, 1, j.inputsFrom p.outputs e.node, j.initial⟩
  entered : r.Reached j.definition.entry
  led : ∀ n, r.Done n → ∀ output targets,
    j.attempt behave p.outputs n = .ok (output, targets) → ∀ t ∈ targets, r.Reached t
  /-- Every node that leads to one which has started has ended or never runs. -/
  behind : ∀ n, r.Started n → ∀ u ∈ p.ran, j.definition.Joins u n → r.Done u

variable {j : Job} {behave : Context → Outcome} {p : Pass} {r : Run} {id u : NodeId}

theorem agrees_start (hplan : j.plan.Sound) (hp : p.Settled j behave j.plan.order) :
    ((start j).noteAll [.event j.startEvent]).Agrees j behave p := by
  have hfresh : ∀ id, ¬ ((start j).noteAll [.event j.startEvent]).Started id :=
    fun _ => not_or.mpr ⟨List.not_mem_nil, fun hdone => hdone rfl⟩
  exact {
    pending_nodup := List.nodup_singleton _
    running_nodup := List.nodup_nil
    waiting := fun id _ => hfresh id
    busy := fun id hruns => absurd (Or.inl hruns) (hfresh id)
    counted := fun id hstarted => absurd hstarted (hfresh id)
    uncounted := fun _ _ => rfl
    ran := fun id hreached => by
      obtain rfl := List.mem_singleton.mp (hreached.resolve_right (hfresh id))
      exact hp.entry_mem_ran hplan
    outputs := fun _ _ hsome => by cases hsome
    executions := fun _ he => by cases he
    entered := Or.inl List.mem_cons_self
    led := fun _ hdone => absurd rfl hdone
    behind := fun id hstarted => absurd hstarted (hfresh id) }

/-- A node that the pass runs has ended, or waits for a node that is pending or in flight. -/
theorem Agrees.done_or_blocked (h : r.Agrees j behave p) (hplan : j.plan.Straight)
    (hp : p.Settled j behave j.plan.order) (hu : u ∈ p.ran) :
    r.Done u ∨ ∃ b ∈ r.pending ++ r.running, b = u ∨ j.plan.precedes b u = true := by
  have hreached : ∀ v, r.Reached v →
      r.Done v ∨ ∃ b ∈ r.pending ++ r.running, b = v ∨ j.plan.precedes b v = true := by
    rintro v (hwaits | hruns | hdone)
    · exact Or.inr ⟨v, List.mem_append_left _ hwaits, Or.inl rfl⟩
    · exact Or.inr ⟨v, List.mem_append_right _ hruns, Or.inl rfl⟩
    · exact Or.inl hdone
  -- by the position in the order, since what leads to a node stands before it
  induction hposition : j.plan.order.idxOf u using Nat.strongRecOn generalizing u with
  | ind position ih =>
      rcases ((hp.ran_iff u).mp hu).2 with rfl | hwanted
      · exact hreached _ h.entered
      · obtain ⟨n, hn, output, targets, hok, ht⟩ := (hp.wanted_iff u).mp hwanted
        have hprecedes : j.plan.precedes n u = true :=
          hplan.precedes_of_joins (Job.joins_of_attempt hok ht)
        have hbefore := hplan.toSound.idxOf_lt hprecedes
        rcases ih _ (hposition ▸ hbefore) hn rfl with hdone | ⟨b, hb, hbn⟩
        · exact hreached u (h.led n hdone output targets hok u ht)
        · refine Or.inr ⟨b, hb, Or.inr ?_⟩
          rcases hbn with rfl | hbn
          · exact hprecedes
          · exact hplan.toSound.precedes_trans hbn hprecedes

theorem Agrees.done_of_ready (h : r.Agrees j behave p) (hplan : j.plan.Straight)
    (hp : p.Settled j behave j.plan.order) (hready : r.Ready j id) (hu : u ∈ p.ran)
    (hjoins : j.definition.Joins u id) : r.Done u := by
  rcases h.done_or_blocked hplan hp hu with hdone | ⟨b, hb, hbu⟩
  · exact hdone
  · have hstep : j.plan.precedes u id = true := hplan.precedes_of_joins hjoins
    have hbid : j.plan.precedes b id = true := by
      rcases hbu with rfl | hbu
      · exact hstep
      · exact hplan.toSound.precedes_trans hbu hstep
    exact absurd hb (hready.not_mem_of_precedes hplan.toSound hbid)

/-- A node that starts is given what the pass gives it. -/
theorem Agrees.inputsOf (h : r.Agrees j behave p) (hplan : j.plan.Straight)
    (hp : p.Settled j behave j.plan.order) (hready : r.Ready j id) :
    r.inputsOf j id = j.inputsFrom p.outputs id := by
  change j.inputsFrom r.outputs id = j.inputsFrom p.outputs id
  apply Job.inputsFrom_congr
  intro u hjoins
  cases hdone : r.outputs.get? u with
  | some fields => exact (h.outputs u fields hdone).symm
  | none =>
      cases hpass : p.outputs.get? u with
      | none => rfl
      | some fields =>
          have hu := ((hp.outputs_iff u fields).mp hpass).1
          exact absurd hdone (h.done_of_ready hplan hp hready hu hjoins)

theorem Agrees.launch (h : r.Agrees j behave p) (hplan : j.plan.Straight)
    (hp : p.Settled j behave j.plan.order) (hready : r.Ready j id) {made : Instance}
    (hmade : j.instance? id = some made) : (r.launch j id made).Agrees j behave p where
  toOnce := h.toOnce.launch hready.pending
  ran m hm := h.ran m ((reached_launch h.toOnce hready.pending).mp hm)
  outputs := h.outputs
  executions e he := by
    rcases List.mem_append.mp he with hold | hnew
    · exact h.executions e hold
    · obtain rfl := List.mem_singleton.mp hnew
      refine ⟨⟨made, hmade, rfl⟩, ?_⟩
      rw [Job.contextFor, contextOf, h.inputsOf hplan hp hready,
        h.toOnce.count_eq_zero hready.pending]
  entered := (reached_launch h.toOnce hready.pending).mpr h.entered
  led n hn output targets hok t ht :=
    (reached_launch h.toOnce hready.pending).mpr (h.led n hn output targets hok t ht)
  behind n hn u hu hjoins := by
    rcases started_launch.mp hn with hold | rfl
    · exact h.behind n hold u hu hjoins
    · exact h.done_of_ready hplan hp hready hu hjoins

/-- What an execution leads to has not started: it would have waited for that execution. -/
theorem Agrees.fresh_of_mem_targets (h : r.Agrees j behave p) (hruns : id ∈ r.running)
    {output : Output} {targets : List NodeId}
    (hattempt : j.attempt behave p.outputs id = .ok (output, targets)) {t : NodeId}
    (ht : t ∈ targets) : ¬ r.Started t := by
  intro hstarted
  have hran : id ∈ p.ran := h.ran id (Or.inr (Or.inl hruns))
  exact h.busy id hruns (h.behind t hstarted id hran (Job.joins_of_attempt hattempt ht))

theorem Agrees.proceed (h : r.Agrees j behave p) (hplan : j.plan.Sound)
    (hp : p.Settled j behave j.plan.order) {i : Fin r.inFlight.length} {output : Output}
    {targets : List NodeId}
    (hattempt : j.attempt behave p.outputs (r.inFlight.get i).node = .ok (output, targets))
    (judgements : List Judgement) :
    (r.proceed i output judgements targets).Agrees j behave p := by
  have hruns := node_mem_running r i
  have hran : (r.inFlight.get i).node ∈ p.ran := h.ran _ (Or.inr (Or.inl hruns))
  exact {
    toOnce := h.toOnce.proceed fun t ht => h.fresh_of_mem_targets hruns hattempt ht
    ran := fun m hm => by
      rcases (reached_proceed h.toOnce).mp hm with hold | htarget
      · exact h.ran m hold
      · exact hp.mem_ran_of_led hplan hran hattempt htarget
    outputs := fun m fields hm => by
      rw [get?_outputs_proceed] at hm
      by_cases hself : m = (r.inFlight.get i).node
      · rw [if_pos hself] at hm
        rw [hself]
        exact (hp.outputs_iff _ fields).mpr
          ⟨hran, output, targets, hattempt, Option.some.inj hm⟩
      · rw [if_neg hself] at hm
        exact h.outputs m fields hm
    executions := fun e he => h.executions e (List.mem_of_mem_eraseIdx he)
    entered := (reached_proceed h.toOnce).mpr (Or.inl h.entered)
    led := fun n hn result led hok t ht => by
      rw [reached_proceed h.toOnce]
      rcases done_proceed.mp hn with rfl | hold
      · obtain ⟨_, rfl⟩ := Prod.mk.inj (Except.ok.inj (hattempt.symm.trans hok))
        exact Or.inr ht
      · exact Or.inl (h.led n hold result led hok t ht)
    behind := fun n hn u hu hjoins =>
      done_proceed.mpr (Or.inr (h.behind n ((started_proceed h.toOnce).mp hn) u hu hjoins)) }

/-- When nothing is pending or in flight any more, the run has come to all that the pass comes
to, and nothing of that failed. -/
theorem Agrees.complete (h : r.Agrees j behave p) (hplan : j.plan.Straight)
    (hp : p.Settled j behave j.plan.order) (hpending : r.pending = [])
    (hinFlight : r.inFlight = []) :
    p.errors = [] ∧ r.outputs = p.outputs ∧
      ∀ id, r.counts.get? id = if id ∈ p.ran then some 1 else none := by
  have hrunning : r.running = [] := by rw [running, hinFlight, List.map_nil]
  have hdone : ∀ id, id ∈ p.ran ↔ r.Done id := by
    intro id
    constructor
    · intro hid
      rcases h.done_or_blocked hplan hp hid with hdone | ⟨b, hb, _⟩
      · exact hdone
      · simp [hpending, hrunning] at hb
    · exact fun hid => h.ran id (Or.inr (Or.inr hid))
  have houtputs : ∀ id ∈ p.ran, r.outputs.get? id = p.outputs.get? id := by
    intro id hid
    obtain ⟨fields, hfields⟩ := Option.ne_none_iff_exists'.mp ((hdone id).mp hid)
    rw [hfields, h.outputs id fields hfields]
  refine ⟨?_, ?_, ?_⟩
  · rw [hp.errors_iff]
    intro id hid
    obtain ⟨fields, hfields⟩ := Option.ne_none_iff_exists'.mp ((hdone id).mp hid)
    obtain ⟨_, output, targets, hok, _⟩ :=
      (hp.outputs_iff id fields).mp (h.outputs id fields hfields)
    exact ⟨output, targets, hok⟩
  · apply Table.ext_get?
    intro id
    by_cases hid : id ∈ p.ran
    · exact houtputs id hid
    · have hrun : r.outputs.get? id = none := by
        by_contra hsome
        exact hid ((hdone id).mpr hsome)
      rw [hrun, eq_comm, Option.eq_none_iff_forall_ne_some]
      intro fields hfields
      exact hid ((hp.outputs_iff id fields).mp hfields).1
  · intro id
    by_cases hid : id ∈ p.ran
    · rw [if_pos hid]
      exact h.counted id (Or.inr ((hdone id).mp hid))
    · rw [if_neg hid]
      refine h.uncounted id (not_or.mpr ⟨?_, fun hsome => hid ((hdone id).mpr hsome)⟩)
      rw [hrunning]
      exact List.not_mem_nil

end Run
end Workflow
