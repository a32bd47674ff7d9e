import Workflow.Proofs.Run.Turn
/-!
# Runs told in another way

What a run does next is not up to what it has told so far.  So a run whose start is told in another
way does the same, and two jobs that do the same in one turn do the same to the end.
-/
namespace Workflow

open Relation

variable {σ : Type}

/-- A run begins with this moment. -/
def Moment.isStart : Moment → Bool
  | .event (.started ..) => true
  | _ => false

/-- A trace may be told in this way: what happens after the start of the run is told as it is. -/
def Retells (tell : List Moment → List Moment) : Prop :=
  ∀ m trace, m.isStart = false → tell (m :: trace) = m :: tell trace

variable {tell : List Moment → List Moment}

theorem Retells.append (h : Retells tell) {moments : List Moment}
    (hmoments : ∀ m ∈ moments, m.isStart = false) (trace : List Moment) :
    tell (moments ++ trace) = moments ++ tell trace := by
  induction moments with
  | nil => rfl
  | cons m moments ih =>
      obtain ⟨hhead, htail⟩ := List.forall_mem_cons.mp hmoments
      rw [List.cons_append, h m _ hhead, ih htail, List.cons_append]

namespace Run

theorem isStart_of_mem_repeats (id : NodeId) (iteration : Nat) :
    ∀ m ∈ repeats id iteration, m.isStart = false := by
  unfold repeats
  split
  · exact List.forall_mem_singleton.mpr rfl
  · exact nofun

theorem isStart_of_mem_startMoments (c : Context) :
    ∀ m ∈ startMoments c, m.isStart = false := by
  intro m hm
  rcases List.mem_append.mp hm with hm | hm
  · exact isStart_of_mem_repeats _ _ m hm
  · rw [List.mem_singleton.mp hm]
    rfl

theorem isStart_of_mem_judged (judgements : List Judgement) :
    ∀ m ∈ judgements.map Moment.judged, m.isStart = false := by
  intro m hm
  obtain ⟨judgement, _, rfl⟩ := List.mem_map.mp hm
  rfl

/-- The run with its trace told in another way. -/
def retell (tell : List Moment → List Moment) (r : Run) : Run :=
  { r with trace := tell r.trace }

variable {j j' : Job} {world : World σ} {r r' : Run}

theorem noteAll_retell (h : Retells tell) (r : Run) {moments : List Moment}
    (hmoments : ∀ m ∈ moments, m.isStart = false) :
    (r.retell tell).noteAll moments = (r.noteAll moments).retell tell := by
  have hreverse : ∀ m ∈ moments.reverse, m.isStart = false :=
    fun m hm => hmoments m (List.mem_reverse.mp hm)
  dsimp only [noteAll, retell]
  rw [h.append hreverse]

/-- The run breaks off at a node that it cannot start. -/
theorem missing_retell (h : Retells tell) (r : Run) (id : NodeId) (iteration : Nat) (e : RunError) :
    ({ ((r.retell tell).enter id).noteAll (repeats id iteration) with error := some e } : Run) =
      ({ (r.enter id).noteAll (repeats id iteration) with error := some e } : Run).retell tell := by
  have hnoted := noteAll_retell h (r.enter id) (isStart_of_mem_repeats id iteration)
  change ({ ((r.enter id).retell tell).noteAll (repeats id iteration) with
    error := some e } : Run) = _
  rw [hnoted]
  rfl

theorem launch_retell (h : Retells tell) {id : NodeId}
    (hcontext : (r.retell tell).contextOf j' id = r.contextOf j id) (made : Instance) :
    (r.retell tell).launch j' id made = (r.launch j id made).retell tell := by
  have hnoted := noteAll_retell h (r.enter id) (isStart_of_mem_startMoments (r.contextOf j id))
  dsimp only [launch]
  rw [hcontext]
  change ({ ((r.enter id).retell tell).noteAll (startMoments (r.contextOf j id)) with
    inFlight := (r.launch j id made).inFlight } : Run) = _
  rw [hnoted]
  rfl

theorem conclude_retell (h : Retells tell) (r : Run) (i : Fin r.inFlight.length)
    (outcome : Outcome) :
    (r.retell tell).conclude i outcome = (r.conclude i outcome).retell tell :=
  noteAll_retell h { r with inFlight := r.inFlight.eraseIdx i } (List.forall_mem_singleton.mpr rfl)

theorem Completes.retell (h : Retells tell) {cancelled : Bool} {i : Fin r.inFlight.length}
    {outcome : Outcome} (hends : Completes j cancelled r i outcome r')
    (hfollow : ∀ output iteration, j'.follow (r.inFlight.get i).node output iteration =
      j.follow (r.inFlight.get i).node output iteration) :
    Completes j' cancelled (r.retell tell) i outcome (r'.retell tell) := by
  have hjudged : ∀ output (judgements : List Judgement),
      ((r.retell tell).conclude i (.ok output)).noteAll (judgements.map .judged) =
        ((r.conclude i (.ok output)).noteAll (judgements.map .judged)).retell tell := by
    intro output judgements
    rw [conclude_retell h, noteAll_retell h _ (isStart_of_mem_judged judgements)]
  cases hends with
  | @kept output hstop =>
      change Completes _ _ _ _ _ (((r.conclude i (.ok output)).retell tell).store _ output)
      rw [← conclude_retell h]
      exact .kept hstop
  | @astray output judgements e hstop hastray =>
      change Completes _ _ _ _ _ { ((r.conclude i (.ok output)).noteAll _).retell tell with
        error := some e }
      rw [← hjudged]
      exact .astray hstop ((hfollow _ _).trans hastray)
  | @followed output judgements targets hstop hleads =>
      change Completes _ _ _ _ _ (((((r.conclude i (.ok output)).noteAll _).retell tell).enqueue
        targets).store _ output)
      rw [← hjudged]
      exact .followed hstop ((hfollow _ _).trans hleads)
  | cancelled hcancelled =>
      change Completes _ _ _ _ _ { (r.conclude i _).retell tell with stop := some .cancelled }
      rw [← conclude_retell h]
      exact .cancelled hcancelled
  | @failed f hf =>
      change Completes _ _ _ _ _ { (r.conclude i _).retell tell with
        error := some (.node (r.inFlight.get i).node f) }
      rw [← conclude_retell h]
      exact .failed hf

theorem complete_retell (h : Retells tell) (cancelled : Bool) (i : Fin r.inFlight.length)
    (outcome : Outcome)
    (hfollow : ∀ output iteration, j'.follow (r.inFlight.get i).node output iteration =
      j.follow (r.inFlight.get i).node output iteration) :
    (r.retell tell).complete j' cancelled i outcome =
      (r.complete j cancelled i outcome).retell tell :=
  ((completes_complete j cancelled r i outcome).retell h hfollow).eq_complete

theorem heed_retell (tell : List Moment → List Moment) (world : World σ) (r : Run) (w : σ) :
    heed world (r.retell tell) w = (heed world r w).retell tell := by
  unfold heed
  rw [apply_ite (Run.retell tell)]
  rfl

/-! ### Two runs in step -/

/-- The state of a run and its world, with the trace told in another way. -/
def retellAll (tell : List Moment → List Moment) (s : Run × σ) : Run × σ :=
  (s.1.retell tell, s.2)

/-- In these states of a run the other job does the same, but for what has been told, or it is cut
off from it, and then stays so. -/
structure InStep (j j' : Job) (world : World σ) (tell : List Moment → List Moment)
    (inside : Run → Prop) (cut : Run × σ → Run × σ → Prop) : Prop where
  steps : ∀ s s', ReflTransGen (Step j world) s s' → inside s.1 → inside s'.1
  dispatch : ∀ r w, inside r →
    dispatch j' world (r.retell tell) w = retellAll tell (dispatch j world r w) ∨
      cut (dispatch j world r w) (dispatch j' world (r.retell tell) w)
  complete : ∀ r, inside r → ∀ cancelled (i : Fin r.inFlight.length) outcome,
    (r.retell tell).complete j' cancelled i outcome =
      (r.complete j cancelled i outcome).retell tell
  stays : ∀ s t s' t', cut s t → ReflTransGen (Step j world) s s' →
    ReflTransGen (Step j' world) t t' → cut s' t'

variable {inside : Run → Prop} {cut : Run × σ → Run × σ → Prop}

/-- Turn by turn, the runs do the same, or are cut off from each other. -/
theorem InStep.drive (h : InStep j j' world tell inside cut) {r : Run} (hr : inside r) (w : σ) :
    drive j' world (r.retell tell) w = retellAll tell (drive j world r w) ∨
      cut (drive j world r w) (drive j' world (r.retell tell) w) := by
  induction hweight : r.weight j using Nat.strong_induction_on generalizing r w with
  | _ weight ih =>
      subst hweight
      obtain ⟨t, ht⟩ : ∃ t, Run.dispatch j world (heed world r w) w = t := ⟨_, rfl⟩
      have hheeded := h.steps _ _ (heed_steps j world r w) hr
      have hinside : inside t.1 :=
        ht ▸ h.steps _ _ (dispatch_steps j world (heed world r w) w) hheeded
      have hstarted := h.dispatch (heed world r w) w hheeded
      rw [ht, ← heed_retell] at hstarted
      rcases hstarted with ht' | hcut
      · by_cases hended : t.1.error ≠ none ∨ t.1.inFlight = []
        · left
          rw [drive_of_ended ht hended]
          exact drive_of_ended ht' hended
        · simp only [not_or, not_not] at hended
          obtain ⟨herror, hne⟩ := hended
          have hhandled : handle j' world (retellAll tell t) hne =
              retellAll tell (handle j world t hne) :=
            Prod.ext (h.complete t.1 hinside _ _ _) rfl
          have hsame : (handle j' world (retellAll tell t) hne).1.error =
              (handle j world t hne).1.error := by
            rw [hhandled]
            rfl
          by_cases hafter : (handle j world t hne).1.error = none
          · have hturn : Turn j world (r, w) (handle j world t hne) :=
              .handled ht herror hne hafter
            have hturn' : Turn j' world (r.retell tell, w)
                (handle j' world (retellAll tell t) hne) :=
              .handled (t := retellAll tell t) ht' herror hne (hsame.trans hafter)
            rw [hturn.drive_eq, hturn'.drive_eq, hhandled]
            exact ih _ (weight_handle_lt ht hne) (h.steps _ _ hturn.steps hr) _ rfl
          · left
            rw [drive_of_broken ht herror hne hafter, ← hhandled]
            exact drive_of_broken ht' herror hne (hsame ▸ hafter)
      · exact Or.inr (h.stays _ _ _ _ hcut (drive_steps_of_started ht)
          (drive_steps_of_started rfl))

end Run
end Workflow
