import Workflow.Graph.Frames
import Workflow.Proofs.Graph.Circuits
/-!
# Ranking the nodes

The ranking that goes on step by step meets the nodes in the order of the walk, and it comes to an
end with all of them ranked.  Between two steps every node that was met is on the trail or was left.
A node that was left leads only to nodes that were met before anything that is on the trail and was
met later than the node itself.  So what was left stays apart from what is met after it: a node from
which a path leads to the trail, by way of later nodes only, is on the trail itself.
-/
namespace Workflow

open Relation

variable {d : Definition} {r : Ranking} {looked : List (NodeId × Nat × NodeId)}

namespace Definition

/-! ### Ranks and the walk behind them -/

/-- The nodes that the edges of a node lead to, edge by edge. -/
def targets (d : Definition) (id : NodeId) : List NodeId := (d.departures id).map Prod.snd

/-- The nodes are met in the same order if the walk looks at every edge, and comes to the entry
point only once. -/
theorem depthFirst_byPrecedence (d : Definition) :
    DepthFirst d.targets d.byPrecedence [] d.preorder := by
  have hsuccessors : d.successors = fun v => (d.targets v).eraseDups := by
    funext v
    rw [targets, targets_departures, successors]
  have hwalk : DepthFirst d.successors (d.entry :: d.ids) [] d.preorder :=
    depthFirst_iff_eq_preorder.mpr rfl
  rw [hsuccessors] at hwalk
  cases hwalk.of_successors_eraseDups with
  | skip hseen _ => cases hseen
  | visit hnew hbelow hrest =>
      refine .visit hnew hbelow ?_
      rw [d.ids_nodup.erase_eq_filter]
      refine (DepthFirst.filter_iff fun v _ hv => ?_).mpr hrest
      rw [bne_eq_false_iff_eq] at hv
      subst hv
      exact hbelow.seen_isPrefix.subset List.mem_cons_self

theorem rank_lt_iff {v : NodeId} : d.rank v < d.preorder.length ↔ v ∈ d.preorder :=
  List.idxOf_lt_length_iff

/-- An edge leads from the one node to the other, and that is not met before `v`. -/
def JoinsLater (d : Definition) (v a b : NodeId) : Prop :=
  d.Joins a b ∧ d.rank v ≤ d.rank b

theorem rank_le_of_joinsLater {u v : NodeId} (hpath : ReflTransGen (d.JoinsLater v) v u) :
    d.rank v ≤ d.rank u := by
  cases hpath with
  | refl => exact Nat.le_refl _
  | tail _ hlast => exact hlast.2

theorem rank_inj {u v : NodeId} (hu : u ∈ d.preorder) (h : d.rank u = d.rank v) : u = v :=
  (List.idxOf_inj hu).mp h

end Definition

namespace Ranking

/-! ### What a step does -/

/-- What a step of the ranking can be. -/
inductive Takes (d : Definition) (r : Ranking) : Ranking → Prop where
  | done (hstack : r.stack = []) (hroots : r.roots = []) : Takes d r r
  | pass {root : NodeId} {roots : List NodeId} (hstack : r.stack = [])
      (hroots : r.roots = root :: roots) (hmet : r.ranks.contains root = true) :
      Takes d r { r with roots := roots }
  | setOut {root : NodeId} {roots : List NodeId} (hstack : r.stack = [])
      (hroots : r.roots = root :: roots) (hnew : r.ranks.contains root = false) :
      Takes d r (meet d { r with roots := roots } root)
  | leave {u : NodeId} {frame : Frame} {rest : List (NodeId × Frame)}
      (hstack : r.stack = (u, frame) :: rest) (hnext : frame.next? = none) :
      Takes d r { r with stack := rest }
  | look {u next : NodeId} {frame : Frame} {rest : List (NodeId × Frame)} {position : Nat}
      (hstack : r.stack = (u, frame) :: rest) (hnext : frame.next? = some (position, next))
      (hmet : r.ranks.contains next = true) :
      Takes d r { r with stack := (u, frame.advance) :: rest }
  | enter {u next : NodeId} {frame : Frame} {rest : List (NodeId × Frame)} {position : Nat}
      (hstack : r.stack = (u, frame) :: rest) (hnext : frame.next? = some (position, next))
      (hnew : r.ranks.contains next = false) :
      Takes d r (meet d { r with stack := (u, frame.advance) :: rest } next)

theorem takes_step (d : Definition) (r : Ranking) : r.Takes d (r.step d) := by
  unfold step
  split
  · rename_i hstack
    split
    · rename_i hroots
      exact .done hstack hroots
    · rename_i root roots hroots
      dsimp only
      split
      · rename_i hmet
        exact .pass hstack hroots hmet
      · rename_i hnew
        exact .setOut hstack hroots (Bool.eq_false_of_not_eq_true hnew)
  · rename_i u frame rest hstack
    split
    · rename_i hnext
      exact .leave hstack hnext
    · rename_i position next hnext
      dsimp only
      split
      · rename_i hmet
        exact .look hstack hnext hmet
      · rename_i hnew
        exact .enter hstack hnext (Bool.eq_false_of_not_eq_true hnew)

theorem looksAt?_eq_some_iff {u v : NodeId} {position : Nat} :
    r.looksAt? = some (u, position, v) ↔ ∃ frame rest, r.stack = (u, frame) :: rest ∧
      frame.next? = some (position, v) := by
  unfold looksAt?
  split
  · rename_i hstack
    simp [hstack]
  · rename_i id frame rest hstack
    simp only [hstack, Option.map_eq_some_iff, Prod.mk.injEq, List.cons.injEq, Prod.exists]
    constructor
    · rintro ⟨_, _, hnext, rfl, rfl, rfl⟩
      exact ⟨frame, rest, ⟨⟨rfl, rfl⟩, rfl⟩, hnext⟩
    · rintro ⟨_, _, ⟨⟨rfl, rfl⟩, rfl⟩, hnext⟩
      exact ⟨position, v, hnext, rfl, rfl, rfl⟩

/-! ### The nodes are met in the order of the walk -/

/-- The nodes to be visited from here on: those that the open frames lead to and the roots. -/
def ahead (r : Ranking) : List NodeId :=
  r.stack.flatMap (fun e => e.2.rest.map Prod.snd) ++ r.roots

theorem ahead_of_root {root : NodeId} {roots : List NodeId} (hstack : r.stack = [])
    (hroots : r.roots = root :: roots) :
    r.ahead = root :: ahead { r with roots := roots } := by
  simp [ahead, hstack, hroots]

theorem ahead_of_next {u next : NodeId} {frame : Frame} {rest : List (NodeId × Frame)}
    {position : Nat} (hstack : r.stack = (u, frame) :: rest)
    (hnext : frame.next? = some (position, next)) :
    r.ahead = next :: ahead { r with stack := (u, frame.advance) :: rest } := by
  simp [ahead, hstack, Frame.rest_eq_cons hnext]

theorem ahead_meet (r : Ranking) (v : NodeId) : (r.meet d v).ahead = d.targets v ++ r.ahead := by
  simp [ahead, meet, Definition.frame, Frame.rest, Definition.targets]

/-- The nodes met are the first of the walk, each ranked where it stands, and to visit what is ahead
is to meet the others. -/
structure Numbered (d : Definition) (r : Ranking) : Prop where
  met_le : r.met ≤ d.preorder.length
  ranked : ∀ v, r.ranks.get? v = if d.rank v < r.met then some (d.rank v) else none
  awaits : DepthFirst d.targets r.ahead (d.preorder.take r.met) d.preorder

namespace Numbered

variable {r' : Ranking} {v : NodeId}

theorem contains_iff (h : Numbered d r) : r.ranks.contains v = true ↔ d.rank v < r.met := by
  rw [Table.contains, h.ranked]
  by_cases hmet : d.rank v < r.met <;> simp [hmet]

theorem mem_take_iff (h : Numbered d r) : v ∈ d.preorder.take r.met ↔ d.rank v < r.met := by
  have hfront : d.preorder.take r.met <+: d.preorder := List.take_prefix r.met d.preorder
  rw [hfront.mem_iff_idxOf_lt_length, List.length_take_of_le h.met_le, Definition.rank]

/-- A node that was met already may be passed over. -/
theorem pass (h : Numbered d r) (hranks : r'.ranks = r.ranks) (hsame : r'.met = r.met)
    (hahead : r.ahead = v :: r'.ahead) (hmet : r.ranks.contains v = true) : Numbered d r' := by
  refine ⟨hsame ▸ h.met_le, fun w => by rw [hranks, hsame, h.ranked], ?_⟩
  have hawaits := h.awaits
  rw [hahead] at hawaits
  rw [hsame]
  cases hawaits with
  | skip _ hrest => exact hrest
  | visit hnew _ _ => exact absurd (h.mem_take_iff.mpr (h.contains_iff.mp hmet)) hnew

/-- A new node that is next stands next in the walk, and what it leads to comes after it. -/
theorem visit (h : Numbered d r) {rest : List NodeId} (hahead : r.ahead = v :: rest)
    (hnew : r.ranks.contains v = false) :
    d.preorder.take r.met ++ [v] <+: d.preorder ∧
      DepthFirst d.targets (d.targets v ++ rest) (d.preorder.take r.met ++ [v]) d.preorder := by
  have hawaits := h.awaits
  rw [hahead] at hawaits
  cases hawaits with
  | skip hseen _ =>
      rw [h.contains_iff.mpr (h.mem_take_iff.mp hseen)] at hnew
      cases hnew
  | visit _ hbelow hrest =>
      exact ⟨hbelow.seen_isPrefix.trans hrest.seen_isPrefix, hbelow.append hrest⟩

/-- So the number of nodes met so far is its rank. -/
theorem rank_eq (h : Numbered d r) {rest : List NodeId} (hahead : r.ahead = v :: rest)
    (hnew : r.ranks.contains v = false) : d.rank v = r.met ∧ v ∈ d.preorder := by
  obtain ⟨hfront, _⟩ := h.visit hahead hnew
  have hv : v ∉ d.preorder.take r.met := by
    rw [h.mem_take_iff, ← h.contains_iff, hnew]
    exact Bool.false_ne_true
  have hmem : v ∈ d.preorder.take r.met ++ [v] := by simp
  refine ⟨?_, hfront.subset hmem⟩
  rw [Definition.rank, ← hfront.idxOf_eq_of_mem hmem, List.idxOf_append_of_notMem hv,
    List.length_take_of_le h.met_le, List.idxOf_cons_self, Nat.add_zero]

theorem meet (h : Numbered d r) (hranks : r'.ranks = r.ranks) (hsame : r'.met = r.met)
    (hahead : r.ahead = v :: r'.ahead) (hnew : r.ranks.contains v = false) :
    Numbered d (r'.meet d v) := by
  obtain ⟨hfront, hlater⟩ := h.visit hahead hnew
  obtain ⟨hrank, hv⟩ := h.rank_eq hahead hnew
  have hlength : (d.preorder.take r.met ++ [v]).length = r.met + 1 := by
    rw [List.length_append, List.length_take_of_le h.met_le, List.length_singleton]
  have hmet : (r'.meet d v).met = r.met + 1 := congrArg (· + 1) hsame
  refine ⟨?_, fun w => ?_, ?_⟩
  · rw [hmet, ← hlength]
    exact hfront.length_le
  · rw [hmet, Ranking.meet, Table.get?_insert, hranks, hsame, h.ranked]
    by_cases hw : w = v
    · rw [if_pos hw, if_pos (by rw [hw, hrank]; exact Nat.lt_succ_self _), hw, hrank]
    · have hother : d.rank w ≠ r.met := fun heq =>
        hw (Definition.rank_inj hv (hrank.trans heq.symm)).symm
      rw [if_neg hw]
      exact if_congr (by omega) rfl rfl
  · rw [hmet, ahead_meet, ← hlength, ← List.prefix_iff_eq_take.mp hfront]
    exact hlater

theorem step (h : Numbered d r) : Numbered d (r.step d) := by
  have hstep := r.takes_step d
  generalize r.step d = r' at hstep ⊢
  cases hstep with
  | done => exact h
  | pass hstack hroots hmet => exact h.pass rfl rfl (ahead_of_root hstack hroots) hmet
  | setOut hstack hroots hnew => exact h.meet rfl rfl (ahead_of_root hstack hroots) hnew
  | leave hstack hnext =>
      refine ⟨h.met_le, h.ranked, ?_⟩
      have hawaits := h.awaits
      simpa [ahead, hstack, Frame.rest_eq_nil hnext] using hawaits
  | look hstack hnext hmet => exact h.pass rfl rfl (ahead_of_next hstack hnext) hmet
  | enter hstack hnext hnew => exact h.meet rfl rfl (ahead_of_next hstack hnext) hnew

end Numbered

/-! ### What was left stays apart -/

/-- The frame is that of its node, and the edges that its cursor has passed were looked at. -/
structure Passed (d : Definition) (looked : List (NodeId × Nat × NodeId))
    (e : NodeId × Frame) : Prop where
  own : e.2.departures = d.departures e.1
  behind : ∀ x ∈ e.2.departures.take e.2.cursor, (e.1, x) ∈ looked

/-- Of the nodes met, those with an open frame were met one after the other.  The edges of the
others were looked at, and such a node leads only to nodes that were met before any open node that
was met later than the node itself. -/
structure Nested (d : Definition) (looked : List (NodeId × Nat × NodeId)) (met : Nat)
    (stack : List (NodeId × Frame)) : Prop where
  passed : ∀ e ∈ stack, Passed d looked e
  known : ∀ e ∈ looked, d.rank e.2.2 < met
  open_met : ∀ t ∈ stack.map Prod.fst, d.rank t < met
  falling : (stack.map Prod.fst).Pairwise fun t t' => d.rank t' < d.rank t
  left : ∀ u, d.rank u < met → u ∉ stack.map Prod.fst → ∀ x ∈ d.departures u,
    (u, x) ∈ looked ∧ ∀ t ∈ stack.map Prod.fst, d.rank u < d.rank t → d.rank x.2 < d.rank t

theorem Passed.mono {looked' : List (NodeId × Nat × NodeId)} (hsub : looked ⊆ looked')
    {e : NodeId × Frame} (h : Passed d looked e) : Passed d looked' e :=
  ⟨h.own, fun x hx => hsub (h.behind x hx)⟩

theorem Passed.advance {u : NodeId} {frame : Frame} {x : Nat × NodeId}
    (h : Passed d looked (u, frame)) (hnext : frame.next? = some x) :
    Passed d (looked ++ [(u, x)]) (u, frame.advance) := by
  refine ⟨h.own, fun y hy => ?_⟩
  rw [Frame.take_advance hnext, List.mem_append, List.mem_singleton] at hy
  rcases hy with hy | rfl
  · exact List.mem_append_left _ (h.behind y hy)
  · exact List.mem_append_right _ (List.mem_singleton_self _)

namespace Nested

variable {met : Nat} {stack rest : List (NodeId × Frame)} {u v : NodeId} {frame : Frame}

/-- A node is left when all its edges were looked at; what is still open was met before it. -/
theorem leave (h : Nested d looked met ((u, frame) :: rest)) (hnext : frame.next? = none) :
    Nested d looked met rest := by
  obtain ⟨hlast, hpassed⟩ := List.forall_mem_cons.mp h.passed
  obtain ⟨_, hmet⟩ := List.forall_mem_cons.mp h.open_met
  obtain ⟨hbelow, hfalling⟩ := List.pairwise_cons.mp h.falling
  refine ⟨hpassed, h.known, hmet, hfalling, fun w hw hout x hx => ?_⟩
  by_cases hsame : w = u
  · subst hsame
    have hall : frame.departures.take frame.cursor = d.departures w := by
      rw [List.take_of_length_le (List.getElem?_eq_none_iff.mp hnext), hlast.own]
    have hlooked := hlast.behind x
    rw [hall] at hlooked
    exact ⟨hlooked hx, fun t ht hlt => absurd (hbelow t ht) (Nat.lt_asymm hlt)⟩
  · have hout' : w ∉ List.map Prod.fst ((u, frame) :: rest) := by
      rw [List.map_cons, List.mem_cons, not_or]
      exact ⟨hsame, hout⟩
    obtain ⟨hlooked, hlower⟩ := h.left w hw hout' x hx
    exact ⟨hlooked, fun t ht => hlower t (List.mem_cons_of_mem u ht)⟩

/-- A frame may look at an edge to a node that is met. -/
theorem look (above : List (NodeId × Frame)) {x : Nat × NodeId}
    (h : Nested d looked met (above ++ (u, frame) :: rest)) (hnext : frame.next? = some x)
    (hx : d.rank x.2 < met) :
    Nested d (looked ++ [(u, x)]) met (above ++ (u, frame.advance) :: rest) := by
  have hsub : looked ⊆ looked ++ [(u, x)] := List.subset_append_left _ _
  have htrail : (above ++ (u, frame.advance) :: rest).map Prod.fst =
      (above ++ (u, frame) :: rest).map Prod.fst := by simp
  obtain ⟨habove, hpassed⟩ := List.forall_mem_append.mp h.passed
  obtain ⟨hframe, hrest⟩ := List.forall_mem_cons.mp hpassed
  constructor
  · refine List.forall_mem_append.mpr ⟨fun e he => (habove e he).mono hsub,
      List.forall_mem_cons.mpr ⟨hframe.advance hnext, fun e he => (hrest e he).mono hsub⟩⟩
  · exact List.forall_mem_append.mpr ⟨h.known, List.forall_mem_singleton.mpr hx⟩
  · rw [htrail]
    exact h.open_met
  · rw [htrail]
    exact h.falling
  · rw [htrail]
    intro w hw hout y hy
    obtain ⟨hlooked, hlower⟩ := h.left w hw hout y hy
    exact ⟨hsub hlooked, hlower⟩

/-- Everything that was left leads only to nodes that were met before a new one. -/
theorem meet (h : Nested d looked met stack) (hrank : d.rank v = met) (hv : v ∈ d.preorder) :
    Nested d looked (met + 1) ((v, d.frame v) :: stack) := by
  have hmet : ∀ t ∈ stack.map Prod.fst, d.rank t < d.rank v := by
    rw [hrank]
    exact h.open_met
  constructor
  · exact List.forall_mem_cons.mpr ⟨⟨rfl, fun x hx => by cases hx⟩, h.passed⟩
  · exact fun e he => Nat.lt_succ_of_lt (h.known e he)
  · rw [← hrank, List.map_cons, List.forall_mem_cons]
    exact ⟨Nat.lt_succ_self _, fun t ht => Nat.lt_succ_of_lt (hmet t ht)⟩
  · exact List.pairwise_cons.mpr ⟨hmet, h.falling⟩
  · intro w hw hout x hx
    rw [List.map_cons, List.mem_cons, not_or] at hout
    have hother : d.rank w ≠ met := fun heq =>
      hout.1 (Definition.rank_inj hv (hrank.trans heq.symm)).symm
    obtain ⟨hlooked, hlower⟩ := h.left w (by omega) hout.2 x hx
    refine ⟨hlooked, List.forall_mem_cons.mpr ⟨fun _ => ?_, hlower⟩⟩
    rw [hrank]
    exact h.known (w, x) hlooked

end Nested

/-- What holds between two steps, when these edges were looked at before. -/
structure Sound (d : Definition) (looked : List (NodeId × Nat × NodeId)) (r : Ranking) : Prop where
  numbered : Numbered d r
  nested : Nested d looked r.met r.stack

theorem Sound.step (h : Sound d looked r) : Sound d (looked ++ r.looksAt?.toList) (r.step d) := by
  refine ⟨h.numbered.step, ?_⟩
  have hnested := h.nested
  have hstep := r.takes_step d
  generalize r.step d = r' at hstep ⊢
  cases hstep with
  | done hstack | pass hstack =>
      rw [looksAt?, hstack, Option.toList_none, List.append_nil]
      rw [hstack] at hnested
      simpa only [hstack] using hnested
  | setOut hstack hroots hnew =>
      obtain ⟨hrank, hv⟩ := h.numbered.rank_eq (ahead_of_root hstack hroots) hnew
      rw [looksAt?, hstack, Option.toList_none, List.append_nil]
      rw [hstack] at hnested
      exact hnested.meet hrank hv
  | leave hstack hnext =>
      rw [hstack] at hnested
      simp only [looksAt?, hstack, hnext, Option.map_none, Option.toList_none, List.append_nil]
      exact hnested.leave hnext
  | look hstack hnext hmet =>
      rw [hstack] at hnested
      simp only [looksAt?, hstack, hnext, Option.map_some, Option.toList_some]
      exact Nested.look [] hnested hnext (h.numbered.contains_iff.mp hmet)
  | @enter u next frame rest position hstack hnext hnew =>
      obtain ⟨hrank, hv⟩ := h.numbered.rank_eq (ahead_of_next hstack hnext) hnew
      rw [hstack] at hnested
      simp only [looksAt?, hstack, hnext, Option.map_some, Option.toList_some]
      have hlater : d.rank next < r.met + 1 := hrank ▸ Nat.lt_succ_self _
      exact Nested.look [(next, d.frame next)] (hnested.meet hrank hv) hnext hlater

/-- A node from which a path leads to an open node, through nodes none of which was met before it,
is open itself.  If it had been left, so had every node on the path. -/
theorem Nested.mem_trail_of_reaches {met : Nat} {stack : List (NodeId × Frame)} {u v : NodeId}
    (h : Nested d looked met stack) (hu : u ∈ stack.map Prod.fst) (hv : v ∈ d.preorder)
    (hpath : ReflTransGen (d.JoinsLater v) v u) : v ∈ stack.map Prod.fst := by
  by_contra hout
  have hmet : d.rank v < met :=
    Nat.lt_of_le_of_lt (Definition.rank_le_of_joinsLater hpath) (h.open_met u hu)
  suffices hleft : ∀ x, ReflTransGen (d.JoinsLater v) v x → d.rank x < met ∧
      x ∉ stack.map Prod.fst ∧
        ∀ t ∈ stack.map Prod.fst, d.rank v < d.rank t → d.rank x < d.rank t from
    (hleft u hpath).2.1 hu
  intro x hx
  induction hx with
  | refl => exact ⟨hmet, hout, fun _ _ hlt => hlt⟩
  | @tail x y _ hstep ih =>
      obtain ⟨hjoins, hlater⟩ := hstep
      obtain ⟨hxmet, hxout, hxlower⟩ := ih
      obtain ⟨position, hleads⟩ := Definition.exists_leadsAt hjoins
      obtain ⟨hlooked, hylower⟩ :=
        h.left x hxmet hxout (position, y) (Definition.mem_departures.mpr hleads)
      have hlower : ∀ t ∈ stack.map Prod.fst, d.rank v < d.rank t → d.rank y < d.rank t :=
        fun t ht hlt => hylower t ht (hxlower t ht hlt)
      refine ⟨h.known _ hlooked, fun hy => ?_, hlower⟩
      rcases Nat.lt_or_eq_of_le hlater with hlt | heq
      · exact Nat.lt_irrefl _ (hlower y hy hlt)
      · exact hout (Definition.rank_inj hv heq ▸ hy)

/-! ### The ranking comes to an end -/

/-- The work that is left if no node is met any more. -/
def weight (r : Ranking) : Nat :=
  (r.stack.map fun e => e.2.rest.length + 1).foldr (· + ·) 0 + r.roots.length

/-- A step meets a node, or there is less left to do after it. -/
theorem Sound.step_lt (h : Sound d looked r) (hover : r.isOver = false) :
    Prod.Lex (· < ·) (· < ·) (d.preorder.length - (r.step d).met, (r.step d).weight)
      (d.preorder.length - r.met, r.weight) := by
  have hle := h.numbered.step.met_le
  have hstep := r.takes_step d
  generalize r.step d = r' at hstep hle ⊢
  cases hstep with
  | done hstack hroots => simp [isOver, hstack, hroots] at hover
  | pass hstack hroots _ =>
      refine Prod.Lex.right _ ?_
      simp [weight, hstack, hroots]
  | setOut | enter =>
      refine Prod.Lex.left _ _ ?_
      dsimp only [Ranking.meet] at hle ⊢
      omega
  | leave hstack hnext =>
      refine Prod.Lex.right _ ?_
      simp [weight, hstack]
  | look hstack hnext _ =>
      refine Prod.Lex.right _ ?_
      simp [weight, hstack, Frame.rest_eq_cons hnext]

/-- In the end all nodes are met. -/
theorem Numbered.met_eq (h : Numbered d r) (hover : r.isOver = true) :
    r.met = d.preorder.length := by
  rw [isOver, Bool.and_eq_true, List.isEmpty_iff, List.isEmpty_iff] at hover
  have hawaits := h.awaits
  rw [ahead, hover.1, hover.2] at hawaits
  have hall : d.preorder = d.preorder.take r.met := hawaits.unique (.done _)
  rw [← List.length_take_of_le h.met_le, ← hall]

end Ranking

namespace Definition

/-! ### The whole ranking -/

/-- The edges looked at before this step, in the order in which they were. -/
def looks (d : Definition) (n : Nat) : List (NodeId × Nat × NodeId) :=
  (List.range n).filterMap fun m => (d.ranking m).looksAt?

theorem looks_succ (d : Definition) (n : Nat) :
    d.looks (n + 1) = d.looks n ++ (d.ranking n).looksAt?.toList := by
  rw [looks, List.range_succ, List.filterMap_append, looks]
  cases hlooks : (d.ranking n).looksAt? with
  | none => simp [hlooks]
  | some e => simp [hlooks]

theorem sound_ranking (d : Definition) (n : Nat) : (d.ranking n).Sound d (d.looks n) := by
  induction n with
  | zero =>
      refine ⟨⟨Nat.zero_le _, fun v => rfl, d.depthFirst_byPrecedence⟩, ?_⟩
      exact ⟨nofun, nofun, nofun, List.Pairwise.nil, fun u hu => absurd hu (Nat.not_lt_zero _)⟩
  | succ n ih =>
      rw [looks_succ, ranking]
      exact ih.step

/-- The ranking comes to an end, by induction on the nodes that are not met and the work that is
left. -/
theorem exists_isOver (d : Definition) (n : Nat) : ∃ m, (d.ranking m).isOver = true := by
  cases hover : (d.ranking n).isOver with
  | true => exact ⟨n, hover⟩
  | false => exact d.exists_isOver (n + 1)
termination_by (d.preorder.length - (d.ranking n).met, (d.ranking n).weight)
decreasing_by exact (d.sound_ranking n).step_lt hover

/-- In the end every node has its rank. -/
theorem ranks_of_isOver {n : Nat} (hover : (d.ranking n).isOver = true) (v : NodeId) :
    (d.ranking n).ranks.get? v = if v ∈ d.ids then some (d.rank v) else none := by
  have hnumbered := (d.sound_ranking n).numbered
  rw [hnumbered.ranked, hnumbered.met_eq hover]
  exact if_congr (rank_lt_iff.trans mem_preorder) rfl rfl

/-- And every edge was looked at. -/
theorem exists_looksAt {position : Nat} {u v : NodeId} (hleads : d.LeadsAt position u v) :
    ∃ n, (d.ranking n).looksAt? = some (u, position, v) := by
  obtain ⟨n, hover⟩ := d.exists_isOver 0
  obtain ⟨hnumbered, hnested⟩ := d.sound_ranking n
  have hmet : d.rank u < (d.ranking n).met := by
    rw [hnumbered.met_eq hover, rank_lt_iff, mem_preorder]
    exact source_declared hleads.joins
  have hstack : (d.ranking n).stack = [] := by
    rw [Ranking.isOver, Bool.and_eq_true, List.isEmpty_iff] at hover
    exact hover.1
  rw [hstack] at hnested
  obtain ⟨hlooked, _⟩ := hnested.left u hmet List.not_mem_nil _ (mem_departures.mpr hleads)
  obtain ⟨m, _, hm⟩ := List.mem_filterMap.mp hlooked
  exact ⟨m, hm⟩

end Definition
end Workflow
