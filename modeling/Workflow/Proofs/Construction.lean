import Mathlib.Data.List.Nodup
import Mathlib.Data.Set.List
import Mathlib.Logic.Relation
import Workflow.Definition.Draft
import Workflow.Proofs.Lists
/-!
# What makes a workflow

A draft can be built exactly when it is well formed, and then the definition that comes of it says
what the draft said.  The types of nodes, edges and definitions carry what the construction has
checked, so each check is stated here as: what it gives is just what can stand in its type.
-/
namespace Workflow

open Relation

/-! ### Nodes and edges -/

/-- A node is made of its parts if they are those of a node. -/
theorem Node.make?_eq_ok_iff {id : NodeId} {kind : String} {config : Fields} {n : Node} :
    Node.make? id kind config = .ok n ↔ n.draft = ⟨id, kind, config⟩ := by
  constructor
  · intro h
    unfold Node.make? at h
    split at h
    · cases h
    · split at h
      · cases h
      · obtain rfl := Except.ok.inj h
        rfl
  · intro h
    obtain ⟨_, _, _, hid, hkind⟩ := n
    obtain ⟨rfl, rfl, rfl⟩ := NodeDraft.mk.inj h
    unfold Node.make?
    split
    · rename_i hblank
      cases hid.symm.trans hblank
    · split
      · rename_i hblank
        cases hkind.symm.trans hblank
      · rfl

theorem NodeDraft.exists_node_iff {n : NodeDraft} :
    (∃ node : Node, node.draft = n) ↔ Text.isBlank n.id = false ∧ Text.isBlank n.kind = false := by
  constructor
  · rintro ⟨node, rfl⟩
    exact ⟨node.id_shown, node.kind_shown⟩
  · rintro ⟨hid, hkind⟩
    exact ⟨⟨n.id, n.kind, n.config, hid, hkind⟩, rfl⟩

namespace EdgeDraft

/-- The edge under its own name, or under the one generated for its position if it has none. -/
def namedAt (position : Nat) (e : EdgeDraft) : EdgeDraft :=
  { e with id := if e.id = "" then Draft.edgeName position else e.id }

/-- The edge without its condition if that is blank. -/
def settled (e : EdgeDraft) : EdgeDraft :=
  { e with condition := e.condition.filter fun c => !Text.isBlank c }

end EdgeDraft

/-- An edge is made of its parts if they are, but for a blank condition, those of an edge. -/
theorem Edge.make?_eq_ok_iff {e : EdgeDraft} {edge : Edge} :
    Edge.make? e.id e.source e.target e.condition = .ok edge ↔ edge.draft = e.settled := by
  constructor
  · intro h
    unfold Edge.make? at h
    split at h
    · cases h
    · split at h
      · cases h
      · cases h
      · split at h
        · cases h
        · obtain rfl := Except.ok.inj h
          rfl
  · intro h
    obtain ⟨_, _, _, condition⟩ := e
    obtain ⟨_, _, _, _, hid, hsource, htarget, hends, _⟩ := edge
    simp only [Edge.draft, EdgeDraft.settled, EdgeDraft.mk.injEq] at h
    obtain ⟨rfl, rfl, rfl, rfl⟩ := h
    unfold Edge.make?
    split
    · rename_i hblank
      cases hid.symm.trans hblank
    · split
      · rename_i hblank
        cases hsource.symm.trans hblank
      · rename_i hblank
        cases htarget.symm.trans hblank
      · rw [dif_neg hends]
        rfl

theorem EdgeDraft.exists_edge_iff {e : EdgeDraft} :
    (∃ edge : Edge, edge.draft = e.settled) ↔ Text.isBlank e.id = false ∧
      Text.isBlank e.source = false ∧ Text.isBlank e.target = false ∧ e.source ≠ e.target := by
  constructor
  · rintro ⟨edge, hedge⟩
    obtain ⟨_, _, _, _, hid, hsource, htarget, hends, _⟩ := edge
    obtain ⟨rfl, rfl, rfl, _⟩ := EdgeDraft.mk.inj hedge
    exact ⟨hid, hsource, htarget, hends⟩
  · rintro ⟨hid, hsource, htarget, hends⟩
    exact ⟨⟨e.id, e.source, e.target, Edge.shownCondition e.condition, hid, hsource, htarget,
      hends, fun _ h => Edge.isBlank_of_shownCondition h⟩, rfl⟩

/-! ### Where a run begins -/

/-- A run begins at the given node, else at the only node that no edge leads to, else, if there is
none such, at the first node. -/
structure IsEntry (ids targets : List NodeId) (given : Option NodeId) (entry : NodeId) : Prop where
  eq_given : ∀ id, given = some id → entry = id
  eq_root : given = none → ∀ id ∈ ids, id ∉ targets → entry = id
  eq_first : given = none → (∀ id ∈ ids, id ∈ targets) → ids.head? = some entry

/-- A given entry point is the entry point. -/
theorem isEntry_some {ids targets : List NodeId} {id entry : NodeId} :
    IsEntry ids targets (some id) entry ↔ entry = id :=
  ⟨fun h => h.eq_given id rfl, fun h => ⟨fun _ hid => h.trans (Option.some.inj hid), nofun, nofun⟩⟩

namespace Definition

theorem mem_roots {ids : List NodeId} {edges : List Edge} {id : NodeId} :
    id ∈ roots ids edges ↔ id ∈ ids ∧ id ∉ edges.map Edge.target := by
  rw [roots, List.mem_filter]
  simp

/-- The entry point is found where a run can begin. -/
theorem entryOf_eq_ok_iff {first : NodeId} {rest : List NodeId} {edges : List Edge}
    {given : Option NodeId} (hnodup : (first :: rest).Nodup) {entry : NodeId}
    (hentry : entry ∈ first :: rest) :
    entryOf first rest edges given = .ok ⟨entry, hentry⟩ ↔
      IsEntry (first :: rest) (edges.map Edge.target) given entry := by
  have hroots := hnodup.filter fun n => !(edges.any fun e => e.target == n)
  change (roots (first :: rest) edges).Nodup at hroots
  cases given with
  | some id =>
      have hgiven : entryOf first rest edges (some id) =
        if h : id ∈ first :: rest then .ok ⟨id, h⟩ else .error (.unknownEntry id) := rfl
      rw [hgiven]
      constructor
      · intro h
        split at h
        · obtain rfl : id = entry := congrArg Subtype.val (Except.ok.inj h)
          exact ⟨fun _ h => Option.some.inj h, nofun, nofun⟩
        · cases h
      · intro h
        obtain rfl := h.eq_given id rfl
        exact dif_pos hentry
  | none =>
      have hroot : ∀ {id}, id ∈ roots (first :: rest) edges ↔ id ∈ first :: rest ∧
        id ∉ edges.map Edge.target := mem_roots
      unfold entryOf
      dsimp only
      split
      · rename_i root hsingle
        rw [hsingle] at hroot
        have hmem := hroot.mp List.mem_cons_self
        constructor
        · intro h
          obtain rfl : root = entry := congrArg Subtype.val (Except.ok.inj h)
          refine ⟨nofun, fun _ id hid hfree => ?_, fun _ hall => absurd (hall _ hmem.1) hmem.2⟩
          exact (List.mem_singleton.mp (hroot.mpr ⟨hid, hfree⟩)).symm
        · intro h
          obtain rfl := h.eq_root rfl root hmem.1 hmem.2
          rfl
      · rename_i hnone
        rw [hnone] at hroot
        have hall : ∀ id ∈ first :: rest, id ∈ edges.map Edge.target := by
          intro id hid
          by_contra hfree
          exact absurd (hroot.mpr ⟨hid, hfree⟩) List.not_mem_nil
        constructor
        · intro h
          obtain rfl : first = entry := congrArg Subtype.val (Except.ok.inj h)
          exact ⟨nofun, fun _ id hid hfree => absurd (hall id hid) hfree, fun _ _ => rfl⟩
        · intro h
          obtain rfl := Option.some.inj (h.eq_first rfl hall)
          rfl
      · rename_i hmany hsome
        refine iff_of_false nofun fun h => ?_
        -- All the roots are the entry point, and they are not repeated.
        have honly : ∀ id ∈ roots (first :: rest) edges, id = entry := by
          intro id hid
          exact (h.eq_root rfl id (hroot.mp hid).1 (hroot.mp hid).2).symm
        cases hlist : roots (first :: rest) edges with
        | nil => exact hsome hlist
        | cons a more =>
            rw [hlist] at hroots honly
            obtain ⟨hnew, _⟩ := List.nodup_cons.mp hroots
            cases more with
            | nil => exact hmany a hlist
            | cons b more =>
                have hab : a = b := (honly a (by simp)).trans (honly b (by simp)).symm
                exact hnew (hab ▸ List.mem_cons_self)

/-! ### Definitions -/

theorem firstRepeated_eq_none {seen l : List String} (h : (seen ++ l).Nodup) :
    firstRepeated seen l = none := by
  induction l generalizing seen with
  | nil => rfl
  | cons s rest ih =>
      have hnew : s ∉ seen := fun hs =>
        List.disjoint_of_nodup_append h hs List.mem_cons_self
      rw [List.append_cons] at h
      rw [firstRepeated, if_neg hnew, ih h]

theorem edgeFlaw?_eq_none {ids : List NodeId} {seen : List String} {l : List Edge}
    (hnodup : (seen ++ l.map Edge.id).Nodup)
    (hends : ∀ e ∈ l, e.source ∈ ids ∧ e.target ∈ ids) : edgeFlaw? ids seen l = none := by
  induction l generalizing seen with
  | nil => rfl
  | cons e rest ih =>
      obtain ⟨hsource, htarget⟩ := hends e List.mem_cons_self
      have hnew : e.id ∉ seen := fun hid =>
        List.disjoint_of_nodup_append hnodup hid List.mem_cons_self
      rw [List.map_cons, List.append_cons] at hnodup
      rw [edgeFlaw?, if_neg hnew, if_neg (not_not_intro hsource), if_neg (not_not_intro htarget)]
      exact ih hnodup fun e' he' => hends e' (List.mem_cons_of_mem e he')

/-- A definition is made of its parts, the entry point being where a run can begin. -/
theorem make?_eq_ok_iff {name : String} {nodes : List Node} {edges : List Edge}
    {entry : Option NodeId} {cap : Option Nat} {w : Definition} :
    make? name nodes edges entry cap = .ok w ↔
      w.name = name ∧ w.nodes = nodes ∧ w.edges = edges ∧
      IsEntry (nodes.map Node.id) (edges.map Edge.target) entry w.entry ∧
      w.cap = cap.getD defaultCap := by
  constructor
  · intro h
    unfold make? at h
    split at h
    · cases h
    split at h
    · cases h
    split at h
    · cases h
    split at h
    · cases h
    rename_i n rest hnames _ _ id hid hentry
    split at h
    · cases h
    obtain rfl := Except.ok.inj h
    have hnodup : ((n :: rest).map Node.id).Nodup := by
      simpa using nodup_of_firstRepeated List.nodup_nil hnames
    exact ⟨rfl, rfl, rfl, (entryOf_eq_ok_iff hnodup hid).mp hentry, rfl⟩
  · rintro ⟨hname, hnodes, hedges, hbegins, hcap⟩
    obtain ⟨_, nodes', edges', id, _, hnodup, hnames, hends, hdeclared, hpos⟩ := w
    dsimp only at hname hnodes hedges hbegins hcap
    subst hname hnodes hedges hcap
    cases nodes' with
    | nil => cases hdeclared
    | cons n rest =>
        have hrepeated : firstRepeated [] ((n :: rest).map Node.id) = none :=
          firstRepeated_eq_none hnodup
        have hflaw : edgeFlaw? ((n :: rest).map Node.id) [] edges' = none :=
          edgeFlaw?_eq_none hnames hends
        have hfound := (entryOf_eq_ok_iff hnodup hdeclared).mpr hbegins
        unfold make?
        dsimp only
        split
        · rename_i hsome
          cases hrepeated.symm.trans hsome
        · split
          · rename_i hsome
            cases hflaw.symm.trans hsome
          · rw [hfound]
            exact dif_neg (Nat.ne_of_gt hpos)

/-- What a definition with a new cap is: the definition in all but its cap. -/
theorem withCap_eq_ok_iff {w w' : Definition} {cap : Nat} :
    w.withCap cap = .ok w' ↔ w'.name = w.name ∧ w'.nodes = w.nodes ∧ w'.edges = w.edges ∧
      w'.entry = w.entry ∧ w'.cap = cap := by
  rw [withCap, make?_eq_ok_iff, isEntry_some]
  rfl

/-- What a definition with a new entry point is: the definition in all but its entry point. -/
theorem withEntry_eq_ok_iff {w w' : Definition} {id : NodeId} :
    w.withEntry id = .ok w' ↔ w'.name = w.name ∧ w'.nodes = w.nodes ∧ w'.edges = w.edges ∧
      w'.entry = id ∧ w'.cap = w.cap := by
  rw [withEntry, make?_eq_ok_iff, isEntry_some]
  rfl

/-- One definition comes from the other by a new cap or a new entry point. -/
inductive Revises (w w' : Definition) : Prop where
  | cap {cap : Nat} (h : w.withCap cap = .ok w')
  | entry {id : NodeId} (h : w.withEntry id = .ok w')

theorem Revises.parts {w w' : Definition} (h : Revises w w') :
    w'.name = w.name ∧ w'.nodes = w.nodes ∧ w'.edges = w.edges := by
  cases h with
  | cap h =>
      obtain ⟨hname, hnodes, hedges, _⟩ := withCap_eq_ok_iff.mp h
      exact ⟨hname, hnodes, hedges⟩
  | entry h =>
      obtain ⟨hname, hnodes, hedges, _⟩ := withEntry_eq_ok_iff.mp h
      exact ⟨hname, hnodes, hedges⟩

theorem parts_of_revisions {w w' : Definition} (h : ReflTransGen Revises w w') :
    w'.name = w.name ∧ w'.nodes = w.nodes ∧ w'.edges = w.edges := by
  induction h with
  | refl => exact ⟨rfl, rfl, rfl⟩
  | tail _ hlast ih =>
      obtain ⟨hname, hnodes, hedges⟩ := hlast.parts
      exact ⟨hname.trans ih.1, hnodes.trans ih.2.1, hedges.trans ih.2.2⟩

theorem exists_withCap_iff {w : Definition} {cap : Nat} :
    (∃ w', w.withCap cap = .ok w') ↔ cap ≠ 0 := by
  simp only [withCap_eq_ok_iff]
  constructor
  · rintro ⟨w', _, _, _, _, rfl⟩
    exact Nat.ne_of_gt w'.cap_pos
  · intro hcap
    exact ⟨{ w with cap, cap_pos := Nat.pos_of_ne_zero hcap }, rfl, rfl, rfl, rfl, rfl⟩

theorem exists_withEntry_iff {w : Definition} {id : NodeId} :
    (∃ w', w.withEntry id = .ok w') ↔ id ∈ w.ids := by
  simp only [withEntry_eq_ok_iff]
  constructor
  · rintro ⟨w', _, hnodes, _, rfl, _⟩
    rw [ids, ← hnodes]
    exact w'.entry_declared
  · intro hid
    exact ⟨{ w with entry := id, entry_declared := hid }, rfl, rfl, rfl, rfl, rfl⟩

end Definition

/-! ### Drafts -/

namespace Draft

/-- The edges under their names, generated ones included; positions count from one. -/
def namedEdges (d : Draft) : List EdgeDraft :=
  (d.edges.zipIdx 1).map fun e => e.1.namedAt e.2

/-- The names of the nodes in the order of the draft. -/
def ids (d : Draft) : List NodeId := d.nodes.map NodeDraft.id

/-- The node is in the draft and no edge leads to it. -/
def IsRoot (d : Draft) (id : NodeId) : Prop :=
  id ∈ d.ids ∧ id ∉ d.edges.map EdgeDraft.target

/-- What a draft must be like to become a definition. -/
structure WellFormed (d : Draft) : Prop where
  nodes_ne_nil : d.nodes ≠ []
  node_shown : ∀ n ∈ d.nodes, Text.isBlank n.id = false ∧ Text.isBlank n.kind = false
  ids_nodup : d.ids.Nodup
  edge_shown : ∀ e ∈ d.namedEdges, Text.isBlank e.id = false
  edges_nodup : (d.namedEdges.map EdgeDraft.id).Nodup
  ends : ∀ e ∈ d.edges, e.source ∈ d.ids ∧ e.target ∈ d.ids ∧ e.source ≠ e.target
  entry_declared : ∀ id, d.entry = some id → id ∈ d.ids
  root_unique : d.entry = none → ∀ a b, d.IsRoot a → d.IsRoot b → a = b
  cap_ne_zero : d.cap ≠ some 0

end Draft

/-- The definition says what the draft says: the same nodes and edges in the same order, the edges
under their names and without blank conditions, and the entry point and the cap that the draft gives
or leaves to be found. -/
structure Definition.Realizes (w : Definition) (d : Draft) : Prop where
  name : w.name = d.name
  nodes : w.nodes.map Node.draft = d.nodes
  edges : w.edges.map Edge.draft = d.namedEdges.map EdgeDraft.settled
  entry : IsEntry d.ids (d.edges.map EdgeDraft.target) d.entry w.entry
  cap : w.cap = d.cap.getD defaultCap

namespace Draft

theorem buildNodes_eq_ok_iff {l : List NodeDraft} {nodes : List Node} :
    buildNodes l = .ok nodes ↔ nodes.map Node.draft = l := by
  induction l generalizing nodes with
  | nil => simp [buildNodes, eq_comm]
  | cons n l ih =>
      rw [List.map_eq_cons_iff]
      unfold buildNodes
      split
      · rename_i flaw hflaw
        refine iff_of_false nofun ?_
        rintro ⟨node, rest, rfl, hnode, _⟩
        cases hflaw.symm.trans (Node.make?_eq_ok_iff.mpr hnode)
      · rename_i node hmade
        have hnode := Node.make?_eq_ok_iff.mp hmade
        constructor
        · intro h
          obtain ⟨rest, hrest, rfl⟩ := map_cons_eq_ok_iff.mp h
          exact ⟨node, rest, rfl, hnode, ih.mp hrest⟩
        · rintro ⟨node', rest, rfl, hnode', hrest⟩
          obtain rfl := Except.ok.inj (hmade.symm.trans (Node.make?_eq_ok_iff.mpr hnode'))
          rw [ih.mpr hrest]
          rfl

theorem buildEdges_eq_ok_iff {position : Nat} {l : List EdgeDraft} {edges : List Edge} :
    buildEdges position l = .ok edges ↔ edges.map Edge.draft =
      ((l.zipIdx position).map fun e => e.1.namedAt e.2).map EdgeDraft.settled := by
  induction l generalizing position edges with
  | nil => simp [buildEdges, eq_comm]
  | cons e l ih =>
      rw [List.zipIdx_cons, List.map_cons, List.map_cons, List.map_eq_cons_iff]
      unfold buildEdges
      dsimp only
      split
      · rename_i flaw hflaw
        refine iff_of_false nofun ?_
        rintro ⟨edge, rest, rfl, hedge, _⟩
        cases hflaw.symm.trans (Edge.make?_eq_ok_iff.mpr hedge)
      · rename_i edge hmade
        have hedge : edge.draft = (e.namedAt position).settled := Edge.make?_eq_ok_iff.mp hmade
        constructor
        · intro h
          obtain ⟨rest, hrest, rfl⟩ := map_cons_eq_ok_iff.mp h
          exact ⟨edge, rest, rfl, hedge, ih.mp hrest⟩
        · rintro ⟨edge', rest, rfl, hedge', hrest⟩
          obtain rfl := Except.ok.inj (hmade.symm.trans (Edge.make?_eq_ok_iff.mpr hedge'))
          rw [ih.mpr hrest]
          rfl

theorem ids_eq_of_nodes {d : Draft} {nodes : List Node} (h : nodes.map Node.draft = d.nodes) :
    nodes.map Node.id = d.ids := by
  rw [ids, ← h, List.map_map]
  rfl

/-- To give names to edges does not change where they lead. -/
theorem map_ends_namedEdges (d : Draft) {α : Type} (f : NodeId → NodeId → α) :
    d.namedEdges.map (fun e => f e.source e.target) =
      d.edges.map fun e => f e.source e.target := by
  have hends : (d.namedEdges.map fun e => f e.source e.target) =
      ((d.edges.zipIdx 1).map Prod.fst).map fun e => f e.source e.target := by
    rw [namedEdges, List.map_map, List.map_map]
    rfl
  rw [hends, List.zipIdx_map_fst]

theorem targets_eq_of_edges {d : Draft} {edges : List Edge}
    (h : edges.map Edge.draft = d.namedEdges.map EdgeDraft.settled) :
    edges.map Edge.target = d.edges.map EdgeDraft.target := by
  have htarget := congrArg (List.map EdgeDraft.target) h
  rw [List.map_map, List.map_map] at htarget
  exact htarget.trans (d.map_ends_namedEdges fun _ target => target)

theorem build?_eq_ok_iff {d : Draft} {w : Definition} : d.build? = .ok w ↔ w.Realizes d := by
  constructor
  · intro h
    unfold build? at h
    split at h
    · cases h
    · split at h
      · cases h
      · rename_i _ nodes hnodes _ edges hedges
        obtain ⟨hname, rfl, rfl, hentry, hcap⟩ := Definition.make?_eq_ok_iff.mp h
        have hnodes := buildNodes_eq_ok_iff.mp hnodes
        have hedges := buildEdges_eq_ok_iff.mp hedges
        rw [ids_eq_of_nodes hnodes, targets_eq_of_edges hedges] at hentry
        exact ⟨hname, hnodes, hedges, hentry, hcap⟩
  · intro h
    have hentry := h.entry
    rw [← ids_eq_of_nodes h.nodes, ← targets_eq_of_edges h.edges] at hentry
    rw [build?, buildNodes_eq_ok_iff.mpr h.nodes, buildEdges_eq_ok_iff.mpr h.edges]
    exact Definition.make?_eq_ok_iff.mpr ⟨h.name, rfl, rfl, hentry, h.cap⟩

/-- What is built of a well-formed draft is a definition, so what a definition says is well formed.
-/
theorem wellFormed_of_realizes {d : Draft} {w : Definition} (h : w.Realizes d) : d.WellFormed := by
  have hids := ids_eq_of_nodes h.nodes
  have hmem : ∀ e ∈ d.namedEdges, ∃ edge ∈ w.edges, edge.draft = e.settled := fun e he =>
    List.mem_map.mp (h.edges ▸ List.mem_map_of_mem he)
  constructor
  case nodes_ne_nil =>
    intro hnil
    have hentry := w.entry_declared
    rw [hids, ids, hnil] at hentry
    cases hentry
  case node_shown =>
    intro n hn
    rw [← h.nodes] at hn
    obtain ⟨node, _, hnode⟩ := List.mem_map.mp hn
    exact NodeDraft.exists_node_iff.mp ⟨node, hnode⟩
  case ids_nodup =>
    rw [← hids]
    exact w.nodes_nodup
  case edge_shown =>
    intro e he
    obtain ⟨edge, _, hedge⟩ := hmem e he
    exact (EdgeDraft.exists_edge_iff.mp ⟨edge, hedge⟩).1
  case edges_nodup =>
    have hnames := congrArg (List.map EdgeDraft.id) h.edges
    rw [List.map_map, List.map_map] at hnames
    exact hnames ▸ w.edges_nodup
  case ends =>
    intro e he
    have hends : (e.source, e.target) ∈ d.namedEdges.map fun e => (e.source, e.target) := by
      rw [d.map_ends_namedEdges Prod.mk]
      exact List.mem_map_of_mem he
    obtain ⟨named, hnamed, heq⟩ := List.mem_map.mp hends
    obtain ⟨hsource, htarget⟩ := Prod.mk.inj heq
    obtain ⟨edge, hedge, hdraft⟩ := hmem named hnamed
    obtain ⟨_, _, _, hdiffer⟩ := EdgeDraft.exists_edge_iff.mp ⟨edge, hdraft⟩
    obtain ⟨hs, ht⟩ := w.ends_declared edge hedge
    obtain ⟨_, hsame, hsame', _⟩ := EdgeDraft.mk.inj hdraft
    rw [hids] at hs ht
    rw [hsame, hsource] at hs
    rw [hsame', htarget] at ht
    rw [hsource, htarget] at hdiffer
    exact ⟨hs, ht, hdiffer⟩
  case entry_declared =>
    intro id hid
    rw [← h.entry.eq_given id hid, ← hids]
    exact w.entry_declared
  case root_unique =>
    intro hnone a b ha hb
    exact (h.entry.eq_root hnone a ha.1 ha.2).symm.trans (h.entry.eq_root hnone b hb.1 hb.2)
  case cap_ne_zero =>
    intro hzero
    have hcap := h.cap
    rw [hzero] at hcap
    exact Nat.ne_of_gt w.cap_pos hcap

/-- A well-formed draft has an entry point. -/
theorem WellFormed.exists_isEntry {d : Draft} (h : d.WellFormed) :
    ∃ entry ∈ d.ids, IsEntry d.ids (d.edges.map EdgeDraft.target) d.entry entry := by
  cases hgiven : d.entry with
  | some id => exact ⟨id, h.entry_declared id hgiven, isEntry_some.mpr rfl⟩
  | none =>
      by_cases hroot : ∃ id, d.IsRoot id
      · obtain ⟨root, hroot⟩ := hroot
        refine ⟨root, hroot.1, nofun, fun _ id hid hfree => ?_, fun _ hall => ?_⟩
        · exact h.root_unique hgiven root id hroot ⟨hid, hfree⟩
        · exact absurd (hall root hroot.1) hroot.2
      · obtain ⟨n, rest, hnodes⟩ := List.exists_cons_of_ne_nil h.nodes_ne_nil
        have hids : d.ids = n.id :: rest.map NodeDraft.id := by rw [ids, hnodes, List.map_cons]
        refine ⟨n.id, hids ▸ List.mem_cons_self, nofun, fun _ id hid hfree => ?_, fun _ _ => ?_⟩
        · exact absurd ⟨id, hid, hfree⟩ hroot
        · rw [hids, List.head?_cons]

/-- The ends of an edge of a well-formed draft are declared and differ, under whatever name. -/
theorem WellFormed.ends_named {d : Draft} (h : d.WellFormed) {e : EdgeDraft}
    (he : e ∈ d.namedEdges) : e.source ∈ d.ids ∧ e.target ∈ d.ids ∧ e.source ≠ e.target := by
  have hends : (e.source, e.target) ∈ d.edges.map fun e => (e.source, e.target) := by
    rw [← d.map_ends_namedEdges Prod.mk]
    exact List.mem_map_of_mem he
  obtain ⟨plain, hplain, heq⟩ := List.mem_map.mp hends
  obtain ⟨hsource, htarget⟩ := Prod.mk.inj heq
  rw [← hsource, ← htarget]
  exact h.ends plain hplain

theorem WellFormed.shown_of_mem_ids {d : Draft} (h : d.WellFormed) {id : NodeId}
    (hid : id ∈ d.ids) : Text.isBlank id = false := by
  obtain ⟨n, hn, rfl⟩ := List.mem_map.mp hid
  exact (h.node_shown n hn).1

theorem WellFormed.exists_realizes {d : Draft} (h : d.WellFormed) :
    ∃ w : Definition, w.Realizes d := by
  obtain ⟨nodes, hnodes⟩ : d.nodes ∈ Set.range (List.map Node.draft) := by
    rw [Set.range_list_map]
    exact fun n hn => NodeDraft.exists_node_iff.mpr (h.node_shown n hn)
  obtain ⟨edges, hedges⟩ : d.namedEdges.map EdgeDraft.settled ∈
      Set.range (List.map Edge.draft) := by
    rw [Set.range_list_map]
    intro e he
    obtain ⟨named, hnamed, rfl⟩ := List.mem_map.mp he
    obtain ⟨hsource, htarget, hdiffer⟩ := h.ends_named hnamed
    exact EdgeDraft.exists_edge_iff.mpr ⟨h.edge_shown named hnamed, h.shown_of_mem_ids hsource,
      h.shown_of_mem_ids htarget, hdiffer⟩
  obtain ⟨entry, hdeclared, hentry⟩ := h.exists_isEntry
  have hids := ids_eq_of_nodes hnodes
  have hnames : edges.map Edge.id = d.namedEdges.map EdgeDraft.id := by
    have hnames := congrArg (List.map EdgeDraft.id) hedges
    rwa [List.map_map, List.map_map] at hnames
  refine ⟨⟨d.name, nodes, edges, entry, d.cap.getD defaultCap, hids ▸ h.ids_nodup,
    hnames ▸ h.edges_nodup, ?_, hids ▸ hdeclared, ?_⟩, ⟨rfl, hnodes, hedges, hentry, rfl⟩⟩
  · intro e he
    have hmem : e.draft ∈ d.namedEdges.map EdgeDraft.settled := hedges ▸ List.mem_map_of_mem he
    obtain ⟨named, hnamed, heq⟩ := List.mem_map.mp hmem
    obtain ⟨_, hsource, htarget, _⟩ := EdgeDraft.mk.inj heq
    obtain ⟨hs, ht, _⟩ := h.ends_named hnamed
    rw [hids, ← hsource, ← htarget]
    exact ⟨hs, ht⟩
  · cases hcap : d.cap with
    | none => decide
    | some cap => exact Nat.pos_of_ne_zero fun hzero => h.cap_ne_zero (hzero ▸ hcap)

theorem exists_build?_iff {d : Draft} : (∃ w, d.build? = .ok w) ↔ d.WellFormed := by
  simp only [build?_eq_ok_iff]
  exact ⟨fun ⟨_, hw⟩ => wellFormed_of_realizes hw, fun h => h.exists_realizes⟩

end Draft

/-! ### Definitions written down again -/

theorem Edge.namedAt_draft (e : Edge) (position : Nat) : e.draft.namedAt position = e.draft := by
  have hid : e.id ≠ "" := by
    intro hempty
    have hshown := e.id_shown
    rw [hempty] at hshown
    cases hshown
  simp [EdgeDraft.namedAt, Edge.draft, hid]

theorem Edge.settled_draft (e : Edge) : e.draft.settled = e.draft := by
  obtain ⟨_, _, _, condition, _, _, _, _, hshown⟩ := e
  cases condition with
  | none => rfl
  | some c => simp [EdgeDraft.settled, Edge.draft, hshown c rfl]

namespace Definition

theorem namedEdges_draft (w : Definition) : w.draft.namedEdges = w.draft.edges := by
  have hnamed : ∀ e ∈ w.draft.edges.zipIdx 1, e.1.namedAt e.2 = e.1 := by
    rintro ⟨e, position⟩ he
    obtain ⟨edge, _, rfl⟩ := List.mem_map.mp (List.fst_mem_of_mem_zipIdx he)
    exact edge.namedAt_draft position
  rw [Draft.namedEdges, List.map_congr_left hnamed, List.zipIdx_map_fst]

/-- Nothing about a definition is left to be found when it is written down. -/
theorem realizes_draft (w : Definition) : w.Realizes w.draft where
  name := rfl
  nodes := rfl
  edges := by
    rw [namedEdges_draft, draft, List.map_map]
    exact List.map_congr_left fun e _ => e.settled_draft.symm
  entry := isEntry_some.mpr rfl
  cap := rfl

theorem draft_wellFormed (w : Definition) : w.draft.WellFormed :=
  Draft.wellFormed_of_realizes w.realizes_draft

/-- A definition that is written down is built again as it was. -/
theorem build?_draft (w : Definition) : w.draft.build? = .ok w :=
  Draft.build?_eq_ok_iff.mpr w.realizes_draft

end Definition

/-- A draft is accepted exactly when it is well formed, and the definition made of it says what the
draft says.  Whatever new caps and entry points the definition is given afterwards, it stays well
formed and keeps its nodes and its edges; the only cap it refuses is zero, and the only entry points
are nodes that are not declared. -/
theorem Draft.build_accepts_wellFormed (d : Draft) :
    ((∃ w, d.build? = .ok w) ↔ d.WellFormed) ∧
    ∀ w, d.build? = .ok w → w.Realizes d ∧ ∀ w', ReflTransGen Definition.Revises w w' →
      w'.draft.WellFormed ∧ (w'.name = w.name ∧ w'.nodes = w.nodes ∧ w'.edges = w.edges) ∧
      (∀ cap, (∃ w'', w'.withCap cap = .ok w'') ↔ cap ≠ 0) ∧
      (∀ id, (∃ w'', w'.withEntry id = .ok w'') ↔ id ∈ w'.ids) := by
  refine ⟨exists_build?_iff, fun w hw => ⟨build?_eq_ok_iff.mp hw, fun w' hrevised => ?_⟩⟩
  exact ⟨w'.draft_wellFormed, Definition.parts_of_revisions hrevised,
    fun _ => Definition.exists_withCap_iff, fun _ => Definition.exists_withEntry_iff⟩

/-- Two nodes, and between them an edge without a name whose condition is blank. -/
def Draft.sketch : Draft :=
  { name := "sketch"
    nodes := [⟨"first", "collector", .empty⟩, ⟨"last", "collector", .empty⟩]
    edges := [⟨"", "first", "last", some " "⟩]
    entry := none
    cap := none }

theorem Draft.sketch_accepted :
    sketch.WellFormed ∧ ∃ w, sketch.build? = .ok w ∧
      w.edges.map Edge.draft = [⟨"e1", "first", "last", none⟩] ∧ w.entry = "first" := by
  obtain ⟨hiff, hrealizes⟩ := build_accepts_wellFormed sketch
  obtain ⟨w, hw⟩ : ∃ w, sketch.build? = .ok w := ⟨_, rfl⟩
  obtain ⟨h, _⟩ := hrealizes w hw
  exact ⟨hiff.mp ⟨w, hw⟩, w, hw, h.edges, h.entry.eq_root rfl "first" (by decide) (by decide)⟩

end Workflow
