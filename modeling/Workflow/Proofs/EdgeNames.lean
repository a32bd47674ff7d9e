import Mathlib.Data.List.Nodup
import Workflow.Proofs.Construction
/-!
# The names of edges

An edge that is written down without a name is named after its position.  Such names never clash
with each other.  They may clash with a name that another edge is given, and then the draft is
refused; that is the only way in which edges with different given names can come to share one.
-/
namespace Workflow

/-! ### Which check names an edge twice -/

theorem Node.make?_ne_duplicateEdge {id : NodeId} {kind : String} {config : Fields}
    (name : String) : Node.make? id kind config ≠ .error (.duplicateEdge name) := by
  intro h
  unfold Node.make? at h
  split at h
  · cases h
  · split at h <;> cases h

theorem Edge.make?_ne_duplicateEdge {id : String} {source target : NodeId}
    {condition : Option String} (name : String) :
    Edge.make? id source target condition ≠ .error (.duplicateEdge name) := by
  intro h
  unfold Edge.make? at h
  split at h
  · cases h
  · split at h
    · cases h
    · cases h
    · split at h <;> cases h

namespace Definition

/-- An edge that is refused for its name has the name of an earlier one. -/
theorem count_of_edgeFlaw? {ids : List NodeId} {seen : List String} {edges : List Edge}
    {name : String} (h : edgeFlaw? ids seen edges = some (.duplicateEdge name)) :
    2 ≤ (seen ++ edges.map Edge.id).count name := by
  induction edges generalizing seen with
  | nil => cases h
  | cons e edges ih =>
      rw [edgeFlaw?] at h
      split at h
      · rename_i hseen
        obtain rfl := Flaw.duplicateEdge.inj (Option.some.inj h)
        have hearlier := List.count_pos_iff.mpr hseen
        rw [List.map_cons, List.count_append, List.count_cons_self]
        omega
      split at h
      · cases h
      split at h
      · cases h
      · rw [List.map_cons, List.append_cons]
        exact ih h

theorem entryOf_ne_duplicateEdge {first : NodeId} {rest : List NodeId} {edges : List Edge}
    {given : Option NodeId} (name : String) :
    entryOf first rest edges given ≠ .error (.duplicateEdge name) := by
  intro h
  unfold entryOf at h
  split at h
  · split at h <;> cases h
  · split at h <;> cases h

/-- A definition is refused for the name of an edge only if two edges have it. -/
theorem count_of_make? {name : String} {nodes : List Node} {edges : List Edge}
    {entry : Option NodeId} {cap : Option Nat} {edge : String}
    (h : make? name nodes edges entry cap = .error (.duplicateEdge edge)) :
    2 ≤ (edges.map Edge.id).count edge := by
  unfold make? at h
  split at h
  · cases h
  split at h
  · cases h
  split at h
  · rename_i hflaw
    rw [Except.error.inj h] at hflaw
    exact count_of_edgeFlaw? hflaw
  split at h
  · rename_i hentry
    rw [Except.error.inj h] at hentry
    exact absurd hentry (entryOf_ne_duplicateEdge edge)
  · split at h <;> cases h

end Definition

namespace Draft

theorem buildNodes_ne_duplicateEdge {l : List NodeDraft} (name : String) :
    buildNodes l ≠ .error (.duplicateEdge name) := by
  induction l with
  | nil => exact nofun
  | cons n l ih =>
      intro h
      rw [buildNodes] at h
      split at h
      · rename_i flaw hflaw
        rw [Except.error.inj h] at hflaw
        exact Node.make?_ne_duplicateEdge name hflaw
      · exact ih (map_cons_eq_error_iff.mp h)

theorem buildEdges_ne_duplicateEdge {position : Nat} {l : List EdgeDraft} (name : String) :
    buildEdges position l ≠ .error (.duplicateEdge name) := by
  induction l generalizing position with
  | nil => exact nofun
  | cons e l ih =>
      intro h
      rw [buildEdges] at h
      split at h
      · rename_i flaw hflaw
        rw [Except.error.inj h] at hflaw
        exact Edge.make?_ne_duplicateEdge name hflaw
      · exact ih (map_cons_eq_error_iff.mp h)

/-- Edges are checked for their names when they have all of them, generated ones included. -/
theorem count_of_build? {d : Draft} {name : String}
    (h : d.build? = .error (.duplicateEdge name)) :
    2 ≤ (d.namedEdges.map EdgeDraft.id).count name := by
  unfold build? at h
  split at h
  · rename_i flaw hflaw
    rw [Except.error.inj h] at hflaw
    exact absurd hflaw (buildNodes_ne_duplicateEdge name)
  split at h
  · rename_i flaw hflaw
    rw [Except.error.inj h] at hflaw
    exact absurd hflaw (buildEdges_ne_duplicateEdge name)
  · rename_i edges hedges
    have hnames := congrArg (List.map EdgeDraft.id) (buildEdges_eq_ok_iff.mp hedges)
    rw [List.map_map, List.map_map] at hnames
    have hcount := Definition.count_of_make? h
    rw [show edges.map Edge.id = d.namedEdges.map EdgeDraft.id from hnames] at hcount
    exact hcount

/-! ### Given and generated names -/

/-- The names that edges are given. -/
def givenNames (d : Draft) : List String := (d.edges.map EdgeDraft.id).filter (· ≠ "")

/-- The names that are generated for the edges without one, each after the position of its edge. -/
def generatedNames (d : Draft) : List String :=
  ((d.edges.zipIdx 1).filter fun e => e.1.id = "").map fun e => edgeName e.2

theorem edgeName_injective : Function.Injective edgeName := by
  intro a b h
  have hdigits : Nat.toDigits 10 a = Nat.toDigits 10 b :=
    String.ofList_injective ((String.append_right_inj "e").mp h)
  rw [← Nat.ofDigitChars_toDigits (b := 10) (n := a) (by omega) (by omega), hdigits,
    Nat.ofDigitChars_toDigits (by omega) (by omega)]

/-- Positions differ, and so do the names after them. -/
theorem generatedNames_nodup (d : Draft) : d.generatedNames.Nodup := by
  have hpositions : ((d.edges.zipIdx 1).map Prod.snd).Nodup := by
    rw [List.zipIdx_map_snd]
    exact List.nodup_range'
  have hunnamed := hpositions.sublist (List.filter_sublist.map Prod.snd :
    (((d.edges.zipIdx 1).filter fun e => e.1.id = "").map Prod.snd).Sublist _)
  have hnames := hunnamed.map edgeName_injective
  rw [List.map_map] at hnames
  exact hnames

/-- Every edge has the name that it is given or else the one generated for it. -/
theorem namedEdges_perm (d : Draft) :
    (d.namedEdges.map EdgeDraft.id).Perm (d.generatedNames ++ d.givenNames) := by
  have hgiven : d.givenNames =
      ((d.edges.zipIdx 1).filter fun e => !decide (e.1.id = "")).map fun e => e.1.id := by
    rw [givenNames, ← List.zipIdx_map_fst 1 d.edges, List.map_map, List.filter_map]
    simp [Function.comp_def]
  have hsplit := List.filter_append_perm (fun e => decide (e.1.id = "")) (d.edges.zipIdx 1)
  rw [namedEdges, List.map_map, hgiven, generatedNames]
  refine (hsplit.symm.map _).trans ?_
  rw [List.map_append]
  refine (List.Perm.of_eq ?_).append (List.Perm.of_eq ?_)
  · refine List.map_congr_left fun e he => ?_
    exact if_pos (by simpa using (List.mem_filter.mp he).2)
  · refine List.map_congr_left fun e he => ?_
    exact if_neg (by simpa using (List.mem_filter.mp he).2)

/-- When no two edges are given the same name, the names that are generated differ from each other.
The draft can be refused for a name that two edges have only if that is a name which one of them is
given and which is generated for the other; and with such a name it is not accepted. -/
theorem clashes_are_given {d : Draft} (hgiven : d.givenNames.Nodup) :
    d.generatedNames.Nodup ∧
    (∀ name, d.build? = .error (.duplicateEdge name) →
      name ∈ d.generatedNames ∧ name ∈ d.givenNames) ∧
    ∀ name ∈ d.generatedNames, name ∈ d.givenNames → ∀ w, d.build? ≠ .ok w := by
  have hgenerated := d.generatedNames_nodup
  refine ⟨hgenerated, fun name h => ?_, fun name hname hspelled w hw => ?_⟩
  · have hcount := count_of_build? h
    rw [d.namedEdges_perm.count_eq, List.count_append] at hcount
    have hone := List.nodup_iff_count_le_one.mp hgenerated name
    have hone' := List.nodup_iff_count_le_one.mp hgiven name
    exact ⟨List.count_pos_iff.mp (by omega), List.count_pos_iff.mp (by omega)⟩
  · have hnodup := (wellFormed_of_realizes (build?_eq_ok_iff.mp hw)).edges_nodup
    rw [d.namedEdges_perm.nodup_iff] at hnodup
    exact List.disjoint_of_nodup_append hnodup hname hspelled

/-- Three nodes in a row; the first edge has no name and the second is given one. -/
def row : Draft :=
  { name := "row"
    nodes := [⟨"first", "step", .empty⟩, ⟨"second", "step", .empty⟩,
      ⟨"third", "step", .empty⟩]
    edges := [⟨"", "first", "second", none⟩, ⟨"e3", "second", "third", none⟩]
    entry := none
    cap := none }

theorem row_names_differ :
    row.givenNames.Nodup ∧ row.generatedNames = ["e1"] ∧
      ∀ name, row.build? ≠ .error (.duplicateEdge name) := by
  have hgiven : row.givenNames.Nodup := by decide
  have hgenerated : row.generatedNames = ["e1"] := by decide
  refine ⟨hgiven, hgenerated, fun name h => ?_⟩
  obtain ⟨hname, hspelled⟩ := (clashes_are_given hgiven).2.1 name h
  rw [hgenerated, List.mem_singleton] at hname
  rw [hname] at hspelled
  exact absurd hspelled (by decide)

/-- The same nodes in a row; the first edge is given the name that is generated for the second. -/
def foretold : Draft :=
  { row with edges := [⟨"e2", "first", "second", none⟩, ⟨"", "second", "third", none⟩] }

/-- Of two edges only one is given a name, and still the draft is refused for a name that two edges
have. -/
theorem foretold_refused :
    foretold.givenNames.Nodup ∧ foretold.build? = .error (.duplicateEdge "e2") :=
  ⟨by decide, rfl⟩

end Draft
end Workflow
