import Workflow.Proofs.Stored.Reader
import Workflow.Value.Form
/-!
# Values and trees

All ways between values and trees agree.  A tree gives the same value whether it is converted, read
as stored data or recognized by its form, and so does the text of a tree.  Writing a value gives the
tree that it is converted to, and in one line the text of that tree.  The way from a value to its
tree and back loses only the numbers that are not finite.
-/
namespace Workflow
namespace Value

/-! ### From trees to values -/

theorem ofMembers_eq_map (members : List (String × Json)) :
    ofMembers members = members.map fun e => (e.1, ofTree e.2) := by
  induction members with
  | nil => rfl
  | cons e members ih => rw [ofMembers, ih, List.map_cons]

mutual
/-- A tree and its normal form stand for the same value. -/
theorem ofTree_normal : ∀ j : Json, ofTree j.normal = ofTree j
  | .null => rfl
  | .bool _ => rfl
  | .number _ => rfl
  | .string _ => rfl
  | .array items => congrArg array (ofTrees_normalItems items)
  | .object members => by
      have hentries : ofMembers (Table.ofList (Json.normalMembers members)).entries =
          (Table.ofList (ofMembers members)).entries := by
        rw [ofMembers_eq_map, ← Table.entries_map, ← Table.ofList_map, ← ofMembers_eq_map,
          ofMembers_normalMembers members]
      rw [Json.normal, ofTree, hentries, Table.ofList_entries, ofTree]

theorem ofTrees_normalItems : ∀ items : List Json, ofTrees (Json.normalItems items) = ofTrees items
  | [] => rfl
  | j :: rest => by
      rw [Json.normalItems, ofTrees, ofTree_normal j, ofTrees_normalItems rest, ofTrees]

theorem ofMembers_normalMembers : ∀ members : List (String × Json),
    ofMembers (Json.normalMembers members) = ofMembers members
  | [] => rfl
  | (k, j) :: rest => by
      rw [Json.normalMembers, ofMembers, ofTree_normal j, ofMembers_normalMembers rest, ofMembers]
end

mutual
/-- The first form that has a use for a tree makes of it what it is converted to. -/
theorem recognize?_eq : ∀ j : Json, recognize? j = some (ofTree j)
  | .null => rfl
  | .bool _ => rfl
  | .number (.int _) => rfl
  | .number (.real _) => rfl
  | .string _ => rfl
  | .array items => by
      rw [recognize?, recognizeItems?_eq items]
      rfl
  | .object members => by
      rw [recognize?, recognizeMembers?_eq members]
      rfl

theorem recognizeItems?_eq : ∀ items : List Json, recognizeItems? items = some (ofTrees items)
  | [] => rfl
  | j :: rest => by
      rw [recognizeItems?, recognize?_eq j, recognizeItems?_eq rest]
      rfl

theorem recognizeMembers?_eq : ∀ members : List (String × Json),
    recognizeMembers? members = some (ofMembers members)
  | [] => rfl
  | (k, j) :: rest => by
      rw [recognizeMembers?, recognize?_eq j, recognizeMembers?_eq rest]
      rfl
end

end Value

namespace Stored

open Workflow.Json (Doc Fault)

/-- What a reader of values makes of what a reader of trees finds. -/
def ofFound {α β : Type} (f : α → β) (found : Except Fault α) : Except ReadError β :=
  (found.map f).mapError .fault

mutual
/-- To read a value off a document is to read a tree off it, with the same faults. -/
theorem value_eq_ofFound : ∀ (doc : Doc) (depth : Nat),
    value depth doc = ofFound Value.ofTree (doc.tree depth)
  | .null _, _ => rfl
  | .bool _ _, _ => rfl
  | .number _ (.ok _), _ => rfl
  | .number _ (.error _), _ => rfl
  | .string _ (.ok _), _ => rfl
  | .string _ (.error _), _ => rfl
  | .array _ _ _ _, 0 => rfl
  | .array _ _ items tail, depth + 1 => by
      rw [value, values_eq_ofFound items, Doc.tree]
      cases Doc.trees depth items with
      | error f => rfl
      | ok l => cases tail <;> rfl
  | .object _ _ _ _, 0 => rfl
  | .object _ _ members tail, depth + 1 => by
      rw [value, memberValues_eq_ofFound members, Doc.tree]
      cases Doc.memberTrees depth members with
      | error f => rfl
      | ok l => cases tail <;> rfl
  | .absent _, _ => rfl

theorem values_eq_ofFound : ∀ (items : List Doc) (depth : Nat),
    values depth items = ofFound Value.ofTrees (Doc.trees depth items)
  | [], _ => rfl
  | doc :: rest, depth => by
      rw [values, value_eq_ofFound doc, values_eq_ofFound rest, Doc.trees]
      cases Doc.tree depth doc with
      | error f => rfl
      | ok j => cases Doc.trees depth rest <;> rfl

theorem memberValues_eq_ofFound : ∀ (members : List (Json.Key × Doc)) (depth : Nat),
    memberValues depth members = ofFound Value.ofMembers (Doc.memberTrees depth members)
  | [], _ => rfl
  | (key, doc) :: rest, depth => by
      rw [memberValues, Doc.memberTrees]
      cases key.text with
      | error f => rfl
      | ok text =>
          dsimp only
          rw [value_eq_ofFound doc, memberValues_eq_ofFound rest]
          cases Doc.tree depth doc with
          | error f => rfl
          | ok j => cases Doc.memberTrees depth rest <;> rfl
end

theorem ofTree_value (j : Json) : ofTree value j = .ok (Value.ofTree j) := by
  rw [ofTree, value_eq_ofFound, tree_ofTree j.normal (Nat.le_refl _), ← Value.ofTree_normal]
  rfl

theorem ofText_value (text : String) :
    ofText value text = ofFound Value.ofTree (Json.ofText text) := by
  rw [ofText, value_eq_ofFound, Json.ofText]
  cases (Json.Document.ofText text).root.tree Json.maxDepth with
  | error f => rfl
  | ok j => cases (Json.Document.ofText text).trailing <;> rfl

end Stored

namespace Value

/-! ### From values to trees -/

/-- The keys of an object stand in the same order when its values are changed. -/
theorem entries_ofList_map {β : Type} {f : Value → β} {members : List (String × Value)}
    (h : members.Pairwise fun a b => a.1 < b.1) :
    (Table.ofList (members.map fun e => (e.1, f e.2))).entries =
      members.map fun e => (e.1, f e.2) :=
  Table.entries_ofList (List.pairwise_map.mpr h)

mutual
/-- Written as a tree, a value is what it is converted to. -/
theorem write_tree : ∀ v : Value, v.Ordered → v.write Writer.tree = v.tree
  | .null, _ => rfl
  | .bool _, _ => rfl
  | .number _, _ => rfl
  | .string _, _ => rfl
  | .array items, hordered => congrArg Json.array (writeItems_tree items hordered)
  | .object members, ⟨hkeys, hordered⟩ => by
      rw [write, writeMembers_tree members hordered, tree, memberTrees_eq_map]
      exact congrArg Json.object (entries_ofList_map hkeys)

theorem writeItems_tree : ∀ items : List Value, OrderedItems items →
    writeItems Writer.tree items = trees items
  | [], _ => rfl
  | v :: rest, ⟨hv, hrest⟩ => by
      rw [writeItems, write_tree v hv, writeItems_tree rest hrest, trees]

theorem writeMembers_tree : ∀ members : List (String × Value), OrderedMembers members →
    writeMembers Writer.tree members = memberTrees members
  | [], _ => rfl
  | (k, v) :: rest, ⟨hv, hrest⟩ => by
      rw [writeMembers, write_tree v hv, writeMembers_tree rest hrest, memberTrees]
end

theorem compact_real (x : Float) : (Json.real x).compact = Writer.compact.number x := by
  rw [Json.real]
  split
  · rfl
  · rename_i hfinite
    exact (if_neg hfinite).symm

mutual
/-- Written in one line, a value gives the text of its tree. -/
theorem write_compact : ∀ v : Value, v.write Writer.compact = v.tree.compact
  | .null => rfl
  | .bool true => rfl
  | .bool false => rfl
  | .number x => (compact_real x).symm
  | .string _ => rfl
  | .array items => by
      rw [tree, Json.compact, ← writeItems_compact items]
      rfl
  | .object members => by
      rw [tree, Json.compact, ← writeMembers_compact members]
      rfl

theorem writeItems_compact : ∀ items : List Value,
    ",".intercalate (writeItems Writer.compact items) = Json.compactItems (trees items)
  | [] => rfl
  | [v] => write_compact v
  | v :: next :: rest => by
      have hrest := writeItems_compact (next :: rest)
      simp only [writeItems, trees, Json.compactItems, String.intercalate_cons_cons,
        write_compact v] at hrest ⊢
      rw [hrest]

theorem writeMembers_compact : ∀ members : List (String × Value),
    ",".intercalate ((writeMembers Writer.compact members).map fun e =>
      Json.quote e.1 ++ ":" ++ e.2) = Json.compactMembers (memberTrees members)
  | [] => rfl
  | [(k, v)] => congrArg (Json.quote k ++ ":" ++ ·) (write_compact v)
  | (_, v) :: next :: rest => by
      have hrest := writeMembers_compact (next :: rest)
      simp only [writeMembers, memberTrees, Json.compactMembers, List.map_cons,
        String.intercalate_cons_cons, write_compact v] at hrest ⊢
      rw [hrest]
end

/-! ### There and back -/

theorem finiteMembers_eq_map (members : List (String × Value)) :
    finiteMembers members = members.map fun e => (e.1, e.2.finitePart) := by
  induction members with
  | nil => rfl
  | cons e members ih => rw [finiteMembers, ih, List.map_cons]

theorem ofTree_real (x : Float) : ofTree (Json.real x) = (number x).finitePart := by
  rw [Json.real, finitePart]
  split <;> rfl

mutual
/-- A tree keeps all of a value but the numbers that are not finite. -/
theorem ofTree_tree : ∀ v : Value, v.Ordered → ofTree v.tree = v.finitePart
  | .null, _ => rfl
  | .bool _, _ => rfl
  | .number x, _ => ofTree_real x
  | .string _, _ => rfl
  | .array items, hordered => congrArg array (ofTrees_trees items hordered)
  | .object members, ⟨hkeys, hordered⟩ => by
      rw [tree, ofTree, ofMembers_memberTrees members hordered, finitePart, finiteMembers_eq_map]
      exact congrArg object (entries_ofList_map hkeys)

theorem ofTrees_trees : ∀ items : List Value, OrderedItems items →
    ofTrees (trees items) = finiteItems items
  | [], _ => rfl
  | v :: rest, ⟨hv, hrest⟩ => by
      rw [trees, ofTrees, ofTree_tree v hv, ofTrees_trees rest hrest, finiteItems]

theorem ofMembers_memberTrees : ∀ members : List (String × Value), OrderedMembers members →
    ofMembers (memberTrees members) = finiteMembers members
  | [], _ => rfl
  | (k, v) :: rest, ⟨hv, hrest⟩ => by
      rw [memberTrees, ofMembers, ofTree_tree v hv, ofMembers_memberTrees rest hrest,
        finiteMembers]
end

mutual
theorem finitePart_eq_self : ∀ v : Value, v.Finite → v.finitePart = v
  | .null, _ => rfl
  | .bool _, _ => rfl
  | .number _, hfinite => if_pos hfinite
  | .string _, _ => rfl
  | .array items, hfinite => congrArg array (finiteItems_eq_self items hfinite)
  | .object members, hfinite => congrArg object (finiteMembers_eq_self members hfinite)

theorem finiteItems_eq_self : ∀ items : List Value, FiniteItems items → finiteItems items = items
  | [], _ => rfl
  | v :: rest, ⟨hv, hrest⟩ => by
      rw [finiteItems, finitePart_eq_self v hv, finiteItems_eq_self rest hrest]

theorem finiteMembers_eq_self : ∀ members : List (String × Value), FiniteMembers members →
    finiteMembers members = members
  | [], _ => rfl
  | (k, v) :: rest, ⟨hv, hrest⟩ => by
      rw [finiteMembers, finitePart_eq_self v hv, finiteMembers_eq_self rest hrest]
end

/-- All ways between values and trees agree.  Every tree stands for one value, whether it is
recognized by its form, read as stored data or converted; a text is read as the value of the tree
that it holds, with the same faults.  The members of every value that comes of a tree are in order.
A value whose members are in order gives one tree, whether it is written or converted, and in one
line the text of that tree.  What that tree stands for is the value again, with null in the place of
the numbers that are not finite; so it is the same value if there are none. -/
theorem trees_and_values_agree :
    (∀ j : Json, recognize? j = some (ofTree j) ∧
      Stored.ofTree Stored.value j = .ok (ofTree j) ∧ (ofTree j).Ordered) ∧
    (∀ text, Stored.ofText Stored.value text =
      ((Json.ofText text).map ofTree).mapError .fault) ∧
    ∀ v : Value, v.Ordered →
      v.write Writer.tree = v.tree ∧ v.write Writer.compact = v.tree.compact ∧
      ofTree v.tree = v.finitePart ∧ (v.Finite → ofTree v.tree = v) := by
  refine ⟨fun j => ⟨recognize?_eq j, Stored.ofTree_value j, ordered_ofTree j⟩,
    Stored.ofText_value, fun v hordered => ?_⟩
  have hback := ofTree_tree v hordered
  refine ⟨write_tree v hordered, write_compact v, hback, fun hfinite => ?_⟩
  rw [hback, finitePart_eq_self v hfinite]

/-- A measurement of which one reading failed. -/
def measurement : Value :=
  .object [("at", .string "noon"), ("readings", .array [.number 1.5, .number (0.0 / 0.0)])]

/-- The reading that failed is lost on the way, and the other one is kept. -/
theorem measurement_there_and_back :
    measurement.Ordered ∧ measurement.write Writer.tree = measurement.tree ∧
      ofTree measurement.tree =
        .object [("at", .string "noon"), ("readings", .array [.number 1.5, .null])] ∧
      (number 1.5).Ordered ∧ (number 1.5).Finite ∧ ofTree (number 1.5).tree = number 1.5 := by
  obtain ⟨_, _, hvalues⟩ := trees_and_values_agree
  have hordered : measurement.Ordered := ⟨by decide, trivial, ⟨trivial, trivial, trivial⟩, trivial⟩
  have hfinite : (number 1.5).Finite := by
    rw [Finite]
    decide
  obtain ⟨hwritten, _, hback, _⟩ := hvalues measurement hordered
  obtain ⟨_, _, _, hsame⟩ := hvalues (number 1.5) trivial
  refine ⟨hordered, hwritten, ?_, trivial, hfinite, hsame hfinite⟩
  have hreading : (1.5 : Float).isFinite = true := by decide
  have hfailed : (0.0 / 0.0 : Float).isFinite = false := by decide
  rw [hback]
  simp only [measurement, finitePart, finiteMembers, finiteItems, hreading, hfailed, if_true,
    Bool.false_eq_true, if_false]

end Value
end Workflow
