import Mathlib.Data.List.Forall2
import Workflow.Proofs.Table
import Workflow.Stored.Reader
/-!
# Reading back what is stored

A reader restores something from a tree when it reads it off the normal form of the tree, given no
more levels of nesting than that has.  What is written as a list, a table or a record is restored if
its parts are; the members of a record are read by increasing key, in whatever order they were
written.  A value is restored if its numbers are ones that JSON can write.
-/
namespace Workflow

/-! ### Normal forms -/

namespace Json

theorem normalItems_eq_map (items : List Json) : normalItems items = items.map normal := by
  induction items with
  | nil => rfl
  | cons j items ih => rw [normalItems, ih, List.map_cons]

theorem normalMembers_eq_map (members : List (String × Json)) :
    normalMembers members = members.map fun e => (e.1, e.2.normal) := by
  induction members with
  | nil => rfl
  | cons e members ih => rw [normalMembers, ih, List.map_cons]

theorem normal_object (members : List (String × Json)) :
    (object members).normal =
      object ((Table.ofList members).entries.map fun e => (e.1, e.2.normal)) := by
  rw [normal, normalMembers_eq_map, Table.ofList_map, Table.entries_map]

theorem normal_ofTable (t : Table Json) :
    (ofTable t).normal = object (t.entries.map fun e => (e.1, e.2.normal)) := by
  rw [ofTable, normal_object, Table.ofList_entries]

/-- Texts have only one form. -/
theorem normal_strings (l : List String) : (strings l).normal = strings l := by
  rw [strings, normal, normalItems_eq_map, List.map_map]
  rfl

end Json

/-! ### Values that can be stored -/

namespace Value

mutual
/-- Every number of the value is finite. -/
def Finite : Value → Prop
  | .number x => x.isFinite = true
  | .array items => FiniteItems items
  | .object members => FiniteMembers members
  | _ => True

def FiniteItems : List Value → Prop
  | [] => True
  | v :: rest => Finite v ∧ FiniteItems rest

def FiniteMembers : List (String × Value) → Prop
  | [] => True
  | (_, v) :: rest => Finite v ∧ FiniteMembers rest
end

mutual
/-- The members of every object stand in increasing key order, as they do in all values that are
read or made of tables. -/
def Ordered : Value → Prop
  | .array items => OrderedItems items
  | .object members => members.Pairwise (fun a b => a.1 < b.1) ∧ OrderedMembers members
  | _ => True

def OrderedItems : List Value → Prop
  | [] => True
  | v :: rest => Ordered v ∧ OrderedItems rest

def OrderedMembers : List (String × Value) → Prop
  | [] => True
  | (_, v) :: rest => Ordered v ∧ OrderedMembers rest
end

theorem orderedMembers_iff {members : List (String × Value)} :
    OrderedMembers members ↔ ∀ e ∈ members, e.2.Ordered := by
  induction members with
  | nil => simp [OrderedMembers]
  | cons e members ih => rw [OrderedMembers, ih, List.forall_mem_cons]

theorem memberTrees_eq_map (members : List (String × Value)) :
    memberTrees members = members.map fun e => (e.1, e.2.tree) := by
  induction members with
  | nil => rfl
  | cons e members ih => rw [memberTrees, ih, List.map_cons]

mutual
theorem ordered_ofTree : ∀ j : Json, (ofTree j).Ordered
  | .null => trivial
  | .bool _ => trivial
  | .number _ => trivial
  | .string _ => trivial
  | .array items => ordered_ofTrees items
  | .object members => by
      refine ⟨(Table.ofList (ofMembers members)).ordered, orderedMembers_iff.mpr ?_⟩
      rintro ⟨key, v⟩ h
      rw [← Table.get?_eq_some_iff, Table.get?_ofList] at h
      exact ordered_ofMembers members _ (List.mem_reverse.mp (Table.lookup_eq_some_mem h))

theorem ordered_ofTrees : ∀ items : List Json, OrderedItems (ofTrees items)
  | [] => trivial
  | j :: rest => ⟨ordered_ofTree j, ordered_ofTrees rest⟩

theorem ordered_ofMembers : ∀ (members : List (String × Json)), ∀ e ∈ ofMembers members,
    e.2.Ordered
  | [], _, h => nomatch h
  | (_, j) :: rest, e, h => by
      rcases List.mem_cons.mp h with rfl | h
      · exact ordered_ofTree j
      · exact ordered_ofMembers rest e h
end

/-- Where the members of an object stand in order, they still do in its normal form. -/
theorem normal_tree_object {members : List (String × Value)}
    (h : members.Pairwise fun a b => a.1 < b.1) :
    (object members).tree.normal = .object (members.map fun e => (e.1, e.2.tree.normal)) := by
  have hwritten : (object members).tree = Json.ofTable (Table.map tree ⟨members, h⟩) :=
    congrArg Json.object (memberTrees_eq_map members)
  rw [hwritten, Json.normal_ofTable, Table.entries_map, List.map_map]
  rfl

end Value

namespace Stored

open Workflow.Json (Doc)

variable {α β : Type}

/-! ### Restoring -/

/-- The reader reads this off the tree, given as many levels of nesting as the tree has. -/
def Restores (r : Reader α) (j : Json) (a : α) : Prop :=
  ∀ depth, j.normal.height ≤ depth → r depth (Doc.ofTree j.normal) = .ok a

theorem Restores.ofTree {r : Reader α} {j : Json} {a : α} (h : Restores r j a) :
    ofTree r j = .ok a :=
  h _ (Nat.le_refl _)

theorem Restores.map {r : Reader α} {j : Json} {a : α} (f : α → β) (h : Restores r j a) :
    Restores (fun depth d => (r depth d).map f) j (f a) := by
  intro depth hdepth
  change (r depth (Doc.ofTree j.normal)).map f = .ok (f a)
  rw [h depth hdepth]
  rfl

theorem restores_text (s : String) : Restores text (.string s) s := fun _ _ => rfl

theorem restores_truth (b : Bool) : Restores truth (.bool b) b := fun _ _ => rfl

theorem restores_whole32 {n : Nat} (h : n < Nat.pow 2 32) : Restores whole32 (Json.nat n) n := by
  intro depth _
  have hrange : (0 : Int) ≤ (n : Int) ∧ (n : Int) ≤ ((Nat.pow 2 32 - 1 : Nat) : Int) := by
    have hpow : Nat.pow 2 32 = 4294967296 := rfl
    omega
  change (if (0 : Int) ≤ (n : Int) ∧ (n : Int) ≤ ((Nat.pow 2 32 - 1 : Nat) : Int) then _ else _) = _
  rw [if_pos hrange, Int.toNat_natCast]

theorem Restores.some {r : Reader α} {j : Json} {a : α} (h : Restores r j a) (hnull : j ≠ .null) :
    Restores (optional r) j (some a) := by
  intro depth hdepth
  have hsome : optional r depth (Doc.ofTree j.normal) =
      (r depth (Doc.ofTree j.normal)).map Option.some := by
    cases j <;> first | contradiction | rfl
  rw [hsome, h depth hdepth]
  rfl

theorem restores_none (r : Reader α) : Restores (optional r) .null none := fun _ _ => rfl

/-! ### Lists and tables -/

theorem items_eq_ok {r : Reader α} {js : List Json} {l : List α}
    (h : List.Forall₂ (Restores r) js l) {depth : Nat}
    (hdepth : Json.heights (js.map Json.normal) ≤ depth) :
    items r depth (Doc.ofTrees (js.map Json.normal)) = .ok l := by
  induction h with
  | nil => rfl
  | cons ha _ ih =>
      obtain ⟨hj, hrest⟩ := Nat.max_le.mp hdepth
      simp only [List.map_cons, Doc.ofTrees, items, ha depth hj, ih hrest, Except.map]

theorem restores_list {r : Reader α} {js : List Json} {l : List α}
    (h : List.Forall₂ (Restores r) js l) : Restores (list r) (.array js) l := by
  intro depth hdepth
  have hnormal : (Json.array js).normal = .array (js.map Json.normal) := by
    rw [Json.normal, Json.normalItems_eq_map]
  rw [hnormal] at hdepth ⊢
  cases depth with
  | zero => exact absurd hdepth (Nat.not_succ_le_zero _)
  | succ depth =>
      simp only [Doc.ofTree, list, items_eq_ok h (Nat.le_of_succ_le_succ hdepth), ended]

/-- A list is restored if each of its items is restored from what was written for it. -/
theorem restores_map {r : Reader α} {write : β → Json} {what : β → α} {l : List β}
    (h : ∀ b ∈ l, Restores r (write b) (what b)) :
    Restores (list r) (.array (l.map write)) (l.map what) :=
  restores_list (List.forall₂_map_left_iff.mpr (List.forall₂_map_right_iff.mpr
    (List.forall₂_same.mpr h)))

theorem restores_items {r : Reader α} {write : α → Json} {l : List α}
    (h : ∀ a ∈ l, Restores r (write a) a) : Restores (list r) (.array (l.map write)) l :=
  restores_list (List.forall₂_map_left_iff.mpr (List.forall₂_same.mpr h))

theorem restores_strings (l : List String) : Restores (list text) (Json.strings l) l :=
  restores_items fun s _ => restores_text s

theorem members_eq_ok {r : Reader α} {write : α → Json} {l : List (String × α)}
    (h : ∀ e ∈ l, Restores r (write e.2) e.2) {depth : Nat}
    (hdepth : Json.memberHeights (l.map fun e => (e.1, (write e.2).normal)) ≤ depth) :
    members r depth (Doc.ofMembers (l.map fun e => (e.1, (write e.2).normal))) = .ok l := by
  induction l with
  | nil => rfl
  | cons e l ih =>
      obtain ⟨he, hl⟩ := List.forall_mem_cons.mp h
      rw [List.map_cons, Json.memberHeights, Nat.max_le] at hdepth
      simp only [List.map_cons, Doc.ofMembers, members, he depth hdepth.1, ih hl hdepth.2,
        Except.map]

theorem restores_table {r : Reader α} {write : α → Json} {t : Table α}
    (h : ∀ e ∈ t.entries, Restores r (write e.2) e.2) :
    Restores (table r) (Json.ofTable (t.map write)) t := by
  intro depth hdepth
  have hnormal : (Json.ofTable (t.map write)).normal =
      .object (t.entries.map fun e => (e.1, (write e.2).normal)) := by
    rw [Json.normal_ofTable, Table.entries_map, List.map_map]
    rfl
  rw [hnormal] at hdepth ⊢
  cases depth with
  | zero => exact absurd hdepth (Nat.not_succ_le_zero _)
  | succ depth =>
      simp only [Doc.ofTree, table, members_eq_ok h (Nat.le_of_succ_le_succ hdepth), ended,
        Table.ofList_entries]

/-! ### Trees and values -/

mutual
theorem tree_ofTree : ∀ (j : Json) {depth : Nat}, j.height ≤ depth →
    (Doc.ofTree j).tree depth = .ok j
  | .null, _, _ => rfl
  | .bool _, _, _ => rfl
  | .number _, _, _ => rfl
  | .string _, _, _ => rfl
  | .array _, 0, hdepth => absurd hdepth (Nat.not_succ_le_zero _)
  | .array items, depth + 1, hdepth => by
      simp only [Doc.ofTree, Doc.tree, trees_ofTrees items (Nat.le_of_succ_le_succ hdepth)]
  | .object _, 0, hdepth => absurd hdepth (Nat.not_succ_le_zero _)
  | .object members, depth + 1, hdepth => by
      simp only [Doc.ofTree, Doc.tree, memberTrees_ofMembers members
        (Nat.le_of_succ_le_succ hdepth)]

theorem trees_ofTrees : ∀ (items : List Json) {depth : Nat}, Json.heights items ≤ depth →
    Doc.trees depth (Doc.ofTrees items) = .ok items
  | [], _, _ => rfl
  | j :: rest, depth, hdepth => by
      obtain ⟨hj, hrest⟩ := Nat.max_le.mp hdepth
      simp only [Doc.ofTrees, Doc.trees, tree_ofTree j hj, trees_ofTrees rest hrest, Except.map]

theorem memberTrees_ofMembers : ∀ (members : List (String × Json)) {depth : Nat},
    Json.memberHeights members ≤ depth →
    Doc.memberTrees depth (Doc.ofMembers members) = .ok members
  | [], _, _ => rfl
  | (_, j) :: rest, depth, hdepth => by
      obtain ⟨hj, hrest⟩ := Nat.max_le.mp hdepth
      simp only [Doc.ofMembers, Doc.memberTrees, tree_ofTree j hj,
        memberTrees_ofMembers rest hrest, Except.map]
end

theorem restores_tree (j : Json) : Restores tree j j.normal := by
  intro depth hdepth
  rw [tree, tree_ofTree j.normal hdepth]
  rfl

theorem restores_trees {t : Table Json} (h : ∀ e ∈ t.entries, e.2.normal = e.2) :
    Restores (table tree) (Json.ofTable t) t := by
  have hsame : t.map (fun j => j) = t := Table.map_eq_self fun _ _ => rfl
  have hread : Restores (table tree) (Json.ofTable (t.map fun j => j)) t := by
    refine restores_table fun e he => ?_
    have hdetail := restores_tree e.2
    rwa [h e he] at hdetail
  rwa [hsame] at hread

mutual
theorem restores_value : ∀ v : Value, v.Finite → v.Ordered → Restores value v.tree v
  | .null, _, _ => fun _ _ => rfl
  | .bool _, _, _ => fun _ _ => rfl
  | .number x, hfinite, _ => by
      intro depth _
      have hwritten : (Value.number x).tree = .number (.real x) := if_pos hfinite
      rw [hwritten]
      rfl
  | .string _, _, _ => fun _ _ => rfl
  | .array items, hfinite, hordered => by
      rintro (_ | depth) hdepth
      · exact absurd hdepth (Nat.not_succ_le_zero _)
      · have hitems := values_eq_ok items hfinite hordered (Nat.le_of_succ_le_succ hdepth)
        simp only [Value.tree, Json.normal, Doc.ofTree, value, hitems, ended]
  | .object members, hfinite, ⟨hkeys, hordered⟩ => by
      rintro (_ | depth) hdepth
      · exact absurd hdepth (Nat.not_succ_le_zero _)
      · rw [Value.normal_tree_object hkeys] at hdepth ⊢
        have hmembers := memberValues_eq_ok members hfinite hordered
          (Nat.le_of_succ_le_succ hdepth)
        simp only [Doc.ofTree, value, hmembers, ended, Table.entries_ofList hkeys]

theorem values_eq_ok : ∀ l : List Value, Value.FiniteItems l → Value.OrderedItems l →
    ∀ {depth : Nat}, Json.heights (Json.normalItems (Value.trees l)) ≤ depth →
      values depth (Doc.ofTrees (Json.normalItems (Value.trees l))) = .ok l
  | [], _, _, _, _ => rfl
  | v :: rest, ⟨hv, hfinite⟩, ⟨hv', hordered⟩, depth, hdepth => by
      obtain ⟨hdepth, hdepth'⟩ := Nat.max_le.mp hdepth
      simp only [Value.trees, Json.normalItems, Doc.ofTrees, values,
        restores_value v hv hv' depth hdepth, values_eq_ok rest hfinite hordered hdepth',
        Except.map]

theorem memberValues_eq_ok : ∀ l : List (String × Value), Value.FiniteMembers l →
    Value.OrderedMembers l → ∀ {depth : Nat},
    Json.memberHeights (l.map fun e => (e.1, e.2.tree.normal)) ≤ depth →
      memberValues depth (Doc.ofMembers (l.map fun e => (e.1, e.2.tree.normal))) = .ok l
  | [], _, _, _, _ => rfl
  | (_, v) :: rest, ⟨hv, hfinite⟩, ⟨hv', hordered⟩, depth, hdepth => by
      obtain ⟨hdepth, hdepth'⟩ := Nat.max_le.mp hdepth
      simp only [List.map_cons, Doc.ofMembers, memberValues, restores_value v hv hv' depth hdepth,
        memberValues_eq_ok rest hfinite hordered hdepth', Except.map]
end

theorem restores_fields {f : Fields} (h : ∀ e ∈ f.entries, e.2.Finite ∧ e.2.Ordered) :
    Restores fields (Fields.tree f) f :=
  restores_table fun e he => restores_value e.2 (h e he).1 (h e he).2

/-! ### Records -/

theorem restores_required {key : String} {r : Reader β} {set : β → α → α} {j : Json} {b : β}
    (h : Restores r j b) : Restores (required key r set).read j (set b) :=
  h.map set

theorem restores_defaulted {key : String} {r : Reader β} {set : β → α → α} {j : Json} {b : β}
    (h : Restores r j b) : Restores (defaulted key r set).read j (set b) :=
  h.map set

theorem restores_nullable {key : String} {r : Reader β} {set : Option β → α → α} {j : Json}
    {b : Option β} (h : Restores (optional r) j b) :
    Restores (nullable key r set).read j (set b) :=
  h.map set

/-- Reading the members one after the other, none of them read before, makes the one record the
other. -/
inductive Fills (ms : List (Member α)) : List String → List (String × Json) → α → α → Prop
  | done {seen : List String} {a : α} : Fills ms seen [] a a
  | next {seen : List String} {key : String} {j : Json} {rest : List (String × Json)} {m : Member α}
      {set : α → α} {a b : α} (found : ms.find? (fun m => m.key == key) = some m)
      (new : seen.contains key = false) (read : Restores m.read j set)
      (further : Fills ms (key :: seen) rest (set a) b) : Fills ms seen ((key, j) :: rest) a b

theorem Fills.recordMembers_eq_ok {ms : List (Member α)} {seen : List String}
    {l : List (String × Json)} {a b : α} (h : Fills ms seen l a b) {depth : Nat}
    (hdepth : Json.memberHeights (l.map fun e => (e.1, e.2.normal)) ≤ depth) :
    recordMembers ms depth seen a (Doc.ofMembers (l.map fun e => (e.1, e.2.normal))) =
      .ok ((l.map Prod.fst).reverse ++ seen, b) := by
  induction h with
  | done => rfl
  | next found new read _ ih =>
      obtain ⟨hj, hrest⟩ := Nat.max_le.mp hdepth
      simp only [List.map_cons, Doc.ofMembers, recordMembers, found, new, Bool.false_eq_true,
        if_false, read depth hj, ih hrest, List.reverse_cons, List.append_assoc,
        List.singleton_append]

/-- A record is restored if its members are, and all that must be there are. -/
theorem restores_record {name : String} {ms : List (Member α)} {start a : α}
    {written sorted : List (String × Json)} (hsorted : (Table.ofList written).entries = sorted)
    (hfills : Fills ms [] sorted start a)
    (hall : ms.find? (fun m =>
      m.absence == .never && !(sorted.map Prod.fst).contains m.key) = none) :
    Restores (record name ms start) (.object written) a := by
  intro depth hdepth
  have hnormal : (Json.object written).normal =
      .object (sorted.map fun e => (e.1, e.2.normal)) := by
    rw [Json.normal_object, hsorted]
  rw [hnormal] at hdepth ⊢
  cases depth with
  | zero => exact absurd hdepth (Nat.not_succ_le_zero _)
  | succ depth =>
      have hseen : ms.find? (fun m => m.absence == .never &&
          !((sorted.map Prod.fst).reverse ++ []).contains m.key) = none := by
        simpa using hall
      simp only [Doc.ofTree, record, hfills.recordMembers_eq_ok (Nat.le_of_succ_le_succ hdepth),
        hseen]

end Stored
end Workflow
