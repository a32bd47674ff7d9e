/-!
# Tables keyed by text

A `Table` is a finite map from text to values.  Its entries are kept in strictly increasing key
order, so two tables with the same look-ups are the same table, and every listing of one comes out
in one order.
-/
namespace Workflow

/-- A finite map from text to `α`, listed by increasing key. -/
structure Table (α : Type u) where
  entries : List (String × α)
  ordered : entries.Pairwise (fun a b => a.1 < b.1)

namespace Table

variable {α : Type u} {β : Type v}

def empty : Table α := ⟨[], List.Pairwise.nil⟩

instance : EmptyCollection (Table α) := ⟨empty⟩
instance : Inhabited (Table α) := ⟨empty⟩
instance [BEq α] : BEq (Table α) := ⟨fun s t => s.entries == t.entries⟩

/-- Puts a value under a key into a list of entries by increasing key, in place of an older one. -/
def insertEntry (key : String) (value : α) : List (String × α) → List (String × α)
  | [] => [(key, value)]
  | (k, v) :: rest =>
    if key < k then (key, value) :: (k, v) :: rest
    else if key = k then (key, value) :: rest
    else (k, v) :: insertEntry key value rest

theorem key_of_mem_insertEntry {key : String} {value : α} {l : List (String × α)}
    {e : String × α} (h : e ∈ insertEntry key value l) : e.1 = key ∨ e ∈ l := by
  induction l with
  | nil => simp [insertEntry] at h; simp [h]
  | cons head rest ih =>
      obtain ⟨k, v⟩ := head
      simp only [insertEntry] at h
      split at h
      · rcases List.mem_cons.mp h with rfl | h
        · exact .inl rfl
        · exact .inr h
      · split at h
        · rcases List.mem_cons.mp h with rfl | h
          · exact .inl rfl
          · exact .inr (List.mem_cons_of_mem _ h)
        · rcases List.mem_cons.mp h with rfl | h
          · exact .inr (by simp)
          · exact (ih h).imp id (List.mem_cons_of_mem _)

/-- A key that neither precedes nor equals another one follows it. -/
theorem lt_of_not_lt_of_ne {a b : String} (h : ¬ a < b) (hne : a ≠ b) : b < a := by
  have hle : b ≤ a := String.not_lt.mp h
  rcases Decidable.em (b < a) with hlt | hlt
  · exact hlt
  · exact absurd (String.le_antisymm (String.not_lt.mp hlt) hle) hne

theorem pairwise_insertEntry (key : String) (value : α) {l : List (String × α)}
    (h : l.Pairwise (fun a b => a.1 < b.1)) :
    (insertEntry key value l).Pairwise (fun a b => a.1 < b.1) := by
  induction l with
  | nil => simp [insertEntry]
  | cons head rest ih =>
      obtain ⟨k, v⟩ := head
      obtain ⟨hk, hrest⟩ := List.pairwise_cons.mp h
      simp only [insertEntry]
      split
      · rename_i hlt
        refine List.pairwise_cons.mpr ⟨fun e he => ?_, h⟩
        rcases List.mem_cons.mp he with rfl | he
        · exact hlt
        · exact String.lt_trans hlt (hk e he)
      · rename_i hnlt
        split
        · rename_i heq
          exact List.pairwise_cons.mpr ⟨fun e he => heq ▸ hk e he, hrest⟩
        · rename_i hne
          refine List.pairwise_cons.mpr ⟨fun e he => ?_, ih hrest⟩
          rcases key_of_mem_insertEntry he with hkey | hmem
          · exact hkey.symm ▸ lt_of_not_lt_of_ne hnlt hne
          · exact hk e hmem

/-- Puts a value under a key; an older value under it is replaced. -/
def insert (t : Table α) (key : String) (value : α) : Table α :=
  ⟨insertEntry key value t.entries, pairwise_insertEntry key value t.ordered⟩

/-- The table of a list of entries; of several values under one key the last is kept. -/
def ofList (l : List (String × α)) : Table α :=
  l.foldl (fun t e => t.insert e.1 e.2) empty

/-- The entries by increasing key. -/
def toList (t : Table α) : List (String × α) := t.entries

def get? (t : Table α) (key : String) : Option α := t.entries.lookup key

def contains (t : Table α) (key : String) : Bool := (t.get? key).isSome

/-- The keys in increasing order. -/
def keys (t : Table α) : List String := t.entries.map Prod.fst

/-- The values in the order of their keys. -/
def values (t : Table α) : List α := t.entries.map Prod.snd

def size (t : Table α) : Nat := t.entries.length

def isEmpty (t : Table α) : Bool := t.entries.isEmpty

/-- The same keys with their values changed. -/
def map (f : α → β) (t : Table α) : Table β where
  entries := t.entries.map (fun e => (e.1, f e.2))
  ordered := List.pairwise_map.mpr t.ordered

theorem lookup_cons_eq (k : String) (e : String × α) (l : List (String × α)) :
    (e :: l).lookup k = if k = e.1 then some e.2 else l.lookup k := by
  rw [List.lookup_cons]
  by_cases h : k = e.1
  · simp [h]
  · rw [if_neg h, beq_eq_false_iff_ne.2 h]

theorem lookup_insertEntry (key : String) (value : α) (l : List (String × α)) (k : String) :
    (insertEntry key value l).lookup k = if k = key then some value else l.lookup k := by
  induction l with
  | nil => rw [insertEntry, lookup_cons_eq]
  | cons head rest ih =>
      obtain ⟨k', v'⟩ := head
      simp only [insertEntry]
      split
      · rw [lookup_cons_eq]
      · split
        · rename_i heq
          subst heq
          rw [lookup_cons_eq, lookup_cons_eq]
          by_cases h : k = key <;> simp only [h, if_true, if_false]
        · rename_i hne
          rw [lookup_cons_eq, lookup_cons_eq, ih]
          by_cases hk : k = k'
          · subst hk
            rw [if_pos rfl, if_neg (fun h => hne h.symm), if_pos rfl]
          · rw [if_neg hk, if_neg hk]

/-- A value put under a key is found under it, and every other key keeps what it had. -/
@[simp] theorem get?_insert (t : Table α) (key : String) (value : α) (k : String) :
    (t.insert key value).get? k = if k = key then some value else t.get? k :=
  lookup_insertEntry key value t.entries k

@[simp] theorem get?_empty (k : String) : (empty : Table α).get? k = none := rfl

end Table

end Workflow
