import Mathlib.Data.List.Induction
import Mathlib.Data.List.Nodup
import Workflow.Table
/-!
# Look-ups in tables

Two tables with the same look-ups are the same table, and the look-ups of a table that is made from
a list are those of the list, the last entry of a key counting.  So a table is made again of its own
entries.
-/
namespace Workflow
namespace Table

universe u v

variable {α : Type u} {β : Type v}

theorem ofList_append_singleton (l : List (String × α)) (e : String × α) :
    ofList (l ++ [e]) = (ofList l).insert e.1 e.2 := by
  simp only [ofList, List.foldl_append, List.foldl_cons, List.foldl_nil]

theorem get?_ofList (l : List (String × α)) (key : String) :
    (ofList l).get? key = l.reverse.lookup key := by
  induction l using List.reverseRecOn with
  | nil => rfl
  | append_singleton l e ih =>
      rw [ofList_append_singleton, get?_insert, List.reverse_append, List.reverse_singleton,
        List.singleton_append, lookup_cons_eq, ih]

/-- A table of a function is found to hold the function at the listed keys. -/
theorem get?_ofList_map (keys : List String) (f : String → α) (key : String) :
    (ofList (keys.map fun k => (k, f k))).get? key = if key ∈ keys then some (f key) else none := by
  have hmem : key ∈ keys ↔ key ∈ keys.reverse := List.mem_reverse.symm
  rw [get?_ofList, ← List.map_reverse]
  simp only [hmem]
  clear hmem
  induction keys.reverse with
  | nil => rfl
  | cons k keys ih =>
      rw [List.map_cons, lookup_cons_eq, ih]
      by_cases hkey : key = k
      · simp [hkey]
      · simp [hkey]

theorem lookup_eq_some_mem {l : List (String × α)} {key : String} {value : α}
    (h : l.lookup key = some value) : (key, value) ∈ l := by
  induction l with
  | nil => cases h
  | cons e l ih =>
      rw [lookup_cons_eq] at h
      by_cases hkey : key = e.1
      · rw [if_pos hkey] at h
        obtain rfl := Option.some.inj h
        rw [hkey]
        exact List.mem_cons_self
      · rw [if_neg hkey] at h
        exact List.mem_cons_of_mem e (ih h)

/-- In a list with one entry for each key, every entry is found. -/
theorem lookup_of_mem {l : List (String × α)} (hkeys : (l.map Prod.fst).Nodup) {key : String}
    {value : α} (h : (key, value) ∈ l) : l.lookup key = some value := by
  induction l with
  | nil => cases h
  | cons e l ih =>
      obtain ⟨hnew, hkeys⟩ := List.nodup_cons.mp hkeys
      rw [lookup_cons_eq]
      rcases List.mem_cons.mp h with rfl | h
      · exact if_pos rfl
      · have hne : key ≠ e.1 := by
          rintro rfl
          exact hnew (List.mem_map.mpr ⟨_, h, rfl⟩)
        rw [if_neg hne]
        exact ih hkeys h

/-- If entries with one key have one value, the table of a list holds just these entries. -/
theorem get?_ofList_eq_some_iff {l : List (String × α)}
    (hsame : ∀ key value value', (key, value) ∈ l → (key, value') ∈ l → value = value')
    {key : String} {value : α} : (ofList l).get? key = some value ↔ (key, value) ∈ l := by
  rw [get?_ofList]
  constructor
  · intro h
    exact List.mem_reverse.mp (lookup_eq_some_mem h)
  · intro h
    cases hfound : l.reverse.lookup key with
    | none =>
        have hother := List.lookup_eq_none_iff.mp hfound (key, value) (List.mem_reverse.mpr h)
        simp at hother
    | some value' =>
        have hmem := List.mem_reverse.mp (lookup_eq_some_mem hfound)
        rw [hsame key value' value hmem h]

theorem keys_nodup (t : Table α) : t.keys.Nodup := by
  have hlt : (t.entries.map Prod.fst).Pairwise (· < ·) := List.pairwise_map.mpr t.ordered
  exact hlt.imp fun h => by
    rintro rfl
    exact String.lt_irrefl _ h

theorem get?_eq_some_iff {t : Table α} {key : String} {value : α} :
    t.get? key = some value ↔ (key, value) ∈ t.entries :=
  ⟨lookup_eq_some_mem, lookup_of_mem t.keys_nodup⟩

theorem mem_keys_iff {t : Table α} {key : String} :
    key ∈ t.keys ↔ ∃ value, t.get? key = some value := by
  simp only [keys, List.mem_map, get?_eq_some_iff, Prod.exists, exists_and_right, exists_eq_right]

/-- A table is determined by its look-ups. -/
theorem ext_get? {s t : Table α} (h : ∀ key, s.get? key = t.get? key) : s = t := by
  have hperm : s.entries.Perm t.entries := by
    apply (List.perm_ext_iff_of_nodup (List.Nodup.of_map _ s.keys_nodup)
      (List.Nodup.of_map _ t.keys_nodup)).mpr
    rintro ⟨key, value⟩
    rw [← get?_eq_some_iff, ← get?_eq_some_iff, h]
  have hentries : s.entries = t.entries := by
    apply hperm.eq_of_pairwise _ s.ordered t.ordered
    intro a b _ _ hab hba
    exact absurd (String.lt_trans hab hba) (String.lt_irrefl _)
  obtain ⟨entries, hs⟩ := s
  obtain ⟨entries', ht⟩ := t
  obtain rfl : entries = entries' := hentries
  rfl

theorem ofList_entries (t : Table α) : ofList t.entries = t := by
  have hsame : ∀ key value value', (key, value) ∈ t.entries → (key, value') ∈ t.entries →
      value = value' := by
    intro key value value' h h'
    rw [← get?_eq_some_iff] at h h'
    exact Option.some.inj (h.symm.trans h')
  refine ext_get? fun key => Option.ext fun value => ?_
  rw [get?_ofList_eq_some_iff hsame, get?_eq_some_iff]

/-- Entries that stand in order are all that their table holds. -/
theorem entries_ofList {l : List (String × α)} (h : l.Pairwise fun a b => a.1 < b.1) :
    (ofList l).entries = l :=
  congrArg entries (ofList_entries ⟨l, h⟩)

/-! ### Changing the values -/

theorem entries_map (f : α → β) (t : Table α) :
    (t.map f).entries = t.entries.map fun e => (e.1, f e.2) := rfl

theorem get?_map (f : α → β) (t : Table α) (key : String) :
    (t.map f).get? key = (t.get? key).map f := by
  obtain ⟨entries, _⟩ := t
  dsimp only [get?, map]
  clear * -
  induction entries with
  | nil => rfl
  | cons e entries ih =>
      rw [List.map_cons, lookup_cons_eq, lookup_cons_eq, ih]
      split <;> rfl

theorem insert_map (f : α → β) (t : Table α) (key : String) (value : α) :
    (t.map f).insert key (f value) = (t.insert key value).map f := by
  refine ext_get? fun k => ?_
  rw [get?_insert, get?_map, get?_map, get?_insert]
  split <;> rfl

/-- The values of a table may as well be changed before the table is made. -/
theorem ofList_map (f : α → β) (l : List (String × α)) :
    ofList (l.map fun e => (e.1, f e.2)) = (ofList l).map f := by
  induction l using List.reverseRecOn with
  | nil => rfl
  | append_singleton l e ih =>
      rw [List.map_append, List.map_singleton, ofList_append_singleton, ih,
        ofList_append_singleton, insert_map]

theorem map_eq_self {f : α → α} {t : Table α} (h : ∀ e ∈ t.entries, f e.2 = e.2) :
    t.map f = t := by
  have hentries : t.entries.map (fun e => (e.1, f e.2)) = t.entries.map id :=
    List.map_congr_left fun e he => Prod.ext rfl (h e he)
  obtain ⟨entries, _⟩ := t
  rw [List.map_id] at hentries
  simp only [map, hentries]

end Table
end Workflow
