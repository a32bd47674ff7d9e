import Mathlib.Data.List.Nodup
import Mathlib.Data.List.Perm.Subperm
/-!
# Lists

Facts about lists that hold each entry once: positions in such a list, how one comes about, and what
filters take from it.  An entry of a list in two parts stands in one of them, and what is found
first in an ordered list is the least.  A list that is made entry by entry, if nothing goes wrong,
is made of a first entry and the others.
-/
namespace Workflow

universe u

variable {α : Type u} [BEq α] [LawfulBEq α]

theorem nodup_eraseDups (l : List α) : l.eraseDups.Nodup := by
  induction hlength : l.length using Nat.strongRecOn generalizing l with
  | ind n ih =>
      cases l with
      | nil => simp
      | cons a l =>
          rw [List.eraseDups_cons, List.nodup_cons]
          constructor
          · simp
          · have hle := List.length_filter_le (fun b => !b == a) l
            rw [List.length_cons] at hlength
            exact ih _ (by omega) _ rfl

/-- What stands behind an entry has a higher position. -/
theorem idxOf_lt_idxOf_of_split {l before after : List α} {a b : α} (hnodup : l.Nodup)
    (hsplit : l = before ++ a :: after) (hb : b ∈ after) : l.idxOf a < l.idxOf b := by
  subst hsplit
  obtain ⟨_, hsuffix, hdisjoint⟩ := List.nodup_append'.mp hnodup
  have ha : a ∉ before := fun h => hdisjoint h List.mem_cons_self
  have hb' : b ∉ before := fun h => hdisjoint h (List.mem_cons_of_mem a hb)
  have hne : a ≠ b := by
    rintro rfl
    exact (List.nodup_cons.mp hsuffix).1 hb
  rw [List.idxOf_append, if_neg ha, List.idxOf_append, if_neg hb', List.idxOf_cons_self,
    List.idxOf_cons_ne _ hne]
  omega

/-- The positions of the entries rise. -/
theorem pairwise_idxOf {l : List α} (hnodup : l.Nodup) :
    l.Pairwise (fun a b => l.idxOf a < l.idxOf b) := by
  rw [List.pairwise_iff_getElem]
  intro i j hi hj hlt
  rw [hnodup.idxOf_getElem, hnodup.idxOf_getElem]
  exact hlt

/-- An entry of a list in two parts stands in the second part or in the first. -/
theorem split_append {β : Type u} {first second before after : List β} {x : β}
    (h : first ++ second = before ++ x :: after) :
    (∃ middle, before = first ++ middle ∧ second = middle ++ x :: after) ∨
      ∃ middle, first = before ++ x :: middle ∧ after = middle ++ second := by
  rcases List.append_eq_append_iff.mp h with ⟨middle, hbefore, hsecond⟩ | ⟨rest, hfirst, hrest⟩
  · exact Or.inl ⟨middle, hbefore, hsecond⟩
  · cases rest with
    | nil =>
        refine Or.inl ⟨[], ?_, hrest.symm⟩
        rw [List.append_nil, hfirst, List.append_nil]
    | cons y middle =>
        rw [List.cons_append, List.cons.injEq] at hrest
        obtain ⟨rfl, hafter⟩ := hrest
        exact Or.inr ⟨middle, hfirst, hafter⟩

/-- What a search finds first in an ordered list is the least of what it could find. -/
theorem eq_or_rel_of_find? {β : Type u} {r : β → β → Prop} {p : β → Bool} {l : List β} {x y : β}
    (hordered : l.Pairwise r) (hfind : l.find? p = some x) (hy : y ∈ l) (hp : p y = true) :
    y = x ∨ r x y := by
  obtain ⟨_, before, after, rfl, hbefore⟩ := List.find?_eq_some_iff_append.mp hfind
  rcases List.mem_append.mp hy with hy | hy
  · have hnot := hbefore y hy
    rw [hp] at hnot
    cases hnot
  · rcases List.mem_cons.mp hy with rfl | hy
    · exact Or.inl rfl
    · exact Or.inr (List.rel_of_pairwise_cons (List.pairwise_append.mp hordered).2.1 hy)

/-- A list and a part of it look the same to a filter that takes nothing but what is in the part. -/
theorem filter_eq_of_sublist {β : Type u} {part l : List β} {f : β → Bool} (hpart : part.Sublist l)
    (hnodup : l.Nodup) (h : ∀ x ∈ l, f x = true → x ∈ part) : l.filter f = part.filter f := by
  have hsub : l.filter f ⊆ part.filter f := by
    intro x hx
    obtain ⟨hmem, hf⟩ := List.mem_filter.mp hx
    exact List.mem_filter.mpr ⟨h x hmem hf, hf⟩
  have hlength := (List.subperm_of_subset (hnodup.filter f) hsub).length_le
  exact ((hpart.filter f).eq_of_length_le hlength).symm

theorem map_cons_eq_ok_iff {ε β : Type} {b : β} {answer : Except ε (List β)} {l : List β} :
    answer.map (b :: ·) = .ok l ↔ ∃ rest, answer = .ok rest ∧ l = b :: rest := by
  cases answer with
  | error e => exact ⟨nofun, nofun⟩
  | ok rest =>
      constructor
      · intro h
        exact ⟨rest, rfl, (Except.ok.inj h).symm⟩
      · rintro ⟨_, hrest, rfl⟩
        obtain rfl := Except.ok.inj hrest
        rfl

theorem map_cons_eq_error_iff {ε β : Type} {b : β} {answer : Except ε (List β)} {e : ε} :
    answer.map (b :: ·) = .error e ↔ answer = .error e := by
  cases answer with
  | error e' => simp [Except.map]
  | ok rest => exact ⟨nofun, nofun⟩

end Workflow
