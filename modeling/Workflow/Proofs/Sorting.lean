import Mathlib.Data.List.Nodup
import Mathlib.Data.List.Perm.Subperm
/-!
# Sorting and first occurrences

A stable sort keeps entries with the same key in order, so a list made of parts with one key each is
sorted by sorting the parts.  Of entries that are alike the first may be kept; what is kept of a
list made of parts is kept of the parts, if different parts have nothing in common.
-/
namespace Workflow

universe u v w

variable {α : Type u} {β : Type v} {γ : Type w}

/-! ### Stable sorting -/

section Stable

variable {key : β → Nat} {l l' : List β}

theorem mem_iff_of_filter
    (hfilter : ∀ k, l.filter (fun a => key a = k) = l'.filter (fun a => key a = k)) {a : β} :
    a ∈ l ↔ a ∈ l' := by
  have hsame : a ∈ l.filter (fun b => key b = key a) ↔ a ∈ l'.filter (fun b => key b = key a) := by
    rw [hfilter]
  simpa using hsame

/-- A sorted list is determined by what it holds under each key. -/
theorem eq_of_pairwise_of_filter (hl : l.Pairwise (fun a b => key a ≤ key b))
    (hl' : l'.Pairwise (fun a b => key a ≤ key b))
    (hfilter : ∀ k, l.filter (fun a => key a = k) = l'.filter (fun a => key a = k)) : l = l' := by
  induction l generalizing l' with
  | nil =>
      cases l' with
      | nil => rfl
      | cons b l' =>
          exact absurd ((mem_iff_of_filter hfilter).mpr List.mem_cons_self) List.not_mem_nil
  | cons a l ih =>
      cases l' with
      | nil => exact absurd ((mem_iff_of_filter hfilter).mp List.mem_cons_self) List.not_mem_nil
      | cons b l' =>
          obtain ⟨hfirst, hrest⟩ := List.pairwise_cons.mp hl
          obtain ⟨hfirst', hrest'⟩ := List.pairwise_cons.mp hl'
          have hkey : key a = key b := by
            apply Nat.le_antisymm
            · rcases List.mem_cons.mp ((mem_iff_of_filter hfilter).mpr List.mem_cons_self) with
                rfl | hb
              · exact Nat.le_refl _
              · exact hfirst b hb
            · rcases List.mem_cons.mp ((mem_iff_of_filter hfilter).mp List.mem_cons_self) with
                rfl | ha
              · exact Nat.le_refl _
              · exact hfirst' a ha
          have hheads := hfilter (key a)
          rw [List.filter_cons_of_pos (by simp), List.filter_cons_of_pos (by simp [hkey])] at hheads
          obtain ⟨rfl, _⟩ := List.cons.inj hheads
          have htails : ∀ k, l.filter (fun a => key a = k) = l'.filter (fun a => key a = k) := by
            intro k
            have hboth := hfilter k
            by_cases hk : key a = k
            · simpa [hk] using hboth
            · simpa [hk] using hboth
          rw [ih hrest hrest' htails]

theorem pairwise_sort (key : β → Nat) (l : List β) :
    (l.mergeSort (fun a b => key a ≤ key b)).Pairwise (fun a b => key a ≤ key b) := by
  have hsorted : (l.mergeSort (fun a b => key a ≤ key b)).Pairwise
      (fun a b => decide (key a ≤ key b) = true) := by
    apply List.pairwise_mergeSort
    · intro a b c hab hbc
      simp only [decide_eq_true_eq] at hab hbc ⊢
      exact Nat.le_trans hab hbc
    · intro a b
      simpa using Nat.le_total (key a) (key b)
  simpa using hsorted

/-- A stable sort keeps the entries under each key as they are. -/
theorem filter_sort (key : β → Nat) (l : List β) (k : Nat) :
    (l.mergeSort (fun a b => key a ≤ key b)).filter (fun a => key a = k) =
      l.filter (fun a => key a = k) := by
  have hpart :
      (l.filter (fun a => key a = k)).Sublist (l.mergeSort (fun a b => key a ≤ key b)) := by
    apply List.sublist_mergeSort
    · intro a b c hab hbc
      simp only [decide_eq_true_eq] at hab hbc ⊢
      exact Nat.le_trans hab hbc
    · intro a b
      simpa using Nat.le_total (key a) (key b)
    · apply List.pairwise_of_forall_mem_list
      intro a ha b hb
      simp only [List.mem_filter, decide_eq_true_eq] at ha hb
      simp [ha.2, hb.2]
    · exact List.filter_sublist
  have hsub : (l.filter (fun a => key a = k)).Sublist
      ((l.mergeSort (fun a b => key a ≤ key b)).filter (fun a => key a = k)) := by
    simpa using hpart.filter (fun a => key a = k)
  have hperm := (List.mergeSort_perm l (fun a b => key a ≤ key b)).filter (fun a => key a = k)
  exact (hsub.eq_of_length hperm.length_eq.symm).symm

section Parts

variable {rank : α → Nat} {f : α → List β}

/-- The entries under a key are those of the parts with this key. -/
theorem filter_flatMap_key (hkey : ∀ a, ∀ b ∈ f a, key b = rank a) (l : List α) (k : Nat) :
    (l.flatMap f).filter (fun b => key b = k) = (l.filter (fun a => rank a = k)).flatMap f := by
  induction l with
  | nil => rfl
  | cons a l ih =>
      rw [List.flatMap_cons, List.filter_append, ih]
      by_cases ha : rank a = k
      · have hall : (f a).filter (fun b => key b = k) = f a := by
          rw [List.filter_eq_self]
          intro b hb
          simp [hkey a b hb, ha]
        rw [hall, List.filter_cons_of_pos (by simp [ha]), List.flatMap_cons]
      · have hnone : (f a).filter (fun b => key b = k) = [] := by
          rw [List.filter_eq_nil_iff]
          intro b hb
          simp [hkey a b hb, ha]
        rw [hnone, List.filter_cons_of_neg (by simp [ha]), List.nil_append]

/-- If ranks differ, a rank has at most one entry, so the order does not matter to it. -/
theorem filter_rank_of_perm {l sorted : List α} (hperm : l.Perm sorted)
    (hsorted : sorted.Pairwise (fun a b => rank a < rank b)) (k : Nat) :
    l.filter (fun a => rank a = k) = sorted.filter (fun a => rank a = k) := by
  have hsame := hperm.filter (fun a => rank a = k)
  have hone : (sorted.filter (fun a => rank a = k)).Pairwise (fun _ _ => False) := by
    refine (hsorted.filter _).imp_of_mem ?_
    intro a b ha hb hlt
    simp only [List.mem_filter, decide_eq_true_eq] at ha hb
    omega
  cases hcase : sorted.filter (fun a => rank a = k) with
  | nil =>
      rw [hcase] at hsame
      exact hsame.eq_nil
  | cons a rest =>
      rw [hcase] at hsame hone
      cases rest with
      | nil => exact List.perm_singleton.mp hsame
      | cons b rest => exact absurd ((List.pairwise_cons.mp hone).1 b List.mem_cons_self) id

/-- A list made of parts, each with a key of its own, is sorted by sorting the parts. -/
theorem sort_flatMap {parts sorted : List α} (hkey : ∀ a, ∀ b ∈ f a, key b = rank a)
    (hperm : parts.Perm sorted) (hsorted : sorted.Pairwise (fun a b => rank a < rank b)) :
    (parts.flatMap f).mergeSort (fun a b => key a ≤ key b) = sorted.flatMap f := by
  apply eq_of_pairwise_of_filter (pairwise_sort key _)
  · rw [List.pairwise_flatMap]
    constructor
    · intro a _
      apply List.pairwise_of_forall_mem_list
      intro b hb c hc
      exact Nat.le_of_eq ((hkey a b hb).trans (hkey a c hc).symm)
    · apply hsorted.imp
      intro a a' hlt b hb c hc
      rw [hkey a b hb, hkey a' c hc]
      exact Nat.le_of_lt hlt
  · intro k
    rw [filter_sort, filter_flatMap_key hkey, filter_flatMap_key hkey,
      filter_rank_of_perm hperm hsorted]

end Parts

end Stable

/-! ### First occurrences -/

section First

/-- Dropping repetitions goes on with what a filter leaves of the rest of the list, so this is what
the induction is on. -/
theorem filter_induction {motive : List α → Prop} (hnil : motive [])
    (hcons : ∀ a l, (∀ p : α → Bool, motive (l.filter p)) → motive (a :: l)) (l : List α) :
    motive l := by
  induction hlength : l.length using Nat.strongRecOn generalizing l with
  | ind n ih =>
      cases l with
      | nil => exact hnil
      | cons a l =>
          apply hcons
          intro p
          have hle := List.length_filter_le p l
          rw [List.length_cons] at hlength
          exact ih _ (by omega) _ rfl

/-- What is left of the parts of a list when some are left out. -/
theorem flatMap_filter (l : List α) (p : α → Bool) (f : α → List β) :
    (l.filter p).flatMap f = l.flatMap (fun a => if p a then f a else []) := by
  induction l with
  | nil => rfl
  | cons a l ih =>
      by_cases ha : p a = true
      · rw [List.filter_cons_of_pos ha, List.flatMap_cons, List.flatMap_cons, if_pos ha, ih]
      · rw [List.filter_cons_of_neg ha, List.flatMap_cons, if_neg ha, ih, List.nil_append]

variable [BEq γ] [LawfulBEq γ] {key : α → γ} {l : List α}

/-- A list without repetitions is left as it is. -/
theorem eraseDups_of_nodup {l : List γ} (h : l.Nodup) : l.eraseDups = l := by
  induction l with
  | nil => rfl
  | cons a l ih =>
      obtain ⟨hnew, hl⟩ := List.nodup_cons.mp h
      have hothers : l.filter (fun b => !b == a) = l := by
        rw [List.filter_eq_self]
        intro b hb
        have hne : b ≠ a := fun hsame => hnew (hsame ▸ hb)
        simp [hne]
      rw [List.eraseDups_cons, hothers, ih hl]

/-- Of the parts of a list the first of each key is kept, if parts of one key have the same entries
and parts of different keys have none in common. -/
theorem eraseDups_flatMap [BEq β] [LawfulBEq β] {f : α → List β} {kept : γ → List β}
    (hkept : ∀ a ∈ l, (f a).eraseDups = kept (key a))
    (hdisjoint : ∀ c c', c ≠ c' → (kept c).Disjoint (kept c')) :
    (l.flatMap f).eraseDups = (l.map key).eraseDups.flatMap kept := by
  induction l using filter_induction with
  | hnil => rfl
  | hcons a l ih =>
      obtain ⟨ha, hl⟩ := List.forall_mem_cons.mp hkept
      have hmem : ∀ b ∈ a :: l, ∀ x, x ∈ f b ↔ x ∈ kept (key b) := by
        intro b hb x
        rw [← hkept b hb, List.mem_eraseDups]
      have hothers : (l.flatMap f).removeAll (f a) =
          (l.filter (fun b => !key b == key a)).flatMap f := by
        rw [List.removeAll, List.filter_flatMap, flatMap_filter]
        apply List.flatMap_congr
        intro b hb
        have hb' : b ∈ a :: l := List.mem_cons_of_mem a hb
        by_cases hkey : key b = key a
        · rw [if_neg (by simp [hkey]), List.filter_eq_nil_iff]
          intro x hx
          rw [hmem b hb', hkey, ← hmem a List.mem_cons_self] at hx
          simp [hx]
        · rw [if_pos (by simp [hkey]), List.filter_eq_self]
          intro x hx
          have hnot : x ∉ f a := fun hxa => hdisjoint _ _ hkey ((hmem b hb' x).mp hx)
            ((hmem a List.mem_cons_self x).mp hxa)
          simp [hnot]
      rw [List.flatMap_cons, List.eraseDups_append, ha, hothers, List.map_cons,
        List.eraseDups_cons, List.flatMap_cons, List.filter_map,
        ih _ fun b hb => hl b (List.mem_of_mem_filter hb)]
      rfl

theorem eraseDupsBy_key_cons (a : α) (l : List α) :
    (a :: l).eraseDupsBy (fun a b => key a == key b) =
      a :: (l.filter (fun b => !key b == key a)).eraseDupsBy (fun a b => key a == key b) := by
  rw [List.eraseDupsBy_cons]
  congr 3
  funext b
  by_cases h : key b = key a <;> simp [h]

/-- Keeping the first entry of each key keeps each key once. -/
theorem map_eraseDupsBy (key : α → γ) (l : List α) :
    (l.eraseDupsBy (fun a b => key a == key b)).map key = (l.map key).eraseDups := by
  induction l using filter_induction with
  | hnil => rfl
  | hcons a l ih =>
      rw [eraseDupsBy_key_cons, List.map_cons, List.map_cons, List.eraseDups_cons, List.filter_map,
        ih]
      rfl

theorem eraseDupsBy_sublist (key : α → γ) (l : List α) :
    (l.eraseDupsBy (fun a b => key a == key b)).Sublist l := by
  induction l using filter_induction with
  | hnil => exact List.Sublist.refl _
  | hcons a l ih =>
      rw [eraseDupsBy_key_cons]
      exact ((ih _).trans List.filter_sublist).cons_cons a

/-- The other entries of its key come after an entry that is kept. -/
theorem sublist_of_mem_eraseDupsBy {a b : α}
    (ha : a ∈ l.eraseDupsBy (fun a b => key a == key b)) (hb : b ∈ l) (hkey : key b = key a) :
    b = a ∨ [a, b].Sublist l := by
  induction l using filter_induction with
  | hnil => cases ha
  | hcons c l ih =>
      rw [eraseDupsBy_key_cons] at ha
      rcases List.mem_cons.mp ha with rfl | ha
      · rcases List.mem_cons.mp hb with rfl | hb
        · exact Or.inl rfl
        · exact Or.inr ((List.singleton_sublist.mpr hb).cons_cons a)
      · have hne : key a ≠ key c := by
          simpa using List.of_mem_filter ((eraseDupsBy_sublist key _).subset ha)
        have hb' : b ∈ l := by
          rcases List.mem_cons.mp hb with rfl | hb
          · exact absurd hkey.symm hne
          · exact hb
        rcases ih _ ha (List.mem_filter.mpr ⟨hb', by simpa [hkey] using hne⟩) with hsame | hlater
        · exact Or.inl hsame
        · exact Or.inr ((hlater.trans List.filter_sublist).cons c)

end First

end Workflow
