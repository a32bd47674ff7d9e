import Workflow.Graph.Frames
import Workflow.Proofs.Graph.Circuits
/-!
# Searching with frames

The search that goes on step by step comes to an end, and it finds the circuits that the recursion
finds.  All the way its path, the edges taken and the frames fit together.  It explores edge
sequences in lexicographic order: what its frames have behind them is explored, and what they have
ahead of them comes after everything explored so far.  So it explores none twice.
-/
namespace Workflow

variable {d : Definition} {scope component : List NodeId} {start : NodeId}

/-! ### Frames -/

namespace Frame

variable {f : Frame} {e e' : Nat × NodeId}

theorem mem_departures_of_last? (h : f.last? = some e) : e ∈ f.departures := by
  unfold last? at h
  split at h
  · cases h
  · exact List.mem_of_getElem? h

/-- The edge looked at last stands before all that are still to be looked at. -/
theorem lt_of_mem_rest (hordered : f.departures.Pairwise fun a b => a.1 < b.1)
    (hlast : f.last? = some e) (he' : e' ∈ f.rest) : e.1 < e'.1 := by
  unfold last? at hlast
  split at hlast
  · cases hlast
  · rename_i k hcursor
    obtain ⟨hlt, rfl⟩ := List.getElem?_eq_some_iff.mp hlast
    have hfrom : (f.departures.drop k).Pairwise fun a b => a.1 < b.1 := hordered.drop
    rw [List.drop_eq_getElem_cons hlt] at hfrom
    rw [rest, hcursor] at he'
    exact List.rel_of_pairwise_cons hfrom he'

end Frame

namespace Search

/-! ### What a step does -/

/-- What a step of the search can be. -/
inductive Takes (d : Definition) (scope : List NodeId) (start : NodeId) (s : Search) :
    Search → Prop where
  | done (hframes : s.frames = []) : Takes d scope start s s
  | back {frame : Frame} {rest : List Frame} (hframes : s.frames = frame :: rest)
      (hnext : frame.next? = none) :
      Takes d scope start s ⟨s.path.tail, s.taken.tail, rest, s.found⟩
  | close {frame : Frame} {rest : List Frame} {position : Nat} (hframes : s.frames = frame :: rest)
      (hnext : frame.next? = some (position, start)) :
      Takes d scope start s ⟨s.path, s.taken, frame.advance :: rest,
        s.found ++ [⟨s.path.reverse, (position :: s.taken).reverse⟩]⟩
  | enter {frame : Frame} {rest : List Frame} {position : Nat} {next : NodeId}
      (hframes : s.frames = frame :: rest) (hnext : frame.next? = some (position, next))
      (hother : next ≠ start) (hfree : next ∈ scope ∧ next ∉ s.path) :
      Takes d scope start s ⟨next :: s.path, position :: s.taken,
        d.frame next :: frame.advance :: rest, s.found⟩
  | pass {frame : Frame} {rest : List Frame} {position : Nat} {next : NodeId}
      (hframes : s.frames = frame :: rest) (hnext : frame.next? = some (position, next))
      (hother : next ≠ start) (hbarred : ¬ (next ∈ scope ∧ next ∉ s.path)) :
      Takes d scope start s ⟨s.path, s.taken, frame.advance :: rest, s.found⟩

theorem takes_step (d : Definition) (scope : List NodeId) (start : NodeId) (s : Search) :
    s.Takes d scope start (s.step d scope start) := by
  unfold step
  split
  · rename_i hframes
    exact .done hframes
  · rename_i frame rest hframes
    split
    · rename_i hnext
      exact .back hframes hnext
    · rename_i position next hnext
      dsimp only
      split
      · rename_i hstart
        subst hstart
        exact .close hframes hnext
      · rename_i hother
        split
        · rename_i hfree
          exact .enter hframes hnext hother hfree
        · rename_i hbarred
          exact .pass hframes hnext hother hbarred

/-! ### How the stacks fit together -/

/-- The three stacks were built up together: every node of the path has the frame of its edges, and
the frame below it was left at the edge that leads to it. -/
inductive Stacked (d : Definition) (start : NodeId) :
    List NodeId → List Nat → List Frame → Prop where
  | root {cursor : Nat} (hcursor : cursor ≤ (d.departures start).length) :
      Stacked d start [start] [] [⟨d.departures start, cursor⟩]
  | enter {u next : NodeId} {path : List NodeId} {taken : List Nat} {below : Frame}
      {rest : List Frame} {position cursor : Nat}
      (hbelow : Stacked d start (u :: path) taken (below :: rest))
      (hlast : below.last? = some (position, next)) (hnew : next ∉ u :: path)
      (hcursor : cursor ≤ (d.departures next).length) :
      Stacked d start (next :: u :: path) (position :: taken)
        (⟨d.departures next, cursor⟩ :: below :: rest)

namespace Stacked

variable {path : List NodeId} {taken : List Nat} {frame : Frame} {rest frames : List Frame}

theorem departures_eq {u : NodeId} (h : Stacked d start (u :: path) taken (frame :: rest)) :
    frame.departures = d.departures u := by
  cases h <;> rfl

theorem exists_cons (h : Stacked d start path taken frames) :
    ∃ u rest, path = u :: rest := by
  cases h <;> exact ⟨_, _, rfl⟩

/-- Edges stand in a frame in the order of declaration. -/
theorem ordered (h : Stacked d start path taken (frame :: rest)) :
    frame.departures.Pairwise fun a b => a.1 < b.1 := by
  obtain ⟨u, path, rfl⟩ := h.exists_cons
  rw [h.departures_eq]
  exact d.departures_pairwise u

/-- The innermost cursor may move on. -/
theorem advance {e : Nat × NodeId} (h : Stacked d start path taken (frame :: rest))
    (hnext : frame.next? = some e) : Stacked d start path taken (frame.advance :: rest) := by
  have hlt := Frame.cursor_lt hnext
  cases h with
  | root => exact .root hlt
  | enter hbelow hlast hnew => exact .enter hbelow hlast hnew hlt

theorem push {position : Nat} {next : NodeId} (h : Stacked d start path taken (frame :: rest))
    (hnext : frame.next? = some (position, next)) (hnew : next ∉ path) :
    Stacked d start (next :: path) (position :: taken)
      (d.frame next :: frame.advance :: rest) := by
  obtain ⟨u, path, rfl⟩ := h.exists_cons
  exact .enter (h.advance hnext) hnext hnew (Nat.zero_le _)

/-- Going back from the first frame leaves nothing; it takes no edge away. -/
theorem pop (h : Stacked d start path taken (frame :: rest)) :
    rest = [] ∨ Stacked d start path.tail taken.tail rest := by
  cases h with
  | root => exact Or.inl rfl
  | enter hbelow => exact Or.inr hbelow

end Stacked

/-- The path starts at the start and passes no node twice, one edge less was taken, each leading
from a node of the path to the next, and every node of the path has one frame with just its
edges. -/
structure Aligned (d : Definition) (start : NodeId) (s : Search) : Prop where
  frames_length : s.frames.length = s.path.length
  taken_length : s.taken.length + 1 = s.path.length
  head : s.path.reverse.head? = some start
  nodup : s.path.Nodup
  follows : d.Follows s.taken.reverse s.path.reverse
  departures : s.frames.map Frame.departures = s.path.map d.departures
  cursors : ∀ f ∈ s.frames, f.cursor ≤ f.departures.length

theorem Stacked.aligned {path : List NodeId} {taken : List Nat} {frames : List Frame}
    (h : Stacked d start path taken frames) (found : List Circuit) :
    Aligned d start ⟨path, taken, frames, found⟩ := by
  induction h with
  | root hcursor =>
      exact ⟨rfl, rfl, rfl, List.nodup_singleton start, Definition.follows_singleton.mpr rfl, rfl,
        List.forall_mem_singleton.mpr hcursor⟩
  | @enter u next path taken below rest position cursor hbelow hlast hnew hcursor ih =>
      have hleads : d.LeadsAt position u next := by
        rw [← Definition.mem_departures, ← hbelow.departures_eq]
        exact Frame.mem_departures_of_last? hlast
      have hfollows : d.Follows taken.reverse (path.reverse ++ [u]) := by
        rw [← List.reverse_cons]
        exact ih.follows
      refine ⟨?_, ?_, ?_, List.nodup_cons.mpr ⟨hnew, ih.nodup⟩, ?_, ?_,
        List.forall_mem_cons.mpr ⟨hcursor, ih.cursors⟩⟩
      · exact congrArg (· + 1) ih.frames_length
      · exact congrArg (· + 1) ih.taken_length
      · rw [List.reverse_cons, List.head?_append, ih.head]
        rfl
      · have hpath : (next :: u :: path).reverse = path.reverse ++ [u, next] := by simp
        rw [hpath]
        exact Definition.follows_concat.mpr
          ⟨taken.reverse, position, List.reverse_cons, hfollows, hleads⟩
      · exact congrArg (d.departures next :: ·) ih.departures

/-! ### What was explored and what was not -/

/-- The edge sequences that lead along the path to a node and on along some edges of its frame. -/
def sequences (edges : Frame → List (Nat × NodeId)) : List Nat → List Frame → List (List Nat)
  | _, [] => []
  | taken, frame :: rest =>
    (edges frame).map (fun e => (e.1 :: taken).reverse) ++ sequences edges taken.tail rest

/-- The edge sequences that the cursors of the open frames have passed. -/
def behind (s : Search) : List (List Nat) :=
  sequences (fun f => f.departures.take f.cursor) s.taken s.frames

/-- The edge sequences that the open frames still hold. -/
def ahead (s : Search) : List (List Nat) :=
  sequences Frame.rest s.taken s.frames

variable {s : Search} {w : List Nat}

/-- The step explores the edge sequence that the innermost cursor points at. -/
theorem explores?_eq_some_iff :
    s.explores? = some w ↔ ∃ frame rest position next, s.frames = frame :: rest ∧
      frame.next? = some (position, next) ∧ w = (position :: s.taken).reverse := by
  unfold explores?
  split
  · rename_i hframes
    simp [hframes]
  · rename_i frame rest hframes
    simp only [hframes, List.cons.injEq, Option.map_eq_some_iff, Prod.exists]
    constructor
    · rintro ⟨position, next, hnext, rfl⟩
      exact ⟨frame, rest, position, next, ⟨rfl, rfl⟩, hnext, rfl⟩
    · rintro ⟨_, _, position, next, ⟨rfl, rfl⟩, hnext, rfl⟩
      exact ⟨position, next, hnext, rfl⟩

theorem mem_ahead_of_explores? (h : s.explores? = some w) : w ∈ s.ahead := by
  obtain ⟨frame, rest, position, next, hframes, hnext, rfl⟩ := explores?_eq_some_iff.mp h
  rw [ahead, hframes, sequences, Frame.rest_eq_cons hnext, List.map_cons, List.cons_append]
  exact List.mem_cons_self

/-- A sequence comes before those that go on from it. -/
theorem lex_concat (w : List Nat) (position : Nat) : List.Lex (· < ·) w (w ++ [position]) := by
  have hlonger : List.Lex (· < ·) (w ++ []) (w ++ [position]) :=
    List.Lex.append_left _ List.Lex.nil w
  rwa [List.append_nil] at hlonger

/-- Everything that the open frames still hold comes after the edge sequence. -/
def IsPast (w : List Nat) (s : Search) : Prop :=
  ∀ x ∈ s.ahead, List.Lex (· < ·) w x

/-- What a step adds to what is ahead goes on from an edge sequence that was ahead before. -/
theorem IsPast.step (h : IsPast w s) : IsPast w (s.step d scope start) := by
  have hstep := s.takes_step d scope start
  unfold IsPast ahead at h ⊢
  generalize s.step d scope start = s' at hstep ⊢
  cases hstep with
  | done => exact h
  | back hframes _ =>
      rw [hframes, sequences] at h
      exact fun x hx => h x (List.mem_append_right _ hx)
  | close hframes hnext | pass hframes hnext _ _ =>
      rw [hframes, sequences, Frame.rest_eq_cons hnext, List.map_cons, List.cons_append] at h
      exact fun x hx => h x (List.mem_cons_of_mem _ hx)
  | @enter frame rest position next hframes hnext _ _ =>
      rw [hframes, sequences, Frame.rest_eq_cons hnext, List.map_cons, List.cons_append] at h
      obtain ⟨hnow, hlater⟩ := List.forall_mem_cons.mp h
      intro x hx
      rcases List.mem_append.mp hx with hx | hx
      · obtain ⟨e, _, rfl⟩ := List.mem_map.mp hx
        rw [List.reverse_cons (a := e.1)]
        exact List.Lex.append_right _ _ hnow
      · exact hlater x hx

/-- However one goes on from the end of the path, that comes before whatever the frames below the
innermost one still hold. -/
theorem Stacked.lex_of_mem_sequences {path : List NodeId} {taken : List Nat} {frames : List Frame}
    (h : Stacked d start path taken frames) (further : List Nat) {x : List Nat}
    (hx : x ∈ sequences Frame.rest taken.tail frames.tail) :
    List.Lex (· < ·) (taken.reverse ++ further) x := by
  induction h generalizing further with
  | root => cases hx
  | @enter u next path taken below rest position cursor hbelow hlast _ _ ih =>
      have hturn : (position :: taken).reverse ++ further =
          taken.reverse ++ position :: further := by simp
      rw [hturn]
      rcases List.mem_append.mp hx with hx | hx
      · obtain ⟨e, he, rfl⟩ := List.mem_map.mp hx
        rw [List.reverse_cons]
        have hlt := Frame.lt_of_mem_rest hbelow.ordered hlast he
        exact List.Lex.append_left _ (List.Lex.rel hlt) _
      · exact ih (position :: further) hx

/-- After a step everything ahead comes after the edge sequence that the step explored. -/
theorem isPast_of_explores? (hstacked : Stacked d start s.path s.taken s.frames)
    (h : s.explores? = some w) : IsPast w (s.step d scope start) := by
  obtain ⟨frame, rest, position, next, hframes, hnext, rfl⟩ := explores?_eq_some_iff.mp h
  rw [hframes] at hstacked
  have hstay : ∀ x ∈ sequences Frame.rest s.taken (frame.advance :: rest),
      List.Lex (· < ·) (position :: s.taken).reverse x := by
    intro x hx
    rw [List.reverse_cons]
    rcases List.mem_append.mp hx with hx | hx
    · obtain ⟨e, he, rfl⟩ := List.mem_map.mp hx
      rw [List.reverse_cons]
      have hlt := Frame.lt_of_mem_rest (f := frame.advance) hstacked.ordered hnext he
      exact List.Lex.append_left _ (List.Lex.rel hlt) _
    · exact hstacked.lex_of_mem_sequences [position] hx
  have hstep := s.takes_step d scope start
  unfold IsPast ahead
  generalize s.step d scope start = s' at hstep ⊢
  cases hstep with
  | done hnone =>
      rw [hframes] at hnone
      cases hnone
  | back hframes' hnone =>
      obtain ⟨rfl, rfl⟩ := List.cons.inj (hframes.symm.trans hframes')
      rw [hnext] at hnone
      cases hnone
  | close hframes' _ | pass hframes' _ _ _ =>
      obtain ⟨rfl, rfl⟩ := List.cons.inj (hframes.symm.trans hframes')
      exact hstay
  | enter hframes' hnext' _ _ =>
      obtain ⟨rfl, rfl⟩ := List.cons.inj (hframes.symm.trans hframes')
      rw [hnext, Option.some.injEq, Prod.mk.injEq] at hnext'
      obtain ⟨rfl, rfl⟩ := hnext'
      intro x hx
      rcases List.mem_append.mp hx with hx | hx
      · obtain ⟨e, _, rfl⟩ := List.mem_map.mp hx
        rw [List.reverse_cons (a := e.1)]
        exact lex_concat _ _
      · exact hstay x hx

/-- A step leaves behind what the cursors have passed and what it explores. -/
theorem mem_behind_step {x : List Nat} (hx : x ∈ (s.step d scope start).behind) :
    x ∈ s.behind ∨ s.explores? = some x := by
  have hstep := s.takes_step d scope start
  unfold behind at hx ⊢
  generalize s.step d scope start = s' at hstep hx
  cases hstep with
  | done => exact Or.inl hx
  | back hframes _ =>
      rw [hframes, sequences]
      exact Or.inl (List.mem_append_right _ hx)
  | @close frame rest _ hframes hnext | @pass frame rest _ _ hframes hnext _ _
  | @enter frame rest _ _ hframes hnext _ _ =>
      replace hx : x ∈ sequences (fun f => f.departures.take f.cursor) s.taken
          (frame.advance :: rest) := by simpa [sequences, Definition.frame] using hx
      rw [hframes, sequences]
      rw [sequences, Frame.take_advance hnext, List.map_append] at hx
      rcases List.mem_append.mp hx with hx | hx
      · rcases List.mem_append.mp hx with hx | hx
        · exact Or.inl (List.mem_append_left _ hx)
        · obtain rfl := List.mem_singleton.mp hx
          exact Or.inr (explores?_eq_some_iff.mpr ⟨frame, rest, _, _, hframes, hnext, rfl⟩)
      · exact Or.inl (List.mem_append_right _ hx)

end Search

namespace Definition

/-! ### The whole search -/

/-- The search has explored the edge sequence before it comes to this step. -/
def Explored (d : Definition) (component : List NodeId) (start : NodeId) (n : Nat)
    (w : List Nat) : Prop :=
  ∃ m < n, (d.search component start m).explores? = some w

theorem stacked_search (d : Definition) (component : List NodeId) (start : NodeId) (n : Nat) :
    (d.search component start n).frames = [] ∨
      Search.Stacked d start (d.search component start n).path (d.search component start n).taken
        (d.search component start n).frames := by
  induction n with
  | zero => exact Or.inr (.root (Nat.zero_le _))
  | succ n ih =>
      rw [search]
      have hstep := (d.search component start n).takes_step d (d.membersAfter component start) start
      generalize (d.search component start n).step d _ start = s' at hstep ⊢
      generalize d.search component start n = s at hstep ih
      cases hstep with
      | done hframes => exact Or.inl hframes
      | back hframes _ =>
          rw [hframes] at ih
          exact (ih.resolve_left (List.cons_ne_nil _ _)).pop
      | close hframes hnext | pass hframes hnext _ _ =>
          rw [hframes] at ih
          exact Or.inr ((ih.resolve_left (List.cons_ne_nil _ _)).advance hnext)
      | enter hframes hnext _ hfree =>
          rw [hframes] at ih
          exact Or.inr ((ih.resolve_left (List.cons_ne_nil _ _)).push hnext hfree.2)

/-- Once explored, a sequence comes before everything that is still ahead. -/
theorem Explored.isPast {n : Nat} {w : List Nat} (h : d.Explored component start n w) :
    Search.IsPast w (d.search component start n) := by
  obtain ⟨m, hlt, hw⟩ := h
  induction n, hlt using Nat.le_induction with
  | base =>
      obtain ⟨frame, rest, _, _, hframes, _, _⟩ := Search.explores?_eq_some_iff.mp hw
      refine Search.isPast_of_explores? ((d.stacked_search component start m).resolve_left ?_) hw
      rw [hframes]
      exact List.cons_ne_nil _ _
  | succ n _ ih => exact ih.step

theorem explored_of_mem_behind {n : Nat} {w : List Nat}
    (hw : w ∈ (d.search component start n).behind) : d.Explored component start n w := by
  induction n with
  | zero => cases hw
  | succ n ih =>
      rcases Search.mem_behind_step hw with hw | hw
      · obtain ⟨m, hlt, hm⟩ := ih hw
        exact ⟨m, Nat.lt_succ_of_lt hlt, hm⟩
      · exact ⟨n, Nat.lt_succ_self n, hw⟩

theorem not_explored_of_mem_ahead {n : Nat} {w : List Nat}
    (hw : w ∈ (d.search component start n).ahead) : ¬ d.Explored component start n w := by
  intro hexplored
  exact irrefl w (hexplored.isPast w hw)

/-- The circuits that are found along one edge. -/
def branch (d : Definition) (scope : List NodeId) (start : NodeId) (path : List NodeId)
    (taken : List Nat) (e : Nat × NodeId) : List Circuit :=
  if e.2 = start then [⟨path, taken ++ [e.1]⟩]
  else if e.2 ∈ scope ∧ e.2 ∉ path then
    d.circuits scope start (path ++ [e.2]) (taken ++ [e.1]) e.2
  else []

theorem circuits_eq_flatMap (scope : List NodeId) (start : NodeId) (path : List NodeId)
    (taken : List Nat) (last : NodeId) :
    d.circuits scope start path taken last =
      (d.departures last).flatMap (d.branch scope start path taken) := by
  rw [circuits]
  rfl

theorem search_succ {n : Nat} {s : Search} (h : d.search component start n = s) :
    d.search component start (n + 1) = s.step d (d.membersAfter component start) start := by
  rw [search, h]

/-- A frame that was just opened is left again when all circuits that go on through it are found.
By induction on the nodes that are free and, within it, on the edges that the frame has left. -/
theorem exists_left (d : Definition) (component : List NodeId) (start : NodeId)
    (path : List NodeId) (taken : List Nat) (last : NodeId) {m : Nat} {frames : List Frame}
    {found : List Circuit}
    (hopened : d.search component start m =
      ⟨path.reverse, taken.reverse, d.frame last :: frames, found⟩) :
    ∃ n, d.search component start n = ⟨path.reverse.tail, taken.reverse.tail, frames,
      found ++ d.circuits (d.membersAfter component start) start path taken last⟩ := by
  induction path, taken, last using circuits.induct (d.membersAfter component start)
    generalizing m frames found with
  | case1 path taken last ih =>
      rw [circuits_eq_flatMap]
      suffices hrest : ∀ rest seen, d.departures last = seen ++ rest → ∀ m found,
          d.search component start m = ⟨path.reverse, taken.reverse,
            ⟨d.departures last, seen.length⟩ :: frames, found⟩ →
          ∃ n, d.search component start n = ⟨path.reverse.tail, taken.reverse.tail, frames,
            found ++ rest.flatMap (d.branch (d.membersAfter component start) start path taken)⟩ from
        hrest _ [] rfl m found hopened
      intro rest
      induction rest with
      | nil =>
          intro seen hseen m found hstate
          rw [List.append_nil] at hseen
          refine ⟨m + 1, (search_succ hstate).trans ?_⟩
          simp [Search.step, Frame.next?, hseen]
      | cons e rest ihrest =>
          obtain ⟨position, next⟩ := e
          intro seen hseen m found hstate
          have hnext : (⟨d.departures last, seen.length⟩ : Frame).next? =
              some (position, next) := by simp [Frame.next?, hseen]
          have hgoesOn := ihrest (seen ++ [(position, next)]) (by simp [hseen])
          rw [List.length_append, List.length_singleton] at hgoesOn
          have hstep := search_succ hstate
          simp only [Search.step, hnext, Frame.advance] at hstep
          rw [List.flatMap_cons, branch]
          by_cases hstart : next = start
          · rw [if_pos hstart] at hstep ⊢
            rw [← List.append_assoc]
            apply hgoesOn (m + 1)
            rw [hstep]
            simp
          · rw [if_neg hstart] at hstep ⊢
            by_cases hfree : next ∈ d.membersAfter component start ∧ next ∉ path
            · rw [if_pos (by simpa using hfree)] at hstep
              rw [if_pos hfree, ← List.append_assoc]
              have hentered : d.search component start (m + 1) =
                  ⟨(path ++ [next]).reverse, (taken ++ [position]).reverse,
                    d.frame next :: ⟨d.departures last, seen.length + 1⟩ :: frames, found⟩ := by
                rw [hstep]
                simp
              obtain ⟨n, hleft⟩ := ih position next hfree hentered
              apply hgoesOn n
              rw [hleft]
              simp
            · rw [if_neg (by simpa using hfree)] at hstep
              rw [if_neg hfree, List.nil_append]
              exact hgoesOn (m + 1) found hstep

/-- The search comes to an end, and its stacks fit together as long as it goes on: the path, the
edges taken along it and the frames of its nodes.  What the cursors of the frames have passed is
explored and what they have ahead is not; each step explores an edge sequence that comes after all
explored before it in the lexicographic order, so none is explored twice.  In the end the circuits
that the component has from the start are found. -/
theorem search_ends_aligned (d : Definition) (component : List NodeId) (start : NodeId) :
    (∃ n, (d.search component start n).frames = [] ∧
      (d.search component start n).found = d.circuitsFrom component start) ∧
    (∀ n, (d.search component start n).frames ≠ [] →
      Search.Aligned d start (d.search component start n) ∧
      (∀ w ∈ (d.search component start n).behind, d.Explored component start n w) ∧
      ∀ w ∈ (d.search component start n).ahead, ¬ d.Explored component start n w) ∧
    (∀ m n w x, (d.search component start m).explores? = some w →
      (d.search component start n).explores? = some x → m < n → List.Lex (· < ·) w x) ∧
    ∀ m n w, (d.search component start m).explores? = some w →
      (d.search component start n).explores? = some w → m = n := by
  have hlex : ∀ m n w x, (d.search component start m).explores? = some w →
      (d.search component start n).explores? = some x → m < n → List.Lex (· < ·) w x := by
    intro m n w x hw hx hlt
    have hexplored : d.Explored component start n w := ⟨m, hlt, hw⟩
    exact hexplored.isPast x (Search.mem_ahead_of_explores? hx)
  refine ⟨?_, fun n hopen => ⟨?_, fun w hw => explored_of_mem_behind hw,
    fun w hw => not_explored_of_mem_ahead hw⟩, hlex, ?_⟩
  · have hopened : d.search component start 0 =
        ⟨[start].reverse, ([] : List Nat).reverse, d.frame start :: [], []⟩ := rfl
    obtain ⟨n, hleft⟩ := d.exists_left component start [start] [] start hopened
    refine ⟨n, ?_, ?_⟩
    · rw [hleft]
    · rw [hleft]
      rfl
  · exact ((d.stacked_search component start n).resolve_left hopen).aligned _
  · intro m n w hm hn
    rcases Nat.lt_trichotomy m n with hlt | rfl | hlt
    · exact absurd (hlex m n w w hm hn hlt) (irrefl w)
    · rfl
    · exact absurd (hlex n m w w hn hm hlt) (irrefl w)

end Definition
end Workflow
