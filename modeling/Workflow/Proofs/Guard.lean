import Mathlib.Data.List.Forall2
import Mathlib.Data.List.TakeWhile
import Mathlib.Logic.Function.Iterate
import Workflow.Proofs.Definition
import Workflow.Proofs.Run.Follow
import Workflow.Proofs.Table
/-!
# Standard conditions

The standard evaluator reads an expression as white space, exclamation marks with white space
between them, and a word for a verdict.  Which texts are expressions, and which verdict each of them
expects, is said here without the reader.  So it can be said of a node that has run which of its
edges are followed, and that a condition and its negation divide the verdicts between them.
-/
namespace Workflow

namespace Text

/-- Nothing but white space. -/
def Blank (cs : List Char) : Prop := ∀ c ∈ cs, isBlankChar c = true

theorem trimLeft_of_blank {cs : List Char} (h : Blank cs) : trimLeft cs = [] :=
  List.dropWhile_eq_nil_iff.mpr h

theorem trimLeft_of_head? {cs : List Char} (h : ∀ c ∈ cs.head?, isBlankChar c = false) :
    trimLeft cs = cs := by
  cases cs with
  | nil => rfl
  | cons c cs => exact List.dropWhile_cons_of_neg (by simp [h c rfl])

/-- Text between white space is found by trimming if it neither begins nor ends with any. -/
theorem trim_between {before cs after : List Char} (hbefore : Blank before) (hafter : Blank after)
    (hfirst : ∀ c ∈ cs.head?, isBlankChar c = false)
    (hlast : ∀ c ∈ cs.getLast?, isBlankChar c = false) : trim (before ++ cs ++ after) = cs := by
  have hafter' : Blank after.reverse := fun c hc => hafter c (List.mem_reverse.mp hc)
  have hleft : trimLeft (before ++ cs ++ after) = trimLeft (cs ++ after) := by
    rw [List.append_assoc, trimLeft_append_of_blank hbefore]
  have hright : trimRight (cs ++ after) = cs := by
    rw [trimRight, List.reverse_append]
    change (trimLeft (after.reverse ++ cs.reverse)).reverse = cs
    rw [trimLeft_append_of_blank hafter', trimLeft_of_head?, List.reverse_reverse]
    rwa [List.head?_reverse]
  rw [trim, hleft]
  cases cs with
  | nil =>
      rw [List.nil_append, trimLeft_of_blank hafter]
      rfl
  | cons c cs => rw [trimLeft_of_head? (by simpa using hfirst), hright]

/-- What trimming takes away is white space. -/
theorem exists_trim (cs : List Char) :
    ∃ before after, Blank before ∧ Blank after ∧ cs = before ++ trim cs ++ after := by
  have hblank : ∀ cs : List Char, Blank (cs.takeWhile isBlankChar) :=
    fun cs c hc => List.mem_takeWhile_imp hc
  refine ⟨cs.takeWhile isBlankChar, ((trimLeft cs).reverse.takeWhile isBlankChar).reverse,
    hblank cs, fun c hc => hblank _ c (List.mem_reverse.mp hc), ?_⟩
  rw [trim, trimRight, List.append_assoc, ← List.reverse_append, List.takeWhile_append_dropWhile,
    List.reverse_reverse, trimLeft, List.takeWhile_append_dropWhile]

theorem toNat_toLower (c : Char) :
    c.toLower.toNat = if 65 ≤ c.toNat ∧ c.toNat ≤ 90 then c.toNat + 32 else c.toNat := by
  have hcode : c.val.toNat = c.toNat := rfl
  delta Char.toLower
  simp only [ge_iff_le, UInt32.le_iff_toNat_le]
  split
  · rename_i hcapital
    change 65 ≤ c.toNat ∧ c.toNat ≤ 90 at hcapital
    rw [if_pos hcapital]
    change (c.val + 32).toNat = _
    rw [UInt32.toNat_add, hcode]
    change (c.toNat + 32) % 2 ^ 32 = _
    omega
  · rename_i hother
    exact (if_neg hother).symm

theorem toNat_toUpper (c : Char) :
    c.toUpper.toNat = if 97 ≤ c.toNat ∧ c.toNat ≤ 122 then c.toNat - 32 else c.toNat := by
  have hcode : c.val.toNat = c.toNat := rfl
  delta Char.toUpper
  simp only [UInt32.le_iff_toNat_le]
  split
  · rename_i hsmall
    change 97 ≤ c.toNat ∧ c.toNat ≤ 122 at hsmall
    rw [if_pos hsmall]
    -- the code falls by 32, which is a sum that wraps around
    change (c.val + 4294967264).toNat = _
    rw [UInt32.toNat_add, hcode]
    change (c.toNat + 4294967264) % 2 ^ 32 = _
    omega
  · rename_i hother
    exact (if_neg hother).symm

/-- A character becomes a small letter if it is that letter or its capital. -/
theorem toLower_eq_iff {c letter : Char} (hsmall : letter.toLower = letter) :
    c.toLower = letter ↔ c = letter ∨ c = letter.toUpper := by
  have hcode := congrArg Char.toNat hsmall
  rw [toNat_toLower] at hcode
  rw [← Char.toNat_inj, ← Char.toNat_inj, ← Char.toNat_inj, toNat_toUpper, toNat_toLower]
  split at hcode <;> split <;> split <;> omega

/-- The characters are those of the word, each as it is or as a capital. -/
def Spells (cs : List Char) (word : String) : Prop :=
  List.Forall₂ (fun c letter => c = letter ∨ c = letter.toUpper) cs word.toList

theorem spells_iff {cs : List Char} {word : String}
    (hsmall : ∀ letter ∈ word.toList, letter.toLower = letter) :
    Spells cs word ↔ String.ofList (cs.map Char.toLower) = word := by
  have hletters : Spells cs word ↔ cs.map Char.toLower = word.toList := by
    rw [Spells, ← List.forall₂_eq_eq_eq, List.forall₂_map_left_iff]
    generalize word.toList = letters at hsmall
    induction cs generalizing letters with
    | nil => simp
    | cons c cs ih =>
        cases letters with
        | nil => simp
        | cons letter letters =>
            obtain ⟨hletter, hletters⟩ := List.forall_mem_cons.mp hsmall
            rw [List.forall₂_cons, List.forall₂_cons, ih letters hletters, toLower_eq_iff hletter]
  rw [hletters]
  constructor
  · intro h
    rw [h, String.ofList_toList]
  · intro h
    rw [← h, String.toList_ofList]

end Text

namespace Guard

open Text

/-! ### Expressions -/

/-- The words for the two verdicts. -/
def words : List (String × Bool) :=
  [("true", true), ("yes", true), ("1", true), ("false", false), ("no", false), ("0", false)]

/-- The text is an expression that expects this verdict: white space, exclamation marks each with
white space behind it, a word in any case of its letters, and white space.  Each exclamation mark
negates what the word says. -/
def Expects (cs : List Char) (verdict : Bool) : Prop :=
  ∃ (before : List Char) (gaps : List (List Char)) (letters after : List Char) (word : String)
    (said : Bool), Blank before ∧ (∀ gap ∈ gaps, Blank gap) ∧ Blank after ∧
    (word, said) ∈ words ∧ Spells letters word ∧
    cs = before ++ (gaps.flatMap ('!' :: ·) ++ letters) ++ after ∧
    verdict = (fun b => !b)^[gaps.length] said

theorem small_of_mem_words {w : String × Bool} (hw : w ∈ words) :
    ∀ letter ∈ w.1.toList, letter.toLower = letter := by
  have hsmall : (words.all fun w => w.1.toList.all fun letter => letter.toLower == letter) =
      true := by decide
  simp only [List.all_eq_true, beq_iff_eq] at hsmall
  exact hsmall w hw

theorem literal?_eq_lookup (cs : List Char) :
    literal? cs = words.lookup (String.ofList (cs.map Char.toLower)) := by
  simp only [literal?, words, Table.lookup_cons_eq, List.lookup_nil]
  grind

/-- What reads as a word for a verdict is one. -/
theorem literal?_eq_some_iff {cs : List Char} {said : Bool} :
    literal? cs = some said ↔ ∃ word, (word, said) ∈ words ∧ Spells cs word := by
  have hspells : ∀ w ∈ words, Spells cs w.1 ↔ String.ofList (cs.map Char.toLower) = w.1 := by
    intro w hw
    exact spells_iff (small_of_mem_words hw)
  rw [literal?_eq_lookup]
  constructor
  · intro h
    have hword := Table.lookup_eq_some_mem h
    exact ⟨_, hword, (hspells _ hword).mpr rfl⟩
  · rintro ⟨word, hword, hcs⟩
    rw [(hspells _ hword).mp hcs]
    exact Table.lookup_of_mem (by decide) hword

theorem expected?_of_mark {cs rest : List Char} (h : trim cs = '!' :: rest) :
    expected? cs = (expected? rest).map (!·) := by
  rw [expected?]
  split
  · rename_i rest' hmark
    rw [h] at hmark
    rw [(List.cons.inj hmark).2]
  · rename_i hother
    exact absurd h (hother rest)

theorem expected?_of_word {cs : List Char} (h : ∀ rest, trim cs ≠ '!' :: rest) :
    expected? cs = literal? (trim cs) := by
  rw [expected?]
  split
  · rename_i rest hmark
    exact absurd hmark (h rest)
  · rfl

/-- A word for a verdict has letters, and neither white space nor exclamation marks. -/
theorem letters_of_spells {cs : List Char} {w : String × Bool} (hw : w ∈ words)
    (h : Spells cs w.1) : cs ≠ [] ∧ ∀ c ∈ cs, isBlankChar c = false ∧ c ≠ '!' := by
  have hletters : (words.all fun w => !w.1.toList.isEmpty && w.1.toList.all fun letter =>
      [letter, letter.toUpper].all fun c => !isBlankChar c && c != '!') = true := by decide
  simp only [List.all_eq_true, Bool.and_eq_true, Bool.not_eq_true', bne_iff_ne,
    List.isEmpty_eq_false_iff] at hletters
  obtain ⟨hne, hall⟩ := hletters w hw
  rw [Spells] at h
  generalize w.1.toList = letters at h hne hall
  constructor
  · rintro rfl
    exact hne (List.forall₂_nil_left_iff.mp h)
  · intro c hc
    obtain ⟨letter, hletter, hsame⟩ : ∃ letter ∈ letters, c = letter ∨ c = letter.toUpper := by
      clear hne hall
      induction h with
      | nil => cases hc
      | cons hhead _ ih =>
          rcases List.mem_cons.mp hc with rfl | hc
          · exact ⟨_, List.mem_cons_self, hhead⟩
          · obtain ⟨letter, hletter, hsame⟩ := ih hc
            exact ⟨letter, List.mem_cons_of_mem _ hletter, hsame⟩
    exact hall letter hletter c (by simpa using hsame)

/-- Expressions are read as what they say. -/
theorem expected?_eq_some {before after letters : List Char} {gaps : List (List Char)}
    {word : String} {said : Bool} (hbefore : Blank before) (hgaps : ∀ gap ∈ gaps, Blank gap)
    (hafter : Blank after) (hword : (word, said) ∈ words) (hletters : Spells letters word) :
    expected? (before ++ (gaps.flatMap ('!' :: ·) ++ letters) ++ after) =
      some ((fun b => !b)^[gaps.length] said) := by
  obtain ⟨hne, hshown⟩ := letters_of_spells hword hletters
  induction gaps generalizing before after with
  | nil =>
      have htrim : trim (before ++ letters ++ after) = letters :=
        trim_between hbefore hafter (fun c hc => (hshown c (List.mem_of_mem_head? hc)).1)
          fun c hc => (hshown c (List.mem_of_mem_getLast? hc)).1
      rw [List.flatMap_nil, List.nil_append, expected?_of_word, htrim]
      · exact literal?_eq_some_iff.mpr ⟨word, hword, hletters⟩
      · rintro rest hmark
        rw [htrim] at hmark
        exact (hshown '!' (hmark ▸ List.mem_cons_self)).2 rfl
  | cons gap gaps ih =>
      obtain ⟨hgap, hgaps⟩ := List.forall_mem_cons.mp hgaps
      have htrim :
          trim (before ++ ('!' :: (gap ++ (gaps.flatMap ('!' :: ·) ++ letters))) ++ after) =
            '!' :: (gap ++ (gaps.flatMap ('!' :: ·) ++ letters)) := by
        refine trim_between hbefore hafter (fun c hc => ?_) fun c hc => ?_
        · obtain rfl := Option.some.inj hc
          decide
        · rw [← List.append_assoc, ← List.cons_append, List.getLast?_append_of_ne_nil _ hne] at hc
          exact (hshown c (List.mem_of_mem_getLast? hc)).1
      have hrest := @ih gap [] hgap hgaps nofun
      rw [List.append_nil] at hrest
      have htext : (gap :: gaps).flatMap ('!' :: ·) ++ letters =
          '!' :: (gap ++ (gaps.flatMap ('!' :: ·) ++ letters)) := by simp
      rw [htext, expected?_of_mark htrim, hrest, List.length_cons, Function.iterate_succ_apply']
      rfl

/-- A text is read as expecting a verdict exactly when it is an expression that expects it. -/
theorem expected?_eq_some_iff {cs : List Char} {verdict : Bool} :
    expected? cs = some verdict ↔ Expects cs verdict := by
  constructor
  · intro h
    obtain ⟨before, after, hbefore, hafter, hcs⟩ := exists_trim cs
    fun_induction expected? cs generalizing verdict before after with
    | case1 cs rest hmark _ ih =>
        obtain ⟨verdict', hrest, rfl⟩ := Option.map_eq_some_iff.mp h
        obtain ⟨before', after', hbefore', hafter', hcs'⟩ := exists_trim rest
        obtain ⟨lead, gaps, letters, trail, word, said, hlead, hgaps, htrail, hword, hletters,
          hparts, hsaid⟩ := ih hrest before' after' hbefore' hafter' hcs'
        refine ⟨before, lead :: gaps, letters, trail ++ after, word, said, hbefore, ?_, ?_, hword,
          hletters, ?_, ?_⟩
        · exact List.forall_mem_cons.mpr ⟨hlead, hgaps⟩
        · exact List.forall_mem_append.mpr ⟨htrail, hafter⟩
        · rw [hcs, hmark, hparts]
          simp
        · rw [hsaid, List.length_cons, Function.iterate_succ_apply']
    | case2 cs hother =>
        obtain ⟨word, hword, hletters⟩ := literal?_eq_some_iff.mp h
        exact ⟨before, [], trim cs, after, word, verdict, hbefore, nofun, hafter, hword, hletters,
          hcs, rfl⟩
  · rintro ⟨before, gaps, letters, after, word, said, hbefore, hgaps, hafter, hword, hletters,
      rfl, rfl⟩
    exact expected?_eq_some hbefore hgaps hafter hword hletters

instance (cs : List Char) (verdict : Bool) : Decidable (Expects cs verdict) :=
  decidable_of_iff (expected? cs = some verdict) expected?_eq_some_iff

/-- A text does not expect both verdicts. -/
theorem Expects.unique {cs : List Char} {verdict verdict' : Bool} (h : Expects cs verdict)
    (h' : Expects cs verdict') : verdict = verdict' :=
  Option.some.inj ((expected?_eq_some_iff.mpr h).symm.trans (expected?_eq_some_iff.mpr h'))

/-- One more exclamation mark makes an expression expect the other verdict. -/
theorem Expects.negate {cs : List Char} {verdict : Bool} (h : Expects cs verdict) :
    Expects ('!' :: cs) !verdict := by
  obtain ⟨before, gaps, letters, after, word, said, hbefore, hgaps, hafter, hword, hletters, rfl,
    rfl⟩ := h
  refine ⟨[], before :: gaps, letters, after, word, said, nofun, ?_, hafter, hword, hletters, ?_,
    ?_⟩
  · exact List.forall_mem_cons.mpr ⟨hbefore, hgaps⟩
  · simp
  · rw [List.length_cons, Function.iterate_succ_apply']

/-- The standard evaluator judges every expression by the verdict of the source. -/
theorem byVerdict_of_expects {expression : String} {verdict : Bool}
    (h : Expects expression.toList verdict) (state : State) :
    byVerdict expression state = .ok (state.verdict == some verdict) := by
  rw [byVerdict, expected?_eq_some_iff.mpr h]

/-- The standard evaluator judges nothing but expressions. -/
theorem byVerdict_of_not_expects {expression : String}
    (h : ∀ verdict, ¬ Expects expression.toList verdict) (state : State) :
    byVerdict expression state = .error (.misconfigured ("unsupported condition expression '" ++
      expression ++ "' on edge from '" ++ state.node ++ "'")) := by
  have hnone : expected? expression.toList = none :=
    Option.eq_none_iff_forall_ne_some.mpr fun verdict hsome =>
      h verdict (expected?_eq_some_iff.mp hsome)
  rw [byVerdict, hnone]

end Guard

/-! ### Branches -/

/-- The edge has no condition, or its condition expects this verdict. -/
def Edge.OpenOn (e : Edge) (verdict : Bool) : Prop :=
  ∀ expression ∈ e.condition, Guard.Expects expression.toList verdict

instance (e : Edge) (verdict : Bool) : Decidable (e.OpenOn verdict) :=
  inferInstanceAs (Decidable (∀ expression ∈ e.condition, Guard.Expects expression.toList verdict))

/-- An edge with a condition is open on the verdict that the condition expects. -/
theorem Edge.openOn_iff {e : Edge} {expression : String}
    (hcondition : e.condition = some expression) {expected : Bool}
    (hexpects : Guard.Expects expression.toList expected) {verdict : Bool} :
    e.OpenOn verdict ↔ verdict = expected := by
  rw [OpenOn, hcondition]
  constructor
  · intro h
    exact (h expression rfl).unique hexpects
  · rintro rfl other hother
    obtain rfl := Option.some.inj hother
    exact hexpects

namespace Job

variable {j : Job} {edges : List Edge} {state : Guard.State}

/-- A source with a verdict leads along the edges that are open on it. -/
theorem followEdges_of_verdict (hj : j.evaluator = Guard.byVerdict) {verdict : Bool}
    (hverdict : state.verdict = some verdict)
    (hedges : ∀ e ∈ edges, ∀ expression ∈ e.condition,
      ∃ expected, Guard.Expects expression.toList expected) :
    (j.followEdges state edges).2 =
      .ok ((edges.filter fun e => e.OpenOn verdict).map Edge.target) := by
  refine followEdges_eq_ok fun e he => ?_
  cases hcondition : e.condition with
  | none => exact Or.inl ⟨rfl, decide_eq_true fun _ h => by simp [hcondition] at h⟩
  | some expression =>
      obtain ⟨expected, hexpects⟩ := hedges e he expression hcondition
      refine Or.inr ⟨expression, rfl, ?_⟩
      rw [hj, Guard.byVerdict_of_expects hexpects, hverdict,
        decide_eq_decide.mpr (e.openOn_iff hcondition hexpects)]
      rfl

/-- A node with a verdict leads along its edges that are open on it. -/
theorem follow_of_verdict (hj : j.evaluator = Guard.byVerdict) {id : NodeId} {output : Output}
    {verdict : Bool} (hverdict : output.verdict = some verdict)
    (hedges : ∀ e ∈ j.definition.outgoing id, ∀ expression ∈ e.condition,
      ∃ expected, Guard.Expects expression.toList expected) (iteration : Nat) :
    (j.follow id output iteration).2 =
      .ok (((j.definition.outgoing id).filter fun e => e.OpenOn verdict).map Edge.target) := by
  rw [follow_eq_followEdges fun _ => by simp [hverdict]]
  exact followEdges_of_verdict hj hverdict hedges

/-- A source without a verdict leads along the edges without a condition. -/
theorem followEdges_of_no_verdict (hj : j.evaluator = Guard.byVerdict)
    (hverdict : state.verdict = none)
    (hedges : ∀ e ∈ edges, ∀ expression ∈ e.condition,
      ∃ expected, Guard.Expects expression.toList expected) :
    (j.followEdges state edges).2 =
      .ok ((edges.filter fun e => e.condition = none).map Edge.target) := by
  refine followEdges_eq_ok fun e he => ?_
  cases hcondition : e.condition with
  | none => exact Or.inl ⟨rfl, rfl⟩
  | some expression =>
      obtain ⟨expected, hexpects⟩ := hedges e he expression hcondition
      refine Or.inr ⟨expression, rfl, ?_⟩
      rw [hj, Guard.byVerdict_of_expects hexpects, hverdict]
      rfl

end Job

/-- Of two edges one of which has the condition of the other negated, just one is open on a
verdict. -/
theorem Edge.openOn_negation_iff {expression : String} {expected : Bool}
    (hexpects : Guard.Expects expression.toList expected) {e e' : Edge}
    (he : e.condition = some expression) (he' : e'.condition = some ("!" ++ expression))
    (verdict : Bool) : e'.OpenOn verdict ↔ ¬ e.OpenOn verdict := by
  have hnegated : Guard.Expects ("!" ++ expression).toList !expected := by
    rw [String.toList_append]
    exact hexpects.negate
  rw [e'.openOn_iff he' hnegated, e.openOn_iff he hexpects, Bool.eq_not]

/-- Under the standard evaluator a condition is just what the grammar of expressions allows, and
expects one verdict; every other text is refused as such.  If all the edges that leave a node have
conditions of that kind, then a node that comes to a verdict leads, in the order of its edges, to
the targets of those that are open on it; a node that comes to none and is no condition leads to the
targets of those without a condition.  And of a condition and its negation just one is open. -/
theorem Job.standard_conditions_branch (j : Job) (hj : j.evaluator = Guard.byVerdict) :
    (∀ expression state,
      (∀ expected, Guard.Expects expression.toList expected →
        j.evaluator expression state = .ok (state.verdict == some expected)) ∧
      ((∀ expected, ¬ Guard.Expects expression.toList expected) →
        j.evaluator expression state = .error (.misconfigured
          ("unsupported condition expression '" ++ expression ++ "' on edge from '" ++
            state.node ++ "'")))) ∧
    (∀ cs expected expected', Guard.Expects cs expected → Guard.Expects cs expected' →
      expected = expected') ∧
    (∀ id output iteration, (∀ e ∈ j.definition.outgoing id, ∀ expression ∈ e.condition,
        ∃ expected, Guard.Expects expression.toList expected) →
      (∀ verdict, output.verdict = some verdict → (j.follow id output iteration).2 =
        .ok (((j.definition.outgoing id).filter fun e => e.OpenOn verdict).map Edge.target)) ∧
      (output.verdict = none → ¬ j.definition.IsCondition id →
        (j.follow id output iteration).2 =
          .ok (((j.definition.outgoing id).filter fun e => e.condition = none).map Edge.target))) ∧
    ∀ expression expected, Guard.Expects expression.toList expected → ∀ e e' : Edge,
      e.condition = some expression → e'.condition = some ("!" ++ expression) →
        ∀ verdict, e'.OpenOn verdict ↔ ¬ e.OpenOn verdict := by
  refine ⟨fun expression state => ?_, fun _ _ _ h h' => h.unique h', ?_, ?_⟩
  · rw [hj]
    exact ⟨fun _ h => Guard.byVerdict_of_expects h state,
      fun h => Guard.byVerdict_of_not_expects h state⟩
  · intro id output iteration hedges
    constructor
    · exact fun _ hverdict => follow_of_verdict hj hverdict hedges iteration
    · intro hverdict hkind
      rw [follow_eq_followEdges fun h => absurd h hkind]
      exact followEdges_of_no_verdict hj hverdict hedges
  · intro expression expected hexpects e e' he he' verdict
    exact Edge.openOn_negation_iff hexpects he he' verdict

/-- A check that leads to the left, or on the negated condition to the right, and always to the log.
-/
def triage : Definition :=
  .plain "triage"
    [.plain "check" "condition", .plain "left" "step", .plain "right" "step", .plain "log" "step"]
    [.guarded "e1" "check" "left" " ! No ", .guarded "e2" "check" "right" "! ! No ",
      .plain "e3" "check" "log"]
    "check" 1

/-- The run of `triage`, of which only the conditions matter here. -/
def triageJob : Job where
  plan := ⟨triage, triage.ids, [], triage.validate .empty, .empty⟩
  instance? _ := none
  instance_declared := nofun
  evaluator := Guard.byVerdict
  parallel := 1
  initial := .empty

theorem triage_branches :
    triageJob.evaluator = Guard.byVerdict ∧
    (triageJob.follow "check" (.ofList [("result", .bool true)]) 1).2 = .ok ["left", "log"] ∧
    (triageJob.follow "check" (.ofList [("result", .bool false)]) 1).2 = .ok ["right", "log"] := by
  have hedges : ∀ e ∈ triage.outgoing "check", ∀ expression ∈ e.condition,
      ∃ expected, Guard.Expects expression.toList expected := by
    decide +kernel
  obtain ⟨_, _, hfollow, _⟩ := Job.standard_conditions_branch triageJob rfl
  refine ⟨rfl, ?_, ?_⟩
  · rw [(hfollow "check" _ 1 hedges).1 true rfl]
    decide +kernel
  · rw [(hfollow "check" _ 1 hedges).1 false rfl]
    decide +kernel

end Workflow
