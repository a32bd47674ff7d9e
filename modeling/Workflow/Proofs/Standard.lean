import Workflow.Proofs.Table
import Workflow.Standard.Kinds
/-!
# What the standard kinds promise

A node of a standard kind that has no remarks about its configuration keeps a promise, whatever it
is given, whatever replies it gets and whether or not it is interrupted: a request and a delay come
to something, a condition comes to a verdict, and of the others only a source can miss its value in
the initial state and only a processor can be given data that it cannot work on.
-/
namespace Workflow

/-- What an activity can end in: a pause is waited for or interrupted, a request is answered in some
way or interrupted. -/
inductive Activity.EndsIn : Activity → Outcome → Prop where
  | done {outcome : Outcome} : (Activity.done outcome).EndsIn outcome
  | sleep {millis : Nat} {next : Activity} {outcome : Outcome} (h : next.EndsIn outcome) :
      (Activity.sleep millis next).EndsIn outcome
  | wait {millis : Nat} {next interrupted : Activity} {outcome : Outcome}
      (h : next.EndsIn outcome) : (Activity.wait millis next interrupted).EndsIn outcome
  | waitInterrupted {millis : Nat} {next interrupted : Activity} {outcome : Outcome}
      (h : interrupted.EndsIn outcome) : (Activity.wait millis next interrupted).EndsIn outcome
  | send {request : Http.Request} {next : Http.Reply → Activity} {interrupted : Activity}
      {outcome : Outcome} (reply : Http.Reply) (h : (next reply).EndsIn outcome) :
      (Activity.send request next interrupted).EndsIn outcome
  | sendInterrupted {request : Http.Request} {next : Http.Reply → Activity}
      {interrupted : Activity} {outcome : Outcome} (h : interrupted.EndsIn outcome) :
      (Activity.send request next interrupted).EndsIn outcome

theorem Activity.endsIn_done {outcome outcome' : Outcome} :
    (Activity.done outcome).EndsIn outcome' ↔ outcome' = outcome := by
  constructor
  · rintro ⟨⟩
    rfl
  · rintro rfl
    exact .done

namespace Standard

/-! ### The promise -/

/-- The failures that a node can have although nothing is wrong with its configuration: a source
does not find its key in the initial state, a processor gets data of another kind than it works on,
or a text that is not JSON. -/
inductive Stumbles (n : Node) (initial : Fields) : Failure → Prop where
  | missing {key : String} (kind : n.kind = "data_source") (unconfigured : n.get? "data" = none)
      (asked : n.get? "state_key" = some (.string key)) (absent : initial.get? key = none) :
      Stumbles n initial (.missingInput key)
  | mismatch {expected actual : String} (kind : n.kind = "data_processor") :
      Stumbles n initial (.wrongKind "data" expected actual)
  | unparsed {fault : Json.Fault} (kind : n.kind = "data_processor")
      (asked : Processor.operation n = .ok .jsonParse) :
      Stumbles n initial (.failed ("JSON parse error: " ++ fault.message))

/-- What an execution of a well configured node can come to. -/
structure Promised (n : Node) (initial : Fields) (outcome : Outcome) : Prop where
  stumbles : ∀ f, outcome = .error f → Stumbles n initial f
  request : n.kind = "http_request" → ∃ o, outcome = .ok o
  verdict : n.kind = conditionKind → ∃ o b, outcome = .ok o ∧ o.verdict = some b

variable {n : Node} {initial : Fields}

theorem promised_ok {o : Output} (h : n.kind = conditionKind → ∃ b, o.verdict = some b) :
    Promised n initial (.ok o) where
  stumbles := nofun
  request _ := ⟨o, rfl⟩
  verdict hkind := by
    obtain ⟨b, hb⟩ := h hkind
    exact ⟨o, b, rfl, hb⟩

theorem promised_error {f : Failure} (h : Stumbles n initial f)
    (hkind : n.kind ≠ "http_request" ∧ n.kind ≠ conditionKind) :
    Promised n initial (.error f) where
  stumbles f' hf := by
    obtain rfl := Except.error.inj hf
    exact h
  request hrequest := absurd hrequest hkind.1
  verdict hcondition := absurd hcondition hkind.2

variable {c : Context} {outcome : Outcome}

/-! ### Sources, collectors and delays -/

/-- A source without data is configured with a key. -/
theorem Source.exists_key (h : Source.problems n = []) (hdata : n.get? "data" = none) :
    ∃ key, n.get? "state_key" = some (.string key) := by
  unfold Source.problems at h
  split at h
  · rename_i v hv
    rw [hv]
    cases v with
    | string key => exact ⟨key, rfl⟩
    | _ => simp [Value.string?] at h
  · rw [hdata] at h
    simp at h

theorem Source.promised (hkind : n.kind = "data_source") (h : Source.problems n = [])
    (hends : (Source.execute n c).EndsIn outcome) : Promised n c.initial outcome := by
  have hother : n.kind ≠ "http_request" ∧ n.kind ≠ conditionKind := by
    rw [hkind]
    decide
  unfold Source.execute at hends
  split at hends
  · obtain rfl := Activity.endsIn_done.mp hends
    exact promised_ok fun hcondition => absurd hcondition hother.2
  · rename_i hdata
    obtain ⟨key, hkey⟩ := Source.exists_key h hdata
    rw [hkey] at hends
    dsimp only [Option.bind_some, Value.string?] at hends
    split at hends
    · rename_i habsent
      obtain rfl := Activity.endsIn_done.mp hends
      exact promised_error (.missing hkind hdata hkey habsent) hother
    · obtain rfl := Activity.endsIn_done.mp hends
      exact promised_ok fun hcondition => absurd hcondition hother.2

theorem Collector.promised (hkind : n.kind = "output")
    (hends : (Collector.execute c).EndsIn outcome) : Promised n c.initial outcome := by
  obtain rfl := Activity.endsIn_done.mp hends
  refine promised_ok fun hcondition => ?_
  rw [hkind] at hcondition
  exact absurd hcondition (by decide)

theorem Delay.promised (hkind : n.kind = "delay") (h : Delay.problems n = [])
    (hends : (Delay.execute n c).EndsIn outcome) : Promised n c.initial outcome := by
  have hother : n.kind ≠ conditionKind := by
    rw [hkind]
    decide
  unfold Delay.problems at h
  unfold Delay.execute at hends
  split at h
  · rename_i millis hmillis
    rw [hmillis] at hends
    cases hends with
    | wait hends =>
        obtain rfl := Activity.endsIn_done.mp hends
        exact promised_ok fun hcondition => absurd hcondition hother
    | waitInterrupted hends =>
        obtain rfl := Activity.endsIn_done.mp hends
        exact promised_ok fun hcondition => absurd hcondition hother
  · cases h

/-! ### Conditions -/

theorem Condition.exists_operator (h : Condition.problems n = []) :
    ∃ o, Condition.operator? n = some o := by
  unfold Condition.problems at h
  split at h
  · cases h
  · rename_i o ho
    exact ⟨o, ho⟩

/-- A condition always comes to a verdict. -/
theorem Condition.promised (h : Condition.problems n = [])
    (hends : (Condition.execute n c).EndsIn outcome) : Promised n c.initial outcome := by
  obtain ⟨o, ho⟩ := Condition.exists_operator h
  rw [Condition.execute, ho] at hends
  obtain rfl := Activity.endsIn_done.mp hends
  refine promised_ok fun _ => ⟨o.evaluate (c.findInput (field n)) (n.get? "value"), ?_⟩
  rw [Output.verdict, Output.ofList, Output.ofFields, Table.get?_ofList]
  rfl

/-! ### Processors -/

theorem Operation.onText_eq_error {g : String → Except Failure Value} {v : Value} {f : Failure}
    (h : onText g v = .error f) : f = mismatch "string" v ∨ ∃ s, g s = .error f := by
  unfold onText at h
  split at h
  · rename_i s
    exact Or.inr ⟨s, h⟩
  · exact Or.inl (Except.error.inj h).symm

/-- An operation fails only on data that it does not work on. -/
theorem Operation.apply_eq_error {o : Operation} {step : Float} {v : Value} {f : Failure}
    (h : o.apply step v = .error f) : (∃ expected, f = mismatch expected v) ∨
      (o = .jsonParse ∧
        ∃ fault : Json.Fault, f = .failed ("JSON parse error: " ++ fault.message)) := by
  cases o with
  | passthrough => cases h
  | uppercase =>
      rcases onText_eq_error h with hf | ⟨s, hs⟩
      · exact Or.inl ⟨_, hf⟩
      · cases hs
  | lowercase =>
      rcases onText_eq_error h with hf | ⟨s, hs⟩
      · exact Or.inl ⟨_, hf⟩
      · cases hs
  | length =>
      unfold apply at h
      dsimp only at h
      split at h
      · cases h
      · cases h
      · cases h
      · exact Or.inl ⟨_, (Except.error.inj h).symm⟩
  | increment =>
      unfold apply at h
      dsimp only at h
      split at h
      · cases h
      · cases h
      · exact Or.inl ⟨_, (Except.error.inj h).symm⟩
  | jsonParse =>
      rcases onText_eq_error h with hf | ⟨s, hs⟩
      · exact Or.inl ⟨_, hf⟩
      · split at hs
        · cases hs
        · rename_i fault _
          exact Or.inr ⟨rfl, fault, (Except.error.inj hs).symm⟩
  | jsonStringify => cases h

theorem Processor.exists_operation (h : Processor.problems n = []) :
    ∃ o, Processor.operation n = .ok o := by
  unfold Processor.problems at h
  obtain ⟨hoperation, _⟩ := List.append_eq_nil_iff.mp h
  split at hoperation
  · rename_i o ho
    exact ⟨o, ho⟩
  · cases hoperation

theorem Processor.promised (hkind : n.kind = "data_processor") (h : Processor.problems n = [])
    (hends : (Processor.execute n c).EndsIn outcome) : Promised n c.initial outcome := by
  have hother : n.kind ≠ "http_request" ∧ n.kind ≠ conditionKind := by
    rw [hkind]
    decide
  obtain ⟨o, ho⟩ := Processor.exists_operation h
  rw [Processor.execute, ho] at hends
  obtain ⟨step, data, rfl⟩ : ∃ step data,
      outcome = (o.apply step data).map fun v => .ofList [("data", v)] :=
    ⟨_, _, Activity.endsIn_done.mp hends⟩
  cases happlied : o.apply step data with
  | ok v => exact promised_ok fun hcondition => absurd hcondition hother.2
  | error f =>
      refine promised_error ?_ hother
      rcases Operation.apply_eq_error happlied with ⟨expected, rfl⟩ | ⟨rfl, fault, rfl⟩
      · exact .mismatch hkind
      · exact .unparsed hkind ho

/-! ### Requests -/

theorem Request.exists_address_and_method (h : Request.problems n = []) :
    ∃ u m, Request.url n = .ok u ∧ Request.method n = .ok m := by
  have hremark : ∀ {α : Type} {field : String} {e : Except String α}, remark field e = [] →
      ∃ a, e = .ok a := by
    intro α field e hnone
    cases e with
    | ok a => exact ⟨a, rfl⟩
    | error text => cases hnone
  obtain ⟨hremarks, _⟩ := List.append_eq_nil_iff.mp h
  obtain ⟨hurl, hmethod⟩ := List.append_eq_nil_iff.mp hremarks
  obtain ⟨u, hu⟩ := hremark hurl
  obtain ⟨m, hm⟩ := hremark hmethod
  exact ⟨u, m, hu, hm⟩

/-- What is handed on when a request fails is an output like any other. -/
theorem Request.ok_of_failure {text : String} (h : (Request.failure text).EndsIn outcome) :
    ∃ o, outcome = .ok o :=
  ⟨_, Activity.endsIn_done.mp h⟩

theorem Request.ok_of_answered {address : String} {reply : Http.Reply}
    (h : (Request.answered address reply).EndsIn outcome) : ∃ o, outcome = .ok o := by
  cases reply with
  | answered response => exact ⟨_, Activity.endsIn_done.mp h⟩
  | unreachable => exact ok_of_failure h
  | cutShort => exact ok_of_failure h

/-- A request comes to something, whatever becomes of it on the way. -/
theorem Request.ok_of_execute (h : Request.problems n = [])
    (hends : (Request.execute n c).EndsIn outcome) : ∃ o, outcome = .ok o := by
  obtain ⟨u, m, hu, hm⟩ := Request.exists_address_and_method h
  unfold Request.execute at hends
  rw [hu] at hends
  dsimp only at hends
  rw [hm] at hends
  dsimp only at hends
  split at hends
  · exact ok_of_failure hends
  · split at hends
    · exact ok_of_failure hends
    · cases hends with
      | send reply hanswered => exact ok_of_answered hanswered
      | sendInterrupted hfailed => exact ok_of_failure hfailed

theorem Request.promised (hkind : n.kind = "http_request") (h : Request.problems n = [])
    (hends : (Request.execute n c).EndsIn outcome) : Promised n c.initial outcome := by
  obtain ⟨o, rfl⟩ := Request.ok_of_execute h hends
  refine promised_ok fun hcondition => ?_
  rw [hkind] at hcondition
  exact absurd hcondition (by decide)

/-! ### The catalog -/

theorem mem_kinds_of_get? {name : String} {k : Kind} (h : catalog.kinds.get? name = some k) :
    k ∈ kinds ∧ k.name = name := by
  have hcatalog : catalog.kinds = Table.ofList (kinds.map fun k => (k.name, k)) := rfl
  rw [hcatalog, Table.get?_ofList] at h
  obtain ⟨k', hk', heq⟩ := List.mem_map.mp (List.mem_reverse.mp (Table.lookup_eq_some_mem h))
  obtain ⟨rfl, rfl⟩ := Prod.mk.inj heq
  exact ⟨hk', rfl⟩

/-- A node without remarks about its configuration keeps the promise. -/
theorem promised_of_instantiate {made : Instance} (hmade : catalog.instantiate n = .ok made)
    (h : made.problems = []) (hends : (made.execute c).EndsIn outcome) :
    Promised n c.initial outcome := by
  unfold Catalog.instantiate at hmade
  split at hmade
  · cases hmade
  · rename_i k hk
    obtain ⟨hmem, hname⟩ := mem_kinds_of_get? hk
    simp only [kinds, List.mem_cons, List.not_mem_nil, or_false] at hmem
    rcases hmem with rfl | rfl | rfl | rfl | rfl | rfl
    · obtain rfl := Except.ok.inj hmade
      exact Source.promised hname.symm h hends
    · obtain rfl := Except.ok.inj hmade
      exact Processor.promised hname.symm h hends
    · obtain rfl := Except.ok.inj hmade
      exact Request.promised hname.symm h hends
    · obtain rfl := Except.ok.inj hmade
      exact Condition.promised h hends
    · obtain rfl := Except.ok.inj hmade
      exact Collector.promised hname.symm hends
    · obtain rfl := Except.ok.inj hmade
      exact Delay.promised hname.symm h hends

end Standard
end Workflow
