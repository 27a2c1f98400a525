import GraphQuery.Binding.Directives
import GraphQuery.Proofs.Success

/-!
# Faults of bindings

Which faults the values of arguments and directives can have. Main statements: a fault in the
arguments of a field has one of five reasons and never ends the request, and a field whose
directives have been checked can always be wrapped by them.
-/

namespace GraphQuery

namespace Bindings

variable {bindings : Bindings}

/-- Why the arguments of a field or of a directive cannot be bound to its parameters. -/
inductive Unbound (bindings : Bindings) (parameters : List Parameter) : ExecutionFault → Prop
  | undeclared {name} : Unbound bindings parameters (.coercion (.unknownArgument name))
  | unknownVariable {name} : Unbound bindings parameters (.coercion (.unknownVariable name))
  | unsupported {term position} : Unbound bindings parameters (.unsupported term (some position))
  | invalid {parameter value source} (hmem : parameter ∈ parameters)
      (h : bindings.schema.coerce parameter.type value = .error source) :
      Unbound bindings parameters (.coercion (.invalidArgument parameter.name source))
  | missing {parameter} (hmem : parameter ∈ parameters) :
      Unbound bindings parameters
        (.coercion (.missingArgument parameter.name parameter.type.text))

section

variable {parameters : List Parameter} {position : Position}

mutual

private theorem unbound_readTerm :
    ∀ term : Term, FailsOnly (bindings.Unbound parameters) (bindings.readTerm position term)
  | .list items => by
    rw [readTerm]
    split
    · exact .ok _
    · exact (unbound_readItems items).map Value.list
  | .variable name => by
    rw [readTerm]
    split
    · exact .ok _
    · split
      · exact .ok _
      · exact .error .unknownVariable
  | .object fields => by
    rw [readTerm]
    split
    · exact .ok _
    · exact .error .unsupported
  | .null | .number _ | .string _ | .boolean _ | .binary _ | .enum _ => by
    simp only [readTerm]
    split
    · exact .ok _
    · exact .error .unsupported

private theorem unbound_readItems :
    ∀ items : List Term, FailsOnly (bindings.Unbound parameters) (bindings.readItems position items)
  | [] => .ok []
  | term :: rest => by
    rw [readItems]
    exact (unbound_readTerm term).bind fun value =>
      (unbound_readItems rest).bind fun values => .ok (value :: values)

end

private theorem unbound_bindParameter {parameter : Parameter} (hmem : parameter ∈ parameters)
    (arguments : List Argument) :
    FailsOnly (bindings.Unbound parameters) (bindings.bindParameter arguments parameter) := by
  unfold bindParameter
  split
  · refine (unbound_readTerm _).bind fun value => ?_
    cases hcoerce : bindings.schema.coerce parameter.type value with
    | ok coerced => exact .ok coerced
    | error source => exact .error (.invalid hmem hcoerce)
  · split
    · exact .ok _
    · split
      · exact .ok Value.null
      · exact .error (.missing hmem)

theorem unbound_bindArguments (parameters : List Parameter) (arguments : List Argument) :
    FailsOnly (bindings.Unbound parameters) (bindings.bindArguments parameters arguments) := by
  unfold bindArguments
  split
  · exact .error .undeclared
  · refine .mapM fun parameter hmem => ?_
    exact (unbound_bindParameter hmem arguments).bind fun value => .ok (parameter.name, value)

end

theorem not_fatal_of_bindArguments {parameters : List Parameter} {arguments : List Argument}
    {fault : ExecutionFault} (h : bindings.bindArguments parameters arguments = .error fault) :
    fault.isFatal = false := by
  cases unbound_bindArguments parameters arguments fault h <;> rfl

theorem exists_wrapProducer_of_keeps {uses : List DirectiveUse} {kept : Bool}
    (h : bindings.keeps .field uses = .ok kept) (producer : Producer) (parent : Json) :
    ∃ wrapped, bindings.wrapProducer producer parent uses = .ok wrapped := by
  rw [keeps, bind_eq_ok_iff] at h
  obtain ⟨directives, hdirectives, -⟩ := h
  rw [wrapProducer, hdirectives]
  exact ⟨_, rfl⟩

end Bindings

end GraphQuery
