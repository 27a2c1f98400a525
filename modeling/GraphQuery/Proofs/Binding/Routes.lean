import GraphQuery.Binding.Arguments
import GraphQuery.Binding.Variables
import GraphQuery.Proofs.TypeSystem.InputValue

/-!
# Routes of values

The ways on which a value comes to a parameter: written as a literal, through a variable, or as the
default of the parameter. Main statements: each of them binds what the coercion of the value gives,
and only a literal's fault is one of the argument.
-/

namespace GraphQuery

/-- Values without an object in them, lists nested to any depth. -/
inductive Value.ObjectFree : Value → Prop
  | null : ObjectFree .null
  | number {n} : ObjectFree (.number n)
  | string {s} : ObjectFree (.string s)
  | boolean {b} : ObjectFree (.boolean b)
  | binary {bytes} : ObjectFree (.binary bytes)
  | enum {name} : ObjectFree (.enum name)
  | list {items} (hitems : ∀ item ∈ items, ObjectFree item) : ObjectFree (.list items)

/-- The term is written for the parameter, in the argument that counts. -/
def Parameter.Written (parameter : Parameter) (arguments : List Argument) (term : Term) : Prop :=
  ∃ argument, arguments.find? (fun argument => argument.name == parameter.name) = some argument ∧
    argument.value = term

/-- Nothing is written for the parameter. -/
def Parameter.Omitted (parameter : Parameter) (arguments : List Argument) : Prop :=
  ∀ argument ∈ arguments, argument.name ≠ parameter.name

namespace VariableDefinition

/-- The value comes with the request, or it is the default and none comes with the request. -/
inductive Holds (definition : VariableDefinition) (inputs : Variables) (value : Value) : Prop
  | supplied (h : inputs.get? definition.name = some value)
  | default (hinput : inputs.get? definition.name = none) (h : definition.default = some value)

/-- The variable can be coerced. -/
def Accepts (definition : VariableDefinition) (schema : Schema) (inputs : Variables) : Prop :=
  ∃ value, definition.coerce schema inputs = .ok value

variable {definition : VariableDefinition} {schema : Schema} {inputs : Variables} {value : Value}

theorem Holds.supplied_eq (h : definition.Holds inputs value) :
    definition.supplied inputs = value := by
  rw [VariableDefinition.supplied]
  cases h with
  | supplied h => rw [h, Option.getD_some]
  | default hinput h => rw [hinput, h, Option.getD_none, Option.getD_some]

/-- A variable of an input type is what the coercion of its value gives. -/
theorem coerce_of_input
    (hinput : ∃ type, schema.innermost? definition.type = some type ∧ type.isInput = true) :
    definition.coerce schema inputs =
      (schema.coerce definition.type (definition.supplied inputs)).mapError
        (.variable definition.name definition.position) := by
  obtain ⟨type, htype, hinput⟩ := hinput
  have hcheck : definition.checkType schema.toTypeSystem = .ok () := by
    simp only [checkType, htype, hinput, if_true]
  simp only [coerce, hcheck]
  cases schema.coerce definition.type (definition.supplied inputs) <;> rfl

theorem Holds.coerce_eq (h : definition.Holds inputs value)
    (hinput : ∃ type, schema.innermost? definition.type = some type ∧ type.isInput = true) :
    definition.coerce schema inputs =
      (schema.coerce definition.type value).mapError
        (.variable definition.name definition.position) := by
  rw [coerce_of_input hinput, h.supplied_eq]

theorem Accepts.step (h : definition.Accepts schema inputs) (values : Keyed Value) :
    ∃ next, (do
      pure (values.insert definition.name (← definition.coerce schema inputs)) :
        Except ExecutionFault (Keyed Value)) = .ok next := by
  obtain ⟨value, hvalue⟩ := h
  exact ⟨values.insert definition.name value, by rw [hvalue]; rfl⟩

end VariableDefinition

namespace Variables

variable {schema : Schema} {inputs : Variables} {before after : List VariableDefinition}
  {definition : VariableDefinition} {values : Keyed Value}

/-- The last definition of a name gives the value of the variable. -/
theorem exists_coerce_eq_ok {value : Value} (hvalue : definition.coerce schema inputs = .ok value)
    (hbefore : ∀ earlier ∈ before, earlier.Accepts schema inputs)
    (hafter : ∀ later ∈ after, later.Accepts schema inputs)
    (hlast : ∀ later ∈ after, later.name ≠ definition.name) :
    ∃ values, inputs.coerce schema (before ++ definition :: after) = .ok values ∧
      values.get? definition.name = some value := by
  obtain ⟨first, hfirst⟩ := exists_foldlM_eq_ok (fun earlier hmem => (hbefore earlier hmem).step) []
  obtain ⟨values, hvalues⟩ := exists_foldlM_eq_ok (fun later hmem => (hafter later hmem).step)
    (first.insert definition.name value)
  refine ⟨values, ?_, ?_⟩
  · simp only [coerce, List.foldlM_append, List.foldlM_cons, hfirst, hvalue]
    exact hvalues
  · refine foldlM_invariant (p := fun values => values.get? definition.name = some value)
      (fun later hmem values next hnext hget => ?_) hvalues ?_
    · simp only [bind_eq_ok_iff, pure_eq_ok_iff] at hnext
      obtain ⟨other, -, rfl⟩ := hnext
      rw [Keyed.get?_insert, if_neg (hlast later hmem), hget]
    · rw [Keyed.get?_insert, if_pos rfl]

theorem coerce_eq_error {fault : ExecutionFault}
    (hfault : definition.coerce schema inputs = .error fault)
    (hbefore : ∀ earlier ∈ before, earlier.Accepts schema inputs) :
    inputs.coerce schema (before ++ definition :: after) = .error fault := by
  obtain ⟨first, hfirst⟩ := exists_foldlM_eq_ok (fun earlier hmem => (hbefore earlier hmem).step) []
  simp only [coerce, List.foldlM_append, List.foldlM_cons, hfirst, hfault]
  rfl

end Variables

namespace Bindings

variable {bindings : Bindings} {parameter : Parameter} {arguments : List Argument}

private theorem readItems_ofItems {position : Position} {items : List Value}
    (h : ∀ item ∈ items, bindings.readTerm position (.ofValue item) = .ok item) :
    bindings.readItems position (Term.ofItems items) = .ok items := by
  induction items with
  | nil => rfl
  | cons item rest ih =>
    rw [List.forall_mem_cons] at h
    rw [Term.ofItems, readItems, h.1, ih h.2]
    rfl

private theorem readTerm_ofValue (htranslator : bindings.schema.translator = .standard)
    (position : Position) {value : Value} (h : value.ObjectFree) :
    bindings.readTerm position (.ofValue value) = .ok value := by
  induction h with
  | null | number | string | boolean | binary | enum =>
    simp only [Term.ofValue, readTerm, htranslator, Translator.standard, Translator.literal?]
  | list _ ih =>
    rw [Term.ofValue, readTerm, htranslator]
    exact congrArg (Functor.map Value.list) (readItems_ofItems ih)

theorem find?_argument_eq_none_iff :
    arguments.find? (fun argument => argument.name == parameter.name) = none ↔
      parameter.Omitted arguments := by
  simp [Parameter.Omitted]

private theorem bindParameter_of_written {term : Term} (hwritten : parameter.Written arguments term)
    {value : Value} (hterm : ∀ position, bindings.readTerm position term = .ok value) :
    bindings.bindParameter arguments parameter =
      (bindings.schema.coerce parameter.type value).mapError fun source =>
        .coercion (.invalidArgument parameter.name source) := by
  obtain ⟨argument, hfind, rfl⟩ := hwritten
  simp only [bindParameter, hfind, hterm, bind, Except.bind]
  cases bindings.schema.coerce parameter.type value <;> rfl

theorem bindParameter_of_literal (htranslator : bindings.schema.translator = .standard)
    {value : Value} (hfree : value.ObjectFree)
    (hwritten : parameter.Written arguments (.ofValue value)) :
    bindings.bindParameter arguments parameter =
      (bindings.schema.coerce parameter.type value).mapError fun source =>
        .coercion (.invalidArgument parameter.name source) :=
  bindParameter_of_written hwritten fun position => readTerm_ofValue htranslator position hfree

theorem bindParameter_of_variable (htranslator : bindings.schema.translator = .standard)
    {name : String} {value result : Value} (hwritten : parameter.Written arguments (.variable name))
    (hget : bindings.values.get? name = some result)
    (hcoerce : bindings.schema.coerce parameter.type value = .ok result) :
    bindings.bindParameter arguments parameter = .ok result := by
  have hterm (position : Position) :
      bindings.readTerm position (.variable name) = .ok result := by
    simp only [readTerm, htranslator, Translator.standard, Translator.literal?, hget]
  have hagain : bindings.schema.coerce parameter.type result = .ok result := by
    rw [Schema.coerce, htranslator] at hcoerce ⊢
    exact (TypeSystem.inputValue_of_coerceInput hcoerce).coerceInput_eq
  rw [bindParameter_of_written hwritten hterm, hagain]
  rfl

theorem bindParameter_of_omitted (homitted : parameter.Omitted arguments) {value : Value}
    (hdefault : parameter.default = some value) :
    bindings.bindParameter arguments parameter = .ok value := by
  simp only [bindParameter, find?_argument_eq_none_iff.2 homitted, hdefault]

theorem bindArguments_eq_error {before after : List Parameter} {fault : ExecutionFault}
    (hdeclared : undeclared? (before ++ parameter :: after) arguments = none)
    (hbefore : ∀ earlier ∈ before, ∃ value, bindings.bindParameter arguments earlier = .ok value)
    (hfault : bindings.bindParameter arguments parameter = .error fault) :
    bindings.bindArguments (before ++ parameter :: after) arguments = .error fault := by
  rw [bindArguments, hdeclared]
  refine mapM_eq_error (fun earlier hmem => ?_) ?_
  · obtain ⟨value, hvalue⟩ := hbefore earlier hmem
    exact ⟨(earlier.name, value), by rw [hvalue]; rfl⟩
  · rw [hfault]
    rfl

end Bindings

end GraphQuery
