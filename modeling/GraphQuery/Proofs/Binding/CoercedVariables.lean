import GraphQuery.Proofs.Binding.KnownInputs
import GraphQuery.Proofs.Binding.Routes
import Mathlib.Data.List.Induction

/-!
# Coerced variables

Which values the variables of an operation have, and when they have none. Main statement: each
declared variable is the coercion of its effective value for the last definition of the name, and
of the definitions that refuse their variable the first one is reported.
-/

namespace GraphQuery

namespace VariableDefinition

/-- What is coerced for a variable: the supplied value, null included, or else the default, or else
null. -/
inductive Effective (definition : VariableDefinition) (inputs : Variables) : Value → Prop
  | held {value} (h : definition.Holds inputs value) : Effective definition inputs value
  | absent (hinput : inputs.get? definition.name = none) (hdefault : definition.default = none) :
      Effective definition inputs .null

/-- The variable has a known input type, into which its effective value is coerced. -/
structure Gives (definition : VariableDefinition) (system : TypeSystem) (inputs : Variables)
    (result : Value) : Prop where
  input : system.KnowsInput definition.type
  coerced : ∃ value, definition.Effective inputs value ∧
    system.coerceInput definition.type value = .ok result

/-- Why a variable has no value. -/
inductive Refuses (definition : VariableDefinition) (system : TypeSystem) (inputs : Variables) :
    ExecutionFault → Prop
  | unknown (htype : system.innermost? definition.type = none) :
      Refuses definition system inputs
        (.validation (.unknownType definition.type.innermost definition.typePosition))
  | output {type} (htype : system.innermost? definition.type = some type)
      (houtput : type.isInput = false) :
      Refuses definition system inputs
        (.validation
          (.nonInputVariable definition.name definition.type.text definition.position))
  | uncoerced {value source} (hinput : system.KnowsInput definition.type)
      (hvalue : definition.Effective inputs value)
      (h : system.coerceInput definition.type value = .error source) :
      Refuses definition system inputs (.variable definition.name definition.position source)

section

variable {definition : VariableDefinition} {schema : Schema} {inputs : Variables} {value : Value}

private theorem effective_iff :
    definition.Effective inputs value ↔ definition.supplied inputs = value := by
  constructor
  · intro h
    cases h with
    | held h => exact h.supplied_eq
    | absent hinput hdefault => rw [supplied, hinput, hdefault, Option.getD_none, Option.getD_none]
  · intro h
    subst h
    cases hinput : inputs.get? definition.name with
    | some value =>
      rw [supplied, hinput]
      exact .held (.supplied hinput)
    | none =>
      cases hdefault : definition.default with
      | some value =>
        rw [supplied, hinput, hdefault]
        exact .held (.default hinput hdefault)
      | none =>
        rw [supplied, hinput, hdefault]
        exact .absent hinput hdefault

private theorem coerce_of_knowsInput (htranslator : schema.translator = .standard)
    (h : schema.KnowsInput definition.type) :
    definition.coerce schema inputs =
      (schema.coerceInput definition.type (definition.supplied inputs)).mapError
        (.variable definition.name definition.position) := by
  rw [coerce_of_input h, Schema.coerce, htranslator]
  rfl

private theorem coerce_of_unknown (inputs : Variables)
    (htype : schema.innermost? definition.type = none) :
    definition.coerce schema inputs =
      .error (.validation (.unknownType definition.type.innermost definition.typePosition)) := by
  rw [coerce, checkType, htype]
  rfl

private theorem coerce_of_output (inputs : Variables) {type : TypeDefinition}
    (htype : schema.innermost? definition.type = some type) (houtput : type.isInput = false) :
    definition.coerce schema inputs =
      .error (.validation
        (.nonInputVariable definition.name definition.type.text definition.position)) := by
  rw [coerce, checkType, htype]
  simp only [houtput, Bool.false_eq_true, if_false]
  rfl

private theorem knowsInput_of_coerce (h : definition.coerce schema inputs = .ok value) :
    schema.KnowsInput definition.type := by
  obtain ⟨_, hcheck, -⟩ := bind_eq_ok_iff.1 h
  exact knowsInput_of_checkType hcheck

private theorem coerce_eq_ok_iff (htranslator : schema.translator = .standard) {result : Value} :
    definition.coerce schema inputs = .ok result ↔
      definition.Gives schema.toTypeSystem inputs result := by
  constructor
  · intro h
    have hinput := knowsInput_of_coerce h
    rw [coerce_of_knowsInput htranslator hinput, mapError_eq_ok_iff] at h
    exact ⟨hinput, _, effective_iff.2 rfl, h⟩
  · intro h
    obtain ⟨value, hvalue, hcoerced⟩ := h.coerced
    rw [coerce_of_knowsInput htranslator h.input, mapError_eq_ok_iff, effective_iff.1 hvalue]
    exact hcoerced

private theorem coerce_eq_error_iff (htranslator : schema.translator = .standard)
    {fault : ExecutionFault} :
    definition.coerce schema inputs = .error fault ↔
      definition.Refuses schema.toTypeSystem inputs fault := by
  constructor
  · intro h
    cases htype : schema.innermost? definition.type with
    | none =>
      obtain rfl := Except.error.inj ((coerce_of_unknown inputs htype).symm.trans h)
      exact .unknown htype
    | some type =>
      cases hinput : type.isInput with
      | false =>
        obtain rfl := Except.error.inj ((coerce_of_output inputs htype hinput).symm.trans h)
        exact .output htype hinput
      | true =>
        have hknown : schema.KnowsInput definition.type := ⟨type, htype, hinput⟩
        rw [coerce_of_knowsInput htranslator hknown, mapError_eq_error_iff] at h
        obtain ⟨source, hsource, rfl⟩ := h
        exact .uncoerced hknown (effective_iff.2 rfl) hsource
  · intro h
    cases h with
    | unknown htype => exact coerce_of_unknown inputs htype
    | output htype houtput => exact coerce_of_output inputs htype houtput
    | @uncoerced value source hinput hvalue h =>
      rw [coerce_of_knowsInput htranslator hinput, mapError_eq_error_iff, effective_iff.1 hvalue]
      exact ⟨source, h, rfl⟩

end

end VariableDefinition

namespace Variables

section

variable {schema : Schema} {inputs : Variables} {definitions : List VariableDefinition}
  {definition : VariableDefinition} {values : Keyed Value}

private theorem coerce_concat :
    inputs.coerce schema (definitions ++ [definition]) = (do
      let values ← inputs.coerce schema definitions
      pure (values.insert definition.name (← definition.coerce schema inputs))) := by
  simp only [coerce, List.foldlM_append, List.foldlM_cons, List.foldlM_nil, bind_pure]

private theorem coerce_concat_eq_ok_iff :
    inputs.coerce schema (definitions ++ [definition]) = .ok values ↔
      ∃ first value, inputs.coerce schema definitions = .ok first ∧
        definition.coerce schema inputs = .ok value ∧
        first.insert definition.name value = values := by
  rw [coerce_concat]
  simp only [bind_eq_ok_iff, pure_eq_ok_iff]
  constructor
  · intro h
    obtain ⟨first, hfirst, value, hvalue, hinsert⟩ := h
    exact ⟨first, value, hfirst, hvalue, hinsert⟩
  · intro h
    obtain ⟨first, value, hfirst, hvalue, hinsert⟩ := h
    exact ⟨first, hfirst, value, hvalue, hinsert⟩

private theorem accepts_of_coerce (h : inputs.coerce schema definitions = .ok values) :
    ∀ definition ∈ definitions, definition.Accepts schema inputs := by
  induction definitions using List.reverseRecOn generalizing values with
  | nil => exact nofun
  | append_singleton definitions definition ih =>
    obtain ⟨first, value, hfirst, hvalue, -⟩ := coerce_concat_eq_ok_iff.1 h
    intro declared hmem
    rcases List.mem_append.1 hmem with hmem | hmem
    · exact ih hfirst declared hmem
    · rw [List.mem_singleton.1 hmem]
      exact ⟨value, hvalue⟩

private theorem exists_coerce_iff : (∃ values, inputs.coerce schema definitions = .ok values) ↔
    ∀ definition ∈ definitions, definition.Accepts schema inputs := by
  constructor
  · intro ⟨values, h⟩
    exact accepts_of_coerce h
  · intro h
    exact exists_foldlM_eq_ok (fun definition hmem => (h definition hmem).step) []

/-- A name resolves exactly if it is declared. -/
theorem exists_get?_coerce_iff (h : inputs.coerce schema definitions = .ok values) (name : String) :
    (∃ value, values.get? name = some value) ↔
      ∃ definition ∈ definitions, definition.name = name := by
  induction definitions using List.reverseRecOn generalizing values with
  | nil =>
    cases h
    simp [Keyed.get?]
  | append_singleton definitions definition ih =>
    obtain ⟨first, value, hfirst, -, hinsert⟩ := coerce_concat_eq_ok_iff.1 h
    rw [← hinsert, Keyed.get?_insert]
    by_cases hname : definition.name = name
    · simp [hname]
    · simp [hname, ih hfirst]

private theorem exists_of_coerce_eq_error {fault : ExecutionFault}
    (h : inputs.coerce schema definitions = .error fault) :
    ∃ before definition after, definitions = before ++ definition :: after ∧
      (∀ earlier ∈ before, earlier.Accepts schema inputs) ∧
      definition.coerce schema inputs = .error fault := by
  induction definitions using List.reverseRecOn with
  | nil => cases h
  | append_singleton definitions definition ih =>
    rw [coerce_concat, bind_eq_error_iff] at h
    rcases h with h | ⟨first, hfirst, h⟩
    · obtain ⟨before, failing, after, hsplit, hbefore, hfailing⟩ := ih h
      refine ⟨before, failing, after ++ [definition], ?_, hbefore, hfailing⟩
      rw [hsplit, List.append_assoc, List.cons_append]
    · refine ⟨definitions, definition, [], rfl, accepts_of_coerce hfirst, ?_⟩
      rcases bind_eq_error_iff.1 h with h | ⟨value, -, h⟩
      · exact h
      · cases h

end

/-- Variables are coerced exactly if each definition has a known input type and its effective value
can be coerced into it. Then the declared names resolve and no others, each to what the last of
its definitions gives, which is a value of the declared type. Otherwise the first definition that
refuses its variable says why. -/
theorem coerce_exactly (schema : Schema) (htranslator : schema.translator = .standard)
    (inputs : Variables) (definitions : List VariableDefinition) :
    ((∃ values, inputs.coerce schema definitions = .ok values) ↔
      ∀ definition ∈ definitions, ∃ value, definition.Gives schema.toTypeSystem inputs value) ∧
    (∀ values, inputs.coerce schema definitions = .ok values →
      (∀ name, (∃ value, values.get? name = some value) ↔
        ∃ definition ∈ definitions, definition.name = name) ∧
      ∀ before definition after, definitions = before ++ definition :: after →
        (∀ later ∈ after, later.name ≠ definition.name) →
        ∃ value, values.get? definition.name = some value ∧
          definition.Gives schema.toTypeSystem inputs value ∧
          schema.InputValue definition.type value) ∧
    ∀ fault, inputs.coerce schema definitions = .error fault ↔
      ∃ before definition after, definitions = before ++ definition :: after ∧
        (∀ earlier ∈ before, ∃ value, earlier.Gives schema.toTypeSystem inputs value) ∧
        definition.Refuses schema.toTypeSystem inputs fault := by
  have haccepts (definition : VariableDefinition) : definition.Accepts schema inputs ↔
      ∃ value, definition.Gives schema.toTypeSystem inputs value := by
    simp only [VariableDefinition.Accepts, VariableDefinition.coerce_eq_ok_iff htranslator]
  simp only [← haccepts, ← VariableDefinition.coerce_eq_error_iff htranslator]
  refine ⟨exists_coerce_iff, ?_, ?_⟩
  · intro values h
    refine ⟨exists_get?_coerce_iff h, ?_⟩
    intro before definition after hsplit hlast
    subst hsplit
    have hall := accepts_of_coerce h
    rw [List.forall_mem_append, List.forall_mem_cons] at hall
    obtain ⟨hbefore, ⟨value, hvalue⟩, hafter⟩ := hall
    obtain ⟨again, hagain, hget⟩ := exists_coerce_eq_ok hvalue hbefore hafter hlast
    obtain rfl := Except.ok.inj (h.symm.trans hagain)
    have hgives := (VariableDefinition.coerce_eq_ok_iff htranslator).1 hvalue
    obtain ⟨_, -, hcoerced⟩ := hgives.coerced
    exact ⟨value, hget, hgives, TypeSystem.inputValue_of_coerceInput hcoerced⟩
  · intro fault
    constructor
    · exact exists_of_coerce_eq_error
    · intro ⟨before, definition, after, hsplit, hbefore, hfault⟩
      rw [hsplit]
      exact coerce_eq_error hfault hbefore

/-- A schema with the built-in scalars and no other input types. -/
def parcelSchema : Schema :=
  { toTypeSystem := (SchemaDraft.new "Query").typeSystem
    resolvers := .parents
    directives := []
    translator := .standard }

def parcelSize : VariableDefinition := ⟨⟨1, 8⟩, "size", .named "Int" true, ⟨1, 15⟩, [], none⟩

def parcelLabel : VariableDefinition :=
  ⟨⟨1, 20⟩, "label", .named "String" true, ⟨1, 28⟩, [], some (.string "none")⟩

def parcelSizes : VariableDefinition :=
  ⟨⟨1, 45⟩, "size", .list (.named "Int" false) true, ⟨1, 52⟩, [], none⟩

def parcelCount : VariableDefinition := ⟨⟨1, 60⟩, "count", .named "Int" false, ⟨1, 68⟩, [], none⟩

def parcelBox : VariableDefinition := ⟨⟨1, 73⟩, "box", .named "Box" true, ⟨1, 79⟩, [], none⟩

def parcelInputs : Variables :=
  (Variables.empty.insert "size" (.number (.int 4))).insert "label" .null

/-- Under `($size: Int, $label: String = "none", $size: [Int!])` the size 4 is a list and a null
stays a null, and a count that is required comes before a type that is unknown. -/
theorem coerce_parcelDefinitions :
    (∃ values,
      parcelInputs.coerce parcelSchema [parcelSize, parcelLabel, parcelSizes] = .ok values ∧
      values.get? "size" = some (.list [.number (.int 4)]) ∧
      values.get? "label" = some .null ∧ ¬ ∃ value, values.get? "count" = some value) ∧
    Variables.empty.coerce parcelSchema [parcelSize, parcelCount, parcelBox] =
      .error (.variable "count" ⟨1, 60⟩ (.unexpectedNull "Int!" [])) := by
  have hexact := coerce_exactly parcelSchema rfl
  have hint : parcelSchema.KnowsInput (.named "Int" true) := ⟨_, rfl, rfl⟩
  constructor
  · refine ⟨_, rfl, rfl, rfl, ?_⟩
    rw [((hexact parcelInputs [parcelSize, parcelLabel, parcelSizes]).2.1 _ rfl).1]
    decide
  · apply ((hexact _ _).2.2 _).2
    refine ⟨[parcelSize], parcelCount, [parcelBox], rfl, ?_, ?_⟩
    · rw [List.forall_mem_singleton]
      exact ⟨.null, hint, .null, .absent rfl rfl, rfl⟩
    · exact .uncoerced ⟨_, rfl, rfl⟩ (.absent rfl rfl) rfl

end Variables

end GraphQuery
