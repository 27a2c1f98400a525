import GraphQuery.Proofs.Binding.Routes
import GraphQuery.Schema.Draft
import Mathlib.Data.List.Find
import Mathlib.Data.List.Nodup

/-!
# Order of arguments

What the order in which a document writes arguments matters to. Main statement: arguments whose
names differ are bound alike in every order, with the faults of the parameters in the order of
their declaration; only which of several undeclared arguments is reported may change.
-/

namespace GraphQuery

/-- No parameter has the name of the argument. -/
def Argument.Undeclared (parameters : List Parameter) (argument : Argument) : Prop :=
  ∀ parameter ∈ parameters, parameter.name ≠ argument.name

instance (parameters : List Parameter) (argument : Argument) :
    Decidable (argument.Undeclared parameters) :=
  inferInstanceAs (Decidable (∀ parameter ∈ parameters, parameter.name ≠ argument.name))

namespace Bindings

/-- Why a parameter gets no value: the argument for it cannot be read, what is read cannot be
coerced, or there is no argument where one is required. -/
inductive Unsupplied (bindings : Bindings) (arguments : List Argument) (parameter : Parameter) :
    Prop
  | unread {argument fault} (hmem : argument ∈ arguments) (hname : argument.name = parameter.name)
      (h : bindings.readTerm argument.position argument.value = .error fault) :
      Unsupplied bindings arguments parameter
  | uncoerced {argument value source} (hmem : argument ∈ arguments)
      (hname : argument.name = parameter.name)
      (hread : bindings.readTerm argument.position argument.value = .ok value)
      (h : bindings.schema.coerce parameter.type value = .error source) :
      Unsupplied bindings arguments parameter
  | missing (homitted : parameter.Omitted arguments) (hdefault : parameter.default = none)
      (hnonnull : parameter.type.nullable = false) : Unsupplied bindings arguments parameter

section

variable {bindings : Bindings} {parameters : List Parameter} {arguments arguments' : List Argument}

private theorem undeclared?_eq_none_iff :
    undeclared? parameters arguments = none ↔
      ∀ argument ∈ arguments, ¬ argument.Undeclared parameters := by
  simp [undeclared?, Argument.Undeclared]

private theorem exists_undeclared?_of_mem {argument : Argument} (hmem : argument ∈ arguments)
    (h : argument.Undeclared parameters) :
    ∃ first, undeclared? parameters arguments = some first := by
  cases hfirst : undeclared? parameters arguments with
  | some first => exact ⟨first, rfl⟩
  | none => exact absurd h (undeclared?_eq_none_iff.1 hfirst argument hmem)

private theorem bindArguments_of_undeclared
    (h : ∃ argument ∈ arguments, argument.Undeclared parameters) :
    ∃ first ∈ arguments, first.Undeclared parameters ∧
      bindings.bindArguments parameters arguments =
        .error (.coercion (.unknownArgument first.name)) := by
  obtain ⟨argument, hmem, hundeclared⟩ := h
  obtain ⟨first, hfirst⟩ := exists_undeclared?_of_mem hmem hundeclared
  refine ⟨first, List.mem_of_find?_eq_some hfirst, ?_, ?_⟩
  · intro parameter hparameter
    have hnone := List.find?_some hfirst
    simp only [Bool.not_eq_true', List.any_eq_false, beq_iff_eq] at hnone
    exact hnone parameter hparameter
  · rw [bindArguments, hfirst]

private theorem bindParameter_eq_error_iff (hdistinct : (arguments.map Argument.name).Nodup)
    {parameter : Parameter} : (∃ fault, bindings.bindParameter arguments parameter = .error fault) ↔
      bindings.Unsupplied arguments parameter := by
  have hfind {argument : Argument} :
      arguments.find? (fun argument => argument.name == parameter.name) = some argument ↔
        argument ∈ arguments ∧ argument.name = parameter.name :=
    find?_key_eq_some_iff hdistinct
  unfold bindParameter
  constructor
  · intro ⟨fault, h⟩
    split at h
    · next argument hargument =>
      obtain ⟨hmem, hname⟩ := hfind.1 hargument
      rcases bind_eq_error_iff.1 h with hread | ⟨value, hread, hcoerce⟩
      · exact .unread hmem hname hread
      · split at hcoerce
        · cases hcoerce
        · next source hsource => exact .uncoerced hmem hname hread hsource
    · next hnone =>
      have homitted := find?_argument_eq_none_iff.1 hnone
      cases hdefault : parameter.default with
      | some value => simp [hdefault] at h
      | none =>
        cases hnullable : parameter.type.nullable with
        | true => simp [hdefault, hnullable] at h
        | false => exact .missing homitted hdefault hnullable
  · intro h
    cases h with
    | @unread argument fault hmem hname hread =>
      rw [hfind.2 ⟨hmem, hname⟩]
      exact ⟨fault, by simp only [hread]; rfl⟩
    | @uncoerced argument value source hmem hname hread hsource =>
      rw [hfind.2 ⟨hmem, hname⟩]
      exact ⟨.coercion (.invalidArgument parameter.name source), by
        simp only [hread, hsource, bind, Except.bind]⟩
    | missing homitted hdefault hnonnull =>
      rw [find?_argument_eq_none_iff.2 homitted]
      exact ⟨.coercion (.missingArgument parameter.name parameter.type.text), by
        simp [hdefault, hnonnull]⟩

private theorem bindParameter_perm (hdistinct : (arguments.map Argument.name).Nodup)
    (hperm : arguments.Perm arguments') (parameter : Parameter) :
    bindings.bindParameter arguments' parameter = bindings.bindParameter arguments parameter := by
  have hsame : arguments'.find? (fun argument => argument.name == parameter.name) =
      arguments.find? (fun argument => argument.name == parameter.name) := by
    apply (List.find?_eq_find?_of_perm hperm _).symm
    intro argument hargument other hother
    obtain ⟨hmem, hname⟩ := hargument
    obtain ⟨hmem', hname'⟩ := hother
    rw [beq_iff_eq] at hname hname'
    exact List.inj_on_of_nodup_map hdistinct hmem hmem' (hname.trans hname'.symm)
  rw [bindParameter, bindParameter, hsame]

private theorem bindArguments_of_declared
    (h : ∀ argument ∈ arguments, ¬ argument.Undeclared parameters) :
    bindings.bindArguments parameters arguments =
      parameters.mapM (fun parameter => do
        pure (parameter.name, ← bindings.bindParameter arguments parameter)) := by
  rw [bindArguments, undeclared?_eq_none_iff.2 h]

private theorem names_of_bindArguments {values : ArgumentValues}
    (h : bindings.bindArguments parameters arguments = .ok values) :
    values.map Prod.fst = parameters.map Parameter.name := by
  unfold bindArguments at h
  split at h
  · cases h
  · apply map_eq_of_forall₂ (mapM_eq_ok_iff.1 h)
    intro parameter entry hentry
    obtain ⟨value, -, hvalue⟩ := bind_eq_ok_iff.1 hentry
    rw [← pure_eq_ok_iff.1 hvalue]

/-- Arguments cannot be bound exactly if one of them is undeclared or some parameter gets no
value. -/
theorem bindArguments_eq_error_iff (hdistinct : (arguments.map Argument.name).Nodup) :
    (∃ fault, bindings.bindArguments parameters arguments = .error fault) ↔
      (∃ argument ∈ arguments, argument.Undeclared parameters) ∨
        ∃ parameter ∈ parameters, bindings.Unsupplied arguments parameter := by
  by_cases hundeclared : ∃ argument ∈ arguments, argument.Undeclared parameters
  · obtain ⟨first, -, -, hfirst⟩ := @bindArguments_of_undeclared bindings _ _ hundeclared
    simp [hundeclared, hfirst]
  · have hdeclared : ∀ argument ∈ arguments, ¬ argument.Undeclared parameters := by
      simpa using hundeclared
    rw [bindArguments_of_declared hdeclared]
    simp only [hundeclared, false_or, ← bindParameter_eq_error_iff hdistinct]
    constructor
    · intro ⟨fault, h⟩
      obtain ⟨parameter, hmem, hparameter⟩ := exists_of_mapM_eq_error h
      rcases bind_eq_error_iff.1 hparameter with hfault | ⟨value, -, hpure⟩
      · exact ⟨parameter, hmem, fault, hfault⟩
      · cases hpure
    · intro ⟨parameter, hmem, fault, hfault⟩
      cases hall : parameters.mapM (fun parameter => do
          pure (parameter.name, ← bindings.bindParameter arguments parameter)) with
      | error first => exact ⟨first, rfl⟩
      | ok entries =>
        obtain ⟨entry, -, hentry⟩ := exists_of_mem_left (mapM_eq_ok_iff.1 hall) hmem
        obtain ⟨value, hvalue, -⟩ := bind_eq_ok_iff.1 hentry
        cases hfault.symm.trans hvalue

end

/-- The order in which arguments are written, whose names differ, does not matter to their values,
which come in the order of the parameters, nor to whether they can be bound: they can unless one
of them is undeclared or some parameter gets no value. Nor does it matter to the fault, but for
which of the undeclared arguments it names. -/
theorem bindArguments_reordered (bindings : Bindings) (parameters : List Parameter)
    {arguments arguments' : List Argument} (hdistinct : (arguments.map Argument.name).Nodup)
    (hperm : arguments.Perm arguments') :
    (∀ values, bindings.bindArguments parameters arguments' = .ok values ↔
      bindings.bindArguments parameters arguments = .ok values) ∧
    (∀ values, bindings.bindArguments parameters arguments = .ok values →
      values.map Prod.fst = parameters.map Parameter.name) ∧
    ((∃ fault, bindings.bindArguments parameters arguments = .error fault) ↔
      (∃ argument ∈ arguments, argument.Undeclared parameters) ∨
        ∃ parameter ∈ parameters, bindings.Unsupplied arguments parameter) ∧
    ((∀ argument ∈ arguments, ¬ argument.Undeclared parameters) →
      bindings.bindArguments parameters arguments' =
        bindings.bindArguments parameters arguments) ∧
    ((∃ argument ∈ arguments, argument.Undeclared parameters) →
      ∃ first ∈ arguments, ∃ first' ∈ arguments,
        first.Undeclared parameters ∧ first'.Undeclared parameters ∧
        bindings.bindArguments parameters arguments =
          .error (.coercion (.unknownArgument first.name)) ∧
        bindings.bindArguments parameters arguments' =
          .error (.coercion (.unknownArgument first'.name))) := by
  have hsame (hdeclared : ∀ argument ∈ arguments, ¬ argument.Undeclared parameters) :
      bindings.bindArguments parameters arguments' =
        bindings.bindArguments parameters arguments := by
    have hdeclared' : ∀ argument ∈ arguments', ¬ argument.Undeclared parameters := by
      intro argument hmem
      exact hdeclared argument (hperm.mem_iff.2 hmem)
    rw [bindArguments_of_declared hdeclared, bindArguments_of_declared hdeclared']
    simp only [bindParameter_perm hdistinct hperm]
  have hfirst (hundeclared : ∃ argument ∈ arguments, argument.Undeclared parameters) :
      ∃ first ∈ arguments, ∃ first' ∈ arguments,
        first.Undeclared parameters ∧ first'.Undeclared parameters ∧
        bindings.bindArguments parameters arguments =
          .error (.coercion (.unknownArgument first.name)) ∧
        bindings.bindArguments parameters arguments' =
          .error (.coercion (.unknownArgument first'.name)) := by
    have hundeclared' : ∃ argument ∈ arguments', argument.Undeclared parameters := by
      simpa only [hperm.mem_iff] using hundeclared
    obtain ⟨first, hmem, hunknown, hbound⟩ := bindArguments_of_undeclared hundeclared
    obtain ⟨first', hmem', hunknown', hbound'⟩ := bindArguments_of_undeclared hundeclared'
    exact ⟨first, hmem, first', hperm.mem_iff.2 hmem', hunknown, hunknown', hbound, hbound'⟩
  refine ⟨?_, fun values => names_of_bindArguments, bindArguments_eq_error_iff hdistinct, hsame,
    hfirst⟩
  intro values
  by_cases hundeclared : ∃ argument ∈ arguments, argument.Undeclared parameters
  · obtain ⟨_, -, _, -, -, -, hbound, hbound'⟩ := hfirst hundeclared
    rw [hbound, hbound']
    constructor
    · intro h
      cases h
    · intro h
      cases h
  · rw [hsame (by simpa using hundeclared)]

/-- The parameters `count: Int!`, `label: String = "none"` and `tags: [Int]`. -/
def shelfParameters : List Parameter :=
  [ ⟨"count", .named "Int" false, none, none⟩,
    ⟨"label", .named "String" true, some (.string "none"), none⟩,
    ⟨"tags", .list (.named "Int" true) true, none, none⟩ ]

def shelfBindings : Bindings :=
  { schema :=
      { toTypeSystem := (SchemaDraft.new "Query").typeSystem
        resolvers := .parents
        directives := []
        translator := .standard }
    values := [] }

/-- The arguments `(tags: 4, count: 2)` and `(count: 2, tags: 4)` are bound alike, and of the
undeclared `size` and `shape` each order reports its own. -/
theorem shelfArguments_reordered :
    (∀ arguments ∈ [[⟨"tags", .number (.int 4), ⟨1, 9⟩⟩, ⟨"count", .number (.int 2), ⟨1, 18⟩⟩],
        [⟨"count", .number (.int 2), ⟨1, 18⟩⟩, ⟨"tags", .number (.int 4), ⟨1, 9⟩⟩]],
      shelfBindings.bindArguments shelfParameters arguments =
        .ok [("count", .number (.int 2)), ("label", .string "none"),
          ("tags", .list [.number (.int 4)])]) ∧
    ∃ name name', name ∈ ["size", "shape"] ∧ name' ∈ ["size", "shape"] ∧
      shelfBindings.bindArguments shelfParameters
          [⟨"size", .null, ⟨1, 9⟩⟩, ⟨"shape", .null, ⟨1, 21⟩⟩] =
        .error (.coercion (.unknownArgument name)) ∧
      shelfBindings.bindArguments shelfParameters
          [⟨"shape", .null, ⟨1, 21⟩⟩, ⟨"size", .null, ⟨1, 9⟩⟩] =
        .error (.coercion (.unknownArgument name')) := by
  constructor
  · have hbound : shelfBindings.bindArguments shelfParameters
        [⟨"tags", .number (.int 4), ⟨1, 9⟩⟩, ⟨"count", .number (.int 2), ⟨1, 18⟩⟩] =
        .ok [("count", .number (.int 2)), ("label", .string "none"),
          ("tags", .list [.number (.int 4)])] := rfl
    have hswapped :=
      ((bindArguments_reordered shelfBindings shelfParameters (by decide) (.swap ..)).1 _).2 hbound
    simp only [List.forall_mem_cons, hbound, hswapped, List.not_mem_nil, false_implies,
      implies_true, and_self]
  · have hperm : List.Perm [(⟨"size", .null, ⟨1, 9⟩⟩ : Argument), ⟨"shape", .null, ⟨1, 21⟩⟩]
        [⟨"shape", .null, ⟨1, 21⟩⟩, ⟨"size", .null, ⟨1, 9⟩⟩] := .swap ..
    obtain ⟨first, hfirst, first', hfirst', -, -, hbound, hbound'⟩ :=
      (bindArguments_reordered shelfBindings shelfParameters (by decide) hperm).2.2.2.2
        ⟨_, List.mem_cons_self, by decide⟩
    exact ⟨first.name, first'.name, List.mem_map_of_mem hfirst, List.mem_map_of_mem hfirst',
      hbound, hbound'⟩

end Bindings

end GraphQuery
