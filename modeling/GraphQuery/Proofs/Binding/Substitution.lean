import GraphQuery.Binding.Terms
import GraphQuery.Proofs.Success

/-!
# Substitution

What the value of a term is made of. Main statement: a term without objects and without undeclared
variables is read as the term in which the values of the variables stand in their places, and of
any other term the first part in document order that has no value is reported.
-/

namespace GraphQuery

namespace Term

mutual

/-- The term and all that it contains, in document order. -/
def parts : Term → List Term
  | .list items => .list items :: itemParts items
  | .object fields => .object fields :: fieldParts fields
  | term => [term]

def itemParts : List Term → List Term
  | [] => []
  | term :: rest => term.parts ++ itemParts rest

def fieldParts : List (String × Term) → List Term
  | [] => []
  | (_, term) :: rest => term.parts ++ fieldParts rest

end

mutual

/-- The term with values in the places of variables; a variable without a value stays. -/
def substitute (values : String → Option Value) : Term → Term
  | .variable name => ((values name).map Term.ofValue).getD (.variable name)
  | .list items => .list (substituteItems values items)
  | .object fields => .object (substituteFields values fields)
  | term => term

def substituteItems (values : String → Option Value) : List Term → List Term
  | [] => []
  | term :: rest => term.substitute values :: substituteItems values rest

def substituteFields (values : String → Option Value) :
    List (String × Term) → List (String × Term)
  | [] => []
  | (key, term) :: rest => (key, term.substitute values) :: substituteFields values rest

end

/-- The term writes no object, not even an empty one. -/
def WithoutObjects (term : Term) : Prop := ∀ fields, .object fields ∉ term.parts

/-- All variables of the term have values. -/
def Declared (values : String → Option Value) (term : Term) : Prop :=
  ∀ name, .variable name ∈ term.parts → ∃ value, values name = some value

private theorem self_mem_parts (term : Term) : term ∈ term.parts := by
  cases term <;> simp [parts]

mutual

private theorem ofValue_injective : ∀ value other :
    Value, ofValue value = ofValue other → value = other
  | .list items, other, h => by
    cases other with
    | list others =>
      simp only [ofValue, list.injEq] at h
      rw [ofItems_injective items others h]
    | _ => simp [ofValue] at h
  | .object fields, other, h => by
    cases other with
    | object others =>
      simp only [ofValue, object.injEq] at h
      rw [ofFields_injective fields others h]
    | _ => simp [ofValue] at h
  | .null, other, h | .number _, other, h | .string _, other, h | .boolean _, other, h
  | .binary _, other, h | .enum _, other, h => by
    cases other <;> simp_all [ofValue]

private theorem ofItems_injective : ∀ values others : List Value, ofItems values = ofItems others →
    values = others
  | [], others, h => by
    cases others <;> simp_all [ofItems]
  | value :: values, others, h => by
    cases others with
    | nil => simp [ofItems] at h
    | cons other others =>
      simp only [ofItems, List.cons.injEq] at h
      rw [ofValue_injective value other h.1, ofItems_injective values others h.2]

private theorem ofFields_injective : ∀ fields others : List (String × Value),
    ofFields fields = ofFields others → fields = others
  | [], others, h => by
    cases others <;> simp_all [ofFields]
  | (key, value) :: fields, others, h => by
    cases others with
    | nil => simp [ofFields] at h
    | cons other others =>
      simp only [ofFields, List.cons.injEq, Prod.mk.injEq] at h
      rw [h.1.1, ofValue_injective value other.2 h.1.2, ofFields_injective fields others h.2]

end

mutual

private theorem substitute_congr {values values' : String → Option Value} :
    ∀ term : Term, (∀ name, .variable name ∈ term.parts → values' name = values name) →
      term.substitute values' = term.substitute values
  | .variable name, h => by
    rw [substitute, substitute, h name (self_mem_parts _)]
  | .list items, h => by
    rw [substitute, substitute, substituteItems_congr items]
    intro name hmem
    exact h name (List.mem_cons_of_mem _ hmem)
  | .object fields, h => by
    rw [substitute, substitute, substituteFields_congr fields]
    intro name hmem
    exact h name (List.mem_cons_of_mem _ hmem)
  | .null, _ | .number _, _ | .string _, _ | .boolean _, _ | .binary _, _ | .enum _, _ => rfl

private theorem substituteItems_congr {values values' : String → Option Value} :
    ∀ items : List Term, (∀ name, .variable name ∈ itemParts items → values' name = values name) →
      substituteItems values' items = substituteItems values items
  | [], _ => rfl
  | term :: rest, h => by
    simp only [itemParts, List.mem_append] at h
    rw [substituteItems, substituteItems,
      substitute_congr term fun name hmem => h name (.inl hmem),
      substituteItems_congr rest fun name hmem => h name (.inr hmem)]

private theorem substituteFields_congr {values values' : String → Option Value} :
    ∀ fields : List (String × Term),
      (∀ name, .variable name ∈ fieldParts fields → values' name = values name) →
      substituteFields values' fields = substituteFields values fields
  | [], _ => rfl
  | (key, term) :: rest, h => by
    simp only [fieldParts, List.mem_append] at h
    rw [substituteFields, substituteFields,
      substitute_congr term fun name hmem => h name (.inl hmem),
      substituteFields_congr rest fun name hmem => h name (.inr hmem)]

end

end Term

namespace Bindings

/-- Why a part of the argument at the position has no value by itself. -/
def partFault? (bindings : Bindings) (position : Position) : Term → Option ExecutionFault
  | .object _ => some (.unsupported .objectValue (some position))
  | .variable name =>
    match bindings.values.get? name with
    | some _ => none
    | none => some (.coercion (.unknownVariable name))
  | _ => none

/-- The fault of the first part that has no value by itself. -/
def firstFault? (bindings : Bindings) (position : Position) (parts : List Term) :
    Option ExecutionFault :=
  parts.findSome? (bindings.partFault? position)

/-- The outcome of reading parts in order: a result as described if each of them has a value, else
the fault of the first one that has none. -/
inductive ReadsAs {α : Type} (bindings : Bindings) (position : Position) (parts : List Term)
    (described : α → Prop) : Except ExecutionFault α → Prop
  | ok {a} (hparts : bindings.firstFault? position parts = none) (h : described a) :
      ReadsAs bindings position parts described (.ok a)
  | error {fault} (hparts : bindings.firstFault? position parts = some fault) :
      ReadsAs bindings position parts described (.error fault)

section

variable {bindings : Bindings} {position : Position} {parts more : List Term} {α β : Type}
  {described : α → Prop} {describes : β → Prop} {x : Except ExecutionFault α}

private theorem firstFault?_append :
    bindings.firstFault? position (parts ++ more) =
      (bindings.firstFault? position parts).or (bindings.firstFault? position more) :=
  List.findSome?_append

private theorem ReadsAs.bind (h : bindings.ReadsAs position parts described x)
    {next : α → Except ExecutionFault β}
    (hnext : ∀ a, described a → bindings.ReadsAs position more describes (next a)) :
    bindings.ReadsAs position (parts ++ more) describes (x >>= next) := by
  cases h with
  | error hparts => exact .error (by rw [firstFault?_append, hparts, Option.some_or])
  | @ok a hparts ha =>
    have hmore := hnext a ha
    have hfirst : bindings.firstFault? position (parts ++ more) =
        bindings.firstFault? position more := by
      rw [firstFault?_append, hparts, Option.none_or]
    change bindings.ReadsAs position (parts ++ more) describes (next a)
    generalize next a = y at hmore
    cases hmore with
    | ok hrest hb => exact .ok (hfirst.trans hrest) hb
    | error hrest => exact .error (hfirst.trans hrest)

private theorem ReadsAs.cons {part : Term} (hpart : bindings.partFault? position part = none)
    (h : bindings.ReadsAs position parts described x) :
    bindings.ReadsAs position (part :: parts) described x := by
  have hfirst : bindings.firstFault? position (part :: parts) =
      bindings.firstFault? position parts := by
    rw [firstFault?, List.findSome?_cons, hpart, firstFault?]
  cases h with
  | ok hparts ha => exact .ok (hfirst.trans hparts) ha
  | error hparts => exact .error (hfirst.trans hparts)

private theorem ReadsAs.map (h : bindings.ReadsAs position parts described x) {f : α → β}
    (hf : ∀ a, described a → describes (f a)) :
    bindings.ReadsAs position parts describes (f <$> x) := by
  cases h with
  | ok hparts ha => exact .ok hparts (hf _ ha)
  | error hparts => exact .error hparts

mutual

private theorem readsAs_readTerm (htranslator : bindings.schema.translator = .standard)
    (position : Position) :
    ∀ term : Term, bindings.ReadsAs position term.parts
      (fun value => Term.ofValue value = term.substitute bindings.values.get?)
      (bindings.readTerm position term)
  | .list items => by
    rw [readTerm, htranslator]
    apply ReadsAs.cons rfl
    apply (readsAs_readItems htranslator position items).map
    intro values hvalues
    rw [Term.ofValue, hvalues, Term.substitute]
  | .object fields => by
    rw [readTerm, htranslator]
    exact .error rfl
  | .variable name => by
    rw [readTerm, htranslator]
    simp only [Translator.standard, Translator.literal?, Term.substitute]
    cases hget : bindings.values.get? name with
    | some value => exact .ok (by simp [firstFault?, Term.parts, partFault?, hget]) rfl
    | none => exact .error (by simp [firstFault?, Term.parts, partFault?, hget])
  | .null | .number _ | .string _ | .boolean _ | .binary _ | .enum _ => by
    simp only [readTerm, htranslator]
    exact .ok rfl rfl

private theorem readsAs_readItems (htranslator : bindings.schema.translator = .standard)
    (position : Position) :
    ∀ items : List Term, bindings.ReadsAs position (Term.itemParts items)
      (fun values => Term.ofItems values = Term.substituteItems bindings.values.get? items)
      (bindings.readItems position items)
  | [] => .ok rfl rfl
  | term :: rest => by
    rw [readItems]
    apply (readsAs_readTerm htranslator position term).bind
    intro value hvalue
    apply (readsAs_readItems htranslator position rest).map
    intro values hvalues
    rw [Term.ofItems, hvalue, hvalues, Term.substituteItems]

end

private theorem partFault?_eq_none_iff {part : Term} : bindings.partFault? position part = none ↔
    (∀ fields, .object fields ≠ part) ∧
      ∀ name, .variable name = part → ∃ value, bindings.values.get? name = some value := by
  match part with
  | .object fields => simp [partFault?]
  | .variable name => cases hget : bindings.values.get? name <;> simp [partFault?, hget]
  | .null | .number _ | .string _ | .boolean _ | .binary _ | .enum _ | .list _ =>
    simp [partFault?]

private theorem firstFault?_eq_none_iff {term : Term} :
    bindings.firstFault? position term.parts = none ↔
      term.WithoutObjects ∧ term.Declared bindings.values.get? := by
  simp only [firstFault?, List.findSome?_eq_none_iff, partFault?_eq_none_iff]
  constructor
  · intro h
    exact ⟨fun fields hmem => (h _ hmem).1 fields rfl, fun name hmem => (h _ hmem).2 name rfl⟩
  · intro h part hmem
    constructor
    · intro fields hpart
      exact h.1 fields (hpart ▸ hmem)
    · intro name hpart
      exact h.2 name (hpart ▸ hmem)

private theorem readTerm_eq_ok_iff (htranslator : bindings.schema.translator = .standard)
    {term : Term}
    {value : Value} : bindings.readTerm position term = .ok value ↔
      bindings.firstFault? position term.parts = none ∧
        Term.ofValue value = term.substitute bindings.values.get? := by
  have h := readsAs_readTerm htranslator position term
  generalize bindings.readTerm position term = read at h
  cases h with
  | error hparts => simp [hparts]
  | @ok held hparts hheld =>
    simp only [hparts, true_and, Except.ok.injEq, ← hheld]
    constructor
    · intro heq
      rw [heq]
    · intro heq
      exact (Term.ofValue_injective _ _ heq).symm

private theorem readTerm_eq_error_iff (htranslator : bindings.schema.translator = .standard)
    {term : Term}
    {fault : ExecutionFault} : bindings.readTerm position term = .error fault ↔
      bindings.firstFault? position term.parts = some fault := by
  have h := readsAs_readTerm htranslator position term
  generalize bindings.readTerm position term = read at h
  cases h with
  | ok hparts => simp [hparts]
  | error hparts => simp [hparts]

private theorem readTerm_eq_of_values {other : Bindings}
    (htranslator : bindings.schema.translator = .standard)
    (hother : other.schema.translator = .standard) {term : Term}
    (h : ∀ name, .variable name ∈ term.parts →
      other.values.get? name = bindings.values.get? name) :
    other.readTerm position term = bindings.readTerm position term := by
  have hfault : other.firstFault? position term.parts =
      bindings.firstFault? position term.parts := by
    rw [firstFault?, firstFault?, ← List.head?_filterMap, ← List.head?_filterMap,
      List.filterMap_congr]
    intro part hmem
    match part with
    | .variable name => rw [partFault?, partFault?, h name hmem]
    | .null | .number _ | .string _ | .boolean _ | .binary _ | .enum _ | .list _ | .object _ => rfl
  cases hread : bindings.readTerm position term with
  | ok value =>
    rw [readTerm_eq_ok_iff htranslator] at hread
    rw [readTerm_eq_ok_iff hother, hfault, term.substitute_congr h]
    exact hread
  | error fault =>
    rw [readTerm_eq_error_iff htranslator] at hread
    rw [readTerm_eq_error_iff hother, hfault]
    exact hread

end

/-- Reading a term is substitution. A term has a value exactly if it writes no object and all its
variables are declared. The value is written as the term in which each variable, at any depth, is
replaced by what its value writes, and nothing else is changed, so it depends on the variables of
the term only. Otherwise the first part in document order that has no value is reported: an
undeclared variable by its name, an object at the position of the argument. -/
theorem readTerm_substitutes (bindings : Bindings)
    (htranslator : bindings.schema.translator = .standard) (position : Position) (term : Term) :
    ((∃ value, bindings.readTerm position term = .ok value) ↔
      term.WithoutObjects ∧ term.Declared bindings.values.get?) ∧
    (∀ value, bindings.readTerm position term = .ok value ↔
      (term.WithoutObjects ∧ term.Declared bindings.values.get?) ∧
        Term.ofValue value = term.substitute bindings.values.get?) ∧
    (∀ other : Bindings, other.schema.translator = .standard →
      (∀ name, .variable name ∈ term.parts →
        other.values.get? name = bindings.values.get? name) →
      other.readTerm position term = bindings.readTerm position term) ∧
    ∀ fault, bindings.readTerm position term = .error fault ↔
      ∃ before part after, term.parts = before ++ part :: after ∧
        (∀ earlier ∈ before, bindings.partFault? position earlier = none) ∧
        bindings.partFault? position part = some fault := by
  have hvalue (value : Value) : bindings.readTerm position term = .ok value ↔
      (term.WithoutObjects ∧ term.Declared bindings.values.get?) ∧
        Term.ofValue value = term.substitute bindings.values.get? := by
    rw [readTerm_eq_ok_iff htranslator, firstFault?_eq_none_iff]
  refine ⟨?_, hvalue, ?_, ?_⟩
  · constructor
    · intro ⟨value, h⟩
      exact ((hvalue value).1 h).1
    · intro h
      cases hread : bindings.readTerm position term with
      | ok value => exact ⟨value, rfl⟩
      | error fault =>
        rw [readTerm_eq_error_iff htranslator, firstFault?_eq_none_iff.2 h] at hread
        cases hread
  · intro other hother h
    exact readTerm_eq_of_values htranslator hother h
  · intro fault
    rw [readTerm_eq_error_iff htranslator, firstFault?, List.findSome?_eq_some_iff]
    constructor
    · intro ⟨before, part, after, hparts, hpart, hbefore⟩
      exact ⟨before, part, after, hparts, hbefore, hpart⟩
    · intro ⟨before, part, after, hparts, hbefore, hpart⟩
      exact ⟨before, part, after, hparts, hpart, hbefore⟩

/-- The variables `$sizes`, a list, and `$box`, an object. -/
def boxBindings : Bindings :=
  { schema :=
      { queryType := "Query", types := [], resolvers := .parents, directives := []
        translator := .standard }
    values := [("sizes", .list [.enum "SMALL"]), ("box", .object [("width", .number (.int 2))])] }

/-- In `[1, [$sizes, $box]]` both variables are replaced, and in `[[$sizes, $size], {}]` the
undeclared one comes before the object. -/
theorem readTerm_in_nested_lists :
    boxBindings.readTerm ⟨1, 7⟩
        (.list [.number (.int 1), .list [.variable "sizes", .variable "box"]]) =
      .ok (.list [.number (.int 1),
        .list [.list [.enum "SMALL"], .object [("width", .number (.int 2))]]]) ∧
    boxBindings.readTerm ⟨1, 7⟩
        (.list [.list [.variable "sizes", .variable "size"], .object []]) =
      .error (.coercion (.unknownVariable "size")) ∧
    boxBindings.readTerm ⟨1, 7⟩ (.list [.list [.object []], .variable "size"]) =
      .error (.unsupported .objectValue (some ⟨1, 7⟩)) := by
  have hstandard : boxBindings.schema.translator = .standard := rfl
  refine ⟨?_, ?_, ?_⟩
  · apply ((readTerm_substitutes boxBindings hstandard ⟨1, 7⟩ _).2.1 _).2
    constructor
    · constructor
      · simp [Term.WithoutObjects, Term.parts, Term.itemParts]
      · simp [Term.Declared, Term.parts, Term.itemParts, boxBindings, Keyed.get?]
    · rfl
  · apply ((readTerm_substitutes boxBindings hstandard ⟨1, 7⟩ _).2.2.2 _).2
    exact ⟨[_, _, .variable "sizes"], .variable "size", [.object []], rfl, by simp [partFault?,
      boxBindings, Keyed.get?], rfl⟩
  · apply ((readTerm_substitutes boxBindings hstandard ⟨1, 7⟩ _).2.2.2 _).2
    exact ⟨[_, _], .object [], [.variable "size"], rfl, by simp [partFault?], rfl⟩

end Bindings

end GraphQuery
