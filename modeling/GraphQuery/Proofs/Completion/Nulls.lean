import GraphQuery.Proofs.Completion.Conforms
import Mathlib.Data.List.Induction

/-!
# Nulls and errors

Every error leaves a null in the data, and every null in the data that is not a produced one comes
from an error. An error turns the nearest place around it that may be null into null, or one
further out that other errors have turned into null as well.
-/

namespace GraphQuery

namespace Value

/-- The value one step inside a value. -/
def inside? : Value → PathSegment → Option Value
  | .list items, .index i => items[i]?
  | .object fields, .field key => Keyed.get? fields key
  | _, _ => none

/-- The value at a path inside a value. -/
def at? (value : Value) : ResponsePath → Option Value
  | [] => some value
  | segment :: path =>
    match value.inside? segment with
    | none => none
    | some inner => inner.at? path

theorem at?_cons (value : Value) (segment : PathSegment) (path : ResponsePath) :
    value.at? (segment :: path) = (value.inside? segment).bind (at? · path) := by
  rw [at?]
  cases value.inside? segment <;> rfl

theorem eq_nil_of_at?_null {path : ResponsePath} {value : Value} (h : null.at? path = some value) :
    path = [] := by
  cases path with
  | nil => rfl
  | cons segment path => cases segment <;> cases h

end Value

namespace Plan

section

variable {plan : Plan} {start : ResponsePath}

private theorem inside?_build {place child : Place} {segment : PathSegment} {values : List Value}
    {i : Nat} {value : Value} (hinner : (plan.view place start).isInner = true)
    (hlength : values.length = (plan.inside place start).length)
    (hchild : (plan.inside place start)[i]? = some (segment, child))
    (hvalue : values[i]? = some value) :
    ((plan.view place start).build values).inside? segment = some value := by
  cases hview : plan.view place start with
  | value | failed | fatal =>
    rw [hview] at hinner
    cases hinner
  | items children =>
    obtain ⟨rfl, -⟩ := (getElem?_inside_items hview).1 hchild
    exact hvalue
  | fields object groups held =>
    obtain ⟨group, hgroup, rfl, -⟩ := (getElem?_inside_fields hview).1 hchild
    have hkeys : (Keyed.keys ((groups.map FieldGroup.key).zip values)).Nodup := by
      rw [Keyed.keys, List.map_fst_zip (by simp [hlength, inside, hview, children])]
      exact nodup_keys_of_view hview
    refine Keyed.get?_of_getElem? hkeys (i := i) ?_
    rw [List.getElem?_zip_eq_some, List.getElem?_map, hgroup]
    exact ⟨rfl, hvalue⟩

theorem exists_of_inside?_build {place : Place} {segment : PathSegment} {values : List Value}
    {value : Value} (hinner : (plan.view place start).isInner = true)
    (hlength : values.length = (plan.inside place start).length)
    (h : ((plan.view place start).build values).inside? segment = some value) :
    ∃ (i : Nat) (child : Place),
      (plan.inside place start)[i]? = some (segment, child) ∧ values[i]? = some value := by
  cases hview : plan.view place start with
  | value | failed | fatal =>
    rw [hview] at hinner
    cases hinner
  | items children =>
    rw [hview] at h
    cases segment with
    | field key => cases h
    | index i =>
      have hvalue : values[i]? = some value := h
      have hi : i < children.length := by
        have := (List.getElem?_eq_some_iff.1 hvalue).1
        simpa [hlength, inside, hview, Plan.children] using this
      exact ⟨i, children[i], (getElem?_inside_items hview).2 ⟨rfl, List.getElem?_eq_getElem hi⟩,
        hvalue⟩
  | fields object groups held =>
    rw [hview] at h
    cases segment with
    | index i => cases h
    | field key =>
      obtain ⟨i, hi⟩ := Keyed.getElem?_of_get? h
      rw [List.getElem?_zip_eq_some, List.getElem?_map, Option.map_eq_some_iff] at hi
      obtain ⟨⟨group, hgroup, rfl⟩, hvalue⟩ := hi
      exact ⟨i, _, (getElem?_inside_fields hview).2 ⟨group, hgroup, rfl, rfl⟩, hvalue⟩

def NullableAt (plan : Plan) (place : Place) (start path : ResponsePath) : Prop :=
  ∃ inner, plan.follow place start path = some inner ∧ inner.nullable = true

def NonNullAt (plan : Plan) (place : Place) (start path : ResponsePath) : Prop :=
  ∃ inner, plan.follow place start path = some inner ∧ inner.nullable = false

/-- The longest part of the way from a place at `start` along `path` that ends where null may
stand. -/
def Shelters (plan : Plan) (place : Place) (start shelter path : ResponsePath) : Prop :=
  shelter <+: path ∧ plan.NullableAt place start shelter ∧
    ∀ way, way <+: path → shelter.length < way.length → ¬ plan.NullableAt place start way

private theorem exists_shelters {place : Place} (hnullable : place.nullable = true)
    (path : ResponsePath) : ∃ shelter, plan.Shelters place start shelter path := by
  induction path using List.reverseRecOn with
  | nil =>
    refine ⟨[], List.prefix_rfl, ⟨place, rfl, hnullable⟩, fun way hway hlt => ?_⟩
    rw [List.prefix_nil.1 hway] at hlt
    exact absurd hlt (Nat.lt_irrefl 0)
  | append_singleton path segment ih =>
    by_cases hlast : plan.NullableAt place start (path ++ [segment])
    · refine ⟨path ++ [segment], List.prefix_rfl, hlast, fun way hway hlt => ?_⟩
      exact absurd hway.length_le (Nat.not_le_of_lt hlt)
    · obtain ⟨shelter, hshelter, hnull, hlongest⟩ := ih
      refine ⟨shelter, hshelter.trans (List.prefix_append _ _), hnull, fun way hway hlt => ?_⟩
      rcases List.prefix_concat_iff.1 hway with rfl | hway
      · exact hlast
      · exact hlongest way hway hlt

private theorem Shelters.cons {place child : Place} {segment : PathSegment} {i : Nat}
    {shelter path : ResponsePath} (hchild : (plan.inside place start)[i]? = some (segment, child))
    (h : plan.Shelters child (start.child segment) shelter path) :
    plan.Shelters place start (segment :: shelter) (segment :: path) := by
  obtain ⟨hshelter, ⟨inner, hinner, hnullable⟩, hlongest⟩ := h
  refine ⟨List.cons_prefix_cons.2 ⟨rfl, hshelter⟩, ⟨inner, ?_, hnullable⟩, ?_⟩
  · rw [follow_inside hchild, hinner]
  · rintro way hway hlt ⟨other, hother, hnull⟩
    cases way with
    | nil => exact absurd hlt (Nat.not_lt_zero _)
    | cons first way =>
      obtain ⟨rfl, hrest⟩ := List.cons_prefix_cons.1 hway
      rw [follow_inside hchild] at hother
      exact hlongest way hrest (Nat.lt_of_succ_lt_succ hlt) ⟨other, hother, hnull⟩

/-- The error is inside the place, and null stands at its shelter or further out. -/
def Nulled (plan : Plan) (place : Place) (path : ResponsePath) (completion : Completion)
    (error : ResponseError) : Prop :=
  ∃ rest, error.path = some (path ++ rest) ∧ (plan.follow place path rest).isSome ∧
    (completion.Propagates ∨ ∃ value shelter nulled, completion.outcome = .ok value ∧
      plan.Shelters place path shelter rest ∧ nulled <+: shelter ∧ value.at? nulled = some .null)

private theorem nulled_of_null {place : Place} {path : ResponsePath} {completion : Completion}
    {error : ResponseError} (hnullable : place.nullable = true)
    (hnull : completion.outcome = .ok .null) {rest : ResponsePath}
    (hpath : error.path = some (path ++ rest)) (hrest : (plan.follow place path rest).isSome) :
    plan.Nulled place path completion error := by
  obtain ⟨shelter, hshelter⟩ := exists_shelters hnullable rest
  exact ⟨rest, hpath, hrest, .inr ⟨.null, shelter, [], hnull, hshelter, List.nil_prefix, rfl⟩⟩

theorem Completes.nulled {place : Place} {path : ResponsePath} {completion : Completion}
    (h : plan.Completes place path completion) (hfatal : ¬ completion.IsFatal) :
    ∀ error ∈ completion.errors, plan.Nulled place path completion error := by
  induction h with
  | value => simp [Completion.ok]
  | fatal => exact absurd ⟨_, rfl⟩ hfatal
  | @failed place path failure hview =>
    intro error hmem
    rw [Completion.errors_absorb, Completion.failed, List.mem_singleton] at hmem
    have hpath : error.path = some (path ++ []) := by
      rw [hmem, List.append_nil, Failure.error]
    cases hnullable : place.nullable with
    | true => exact nulled_of_null hnullable rfl hpath rfl
    | false => exact ⟨[], hpath, rfl, .inl rfl⟩
  | @inner place path completions hinner hlength hinside ih =>
    intro error hmem
    rw [Completion.errors_absorb, Completion.errors_join, List.mem_flatMap] at hmem
    obtain ⟨completion, hcompletion, herror⟩ := hmem
    obtain ⟨i, hi⟩ := List.mem_iff_getElem?.1 hcompletion
    obtain ⟨⟨segment, child⟩, hchild⟩ := exists_getElem?_of_length_eq hlength hi
    have hfatals := Completion.not_isFatal_of_join (mt Completion.isFatal_absorb_iff.2 hfatal)
    obtain ⟨rest, hpath, hrest, hnulled⟩ :=
      ih i segment child completion hchild hi (hfatals completion hcompletion) error herror
    have hpath' : error.path = some (path ++ (segment :: rest)) := by
      rw [hpath, ResponsePath.child, List.append_assoc, List.singleton_append]
    have hrest' : (plan.follow place path (segment :: rest)).isSome := by
      rwa [follow_inside hchild]
    cases houtcome : ((Completion.join (plan.view place path).build completions).absorb
        place.nullable).outcome with
    | error abort =>
      cases abort with
      | nullPropagation => exact ⟨segment :: rest, hpath', hrest', .inl houtcome⟩
      | fatal fault => exact absurd ⟨fault, houtcome⟩ hfatal
    | ok value =>
      -- Either the values inside stand, with the null among them, or this place has become null.
      rcases Completion.join_eq_ok houtcome with ⟨values, hvalues, rfl⟩ | ⟨hnullable, rfl, -⟩
      · obtain ⟨inner, hinner', hok⟩ := Completion.value_of_map_eq hvalues hi
        have hlength' := (Completion.length_of_map_eq hvalues).trans hlength
        obtain hpropagates | ⟨found, shelter, way, hfound, hshelter, hway, hnull⟩ := hnulled
        · exact absurd hpropagates (Completion.not_propagates_of_ok hok)
        · obtain rfl : inner = found := Except.ok.inj (hok.symm.trans hfound)
          have hat : ((plan.view place path).build values).at? (segment :: way) = some .null := by
            rw [Value.at?_cons, inside?_build hinner hlength' hchild hinner', Option.bind_some,
              hnull]
          exact ⟨segment :: rest, hpath', hrest', .inr ⟨_, _, _, houtcome, hshelter.cons hchild,
            List.cons_prefix_cons.2 ⟨rfl, hway⟩, hat⟩⟩
      · exact nulled_of_null hnullable houtcome hpath' hrest'

/-- The value that is produced at the place is null and may be. -/
def ProducedNull (plan : Plan) (place : Place) (start path : ResponsePath) : Prop :=
  ∃ site type, plan.follow place start path = some (.value site type (.ok .null)) ∧
    type.nullable = true

/-- The path ends inside the value of a custom scalar, below the value itself. -/
def InCustomScalar (plan : Plan) (place : Place) (start path : ResponsePath) : Prop :=
  ∃ way site name nullable value scalar, way <+: path ∧ way ≠ path ∧
    plan.follow place start way = some (.value site (.named name nullable) (.ok value)) ∧
    value.isNull = false ∧ plan.system.get? name = some (.scalar scalar) ∧ scalar.kind = .custom

/-- An error at the path or below it, with nothing in between that may be null. -/
def Blamed (plan : Plan) (place : Place) (start path : ResponsePath)
    (errors : List ResponseError) : Prop :=
  ∃ error ∈ errors, ∃ rest, error.path = some (start ++ (path ++ rest)) ∧
    ∀ way, way ≠ [] → way <+: rest → plan.NonNullAt place start (path ++ way)

private theorem NonNullAt.cons {place child : Place} {segment : PathSegment} {i : Nat}
    {path : ResponsePath} (hchild : (plan.inside place start)[i]? = some (segment, child))
    (h : plan.NonNullAt child (start.child segment) path) :
    plan.NonNullAt place start (segment :: path) := by
  obtain ⟨inner, hinner, hnullable⟩ := h
  exact ⟨inner, by rw [follow_inside hchild, hinner], hnullable⟩

private theorem Blamed.cons {place child : Place} {segment : PathSegment} {i : Nat}
    {start path : ResponsePath} {errors all : List ResponseError}
    (hchild : (plan.inside place start)[i]? = some (segment, child)) (hall : errors ⊆ all)
    (h : plan.Blamed child (start.child segment) path errors) :
    plan.Blamed place start (segment :: path) all := by
  obtain ⟨error, hmem, rest, hpath, hways⟩ := h
  refine ⟨error, hall hmem, rest, ?_, fun way hne hway => (hways way hne hway).cons hchild⟩
  rw [hpath, ResponsePath.child, List.append_assoc]
  rfl

private theorem Blamed.up {place : Place} {segment : PathSegment} {start : ResponsePath}
    {errors : List ResponseError} (hnonnull : plan.NonNullAt place start [segment])
    (h : plan.Blamed place start [segment] errors) : plan.Blamed place start [] errors := by
  obtain ⟨error, hmem, rest, hpath, hways⟩ := h
  refine ⟨error, hmem, segment :: rest, hpath, fun way hne hway => ?_⟩
  cases way with
  | nil => exact absurd rfl hne
  | cons first way =>
    obtain ⟨rfl, hrest⟩ := List.cons_prefix_cons.1 hway
    cases way with
    | nil => exact hnonnull
    | cons next way => exact hways (next :: way) (by simp) hrest

private theorem errors_subset_flatMap {completions : List Completion} {completion : Completion}
    (h : completion ∈ completions) :
    completion.errors ⊆ completions.flatMap Completion.errors :=
  fun _ hmem => List.mem_flatMap.2 ⟨completion, h, hmem⟩

private theorem blamed_failed (place : Place) (failure : Failure) (start : ResponsePath) :
    plan.Blamed place start [] [failure.error start] := by
  refine ⟨failure.error start, List.mem_singleton_self _, [], ?_, fun way hne hway => ?_⟩
  · rw [List.append_nil, List.append_nil, Failure.error]
  · exact absurd (List.prefix_nil.1 hway) hne

private theorem blamed_join {place : Place} {start : ResponsePath} {completions : List Completion}
    (hlength : completions.length = (plan.inside place start).length)
    (hinside : ∀ (i : Nat) segment child completion,
      (plan.inside place start)[i]? = some (segment, child) → completions[i]? = some completion →
      completion.Propagates →
      plan.Blamed child (start.child segment) [] completion.errors ∧ child.nullable = false)
    (h : ∃ completion ∈ completions, completion.Propagates) :
    plan.Blamed place start [] (completions.flatMap Completion.errors) := by
  obtain ⟨completion, hmem, hpropagates⟩ := h
  obtain ⟨i, hi⟩ := List.mem_iff_getElem?.1 hmem
  obtain ⟨⟨segment, child⟩, hchild⟩ := exists_getElem?_of_length_eq hlength hi
  obtain ⟨hblamed, hnonnull⟩ := hinside i segment child completion hchild hi hpropagates
  have hstep : plan.NonNullAt place start [segment] := NonNullAt.cons hchild ⟨child, rfl, hnonnull⟩
  exact (hblamed.cons hchild (errors_subset_flatMap hmem)).up hstep

/-- Where null propagates there is an error, and nothing on the way to it may be null. -/
theorem Completes.blamed_of_propagates {place : Place} {start : ResponsePath}
    {completion : Completion} (h : plan.Completes place start completion)
    (hpropagates : completion.Propagates) :
    plan.Blamed place start [] completion.errors ∧ place.nullable = false := by
  induction h with
  | value | fatal => cases hpropagates
  | failed hview =>
    rw [Completion.errors_absorb]
    exact ⟨blamed_failed .., (Completion.propagates_absorb_iff.1 hpropagates).2⟩
  | inner hinner hlength hinside ih =>
    obtain ⟨hjoin, hnullable⟩ := Completion.propagates_absorb_iff.1 hpropagates
    rw [Completion.errors_absorb, Completion.errors_join]
    exact ⟨blamed_join hlength ih (Completion.exists_propagates_of_join hjoin), hnullable⟩

private theorem build_ne_null (view : View) (values : List Value) : view.build values ≠ .null := by
  cases view <;> exact nofun

private theorem ProducedNull.cons {place child : Place} {segment : PathSegment} {i : Nat}
    {path : ResponsePath} (hchild : (plan.inside place start)[i]? = some (segment, child))
    (h : plan.ProducedNull child (start.child segment) path) :
    plan.ProducedNull place start (segment :: path) := by
  obtain ⟨site, type, hplace, hnullable⟩ := h
  exact ⟨site, type, by rw [follow_inside hchild, hplace], hnullable⟩

private theorem InCustomScalar.cons {place child : Place} {segment : PathSegment} {i : Nat}
    {path : ResponsePath} (hchild : (plan.inside place start)[i]? = some (segment, child))
    (h : plan.InCustomScalar child (start.child segment) path) :
    plan.InCustomScalar place start (segment :: path) := by
  obtain ⟨way, site, name, nullable, value, scalar, hway, hne, hplace, hscalar⟩ := h
  refine ⟨segment :: way, site, name, nullable, value, scalar, ?_, ?_, ?_, hscalar⟩
  · exact List.cons_prefix_cons.2 ⟨rfl, hway⟩
  · exact fun heq => hne (List.cons.inj heq).2
  · rw [follow_inside hchild, hplace]

private theorem custom_of_leafValue {type : TypeDefinition} {value : Value} {path : ResponsePath}
    (h : TypeSystem.LeafValue type value) (hnull : value.at? path = some .null) :
    path ≠ [] ∧ ∃ scalar, type = .scalar scalar ∧ scalar.kind = .custom := by
  cases h with
  | custom hvalue =>
    refine ⟨?_, _, rfl, rfl⟩
    rintro rfl
    exact hvalue (Option.some.inj hnull)
  | enum | int | float | string | id | boolean =>
    cases path with
    | nil => cases hnull
    | cons segment path => cases segment <;> cases hnull

private theorem isNull_eq_true {value : Json} (h : value.isNull = true) : value = .null := by
  cases value with
  | null => rfl
  | bool | number | string | array | object => cases h

/-- A null is the produced one or stands in a custom scalar, or an error is to blame. -/
theorem Completes.null_accounted (htranslator : plan.schema.translator = .standard)
    {place : Place} {start : ResponsePath} {completion : Completion}
    (h : plan.Completes place start completion) {value : Value}
    (hvalue : completion.outcome = .ok value) {path : ResponsePath}
    (hnull : value.at? path = some .null) :
    plan.ProducedNull place start path ∨ plan.InCustomScalar place start path ∨
      plan.Blamed place start path completion.errors := by
  induction h generalizing value path with
  | @value place start shown hview =>
    obtain rfl : shown = value := Except.ok.inj hvalue
    have hshows := plan.shows_view place start
    rw [hview] at hshows
    cases hshows with
    | typename =>
      cases path with
      | nil => cases hnull
      | cons segment path => cases segment <;> cases hnull
    | @null site type _ _ hproduced hnullable =>
      obtain rfl := Value.eq_nil_of_at?_null hnull
      rw [isNull_eq_true hproduced]
      exact .inl ⟨site, type, rfl, hnullable⟩
    | @leaf site name nullable type held _ _ hproduced hget _ hleaf =>
      rw [Schema.leaf, htranslator] at hleaf
      obtain ⟨hne, scalar, rfl, hcustom⟩ :=
        custom_of_leafValue (TypeSystem.leafValue_of_serializeLeaf hproduced hleaf) hnull
      exact .inr (.inl ⟨[], site, name, nullable, held, scalar, List.nil_prefix, hne.symm, rfl,
        hproduced, hget, hcustom⟩)
  | failed hview =>
    rcases Completion.outcome_absorb_eq_ok_iff.1 hvalue with h | ⟨-, -, rfl⟩
    · cases h
    · obtain rfl := Value.eq_nil_of_at?_null hnull
      rw [Completion.errors_absorb]
      exact .inr (.inr (blamed_failed ..))
  | fatal => cases hvalue
  | @inner place start completions hinner hlength hinside ih =>
    rw [Completion.errors_absorb, Completion.errors_join]
    rcases Completion.join_eq_ok hvalue with ⟨values, hvalues, rfl⟩ | ⟨-, rfl, hpropagates⟩
    · have hlength' := (Completion.length_of_map_eq hvalues).trans hlength
      cases path with
      | nil => exact absurd (Option.some.inj hnull) (build_ne_null _ values)
      | cons segment path =>
        rw [Value.at?_cons] at hnull
        obtain ⟨inner, hstep, hnull⟩ := Option.bind_eq_some_iff.1 hnull
        obtain ⟨i, child, hchild, hinner⟩ := exists_of_inside?_build hinner hlength' hstep
        obtain ⟨completion, hi, hok⟩ := Completion.outcome_of_map_eq hvalues hinner
        have hmem := List.mem_of_getElem? hi
        rcases ih i segment child completion hchild hi hok hnull with h | h | h
        · exact .inl (h.cons hchild)
        · exact .inr (.inl (h.cons hchild))
        · exact .inr (.inr (h.cons hchild (errors_subset_flatMap hmem)))
    · obtain rfl := Value.eq_nil_of_at?_null hnull
      refine .inr (.inr (blamed_join hlength ?_ hpropagates))
      intro i segment child completion hchild hi hpropagates
      exact (hinside i segment child completion hchild hi).blamed_of_propagates hpropagates

/-- Errors and nulls of a response account for each other. -/
theorem nulls_and_errors_of_execute {schema : ExecutableSchema} {settings : Settings}
    {request : Request} {response : Response} (htranslator : schema.translator = .standard)
    (h : (execute schema settings request).value = .ok response) :
    ∃ plan data, ofRequest schema settings request = .ok plan ∧ response.data = some data ∧
      (∀ error ∈ response.errors, ∃ path shelter nulled, error.path = some path ∧
        (plan.place? path).isSome ∧ plan.Shelters plan.rootPlace [] shelter path ∧
        nulled <+: shelter ∧ data.at? nulled = some .null) ∧
      (∀ path, data.at? path = some .null →
        plan.ProducedNull plan.rootPlace [] path ∨ plan.InCustomScalar plan.rootPlace [] path ∨
          plan.Blamed plan.rootPlace [] path response.errors) ∧
      (data = .null → response.errors ≠ []) := by
  obtain ⟨plan, completion, data, hplan, hcompletes, houtcome, rfl⟩ :=
    exists_completes_of_execute h
  have htranslator' : plan.schema.translator = .standard := by
    rw [(accepted_of_ofRequest hplan).1, htranslator]
  have hnulls (path : ResponsePath) (hnull : data.at? path = some .null) :=
    hcompletes.null_accounted htranslator' houtcome hnull
  refine ⟨plan, data, hplan, rfl, fun error herror => ?_, hnulls, ?_⟩
  · obtain ⟨rest, hpath, hrest, hpropagates | ⟨value, shelter, nulled, hvalue, hnulled⟩⟩ :=
      hcompletes.nulled (Completion.not_isFatal_of_ok houtcome) error herror
    · exact absurd hpropagates (Completion.not_propagates_of_ok houtcome)
    · obtain rfl : data = value := Except.ok.inj (houtcome.symm.trans hvalue)
      exact ⟨rest, shelter, nulled, hpath, hrest, hnulled⟩
  · rintro rfl
    rcases hnulls [] rfl with h | h | ⟨error, hmem, -⟩
    · obtain ⟨site, type, hplace, -⟩ := h
      cases hplace
    · obtain ⟨way, site, name, nullable, value, scalar, hway, hne, -⟩ := h
      exact absurd (List.prefix_nil.1 hway) hne
    · exact List.ne_nil_of_mem hmem

end

theorem nulls_and_errors_boxResponse :
    ∃ plan data, ofRequest boxSchema .default boxRequest = .ok plan ∧
      boxResponse.data = some data ∧
      (∀ error ∈ boxResponse.errors, ∃ path shelter nulled, error.path = some path ∧
        (plan.place? path).isSome ∧ plan.Shelters plan.rootPlace [] shelter path ∧
        nulled <+: shelter ∧ data.at? nulled = some .null) ∧
      (∀ path, data.at? path = some .null →
        plan.ProducedNull plan.rootPlace [] path ∨ plan.InCustomScalar plan.rootPlace [] path ∨
          plan.Blamed plan.rootPlace [] path boxResponse.errors) ∧
      (data = .null → boxResponse.errors ≠ []) := by
  have hexecute : (execute boxSchema .default boxRequest).value = .ok boxResponse := rfl
  exact nulls_and_errors_of_execute rfl hexecute

end Plan

end GraphQuery
