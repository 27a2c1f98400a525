import GraphQuery.Proofs.Completion.Agreement
import GraphQuery.Proofs.Completion.Exposure

/-!
# Containment of failures

Two executions that differ in the resolver of one field have the same errors outside the positions
at which the field is executed, and the same data but for the nulls that errors of these positions
can cause. The two runs are compared place by place, from the leaves up.
-/

namespace GraphQuery

namespace Value

section

open Classical

mutual

/-- The value with `mark` in place of what stands in a hole. -/
noncomputable def punch (mark : Value) (holes : ResponsePath → Prop) :
    Value → ResponsePath → Value
  | .list items, path =>
    if holes path then mark else .list (punchItems mark holes items 0 path)
  | .object fields, path =>
    if holes path then mark else .object (punchFields mark holes fields path)
  | value, path => if holes path then mark else value

noncomputable def punchItems (mark : Value) (holes : ResponsePath → Prop) :
    List Value → Nat → ResponsePath → List Value
  | [], _, _ => []
  | item :: rest, i, path =>
    punch mark holes item (path.child (.index i)) :: punchItems mark holes rest (i + 1) path

noncomputable def punchFields (mark : Value) (holes : ResponsePath → Prop) :
    List (String × Value) → ResponsePath → List (String × Value)
  | [], _ => []
  | (key, value) :: rest, path =>
    (key, punch mark holes value (path.child (.field key))) :: punchFields mark holes rest path

end

end

section

variable {mark : Value} {holes holes' : ResponsePath → Prop} {path : ResponsePath}

private theorem punch_of_hole (value : Value) (h : holes path) :
    punch mark holes value path = mark := by
  cases value <;> simp only [punch, if_pos h]

private theorem punchItems_eq_mapIdx (items : List Value) (start : Nat) :
    punchItems mark holes items start path =
      items.mapIdx fun i item => punch mark holes item (path.child (.index (start + i))) := by
  induction items generalizing start with
  | nil => rfl
  | cons item rest ih =>
    rw [punchItems, ih, List.mapIdx_cons]
    simp only [Nat.add_assoc, Nat.add_comm 1, Nat.add_zero]

private theorem punchFields_eq_map (fields : List (String × Value)) :
    punchFields mark holes fields path = fields.map fun field =>
      (field.1, punch mark holes field.2 (path.child (.field field.1))) := by
  induction fields with
  | nil => rfl
  | cons field rest ih => rw [punchFields, ih, List.map_cons]

private theorem punch_list (items : List Value) (h : ¬ holes path) :
    punch mark holes (.list items) path =
      .list (items.mapIdx fun i item => punch mark holes item (path.child (.index i))) := by
  rw [punch, if_neg h, punchItems_eq_mapIdx]
  simp only [Nat.zero_add]

private theorem punch_object (fields : List (String × Value)) (h : ¬ holes path) :
    punch mark holes (.object fields) path = .object (fields.map fun field =>
      (field.1, punch mark holes field.2 (path.child (.field field.1)))) := by
  rw [punch, if_neg h, punchFields_eq_map]

mutual

private theorem punch_congr :
    ∀ (value : Value) (path : ResponsePath),
      (∀ rest, holes (path ++ rest) ↔ holes' (path ++ rest)) →
      punch mark holes value path = punch mark holes' value path
  | .list items, path, h => by
    have hpath : holes path = holes' path := propext (List.append_nil path ▸ h [])
    rw [punch, punch, punchItems_congr items 0 path h, hpath]
  | .object fields, path, h => by
    have hpath : holes path = holes' path := propext (List.append_nil path ▸ h [])
    rw [punch, punch, punchFields_congr fields path h, hpath]
  | .null, path, h | .number _, path, h | .string _, path, h | .boolean _, path, h
  | .binary _, path, h | .enum _, path, h => by
    have hpath : holes path = holes' path := propext (List.append_nil path ▸ h [])
    simp only [punch]
    rw [hpath]

private theorem punchItems_congr :
    ∀ (items : List Value) (start : Nat) (path : ResponsePath),
      (∀ rest, holes (path ++ rest) ↔ holes' (path ++ rest)) →
      punchItems mark holes items start path = punchItems mark holes' items start path
  | [], _, _, _ => by rw [punchItems, punchItems]
  | item :: rest, start, path, h => by
    rw [punchItems, punchItems, punchItems_congr rest (start + 1) path h,
      punch_congr item (path.child (.index start)) fun more => ?_]
    rw [ResponsePath.child, List.append_assoc]
    exact h _

private theorem punchFields_congr :
    ∀ (fields : List (String × Value)) (path : ResponsePath),
      (∀ rest, holes (path ++ rest) ↔ holes' (path ++ rest)) →
      punchFields mark holes fields path = punchFields mark holes' fields path
  | [], _, _ => by rw [punchFields, punchFields]
  | (key, value) :: rest, path, h => by
    rw [punchFields, punchFields, punchFields_congr rest path h,
      punch_congr value (path.child (.field key)) fun more => ?_]
    rw [ResponsePath.child, List.append_assoc]
    exact h _

end

end

end Value

namespace Schema

/-- The schemas differ in the resolver of one field at most. -/
structure DifferAt (schema other : Schema) (type field : String) : Prop where
  same : other = { schema with resolvers := other.resolvers }
  resolvers : ∀ t f, ¬ (t = type ∧ f = field) → other.resolvers t f = schema.resolvers t f

/-- The predicates of the directives and the translator do with another system what they do with
that of the schema. -/
structure Blind (schema : Schema) (system : BoundSystem) : Prop where
  includes : ∀ spec ∈ schema.directives, ∀ arguments,
    spec.includes arguments system = spec.includes arguments schema.toBoundSystem
  coerce : schema.translator.coerce system = schema.translator.coerce schema.toBoundSystem
  leaf : schema.translator.leaf system = schema.translator.leaf schema.toBoundSystem

private theorem DifferAt.agrees {schema other : Schema} {type field : String}
    (h : schema.DifferAt other type field) (hblind : schema.Blind other.toBoundSystem) :
    schema.Agrees (fun _ _ => True) other := by
  obtain ⟨hincludes, hcoerce, hleaf⟩ := hblind
  have hsame := h.same
  generalize other.resolvers = resolvers at hsame
  subst hsame
  refine ⟨rfl, rfl, hcoerce, hleaf, List.forall₂_same.2 fun spec hspec => ?_⟩
  exact ⟨rfl, rfl, rfl, fun arguments _ => hincludes spec hspec arguments, fun _ _ _ _ => rfl⟩

end Schema

namespace Plan

section

variable {plan other : Plan} {type field : String} {mark : Value}

private theorem punch_build_congr {place : Place} {values values' : List Value}
    {holes holes' : ResponsePath → Prop} {path : ResponsePath}
    (hinner : (plan.view place path).isInner = true)
    (hlength : values.length = (plan.inside place path).length)
    (hlength' : values'.length = (plan.inside place path).length)
    (hpath : holes path ↔ holes' path)
    (h : ∀ (i : Nat) segment child value value',
      (plan.inside place path)[i]? = some (segment, child) →
      values[i]? = some value → values'[i]? = some value' →
      Value.punch mark holes value (path.child segment) =
        Value.punch mark holes' value' (path.child segment)) :
    Value.punch mark holes ((plan.view place path).build values) path =
      Value.punch mark holes' ((plan.view place path).build values') path := by
  by_cases hhole : holes path
  · rw [Value.punch_of_hole _ hhole, Value.punch_of_hole _ (hpath.1 hhole)]
  have hhole' := mt hpath.2 hhole
  cases hview : plan.view place path with
  | value | failed | fatal =>
    rw [hview] at hinner
    cases hinner
  | items children =>
    rw [inside, hview, Plan.children, List.length_mapIdx] at hlength hlength'
    simp only [View.build]
    rw [Value.punch_list _ hhole, Value.punch_list _ hhole']
    refine congrArg Value.list (List.ext_getElem (by simp [hlength, hlength']) ?_)
    intro i hi hi'
    rw [List.length_mapIdx] at hi hi'
    rw [List.getElem_mapIdx, List.getElem_mapIdx]
    have hchild := (getElem?_inside_items hview).2
      ⟨rfl, List.getElem?_eq_getElem (i := i) (hlength ▸ hi)⟩
    exact h i _ _ _ _ hchild (List.getElem?_eq_getElem hi) (List.getElem?_eq_getElem hi')
  | fields object groups held =>
    rw [inside, hview, children, List.length_map] at hlength hlength'
    simp only [View.build]
    rw [Value.punch_object _ hhole, Value.punch_object _ hhole']
    refine congrArg Value.object (List.ext_getElem (by simp [hlength, hlength']) ?_)
    intro i hi hi'
    simp only [List.length_map, List.length_zip, Nat.lt_min] at hi hi'
    simp only [List.getElem_map, List.getElem_zip]
    have hchild := (getElem?_inside_fields hview).2
      ⟨_, List.getElem?_eq_getElem (i := i) (hlength ▸ hi.2), rfl, rfl⟩
    rw [h i _ _ _ _ hchild (List.getElem?_eq_getElem hi.2) (List.getElem?_eq_getElem hi'.2)]

/-- Null can get from an executed position up to the path and past it. -/
def Leaks (plan : Plan) (type field : String) (path : ResponsePath) : Prop :=
  ∃ executed, plan.executes type field executed = true ∧ path <+: executed ∧
    ∀ way, path <+: way → way <+: executed → ¬ plan.NullableAt plan.rootPlace [] way

/-- Something longer than a path that leads to the same goal goes through its next step. -/
private theorem child_isPrefix_of_lt {path way goal : ResponsePath} {segment : PathSegment}
    (hgoal : path ++ [segment] <+: goal) (hway : way <+: goal) (hlt : path.length < way.length) :
    path ++ [segment] <+: way := by
  refine List.prefix_of_prefix_length_le hgoal hway ?_
  rw [List.length_append, List.length_singleton]
  exact hlt

private theorem Leaks.hole {path : ResponsePath} {segment : PathSegment}
    (h : plan.Leaks type field (path ++ [segment]))
    (hnullable : plan.NullableAt plan.rootPlace [] path) : plan.Hole type field path := by
  obtain ⟨executed, hexecutes, hprefix, hways⟩ := h
  refine ⟨executed, hexecutes, (List.prefix_append _ _).trans hprefix, hnullable, ?_⟩
  intro way hway hlt
  exact hways way (child_isPrefix_of_lt hprefix hway hlt) hway

private theorem Leaks.up {path : ResponsePath} {segment : PathSegment}
    (h : plan.Leaks type field (path ++ [segment]))
    (hnonnull : ¬ plan.NullableAt plan.rootPlace [] path) : plan.Leaks type field path := by
  obtain ⟨executed, hexecutes, hprefix, hways⟩ := h
  refine ⟨executed, hexecutes, (List.prefix_append _ _).trans hprefix, fun way hbelow hway => ?_⟩
  rcases Nat.lt_or_ge path.length way.length with hlt | hle
  · exact hways way (child_isPrefix_of_lt hprefix hway hlt) hway
  · rwa [← hbelow.eq_of_length_le hle]

private theorem nullableAt_iff {path : ResponsePath} {place : Place}
    (hplace : plan.place? path = some place) :
    plan.NullableAt plan.rootPlace [] path ↔ place.nullable = true := by
  constructor
  · rintro ⟨inner, hinner, hnullable⟩
    obtain rfl := Option.some.inj (hinner.symm.trans hplace)
    exact hnullable
  · exact fun hnullable => ⟨place, hplace, hnullable⟩

private theorem hole_of_executes {path : ResponsePath} (h : plan.executes type field path = true)
    (hnullable : plan.NullableAt plan.rootPlace [] path) : plan.Hole type field path := by
  refine ⟨path, h, List.prefix_rfl, hnullable, fun way hway hlt => ?_⟩
  exact absurd hway.length_le (Nat.not_le_of_lt hlt)

private theorem leaks_of_executes {path : ResponsePath} (h : plan.executes type field path = true)
    (hnonnull : ¬ plan.NullableAt plan.rootPlace [] path) : plan.Leaks type field path := by
  refine ⟨path, h, List.prefix_rfl, fun way hbelow hway => ?_⟩
  rwa [← hbelow.eq_of_length_le hway.length_le]

/-- The error is neither at an executed position nor below one. -/
def spares (plan : Plan) (type field : String) (error : ResponseError) : Bool :=
  !error.path.any (plan.touches type field)

/-- Both runs have values that differ in holes only, or null propagates in both. -/
def Alike (plan other : Plan) (type field : String) (mark : Value) (path : ResponsePath)
    (completion completion' : Completion) : Prop :=
  (∃ value value', completion.outcome = .ok value ∧ completion'.outcome = .ok value' ∧
    Value.punch mark (plan.Hole type field) value path =
      Value.punch mark (other.Hole type field) value' path) ∨
  completion.Propagates ∧ completion'.Propagates

private theorem Alike.propagates_iff {path : ResponsePath} {completion completion' : Completion}
    (h : plan.Alike other type field mark path completion completion') :
    completion.Propagates ↔ completion'.Propagates := by
  rcases h with ⟨value, value', hvalue, hvalue', -⟩ | ⟨h, h'⟩
  · exact iff_of_false (Completion.not_propagates_of_ok hvalue)
      (Completion.not_propagates_of_ok hvalue')
  · exact iff_of_true h h'

/-- What two runs make of a path: the same errors but for those of executed positions, and like
outcomes unless null leaks from an executed position. -/
structure Agree (plan other : Plan) (type field : String) (mark : Value) (path : ResponsePath)
    (completion completion' : Completion) : Prop where
  errors : completion.errors.filter (plan.spares type field) =
    completion'.errors.filter (plan.spares type field)
  outcomes : plan.Alike other type field mark path completion completion' ∨
    plan.Leaks type field path ∧ other.Leaks type field path

private theorem Completes.exists_value {place : Place} {path : ResponsePath}
    {completion : Completion}
    (h : plan.Completes place path completion) (hnullable : place.nullable = true)
    (hfatal : ¬ completion.IsFatal) : ∃ value, completion.outcome = .ok value :=
  (Completion.ok_or_propagates hfatal).resolve_right (h.not_propagates hnullable)

private theorem Completes.exists_path {place : Place} {path : ResponsePath}
    {completion : Completion}
    (h : plan.Completes place path completion) (hfatal : ¬ completion.IsFatal) :
    ∀ error ∈ completion.errors, ∃ rest, error.path = some (path ++ rest) := by
  intro error herror
  obtain ⟨rest, hpath, -⟩ := h.nulled hfatal error herror
  exact ⟨rest, hpath⟩

private theorem filter_spares_eq_nil {place : Place} {path : ResponsePath} {completion : Completion}
    (h : plan.Completes place path completion) (hfatal : ¬ completion.IsFatal)
    (htouches : other.touches type field path = true) :
    completion.errors.filter (other.spares type field) = [] := by
  rw [List.filter_eq_nil_iff]
  intro error herror hspares
  obtain ⟨rest, hpath⟩ := h.exists_path hfatal error herror
  simp [spares, hpath, touches_append htouches rest] at hspares

private theorem agree_of_executes {place place' : Place} {path : ResponsePath}
    {completion completion' : Completion}
    (h : plan.Completes place path completion) (h' : other.Completes place' path completion')
    (hfatal : ¬ completion.IsFatal) (hfatal' : ¬ completion'.IsFatal)
    (hplace : plan.place? path = some place) (hplace' : other.place? path = some place')
    (hnullable : place.nullable = place'.nullable)
    (hexecutes : plan.executes type field path = true)
    (hexecutes' : other.executes type field path = true) :
    plan.Agree other type field mark path completion completion' := by
  have htouches := touches_iff.2 ⟨path, List.prefix_rfl, hexecutes⟩
  refine ⟨?_, ?_⟩
  · rw [filter_spares_eq_nil h hfatal htouches, filter_spares_eq_nil h' hfatal' htouches]
  · by_cases hnull : place.nullable = true
    · obtain ⟨value, hvalue⟩ := h.exists_value hnull hfatal
      obtain ⟨value', hvalue'⟩ := h'.exists_value (hnullable ▸ hnull) hfatal'
      refine .inl (.inl ⟨value, value', hvalue, hvalue', ?_⟩)
      rw [Value.punch_of_hole _ (hole_of_executes hexecutes ((nullableAt_iff hplace).2 hnull)),
        Value.punch_of_hole _ (hole_of_executes hexecutes'
          ((nullableAt_iff hplace').2 (hnullable ▸ hnull)))]
    · exact .inr ⟨leaks_of_executes hexecutes (mt (nullableAt_iff hplace).1 hnull),
        leaks_of_executes hexecutes' (mt (nullableAt_iff hplace').1 (hnullable ▸ hnull))⟩

section Siblings

variable {place : Place} {path : ResponsePath} {completions completions' : List Completion}

private theorem filter_errors_join (hlength : completions.length = (plan.inside place path).length)
    (hlength' : completions'.length = (plan.inside place path).length)
    (hagree : ∀ (i : Nat) segment child completion completion',
      (plan.inside place path)[i]? = some (segment, child) → completions[i]? = some completion →
      completions'[i]? = some completion' →
      plan.Agree other type field mark (path.child segment) completion completion') :
    (completions.flatMap Completion.errors).filter (plan.spares type field) =
      (completions'.flatMap Completion.errors).filter (plan.spares type field) := by
  have hmap :
      completions.map (fun completion => completion.errors.filter (plan.spares type field)) =
        completions'.map (fun completion => completion.errors.filter (plan.spares type field)) := by
    refine List.ext_getElem (by simp [hlength, hlength']) fun i hi hi' => ?_
    rw [List.length_map] at hi hi'
    have hchild := List.getElem?_eq_getElem (l := plan.inside place path) (i := i) (hlength ▸ hi)
    rw [List.getElem_map, List.getElem_map]
    exact (hagree i _ _ _ _ hchild (List.getElem?_eq_getElem hi)
      (List.getElem?_eq_getElem hi')).errors
  rw [List.filter_flatMap, List.filter_flatMap, List.flatMap_def, List.flatMap_def, hmap]

private theorem alike_join (hinner : (plan.view place path).isInner = true)
    (hlength : completions.length = (plan.inside place path).length)
    (hlength' : completions'.length = (plan.inside place path).length)
    (hpath : plan.Hole type field path ↔ other.Hole type field path)
    (hfatal : ¬ (Completion.join (plan.view place path).build completions).IsFatal)
    (hfatal' : ¬ (Completion.join (plan.view place path).build completions').IsFatal)
    (halike : ∀ (i : Nat) segment child completion completion',
      (plan.inside place path)[i]? = some (segment, child) → completions[i]? = some completion →
      completions'[i]? = some completion' →
      plan.Alike other type field mark (path.child segment) completion completion') :
    plan.Alike other type field mark path (Completion.join (plan.view place path).build completions)
      (Completion.join (plan.view place path).build completions') := by
  have hpropagates : (Completion.join (plan.view place path).build completions).Propagates ↔
      (Completion.join (plan.view place path).build completions').Propagates := by
    rw [Completion.propagates_join_iff hfatal, Completion.propagates_join_iff hfatal']
    have hiff (i : Nat) (completion completion' : Completion)
        (hi : completions[i]? = some completion) (hi' : completions'[i]? = some completion') :
        completion.Propagates ↔ completion'.Propagates := by
      obtain ⟨⟨segment, child⟩, hchild⟩ := exists_getElem?_of_length_eq hlength hi
      exact (halike i segment child _ _ hchild hi hi').propagates_iff
    constructor
    · exact Completion.exists_propagates_of_forall (hlength.trans hlength'.symm)
        fun i _ _ hi hi' => (hiff i _ _ hi hi').1
    · exact Completion.exists_propagates_of_forall (hlength'.trans hlength.symm)
        fun i _ _ hi' hi => (hiff i _ _ hi hi').2
  rcases Completion.ok_or_propagates hfatal with ⟨value, hvalue⟩ | h
  · rcases Completion.ok_or_propagates hfatal' with ⟨value', hvalue'⟩ | h'
    · obtain ⟨values, hvalues, rfl⟩ := map_eq_ok_iff.1 hvalue
      obtain ⟨values', hvalues', rfl⟩ := map_eq_ok_iff.1 hvalue'
      rw [Completion.outcomes_eq_ok_iff] at hvalues hvalues'
      refine .inl ⟨_, _, hvalue, hvalue', punch_build_congr hinner
        ((Completion.length_of_map_eq hvalues).trans hlength)
        ((Completion.length_of_map_eq hvalues').trans hlength') hpath ?_⟩
      intro i segment child first second hchild hfirst hsecond
      obtain ⟨completion, hi, hok⟩ := Completion.outcome_of_map_eq hvalues hfirst
      obtain ⟨completion', hi', hok'⟩ := Completion.outcome_of_map_eq hvalues' hsecond
      rcases halike i segment child _ _ hchild hi hi' with ⟨v, v', hv, hv', hpunch⟩ | ⟨hprop, -⟩
      · obtain rfl : first = v := Except.ok.inj (hok.symm.trans hv)
        obtain rfl : second = v' := Except.ok.inj (hok'.symm.trans hv')
        exact hpunch
      · exact absurd hprop (Completion.not_propagates_of_ok hok)
    · exact .inr ⟨hpropagates.2 h', h'⟩
  · exact .inr ⟨h, hpropagates.1 h⟩

private theorem Alike.absorb (hpath : plan.Hole type field path ↔ other.Hole type field path)
    {completion completion' : Completion} {nullable : Bool}
    (h : plan.Alike other type field mark path completion completion') :
    plan.Alike other type field mark path (completion.absorb nullable)
      (completion'.absorb nullable) := by
  rcases h with ⟨value, value', hvalue, hvalue', hpunch⟩ | ⟨hprop, hprop'⟩
  · exact .inl ⟨value, value', Completion.outcome_absorb_eq_ok_iff.2 (.inl hvalue),
      Completion.outcome_absorb_eq_ok_iff.2 (.inl hvalue'), hpunch⟩
  · cases nullable with
    | false =>
      exact .inr ⟨Completion.propagates_absorb_iff.2 ⟨hprop, rfl⟩,
        Completion.propagates_absorb_iff.2 ⟨hprop', rfl⟩⟩
    | true =>
      refine .inl ⟨.null, .null, Completion.outcome_absorb_eq_ok_iff.2 (.inr ⟨hprop, rfl, rfl⟩),
        Completion.outcome_absorb_eq_ok_iff.2 (.inr ⟨hprop', rfl, rfl⟩), ?_⟩
      simp only [Value.punch]
      rw [propext hpath]

private theorem agree_join (hdiffer : plan.DifferAt other type field)
    (hplace : plan.place? path = some place) (huntouched : plan.touches type field path = false)
    (hinner : (plan.view place path).isInner = true)
    (hlength : completions.length = (plan.inside place path).length)
    (hlength' : completions'.length = (plan.inside place path).length)
    (h : plan.Completes place path
      ((Completion.join (plan.view place path).build completions).absorb place.nullable))
    (h' : other.Completes place path
      ((Completion.join (plan.view place path).build completions').absorb place.nullable))
    (hfatal : ¬ (Completion.join (plan.view place path).build completions).IsFatal)
    (hfatal' : ¬ (Completion.join (plan.view place path).build completions').IsFatal)
    (hagree : ∀ (i : Nat) segment child completion completion',
      (plan.inside place path)[i]? = some (segment, child) → completions[i]? = some completion →
      completions'[i]? = some completion' →
      plan.Agree other type field mark (path.child segment) completion completion') :
    plan.Agree other type field mark path
      ((Completion.join (plan.view place path).build completions).absorb place.nullable)
      ((Completion.join (plan.view place path).build completions').absorb place.nullable) := by
  have hplace' : other.place? path = some place := (hdiffer.place?_eq huntouched).trans hplace
  have hpath := hdiffer.hole_iff huntouched
  refine ⟨?_, ?_⟩
  · simp only [Completion.errors_absorb, Completion.errors_join]
    exact filter_errors_join hlength hlength' hagree
  -- Once null leaks out of one place inside, nothing is known of the siblings together: this place
  -- is then a hole itself, or the leak goes on.
  by_cases hleak : ∃ segment, plan.Leaks type field (path.child segment) ∧
      other.Leaks type field (path.child segment)
  · obtain ⟨segment, hleak, hleak'⟩ := hleak
    by_cases hnullable : place.nullable = true
    · obtain ⟨value, hvalue⟩ := h.exists_value hnullable (mt Completion.isFatal_absorb_iff.1 hfatal)
      obtain ⟨value', hvalue'⟩ :=
        h'.exists_value hnullable (mt Completion.isFatal_absorb_iff.1 hfatal')
      refine .inl (.inl ⟨value, value', hvalue, hvalue', ?_⟩)
      rw [Value.punch_of_hole _ (hleak.hole ((nullableAt_iff hplace).2 hnullable)),
        Value.punch_of_hole _ (hleak'.hole ((nullableAt_iff hplace').2 hnullable))]
    · exact .inr ⟨hleak.up (mt (nullableAt_iff hplace).1 hnullable),
        hleak'.up (mt (nullableAt_iff hplace').1 hnullable)⟩
  · refine .inl (Alike.absorb hpath (alike_join hinner hlength hlength' hpath hfatal hfatal' ?_))
    intro i segment child completion completion' hchild hi hi'
    refine (hagree i segment child _ _ hchild hi hi').outcomes.resolve_right fun hleaks => ?_
    exact hleak ⟨segment, hleaks⟩

end Siblings

private theorem agree_inside (hdiffer : plan.DifferAt other type field) {place child : Place}
    {path : ResponsePath} {segment : PathSegment} {i : Nat} {completion completion' : Completion}
    (hplace : plan.place? path = some place) (huntouched : plan.touches type field path = false)
    (hchild : (plan.inside place path)[i]? = some (segment, child))
    (h : plan.Completes child (path.child segment) completion)
    (h' : ∀ child', (other.inside place path)[i]? = some (segment, child') →
      other.Completes child' (path.child segment) completion')
    (hfatal : ¬ completion.IsFatal) (hfatal' : ¬ completion'.IsFatal)
    (hsame : other.Completes child (path.child segment) completion' →
      plan.place? (path.child segment) = some child →
      plan.touches type field (path.child segment) = false →
      plan.Agree other type field mark (path.child segment) completion completion') :
    plan.Agree other type field mark (path.child segment) completion completion' := by
  have hplace' := hdiffer.place?_eq huntouched
  obtain ⟨child', hchild', hakin⟩ := hdiffer.inside_akin hchild
  have hat := place?_child hplace (lookup_inside hchild)
  have hat' := place?_child (hplace'.trans hplace) (lookup_inside hchild')
  cases hexecutes : plan.executes type field (path.child segment) with
  | true =>
    exact agree_of_executes h (h' child' hchild') hfatal hfatal' hat hat' hakin.nullable_eq
      hexecutes (hdiffer.executes_child hplace' hexecutes)
  | false =>
    obtain rfl | ⟨hkey, site, expr, produced, _, rfl, -, hsite⟩ := hakin
    · refine hsame (h' child hchild') hat ?_
      rw [ResponsePath.child, touches_child huntouched]
      exact hexecutes
    · rw [ResponsePath.child,
        executes_child_iff.2 ⟨hkey, site, expr, produced, hat, hsite⟩] at hexecutes
      cases hexecutes

/-- Places above the executed positions agree. -/
theorem agree_of_completes (hdiffer : plan.DifferAt other type field) {place : Place}
    {path : ResponsePath} {completion completion' : Completion}
    (h : plan.Completes place path completion) (h' : other.Completes place path completion')
    (hplace : plan.place? path = some place) (huntouched : plan.touches type field path = false)
    (hfatal : ¬ completion.IsFatal) (hfatal' : ¬ completion'.IsFatal) :
    plan.Agree other type field mark path completion completion' := by
  induction h generalizing completion' with
  | fatal => exact absurd ⟨_, rfl⟩ hfatal
  | @value place path value hview =>
    obtain rfl := h'.eq_of_value ((congrFun (congrFun hdiffer.view place) path).trans hview)
    have hinside : plan.inside place path = [] := by
      rw [inside, hview]
      rfl
    refine ⟨rfl, .inl (.inl ⟨value, value, rfl, rfl, Value.punch_congr value path fun rest => ?_⟩)⟩
    exact hdiffer.hole_iff (untouched_below hplace hinside huntouched rest)
  | @failed place path failure hview =>
    obtain rfl := h'.eq_of_failed ((congrFun (congrFun hdiffer.view place) path).trans hview)
    exact ⟨rfl, .inl (Alike.absorb (hdiffer.hole_iff huntouched) (.inr ⟨rfl, rfl⟩))⟩
  | @inner place path completions hinner hlength hinside ih =>
    have hinner' : (other.view place path).isInner = true := by rw [hdiffer.view, hinner]
    obtain ⟨completions', hlength', hinside', rfl⟩ := h'.exists_join hinner'
    rw [hdiffer.view] at h' hfatal' ⊢
    have hlength'' := hlength'.trans (hdiffer.length_inside place path)
    have hjoin := mt Completion.isFatal_absorb_iff.2 hfatal
    have hjoin' := mt Completion.isFatal_absorb_iff.2 hfatal'
    refine agree_join hdiffer hplace huntouched hinner hlength hlength''
      (.inner hinner hlength hinside) h' hjoin hjoin' ?_
    intro i segment child completion completion' hchild hi hi'
    have hnot := Completion.not_isFatal_of_join hjoin _ (List.mem_of_getElem? hi)
    have hnot' := Completion.not_isFatal_of_join hjoin' _ (List.mem_of_getElem? hi')
    exact agree_inside hdiffer hplace huntouched hchild (hinside i segment child _ hchild hi)
      (fun child' hchild' => hinside' i segment child' _ hchild' hi') hnot hnot'
      fun h hat huntouched => ih i segment child _ hchild hi h hat huntouched hnot hnot'

private theorem Matches.differAt (h : plan.Matches (fun _ _ => True) other)
    (hresolvers : ∀ t f, ¬ (t = type ∧ f = field) →
      other.schema.resolvers t f = plan.schema.resolvers t f) :
    plan.DifferAt other type field where
  rootPlace := h.rootPlace_eq
  view := h.view_eq
  typename := funext fun object => funext fun parent => funext fun node =>
    h.typenameAnswer_eq object parent node
  answer := by
    intro object definition hne
    funext parent node path
    exact h.answer_eq fun arguments _ => by rw [hresolvers _ _ hne]

private theorem differAt_of_ofRequest {schema other : ExecutableSchema} {settings : Settings}
    {request : Request} {plan' : Plan}
    (hdiffer : schema.toSchema.DifferAt other.toSchema type field)
    (hblind : schema.toSchema.Blind other.toBoundSystem)
    (hplan : ofRequest schema settings request = .ok plan)
    (hplan' : ofRequest other settings request = .ok plan') :
    plan.DifferAt plan' type field := by
  have hdepth : settings.maxDepth = settings.maxDepth := rfl
  have hmatches := matches_of_ofRequest (hdiffer.agrees hblind) (fun _ _ _ _ _ _ => trivial) hdepth
    request
  rw [hplan, hplan'] at hmatches
  cases hmatches with
  | ok hmatches =>
    refine hmatches.differAt fun t f hne => ?_
    rw [(accepted_of_ofRequest hplan).1, (accepted_of_ofRequest hplan').1]
    exact hdiffer.resolvers t f hne

/-- Executions that differ in the resolver of one field have the same errors apart from the
positions at which it is executed, and the same data apart from the holes it can make. Predicates of
directives and the translator are given the resolvers of the schema and must not make anything of
the difference: `not_contained_of_peeking` is what happens otherwise. -/
theorem contained_of_execute {schema other : ExecutableSchema} {type field : String}
    {settings : Settings} {request : Request} {response response' : Response}
    (hdiffer : schema.toSchema.DifferAt other.toSchema type field)
    (hblind : schema.toSchema.Blind other.toBoundSystem)
    (h : (execute schema settings request).value = .ok response)
    (h' : (execute other settings request).value = .ok response') :
    ∃ plan plan' data data', ofRequest schema settings request = .ok plan ∧
      ofRequest other settings request = .ok plan' ∧
      response.data = some data ∧ response'.data = some data' ∧
      (∀ path, plan.touches type field path = plan'.touches type field path) ∧
      response.errors.filter (plan.spares type field) =
        response'.errors.filter (plan'.spares type field) ∧
      ∀ mark, Value.punch mark (plan.Hole type field) data [] =
        Value.punch mark (plan'.Hole type field) data' [] := by
  obtain ⟨plan, completion, data, hplan, hcompletes, houtcome, rfl⟩ := exists_completes_of_execute h
  obtain ⟨plan', completion', data', hplan', hcompletes', houtcome', rfl⟩ :=
    exists_completes_of_execute h'
  have hdiffer := differAt_of_ofRequest hdiffer hblind hplan hplan'
  have hspares : plan'.spares type field = plan.spares type field := by
    funext error
    rw [spares, spares, funext hdiffer.touches_eq]
  rw [hdiffer.rootPlace] at hcompletes'
  have hagree (mark : Value) : plan.Agree plan' type field mark [] completion completion' :=
    agree_of_completes hdiffer hcompletes hcompletes' rfl touches_nil
      (Completion.not_isFatal_of_ok houtcome) (Completion.not_isFatal_of_ok houtcome')
  refine ⟨plan, plan', data, data', hplan, hplan', rfl, rfl, hdiffer.touches_eq, ?_, fun mark => ?_⟩
  · rw [hspares]
    exact (hagree .null).errors
  · rcases (hagree mark).outcomes with (⟨value, value', hvalue, hvalue', hpunch⟩ | ⟨h, -⟩) | ⟨h, -⟩
    · obtain rfl : data = value := Except.ok.inj (houtcome.symm.trans hvalue)
      obtain rfl : data' = value' := Except.ok.inj (houtcome'.symm.trans hvalue')
      exact hpunch
    · exact absurd h (Completion.not_propagates_of_ok houtcome)
    · obtain ⟨executed, -, -, hways⟩ := h
      exact absurd ⟨_, rfl, rfl⟩ (hways [] List.prefix_rfl List.nil_prefix)

end

/-- The schema in which the sizes of boxes have a resolver of their own. -/
def sizedSchema : ExecutableSchema :=
  { boxSchema with
    resolvers := boxSchema.resolvers.update "Box" "size"
      (.custom fun _ _ => .ok (.number (.int 7))) }

def sizedResponse : Response :=
  { data := some (.object [("count", .number (.int 3)),
      ("boxes", .list [.object [("size", .number (.int 7)), ("label", .string "red")],
        .object [("size", .number (.int 7)), ("label", .null)]])])
    errors := [] }

theorem contained_sizedResponse :
    ∃ plan plan' data data', ofRequest boxSchema .default boxRequest = .ok plan ∧
      ofRequest sizedSchema .default boxRequest = .ok plan' ∧
      boxResponse.data = some data ∧ sizedResponse.data = some data' ∧
      (∀ path, plan.touches "Box" "size" path = plan'.touches "Box" "size" path) ∧
      boxResponse.errors.filter (plan.spares "Box" "size") =
        sizedResponse.errors.filter (plan'.spares "Box" "size") ∧
      ∀ mark, Value.punch mark (plan.Hole "Box" "size") data [] =
        Value.punch mark (plan'.Hole "Box" "size") data' [] := by
  have hexecute : (execute boxSchema .default boxRequest).value = .ok boxResponse := rfl
  have hsized : (execute sizedSchema .default boxRequest).value = .ok sizedResponse := rfl
  have hdiffer : boxSchema.toSchema.DifferAt sizedSchema.toSchema "Box" "size" :=
    ⟨rfl, fun t f hne => if_neg hne⟩
  have hblind : boxSchema.toSchema.Blind sizedSchema.toBoundSystem := by
    refine ⟨fun spec hspec arguments => ?_, rfl, rfl⟩
    simp only [boxSchema, DirectiveSpec.builtins, List.mem_cons, List.not_mem_nil,
      or_false] at hspec
    rcases hspec with rfl | rfl <;> rfl
  exact contained_of_execute hdiffer hblind hexecute hsized

/-- A directive that keeps fields as long as the sizes of boxes have no resolver of their own. -/
def steady : DirectiveSpec :=
  { name := "steady"
    description := none
    locations := [.field]
    arguments := []
    predicate := some fun _ system =>
      match system.resolvers "Box" "size" with
      | .parent => .ok true
      | .custom _ => .ok false
    hook := none }

/-- The request `{ count @steady boxes { size } }`, with a count that is none. -/
def steadyRequest : Request :=
  { boxRequest with
    document :=
      { operations := .single ⟨⟨1, 1⟩, .query, [], [],
          [.field ⟨⟨1, 3⟩, none, "count", [], [⟨⟨1, 9⟩, "steady", []⟩]⟩ [],
            .field ⟨⟨1, 17⟩, none, "boxes", [], []⟩ [.field ⟨⟨1, 25⟩, none, "size", [], []⟩ []]]⟩
        fragments := [] }
    root := .object [("count", .string "many"), ("boxes", .array [])] }

/-- A predicate that looks at the resolver of one field decides about another one. -/
theorem not_contained_of_peeking :
    { boxSchema.toSchema with directives := [steady] : Schema }.DifferAt
        { sizedSchema.toSchema with directives := [steady] : Schema } "Box" "size" ∧
      ∃ plan plan' response response',
        ofRequest { boxSchema with directives := [steady] } .default steadyRequest = .ok plan ∧
        ofRequest { sizedSchema with directives := [steady] } .default steadyRequest = .ok plan' ∧
        (execute { boxSchema with directives := [steady] } .default steadyRequest).value =
          .ok response ∧
        (execute { sizedSchema with directives := [steady] } .default steadyRequest).value =
          .ok response' ∧
        response.errors.filter (plan.spares "Box" "size") ≠
          response'.errors.filter (plan'.spares "Box" "size") := by
  refine ⟨⟨rfl, fun t f hne => if_neg hne⟩, _, _, _, _, rfl, rfl, rfl, rfl, fun heq => ?_⟩
  have hlength := congrArg List.length heq
  revert hlength
  decide +kernel

end Plan

end GraphQuery
