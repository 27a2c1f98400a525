import GraphQuery.Proofs.Completion.Invocations
import GraphQuery.Proofs.Completion.RenamedPlaces
import GraphQuery.Proofs.Completion.ReorderedPlaces

/-!
# Executions of reordered selections

A request with its selections in another order, at any depth and also inside fragments. Main
statement: if all fields of a key are called alike wherever the request executes them, then its
execution returns the same data and the same errors as before, in another order.
-/

namespace GraphQuery

open List (Forall₂ Perm)

/-- The values at `path` are equal up to the order of the keys in the objects at `levels`. -/
inductive Value.Reordered (levels : ResponsePath → Bool) : ResponsePath → Value → Value → Prop
  | same {path value} : Reordered levels path value value
  | list {path : ResponsePath} {items items' : List Value} (hlength : items'.length = items.length)
      (hitems : ∀ (i : Nat) item item', items[i]? = some item → items'[i]? = some item' →
        Reordered levels (path.child (.index i)) item item') :
      Reordered levels path (.list items) (.list items')
  | object {path : ResponsePath} {fields fields' : List (String × Value)}
      (hlevel : levels path = true)
      (hkeys : (fields'.map Prod.fst).Perm (fields.map Prod.fst))
      (hfields : ∀ key value value', (key, value) ∈ fields → (key, value') ∈ fields' →
        Reordered levels (path.child (.field key)) value value') :
      Reordered levels path (.object fields) (.object fields')

/-- The error wherever it is located in the document. -/
def ResponseError.unlocated (error : ResponseError) : ResponseError :=
  { error with locations := [] }

/-- The errors are the same in another order, wherever they are located. -/
def ErrorsReorder (errors errors' : List ResponseError) : Prop :=
  (errors'.map ResponseError.unlocated).Perm (errors.map ResponseError.unlocated)

structure Response.Reordered (levels : ResponsePath → Bool) (response response' : Response) :
    Prop where
  data : Option.Rel (Value.Reordered levels []) response.data response'.data
  errors : ErrorsReorder response.errors response'.errors

/-- In lists with the same keys in another order, images of what stands under the same keys are
images in another order, one after the other. -/
theorem perm_flatMap_of_keys {κ α β γ : Type} {as : List (κ × α)} {bs : List (κ × β)}
    {f : α → List γ} {g : β → List γ} (hkeys : (bs.map Prod.fst).Perm (as.map Prod.fst))
    (h : ∀ key a b, (key, a) ∈ as → (key, b) ∈ bs → (g b).Perm (f a)) :
    (bs.flatMap fun entry => g entry.2).Perm (as.flatMap fun entry => f entry.2) := by
  induction as generalizing bs with
  | nil =>
    obtain rfl := List.map_eq_nil_iff.1 hkeys.eq_nil
    exact .refl _
  | cons entry as ih =>
    obtain ⟨key, a⟩ := entry
    have hmem : key ∈ bs.map Prod.fst := hkeys.mem_iff.2 List.mem_cons_self
    obtain ⟨⟨other, b⟩, hb, hother⟩ := List.mem_map.1 hmem
    obtain rfl : other = key := hother
    obtain ⟨before, after, rfl⟩ := List.append_of_mem hb
    have hmove : (before ++ (other, b) :: after).Perm ((other, b) :: (before ++ after)) :=
      List.perm_middle
    have hrest : ((before ++ after).map Prod.fst).Perm (as.map Prod.fst) :=
      ((hmove.map Prod.fst).symm.trans hkeys).cons_inv
    refine (hmove.flatMap_right _).trans ?_
    rw [List.flatMap_cons, List.flatMap_cons]
    refine (h other a b List.mem_cons_self hb).append (ih hrest fun key a b ha hb => ?_)
    exact h key a b (List.mem_cons_of_mem _ ha) (hmove.mem_iff.2 (List.mem_cons_of_mem _ hb))

/-- Both completions have values, equal up to the order of keys, or none of them has; and both have
the same errors in another order. -/
structure Completion.Reordered (levels : ResponsePath → Bool) (path : ResponsePath)
    (completion completion' : Completion) : Prop where
  outcome : completion.Propagates ∧ completion'.Propagates ∨
    ∃ value value', completion.outcome = .ok value ∧ completion'.outcome = .ok value' ∧
      Value.Reordered levels path value value'
  errors : ErrorsReorder completion.errors completion'.errors

namespace Completion

variable {levels : ResponsePath → Bool} {path : ResponsePath} {completion completion' : Completion}

private theorem Reordered.not_isFatal (h : completion.Reordered levels path completion') :
    ¬ completion'.IsFatal := by
  rcases h.outcome with ⟨-, hpropagates⟩ | ⟨_, _, -, hvalue, -⟩
  · rintro ⟨fault, hfault⟩
    cases hpropagates.symm.trans hfault
  · exact not_isFatal_of_ok hvalue

private theorem Reordered.propagates_iff (h : completion.Reordered levels path completion') :
    completion'.Propagates ↔ completion.Propagates := by
  rcases h.outcome with ⟨hpropagates, hpropagates'⟩ | ⟨_, _, hvalue, hvalue', -⟩
  · exact ⟨fun _ => hpropagates, fun _ => hpropagates'⟩
  · exact ⟨fun h => absurd h (not_propagates_of_ok hvalue'),
      fun h => absurd h (not_propagates_of_ok hvalue)⟩

private theorem Reordered.value (h : completion.Reordered levels path completion')
    {value value' : Value}
    (hvalue : completion.outcome = .ok value) (hvalue' : completion'.outcome = .ok value') :
    Value.Reordered levels path value value' := by
  rcases h.outcome with ⟨hpropagates, -⟩ | ⟨_, _, hsame, hsame', hreordered⟩
  · exact absurd hpropagates (not_propagates_of_ok hvalue)
  · obtain rfl := Except.ok.inj (hsame.symm.trans hvalue)
    obtain rfl := Except.ok.inj (hsame'.symm.trans hvalue')
    exact hreordered

private theorem reordered_failed {failure failure' : Failure}
    (hmessage : failure'.message = failure.message)
    (hcode : failure'.code = failure.code) :
    (failed (failure.error path)).Reordered levels path (failed (failure'.error path)) := by
  have herror : (failure'.error path).unlocated = (failure.error path).unlocated := by
    simp only [Failure.error, ResponseError.unlocated, hmessage, hcode]
  exact ⟨.inl ⟨rfl, rfl⟩, .of_eq (congrArg (fun error => [error]) herror)⟩

private theorem Reordered.absorb (h : completion.Reordered levels path completion')
    (nullable : Bool) :
    (completion.absorb nullable).Reordered levels path (completion'.absorb nullable) := by
  refine ⟨?_, by rw [errors_absorb, errors_absorb]; exact h.errors⟩
  rcases h.outcome with ⟨hpropagates, hpropagates'⟩ | ⟨value, value', hvalue, hvalue', hreordered⟩
  · cases nullable with
    | true =>
      exact .inr ⟨.null, .null, outcome_absorb_eq_ok_iff.2 (.inr ⟨hpropagates, rfl, rfl⟩),
        outcome_absorb_eq_ok_iff.2 (.inr ⟨hpropagates', rfl, rfl⟩), .same⟩
    | false =>
      exact .inl ⟨propagates_absorb_iff.2 ⟨hpropagates, rfl⟩,
        propagates_absorb_iff.2 ⟨hpropagates', rfl⟩⟩
  · exact .inr ⟨value, value', outcome_absorb_eq_ok_iff.2 (.inl hvalue),
      outcome_absorb_eq_ok_iff.2 (.inl hvalue'), hreordered⟩

end Completion

/-- Siblings under the same keys in another order. -/
structure SiblingsReordered (levels : ResponsePath → Bool) (path : ResponsePath)
    (siblings siblings' : List (PathSegment × Completion)) : Prop where
  segments : (siblings'.map Prod.fst).Perm (siblings.map Prod.fst)
  completions : ∀ segment completion completion', (segment, completion) ∈ siblings →
    (segment, completion') ∈ siblings' →
    completion.Reordered levels (path.child segment) completion'

namespace SiblingsReordered

variable {levels : ResponsePath → Bool} {path : ResponsePath}
  {siblings siblings' : List (PathSegment × Completion)}

private theorem exists_left (h : SiblingsReordered levels path siblings siblings')
    {entry' : PathSegment × Completion} (hmem : entry' ∈ siblings') :
    ∃ entry ∈ siblings, entry.2.Reordered levels (path.child entry'.1) entry'.2 := by
  have hsegment : entry'.1 ∈ siblings.map Prod.fst :=
    h.segments.mem_iff.1 (List.mem_map_of_mem hmem)
  obtain ⟨⟨segment, completion⟩, hentry, rfl⟩ := List.mem_map.1 hsegment
  exact ⟨_, hentry, h.completions _ _ _ hentry hmem⟩

private theorem exists_right (h : SiblingsReordered levels path siblings siblings')
    {entry : PathSegment × Completion} (hmem : entry ∈ siblings) :
    ∃ entry' ∈ siblings', entry.2.Reordered levels (path.child entry.1) entry'.2 := by
  have hsegment : entry.1 ∈ siblings'.map Prod.fst :=
    h.segments.mem_iff.2 (List.mem_map_of_mem hmem)
  obtain ⟨⟨segment, completion⟩, hentry, rfl⟩ := List.mem_map.1 hsegment
  exact ⟨_, hentry, h.completions _ _ _ hmem hentry⟩

private theorem errors (h : SiblingsReordered levels path siblings siblings') :
    ErrorsReorder ((siblings.map Prod.snd).flatMap Completion.errors)
      ((siblings'.map Prod.snd).flatMap Completion.errors) := by
  unfold ErrorsReorder
  rw [List.map_flatMap, List.map_flatMap, List.flatMap_map, List.flatMap_map]
  exact perm_flatMap_of_keys (f := fun completion : Completion => completion.errors.map _)
    (g := fun completion : Completion => completion.errors.map _) h.segments
    fun segment completion completion' hmem hmem' =>
      (h.completions segment completion completion' hmem hmem').errors

private theorem not_isFatal_join (h : SiblingsReordered levels path siblings siblings')
    (build : List Value → Value) :
    ¬ (Completion.join build (siblings'.map Prod.snd)).IsFatal := by
  rw [Completion.join_isFatal_iff]
  rintro ⟨completion', hmem', hcompletion'⟩
  obtain ⟨entry', hentry', rfl⟩ := List.mem_map.1 hmem'
  obtain ⟨entry, -, hreordered⟩ := h.exists_left hentry'
  exact hreordered.not_isFatal hcompletion'

private theorem propagates_join_iff (h : SiblingsReordered levels path siblings siblings')
    {build : List Value → Value} (build' : List Value → Value)
    (hfatal : ¬ (Completion.join build (siblings.map Prod.snd)).IsFatal) :
    (Completion.join build' (siblings'.map Prod.snd)).Propagates ↔
      (Completion.join build (siblings.map Prod.snd)).Propagates := by
  rw [Completion.propagates_join_iff hfatal,
    Completion.propagates_join_iff (h.not_isFatal_join build')]
  simp only [List.mem_map, exists_exists_and_eq_and]
  constructor
  · rintro ⟨entry', hentry', hcompletion'⟩
    obtain ⟨entry, hentry, hreordered⟩ := h.exists_left hentry'
    exact ⟨entry, hentry, hreordered.propagates_iff.1 hcompletion'⟩
  · rintro ⟨entry, hentry, hcompletion⟩
    obtain ⟨entry', hentry', hreordered⟩ := h.exists_right hentry
    exact ⟨entry', hentry', hreordered.propagates_iff.2 hcompletion⟩

private theorem join (h : SiblingsReordered levels path siblings siblings')
    (build build' : List Value → Value)
    (hfatal : ¬ (Completion.join build (siblings.map Prod.snd)).IsFatal)
    (hbuild : ∀ values values' : List Value,
      (siblings.map Prod.snd).map Completion.outcome = values.map .ok →
      (siblings'.map Prod.snd).map Completion.outcome = values'.map .ok →
      Value.Reordered levels path (build values) (build' values')) :
    (Completion.join build (siblings.map Prod.snd)).Reordered levels path
      (Completion.join build' (siblings'.map Prod.snd)) := by
  refine ⟨?_, h.errors⟩
  have hpropagates := h.propagates_join_iff build' hfatal
  rcases Completion.ok_or_propagates hfatal with ⟨value, hvalue⟩ | hnone
  · rcases Completion.ok_or_propagates (h.not_isFatal_join build') with ⟨value', hvalue'⟩ | hnone'
    · obtain ⟨values, hvalues, rfl⟩ := map_eq_ok_iff.1 hvalue
      obtain ⟨values', hvalues', rfl⟩ := map_eq_ok_iff.1 hvalue'
      exact .inr ⟨_, _, hvalue, hvalue', hbuild values values'
        (Completion.outcomes_eq_ok_iff.1 hvalues) (Completion.outcomes_eq_ok_iff.1 hvalues')⟩
    · exact absurd (hpropagates.1 hnone') (Completion.not_propagates_of_ok hvalue)
  · exact .inl ⟨hnone, hpropagates.2 hnone⟩

end SiblingsReordered

namespace Plan

section

variable {plan plan' : Plan} {place place' : Place} {path : ResponsePath}

/-- The steps into a place, each with what stands beside it in a list. -/
def labelled {α : Type} (plan : Plan) (place : Place) (path : ResponsePath)
    (entries : List α) : List (PathSegment × α) :=
  ((plan.inside place path).map Prod.fst).zip entries

section

variable {α : Type} {entries : List α}

private theorem map_fst_labelled (hlength : entries.length = (plan.inside place path).length) :
    (plan.labelled place path entries).map Prod.fst = (plan.inside place path).map Prod.fst :=
  List.map_fst_zip (by simp [hlength])

private theorem map_snd_labelled (hlength : entries.length = (plan.inside place path).length) :
    (plan.labelled place path entries).map Prod.snd = entries :=
  List.map_snd_zip (by simp [hlength])

private theorem mem_labelled_iff {segment : PathSegment} {entry : α} :
    (segment, entry) ∈ plan.labelled place path entries ↔
      ∃ (i : Nat) (child : Place), (plan.inside place path)[i]? = some (segment, child) ∧
        entries[i]? = some entry := by
  unfold labelled
  simp only [List.mem_iff_getElem?, List.getElem?_zip_eq_some, List.getElem?_map,
    Option.map_eq_some_iff, Prod.exists, exists_and_right, exists_eq_right]

end

private theorem build_reordered (hplace : plan.place? path = some place)
    (hview : (plan.view place path).Reordered (plan'.view place' path))
    (hinner : (plan.view place path).isInner = true) {values values' : List Value}
    (hlength : values.length = (plan.inside place path).length)
    (hlength' : values'.length = (plan'.inside place' path).length)
    (h : ∀ segment value value', (segment, value) ∈ plan.labelled place path values →
      (segment, value') ∈ plan'.labelled place' path values' →
      Value.Reordered plan.isLevel (path.child segment) value value') :
    Value.Reordered plan.isLevel path ((plan.view place path).build values)
      ((plan'.view place' path).build values') := by
  generalize hshown : plan.view place path = view at hview hinner
  generalize hshown' : plan'.view place' path = view' at hview
  cases hview with
  | value | failed | fatal => cases hinner
  | @items children children' hchildren =>
    refine .list ?_ fun i item item' hitem hitem' => h _ item item' ?_ ?_
    · have hsame : (plan'.inside place' path).length = (plan.inside place path).length := by
        simp [inside, hshown, hshown', Plan.children, hchildren.length_eq]
      rw [hlength', hlength, hsame]
    · obtain ⟨⟨segment, child⟩, hchild⟩ := exists_getElem?_of_length_eq hlength hitem
      obtain ⟨rfl, -⟩ := (getElem?_inside_items hshown).1 hchild
      exact mem_labelled_iff.2 ⟨i, child, hchild, hitem⟩
    · obtain ⟨⟨segment, child⟩, hchild⟩ := exists_getElem?_of_length_eq hlength' hitem'
      obtain ⟨rfl, -⟩ := (getElem?_inside_items hshown').1 hchild
      exact mem_labelled_iff.2 ⟨i, child, hchild, hitem'⟩
  | @fields object groups groups' value hgroups =>
    have hkeys : (groups.map FieldGroup.key).length = values.length := by
      simp [hlength, inside, hshown, Plan.children]
    have hkeys' : (groups'.map FieldGroup.key).length = values'.length := by
      simp [hlength', inside, hshown', Plan.children]
    refine .object (isLevel_of_view hplace hshown) ?_ fun key value value' hmem hmem' => ?_
    · rw [List.map_fst_zip (Nat.le_of_eq hkeys), List.map_fst_zip (Nat.le_of_eq hkeys')]
      exact hgroups.keys
    · refine h (.field key) value value' ?_ ?_
      · rw [labelled, segments_fields hshown, List.zip_map_left]
        exact List.mem_map.2 ⟨(key, value), hmem, rfl⟩
      · rw [labelled, segments_fields hshown', List.zip_map_left]
        exact List.mem_map.2 ⟨(key, value'), hmem', rfl⟩

private theorem exists_completion_of_labelled {completions : List Completion} {values : List Value}
    (hvalues : completions.map Completion.outcome = values.map .ok) {segment : PathSegment}
    {value : Value} (h : (segment, value) ∈ plan.labelled place path values) :
    ∃ completion, (segment, completion) ∈ plan.labelled place path completions ∧
      completion.outcome = .ok value := by
  obtain ⟨i, child, hchild, hvalue⟩ := mem_labelled_iff.1 h
  obtain ⟨completion, hcompletion, houtcome⟩ := Completion.outcome_of_map_eq hvalues hvalue
  exact ⟨completion, mem_labelled_iff.2 ⟨i, child, hchild, hcompletion⟩, houtcome⟩

private theorem join_reordered (hplace : plan.place? path = some place)
    (hview : (plan.view place path).Reordered (plan'.view place' path))
    (hinner : (plan.view place path).isInner = true) {completions completions' : List Completion}
    (hlength : completions.length = (plan.inside place path).length)
    (hlength' : completions'.length = (plan'.inside place' path).length)
    (hfatal : ¬ (Completion.join (plan.view place path).build completions).IsFatal)
    (h : SiblingsReordered plan.isLevel path (plan.labelled place path completions)
      (plan'.labelled place' path completions')) :
    (Completion.join (plan.view place path).build completions).Reordered plan.isLevel path
      (Completion.join (plan'.view place' path).build completions') := by
  have hsame := map_snd_labelled hlength
  have hsame' := map_snd_labelled hlength'
  have hjoin := h.join (plan.view place path).build (plan'.view place' path).build
  rw [hsame, hsame'] at hjoin
  refine hjoin hfatal fun values values' hvalues hvalues' => ?_
  refine build_reordered hplace hview hinner
    ((Completion.length_of_map_eq hvalues).trans hlength)
    ((Completion.length_of_map_eq hvalues').trans hlength')
    fun segment value value' hmem hmem' => ?_
  obtain ⟨completion, hcompletion, houtcome⟩ := exists_completion_of_labelled hvalues hmem
  obtain ⟨completion', hcompletion', houtcome'⟩ := exists_completion_of_labelled hvalues' hmem'
  exact (h.completions segment completion completion' hcompletion hcompletion').value houtcome
    houtcome'

end

section

variable {plan : Plan} {fragments : List Fragment} {selections : List Selection}

/-- What a plan completes without a fatal fault, the plan with reordered selections completes too,
up to the order. -/
theorem Completes.reordered (hfragments : Forall₂ Fragment.Reordered plan.fragments fragments)
    (hsane : ∀ path place, plan.place? path = some place → plan.Sane place)
    (huniform : plan.Uniform) {place : Place} {path : ResponsePath} {completion : Completion}
    (h : plan.Completes place path completion) (hplace : plan.place? path = some place)
    (hfatal : ¬ completion.IsFatal) {place' : Place} (hreordered : place.Reordered place')
    {completion' : Completion}
    (h' : (plan.replacing selections fragments).Completes place' path completion') :
    completion.Reordered plan.isLevel path completion' := by
  induction h generalizing place' completion' with
  | @value place path value hview =>
    have hshown := view_reordered hfragments selections (hsane path place hplace) hreordered path
    generalize hview' : (plan.replacing selections fragments).view place' path = view' at hshown
    rw [hview] at hshown
    cases hshown
    rw [h'.eq_of_value hview']
    exact ⟨.inr ⟨value, value, rfl, rfl, .same⟩, .refl _⟩
  | @failed place path failure hview =>
    have hshown := view_reordered hfragments selections (hsane path place hplace) hreordered path
    generalize hview' : (plan.replacing selections fragments).view place' path = view' at hshown
    rw [hview] at hshown
    cases hshown with
    | failed hmessage hcode =>
      rw [h'.eq_of_failed hview', hreordered.nullable_eq]
      exact (Completion.reordered_failed hmessage hcode).absorb _
  | fatal => exact absurd ⟨_, rfl⟩ hfatal
  | @inner place path completions hinner hlength hinside ih =>
    have hshown := view_reordered hfragments selections (hsane path place hplace) hreordered path
    have hchildren := inside_reordered huniform hplace hshown
    obtain ⟨completions', hlength', hinside', rfl⟩ :=
      h'.exists_join (hshown.isInner_eq.trans hinner)
    rw [Completion.isFatal_absorb_iff] at hfatal
    rw [hreordered.nullable_eq]
    refine (join_reordered hplace hshown hinner hlength hlength' hfatal ⟨?_, ?_⟩).absorb _
    · rw [map_fst_labelled hlength, map_fst_labelled hlength']
      exact hchildren.segments
    · intro segment completion completion' hmem hmem'
      obtain ⟨i, child, hchild, hcompletion⟩ := mem_labelled_iff.1 hmem
      obtain ⟨j, child', hchild', hcompletion'⟩ := mem_labelled_iff.1 hmem'
      have hnot := Completion.not_isFatal_of_join hfatal completion
        (List.mem_of_getElem? hcompletion)
      have hsame := hchildren.children segment child child' (List.mem_of_getElem? hchild)
        (List.mem_of_getElem? hchild')
      exact ih i segment child completion hchild hcompletion
        (place?_child hplace (lookup_inside hchild)) hnot hsame
        (hinside' j segment child' completion' hchild' hcompletion')

end

section

variable {draft : SchemaDraft} {schema : ExecutableSchema} {settings : Settings}
  {operation : Operation} {request other : Request} {plan : Plan} {selections : List Selection}
  {fragments : List Fragment}

private theorem ofRequest_reordered (hfinish : draft.finish = .ok schema)
    (hselects : request.document.operations.select request.operationName = .ok operation)
    (hreorders : Reorders operation.selections selections)
    (hfragments : Forall₂ Fragment.Reordered request.document.fragments fragments)
    (h : other.IsFor (operation.selecting selections) fragments request.inputs request.root)
    (hplan : ofRequest schema settings request = .ok plan) :
    ofRequest schema settings other = .ok (plan.replacing selections fragments) := by
  simp only [ofRequest_eq, hselects, bind_eq_ok_iff, mapError_eq_ok_iff, pure_eq_ok_iff,
    Except.ok.injEq, exists_eq_left'] at hplan
  obtain ⟨rootType, hroot, values, hvalues, bound, hbound, done, hdefinitions, depth, hdepth, _,
    hcheck, rfl⟩ := hplan
  have hdepth' := Scope.depth_reordered hfragments (Scope.wellFormed_of_finish rfl hfinish)
    (Scope.get?_root rfl (rootTypeOf_eq_ok hroot)) hreorders hdepth
  simp only [ofRequest_eq, h.selects, h.fragments, h.inputs, h.root, bind_eq_ok_iff,
    mapError_eq_ok_iff, pure_eq_ok_iff, Except.ok.injEq, exists_eq_left']
  exact ⟨rootType, hroot, values, hvalues, bound, hbound, done, hdefinitions, depth, hdepth', (),
    hcheck, rfl⟩

end

end Plan

/-- The order of selections only orders the response. Let a request be executed to a response, and
let all fields that an object collects under one key have the same name, arguments and directives,
wherever its execution comes. Then a request with the selections of the operation and of the
fragments in another order, at any depth and elsewhere in the text, is executed to a response too,
however siblings are interleaved: with the same data but for the order of the keys of objects on
which selections are made, and with the same errors in another order and at other locations. -/
theorem execute_reordered {draft : SchemaDraft} {schema : ExecutableSchema}
    (hfinish : draft.finish = .ok schema) {settings : Settings} {operation : Operation}
    {request other : Request} {selections : List Selection} {fragments : List Fragment}
    (hselects : request.document.operations.select request.operationName = .ok operation)
    (hreorders : Reorders operation.selections selections)
    (hfragments : Forall₂ Fragment.Reordered request.document.fragments fragments)
    (h : other.IsFor (operation.selecting selections) fragments request.inputs request.root)
    {plan : Plan} (hplan : Plan.ofRequest schema settings request = .ok plan)
    (huniform : plan.Uniform)
    {buffering : Future.Buffering ResponsePath Event Completion} {response : Response}
    (hresponse : (executeUnder buffering schema settings request).value = .ok response)
    (buffering' : Future.Buffering ResponsePath Event Completion) :
    ∃ response', (executeUnder buffering' schema settings other).value = .ok response' ∧
      response.Reordered plan.isLevel response' := by
  have hplan' := Plan.ofRequest_reordered hfinish hselects hreorders hfragments h hplan
  obtain ⟨-, -, -, haccepted⟩ := Plan.accepted_of_ofRequest hplan
  obtain ⟨-, -, -, haccepted'⟩ := Plan.accepted_of_ofRequest hplan'
  obtain ⟨completion, hcompletes, hrun⟩ := Plan.completes_runUnder buffering haccepted
  obtain ⟨completion', hcompletes', hrun'⟩ := Plan.completes_runUnder buffering' haccepted'
  rw [executeUnder, hplan, hrun] at hresponse
  rw [executeUnder, hplan', hrun']
  obtain ⟨data, houtcome, rfl⟩ := hcompletes.exists_data hresponse
  obtain ⟨hselects', hsame⟩ := Plan.document_of_ofRequest hplan
  obtain rfl := Except.ok.inj (hselects.symm.trans hselects')
  have hroot : plan.rootPlace.Reordered (plan.replacing selections fragments).rootPlace := by
    refine .level ?_
    rwa [List.flatten_singleton, List.flatten_singleton]
  have hsane (path : ResponsePath) (place : Place) (hplace : plan.place? path = some place) :
      plan.Sane place :=
    Plan.sane_of_ofRequest (SchemaDraft.wellFormed_of_finish hfinish) hplan hplace
  have hreordered := hcompletes.reordered (hsame ▸ hfragments) hsane huniform rfl
    (Completion.not_isFatal_of_ok houtcome) hroot hcompletes'
  obtain ⟨hpropagates, -⟩ | ⟨value, value', hvalue, hvalue', hvalues⟩ := hreordered.outcome
  · exact absurd hpropagates (Completion.not_propagates_of_ok houtcome)
  · obtain rfl := Except.ok.inj (hvalue.symm.trans houtcome)
    refine ⟨{ data := some value', errors := completion'.errors }, ?_, .some hvalues,
      hreordered.errors⟩
    rw [Plan.respond, hvalue']

/-- A request for two boxes without labels, the first with a size that is none. -/
def bareWatchedRequest : Request :=
  { watchedRequest with
    root := .object [("count", .number (.int 3)),
      ("boxes", .array [.object [("size", .string "wide"), ("label", .null)],
        .object [("size", .number (.int 2)), ("label", .null)]])] }

def movedField (name : String) (selections : List Selection) : Selection :=
  .field ⟨⟨2, 1⟩, none, name, [], []⟩ selections

/-- The selections `{ count boxes { label } boxes { ...labels size } }`. -/
def movedSelections : List Selection :=
  [movedField "count" [], movedField "boxes" [movedField "label" []],
    movedField "boxes" [.spread ⟨⟨2, 1⟩, "labels", []⟩, movedField "size" []]]

/-- The fragment `fragment labels on Box { size label }`. -/
def movedFragment : Fragment :=
  ⟨"labels", ⟨"Box", ⟨3, 1⟩⟩, [], [movedField "size" [], movedField "label" []]⟩

def movedWatchedRequest : Request :=
  { bareWatchedRequest with
    document := ⟨.single (watchedOperation.selecting movedSelections), [movedFragment]⟩ }

private theorem moved_boxField (name : String) :
    FieldNode.Moved ⟨⟨1, 1⟩, none, name, [], []⟩ ⟨⟨2, 1⟩, none, name, [], []⟩ :=
  ⟨rfl, rfl, rfl, rfl⟩

private theorem reorders_movedSelections :
    Reorders watchedOperation.selections movedSelections := by
  have hspread : Reorders [labelSpread] [.spread ⟨⟨2, 1⟩, "labels", []⟩] :=
    .spread ⟨rfl, rfl⟩ .nil
  have hboxes : Reorders [boxField "size" [], labelSpread]
      [.spread ⟨⟨2, 1⟩, "labels", []⟩, movedField "size" []] :=
    .perm (.field (moved_boxField "size") .nil hspread) (.swap _ _ _)
  have hlabel : Reorders [boxField "label" []] [movedField "label" []] :=
    .field (moved_boxField "label") .nil .nil
  have hrest : Reorders [boxField "count" [], boxField "boxes" [boxField "label" []]]
      [movedField "count" [], movedField "boxes" [movedField "label" []]] :=
    .field (moved_boxField "count") .nil (.field (moved_boxField "boxes") hlabel .nil)
  have hall := Reorders.field (moved_boxField "boxes") hboxes hrest
  exact .perm hall ((Perm.swap _ _ _).trans (.cons _ (.swap _ _ _)))

private theorem reordered_movedFragment :
    Forall₂ Fragment.Reordered bareWatchedRequest.document.fragments [movedFragment] := by
  refine .cons ⟨rfl, rfl, rfl, ?_⟩ .nil
  have hlabel : Reorders [boxField "label" [], boxField "size" []]
      [movedField "label" [], movedField "size" []] :=
    .field (moved_boxField "label") .nil (.field (moved_boxField "size") .nil .nil)
  exact .perm hlabel (.swap _ _ _)

/-- The spread, or a field under its name, without arguments and directives, around such
selections. -/
inductive Plain : Selection → Prop
  | spread : Plain labelSpread
  | field {name selections} (hinside : ∀ inner ∈ selections, Plain inner) :
      Plain (boxField name selections)

private theorem plain_boxField (name : String) : Plain (boxField name []) :=
  .field (List.forall_mem_nil _)

private theorem plain_watchedOperation :
    ∀ selection ∈ watchedOperation.selections, Plain selection := by
  have hsizes : ∀ inner ∈ [boxField "size" [], labelSpread], Plain inner :=
    List.forall_mem_cons.2 ⟨plain_boxField "size", List.forall_mem_singleton.2 .spread⟩
  have hlabels : ∀ inner ∈ [boxField "label" []], Plain inner :=
    List.forall_mem_singleton.2 (plain_boxField "label")
  intro selection hmem
  simp only [watchedOperation, List.mem_cons, List.not_mem_nil, or_false] at hmem
  rcases hmem with rfl | rfl | rfl
  · exact .field hsizes
  · exact plain_boxField "count"
  · exact .field hlabels

private theorem uniform_bareWatchedRequest {plan : Plan}
    (hplan : Plan.ofRequest watchedSchema .default bareWatchedRequest = .ok plan) :
    plan.Uniform := by
  obtain ⟨hselects, hfragments⟩ := Plan.document_of_ofRequest hplan
  have hoperation : watchedOperation = plan.operation := Except.ok.inj hselects
  have hplain {selection : Selection} (h : plan.Occurs selection) : Plain selection := by
    induction h with
    | operation hmem =>
      rw [← hoperation] at hmem
      exact plain_watchedOperation _ hmem
    | fragment hfragment hmem =>
      rw [hfragments] at hfragment
      obtain rfl := List.mem_singleton.1 hfragment
      simp only [List.mem_cons, List.not_mem_nil, or_false] at hmem
      rcases hmem with rfl | rfl
      · exact plain_boxField "label"
      · exact plain_boxField "size"
    | field _ hmem ih =>
      cases ih with
      | field hinside => exact hinside _ hmem
    | inline _ _ ih => cases ih
  refine Plan.uniform_of_keys fun node other selections others hnode hother hkey => ?_
  cases hplain hnode
  cases hplain hother
  exact ⟨hkey.symm, rfl, rfl⟩

/-- The keys stand in the new order, and so do the errors of the first box. -/
theorem execute_movedWatchedRequest :
    (fun response => (response.data.map Value.text, response.errors.map ResponseError.path)) <$>
          (execute watchedSchema .default bareWatchedRequest).value =
        .ok (some "\x7bboxes: [null, \x7bsize: 2, label: null\x7d], count: 3\x7d",
          [some [.field "boxes", .index 0, .field "size"],
            some [.field "boxes", .index 0, .field "label"],
            some [.field "boxes", .index 1, .field "label"]]) ∧
      (fun response => (response.data.map Value.text, response.errors.map ResponseError.path)) <$>
          (execute watchedSchema .default movedWatchedRequest).value =
        .ok (some "\x7bcount: 3, boxes: [null, \x7blabel: null, size: 2\x7d]\x7d",
          [some [.field "boxes", .index 0, .field "label"],
            some [.field "boxes", .index 0, .field "size"],
            some [.field "boxes", .index 1, .field "label"]]) ∧
      ∃ plan response response',
        Plan.ofRequest watchedSchema .default bareWatchedRequest = .ok plan ∧ plan.Uniform ∧
        (executeUnder (.rounds ..) watchedSchema .default bareWatchedRequest).value =
          .ok response ∧
        (executeUnder (.rounds ..) watchedSchema .default movedWatchedRequest).value =
          .ok response' ∧
        response.Reordered plan.isLevel response' := by
  have hfinish : ({ Plan.boxDraft with resolvers := watchedSchema.resolvers }).finish =
      .ok watchedSchema := rfl
  obtain ⟨plan, hplan⟩ := exists_of_toBool
    (by decide +kernel :
      (Plan.ofRequest watchedSchema .default bareWatchedRequest).toBool = true)
  obtain ⟨response, hresponse⟩ := exists_of_toBool
    (by decide +kernel :
      (execute watchedSchema .default bareWatchedRequest).value.toBool = true)
  rw [← executeUnder_rounds] at hresponse
  have huniform := uniform_bareWatchedRequest hplan
  obtain ⟨response', hresponse', hreordered⟩ := execute_reordered hfinish rfl
    reorders_movedSelections reordered_movedFragment
    (⟨rfl, rfl, rfl, rfl⟩ : movedWatchedRequest.IsFor _ _ _ _) hplan huniform hresponse (.rounds ..)
  exact ⟨by decide +kernel, by decide +kernel, plan, response, response', hplan, huniform,
    hresponse, hresponse', hreordered⟩

end GraphQuery
