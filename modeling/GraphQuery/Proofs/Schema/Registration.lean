import GraphQuery.Schema.Draft
import Mathlib.Data.List.Induction
import Mathlib.Data.List.Nodup

/-!
# Registrations

Drafts as the calls that lead to them. Main statements: a draft has the types in the order of the
calls, the last directive of each name and the last resolver of each field.
-/

namespace GraphQuery

/-- A call that adds to a draft. The resolvers of a type are registered with it. -/
inductive Registration where
  | type (definition : TypeDefinition)
  | resolver (owner name : String) (custom : CustomResolver)
  | directive (spec : DirectiveSpec)

namespace Registration

def apply (draft : SchemaDraft) : Registration → SchemaDraft
  | .type definition => draft.register definition
  | .resolver owner name custom => draft.resolve owner name custom
  | .directive spec => draft.directive spec

def type? : Registration → Option TypeDefinition
  | .type definition => some definition
  | _ => none

def directive? : Registration → Option DirectiveSpec
  | .directive spec => some spec
  | _ => none

/-- The resolver that a call gives to a field. -/
def resolver? (owner name : String) : Registration → Option CustomResolver
  | .resolver owner' name' custom => if owner = owner' ∧ name = name' then some custom else none
  | _ => none

end Registration

namespace DirectiveSpec

/-- The directive is the last of its name. -/
def LastOf (specs : List DirectiveSpec) (spec : DirectiveSpec) : Prop :=
  ∃ before after, specs = before ++ spec :: after ∧ ∀ other ∈ after, other.name ≠ spec.name

private theorem lastOf_append_singleton {specs : List DirectiveSpec} {spec other : DirectiveSpec} :
    LastOf (specs ++ [spec]) other ↔
      other = spec ∨ LastOf specs other ∧ spec.name ≠ other.name := by
  constructor
  · rintro ⟨before, after, hsplit, hafter⟩
    induction after using List.reverseRecOn with
    | nil =>
      have hlast := List.append_inj_right' hsplit rfl
      left
      simpa using hlast.symm
    | append_singleton after last =>
      have hsplit' : specs ++ [spec] = (before ++ other :: after) ++ [last] := by
        simpa using hsplit
      obtain ⟨hinit, hlast⟩ := List.append_inj' hsplit' rfl
      have heq : spec = last := by simpa using hlast
      right
      refine ⟨⟨before, after, hinit, ?_⟩, ?_⟩
      · intro later hlater
        exact hafter later (List.mem_append_left _ hlater)
      · rw [heq]
        exact hafter last (List.mem_append_right _ List.mem_cons_self)
  · rintro (rfl | ⟨⟨before, after, rfl, hafter⟩, hne⟩)
    · exact ⟨specs, [], rfl, by simp⟩
    · refine ⟨before, after ++ [spec], by simp, ?_⟩
      intro later hlater
      rcases List.mem_append.1 hlater with hlater | hlater
      · exact hafter later hlater
      · rw [List.mem_singleton.1 hlater]
        exact hne

private theorem names_put (spec : DirectiveSpec) (specs : List DirectiveSpec) :
    (spec.put specs).map name =
      if spec.name ∈ specs.map name then specs.map name else specs.map name ++ [spec.name] := by
  induction specs with
  | nil => simp [put]
  | cons first rest ih =>
    by_cases hname : first.name = spec.name
    · simp [put, hname]
    · have hne : spec.name ≠ first.name := fun heq => hname heq.symm
      by_cases hrest : spec.name ∈ rest.map name
      · rw [if_pos hrest] at ih
        rw [put, if_neg hname, List.map_cons, ih, List.map_cons,
          if_pos (List.mem_cons_of_mem _ hrest)]
      · rw [if_neg hrest] at ih
        have hnew : spec.name ∉ first.name :: rest.map name := by
          intro hmem
          rcases List.mem_cons.1 hmem with heq | hmem
          · exact hne heq
          · exact hrest hmem
        rw [put, if_neg hname, List.map_cons, ih, List.map_cons, if_neg hnew, List.cons_append]

private theorem nodup_put {spec : DirectiveSpec} {specs : List DirectiveSpec}
    (h : (specs.map name).Nodup) : ((spec.put specs).map name).Nodup := by
  rw [names_put]
  split
  · exact h
  · next hnew => exact List.nodup_append_comm.1 (List.nodup_cons.2 ⟨hnew, h⟩)

private theorem mem_put {spec other : DirectiveSpec} {specs : List DirectiveSpec}
    (hnodup : (specs.map name).Nodup) :
    other ∈ spec.put specs ↔ other = spec ∨ other ∈ specs ∧ spec.name ≠ other.name := by
  induction specs with
  | nil => simp [put]
  | cons first rest ih =>
    obtain ⟨hfirst, hrest⟩ := List.nodup_cons.1 hnodup
    rw [put]
    by_cases hname : first.name = spec.name
    · rw [if_pos hname]
      -- The names after the first one are others, so nothing else is dropped.
      have hkept (hmem : other ∈ rest) : spec.name ≠ other.name := by
        intro heq
        exact hfirst (List.mem_map.2 ⟨other, hmem, by rw [hname, heq]⟩)
      constructor
      · intro hmem
        rcases List.mem_cons.1 hmem with heq | hmem
        · exact .inl heq
        · exact .inr ⟨List.mem_cons_of_mem _ hmem, hkept hmem⟩
      · rintro (rfl | ⟨hmem, hne⟩)
        · exact List.mem_cons_self
        · rcases List.mem_cons.1 hmem with rfl | hmem
          · exact absurd hname.symm hne
          · exact List.mem_cons_of_mem _ hmem
    · rw [if_neg hname, List.mem_cons, ih hrest, List.mem_cons]
      constructor
      · rintro (rfl | heq | ⟨hmem, hne⟩)
        · exact .inr ⟨.inl rfl, fun heq => hname heq.symm⟩
        · exact .inl heq
        · exact .inr ⟨.inr hmem, hne⟩
      · rintro (heq | ⟨rfl | hmem, hne⟩)
        · exact .inr (.inl heq)
        · exact .inl rfl
        · exact .inr (.inr ⟨hmem, hne⟩)

private theorem mem_foldl_put_iff (specs : List DirectiveSpec) :
    ((specs.foldl (fun kept spec => spec.put kept) []).map name).Nodup ∧
      ∀ spec, spec ∈ specs.foldl (fun kept spec => spec.put kept) [] ↔ LastOf specs spec := by
  induction specs using List.reverseRecOn with
  | nil =>
    refine ⟨List.nodup_nil, fun spec => ?_⟩
    simp [LastOf]
  | append_singleton specs last ih =>
    obtain ⟨hnodup, hmem⟩ := ih
    rw [List.foldl_append, List.foldl_cons, List.foldl_nil]
    refine ⟨nodup_put hnodup, fun spec => ?_⟩
    rw [mem_put hnodup, hmem, lastOf_append_singleton]

end DirectiveSpec

namespace SchemaDraft

/-- The draft that calls lead to. -/
def ofCalls (queryType : String) (calls : List Registration) : SchemaDraft :=
  calls.foldl Registration.apply (.new queryType)

section

variable (draft : SchemaDraft) (calls : List Registration)

private theorem types_foldl :
    (calls.foldl Registration.apply draft).types =
      draft.types ++ calls.filterMap Registration.type? := by
  induction calls generalizing draft with
  | nil => simp
  | cons call rest ih =>
    rw [List.foldl_cons, ih]
    cases call with
    | type definition => simp [Registration.apply, register, Registration.type?]
    | resolver | directive => rfl

private theorem directives_foldl :
    (calls.foldl Registration.apply draft).directives =
      (calls.filterMap Registration.directive?).foldl (fun kept spec => spec.put kept)
        draft.directives := by
  induction calls generalizing draft with
  | nil => rfl
  | cons call rest ih =>
    rw [List.foldl_cons, ih]
    cases call with
    | type | resolver | directive => rfl

/-- What a table of the draft has for a field comes from the last resolver that the field gets. -/
theorem table_foldl {α : Type} {table : SchemaDraft → FieldTable α} {entry : CustomResolver → α}
    (htype : ∀ draft definition, table (draft.register definition) = table draft)
    (hdirective : ∀ draft spec, table (draft.directive spec) = table draft)
    (hresolver : ∀ draft owner name custom,
      table (draft.resolve owner name custom) = (table draft).update owner name (entry custom))
    (owner name : String) :
    table (calls.foldl Registration.apply draft) owner name =
      ((calls.filterMap (Registration.resolver? owner name)).getLast?.map entry).getD
        (table draft owner name) := by
  induction calls generalizing draft with
  | nil => rfl
  | cons call rest ih =>
    rw [List.foldl_cons, ih]
    cases call with
    | type definition =>
      rw [Registration.apply, htype]
      rfl
    | directive spec =>
      rw [Registration.apply, hdirective]
      rfl
    | resolver owner' name' custom =>
      rw [Registration.apply, hresolver]
      by_cases hplace : owner = owner' ∧ name = name'
      · have hfirst : Registration.resolver? owner name (.resolver owner' name' custom) =
            some custom := if_pos hplace
        have hdraft : (table draft).update owner' name' (entry custom) owner name = entry custom :=
          if_pos hplace
        rw [List.filterMap_cons_some hfirst, List.getLast?_cons, hdraft]
        cases (rest.filterMap (Registration.resolver? owner name)).getLast? <;> rfl
      · have hfirst : Registration.resolver? owner name (.resolver owner' name' custom) = none :=
          if_neg hplace
        have hdraft : (table draft).update owner' name' (entry custom) owner name =
            table draft owner name := if_neg hplace
        rw [List.filterMap_cons_none hfirst, hdraft]

private theorem queryType_foldl :
    (calls.foldl Registration.apply draft).queryType = draft.queryType := by
  induction calls generalizing draft with
  | nil => rfl
  | cons call rest ih =>
    rw [List.foldl_cons, ih]
    cases call <;> rfl

private theorem translator_foldl :
    (calls.foldl Registration.apply draft).translator = draft.translator := by
  induction calls generalizing draft with
  | nil => rfl
  | cons call rest ih =>
    rw [List.foldl_cons, ih]
    cases call <;> rfl

end

section

variable (queryType : String) (calls : List Registration)

theorem typeSystem_ofCalls :
    (ofCalls queryType calls).typeSystem =
      ⟨queryType, builtinScalars ++ calls.filterMap Registration.type?⟩ := by
  rw [typeSystem, ofCalls, queryType_foldl, types_foldl]
  rfl

theorem translator_ofCalls : (ofCalls queryType calls).translator = .standard :=
  translator_foldl _ calls

private theorem directives_ofCalls :
    (ofCalls queryType calls).directives =
      (DirectiveSpec.builtins ++ calls.filterMap Registration.directive?).foldl
        (fun kept spec => spec.put kept) [] := by
  rw [ofCalls, directives_foldl, List.foldl_append]
  rfl

theorem nodup_directives_ofCalls :
    ((ofCalls queryType calls).directives.map DirectiveSpec.name).Nodup := by
  rw [directives_ofCalls]
  exact (DirectiveSpec.mem_foldl_put_iff _).1

theorem mem_directives_ofCalls_iff (spec : DirectiveSpec) :
    spec ∈ (ofCalls queryType calls).directives ↔
      DirectiveSpec.LastOf
        (DirectiveSpec.builtins ++ calls.filterMap Registration.directive?) spec := by
  rw [directives_ofCalls]
  exact (DirectiveSpec.mem_foldl_put_iff _).2 spec

theorem resolvers_ofCalls (owner name : String) :
    (ofCalls queryType calls).resolvers owner name =
      ((calls.filterMap (Registration.resolver? owner name)).getLast?.map fun custom =>
        Resolver.custom custom.answer).getD .parent :=
  table_foldl _ calls (fun _ _ => rfl) (fun _ _ => rfl) (fun _ _ _ _ => rfl) owner name

theorem delays_ofCalls (owner name : String) :
    (ofCalls queryType calls).delays owner name =
      ((calls.filterMap (Registration.resolver? owner name)).getLast?.map
        CustomResolver.polls).getD fun _ => 0 :=
  table_foldl _ calls (fun _ _ => rfl) (fun _ _ => rfl) (fun _ _ _ _ => rfl) owner name

end

end SchemaDraft

end GraphQuery
