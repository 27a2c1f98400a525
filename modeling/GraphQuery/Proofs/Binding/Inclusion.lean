import GraphQuery.Proofs.Binding.Applicable

/-!
# Inclusion

Which uses of directives exclude their node, and which wrap the producer of a field. Main
statements: a node is kept exactly if none of its directives excludes it, and those without a hook
can be left out of the directives that wrap a producer.
-/

namespace GraphQuery

namespace Bindings

variable {bindings : Bindings} {location : DirectiveLocation} {uses : List DirectiveUse}

/-- The predicate of the directive returns false. -/
def excludes (bindings : Bindings) (location : DirectiveLocation) (use : DirectiveUse) : Bool :=
  match bindings.bindDirective location use with
  | .error _ => false
  | .ok directive =>
    match directive.spec.includes directive.arguments bindings.schema.toBoundSystem with
    | .error _ => false
    | .ok kept => !kept

/-- The directive is known and allowed at the location, its arguments can be bound, and the
predicate that it may have returns true for them. -/
def Holds (bindings : Bindings) (location : DirectiveLocation) (use : DirectiveUse) : Prop :=
  ∃ spec arguments, bindings.schema.directive? use.name = some spec ∧ location ∈ spec.locations ∧
    bindings.bindArguments spec.arguments use.arguments = .ok arguments ∧
    ∀ predicate, spec.predicate = some predicate →
      predicate arguments bindings.schema.toBoundSystem = .ok true

/-- The directive has a hook. -/
def wraps (bindings : Bindings) (use : DirectiveUse) : Bool :=
  (bindings.schema.directive? use.name).any fun spec => spec.hook.isSome

private theorem excludes_eq_not {use : DirectiveUse} {directive : BoundDirective} {kept : Bool}
    (hbound : bindings.bindDirective location use = .ok directive)
    (hkept : directive.keeps bindings.schema.toBoundSystem = .ok kept) :
    bindings.excludes location use = !kept := by
  unfold BoundDirective.keeps at hkept
  unfold excludes
  simp only [hbound]
  cases hincludes : directive.spec.includes directive.arguments bindings.schema.toBoundSystem with
  | error message => simp [hincludes] at hkept
  | ok included =>
    simp only [hincludes] at hkept
    rw [Except.ok.inj hkept]

/-- A node whose directives can be decided is kept unless one of them excludes it, in whichever
order they stand. -/
theorem keeps_eq_not_any {kept : Bool} (h : bindings.keeps location uses = .ok kept) :
    kept = !uses.any (bindings.excludes location) := by
  rw [keeps, bind_eq_ok_iff] at h
  obtain ⟨directives, hbound, hkeeps⟩ := h
  have hall := mapM_eq_ok_iff.1 hbound
  clear hbound
  induction hall generalizing kept with
  | nil => exact (Except.ok.inj hkeeps).symm
  | @cons use directive uses directives hdirective _ ih =>
    simp only [BoundDirective.keepAll, bind_eq_ok_iff, pure_eq_ok_iff] at hkeeps
    obtain ⟨first, hfirst, others, hothers, rfl⟩ := hkeeps
    rw [List.any_cons, excludes_eq_not hdirective hfirst, ih hothers]
    cases first <;> simp

private theorem keeps_eq_true_iff : bindings.keeps location uses = .ok true ↔
    ∀ use ∈ uses, bindings.Applicable location use ∧ bindings.excludes location use = false := by
  constructor
  · intro h use hmem
    have hnone := keeps_eq_not_any h
    rw [eq_comm, Bool.not_eq_true', List.any_eq_false] at hnone
    exact ⟨exists_keeps_iff.1 ⟨true, h⟩ use hmem, Bool.eq_false_iff.2 (hnone use hmem)⟩
  · intro h
    obtain ⟨kept, hkept⟩ := exists_keeps_iff.2 fun use hmem => (h use hmem).1
    have hnone : uses.any (bindings.excludes location) = false :=
      List.any_eq_false.2 fun use hmem => Bool.eq_false_iff.1 (h use hmem).2
    rw [hkept, keeps_eq_not_any hkept, hnone]
    rfl

private theorem holds_iff {use : DirectiveUse} : bindings.Holds location use ↔
    bindings.Applicable location use ∧ bindings.excludes location use = false := by
  have hincludes (spec : DirectiveSpec) (arguments : ArgumentValues) :
      (∀ predicate, spec.predicate = some predicate →
        predicate arguments bindings.schema.toBoundSystem = .ok true) ↔
      spec.includes arguments bindings.schema.toBoundSystem = .ok true := by
    unfold DirectiveSpec.includes
    cases spec.predicate <;> simp
  constructor
  · rintro ⟨spec, arguments, hspec, hallowed, harguments, hpredicate⟩
    have hkept := (hincludes spec arguments).1 hpredicate
    refine ⟨⟨spec, arguments, true, hspec, hallowed, harguments, hkept⟩, ?_⟩
    have hbound := bindDirective_eq_ok_iff.2 ⟨spec, arguments, hspec, hallowed, harguments, rfl⟩
    simp only [excludes, hbound, hkept, Bool.not_true]
  · rintro ⟨⟨spec, arguments, kept, hspec, hallowed, harguments, hkept⟩, hexcludes⟩
    have hbound := bindDirective_eq_ok_iff.2 ⟨spec, arguments, hspec, hallowed, harguments, rfl⟩
    simp only [excludes, hbound, hkept, Bool.not_eq_false'] at hexcludes
    exact ⟨spec, arguments, hspec, hallowed, harguments,
      (hincludes spec arguments).2 (hexcludes ▸ hkept)⟩

/-- A node is kept exactly if the predicates of all its directives hold. -/
theorem keeps_iff_holds : bindings.keeps location uses = .ok true ↔
    ∀ use ∈ uses, bindings.Holds location use := by
  simp only [keeps_eq_true_iff, holds_iff]

theorem keeps_filter (h : bindings.keeps location uses = .ok true) (p : DirectiveUse → Bool) :
    bindings.keeps location (uses.filter p) = .ok true := by
  rw [keeps_eq_true_iff] at h ⊢
  exact fun use hmem => h use (List.mem_of_mem_filter hmem)

private theorem wraps_of_bindDirective {use : DirectiveUse} {directive : BoundDirective}
    (h : bindings.bindDirective location use = .ok directive) :
    bindings.wraps use = directive.spec.hook.isSome := by
  obtain ⟨spec, arguments, hspec, -, -, rfl⟩ := bindDirective_eq_ok_iff.1 h
  rw [wraps, hspec]
  rfl

/-- Directives without a hook leave the producer of a field as it is. -/
theorem wrapProducer_filter {kept : Bool} (h : bindings.keeps .field uses = .ok kept)
    (producer : Producer) (parent : Json) :
    bindings.wrapProducer producer parent (uses.filter bindings.wraps) =
      bindings.wrapProducer producer parent uses := by
  rw [keeps, bind_eq_ok_iff] at h
  obtain ⟨directives, hbound, -⟩ := h
  have hall := mapM_eq_ok_iff.1 hbound
  have hiff (use : DirectiveUse) (directive : BoundDirective)
      (h : bindings.bindDirective .field use = .ok directive) :
      bindings.wraps use = true ↔ directive.spec.hook.isSome = true := by
    rw [wraps_of_bindDirective h]
  have hfiltered : bindings.bindDirectives .field (uses.filter bindings.wraps) =
      .ok (directives.filter fun directive => directive.spec.hook.isSome) :=
    mapM_eq_ok_iff.2 (List.rel_filter hiff hall)
  have hwrap (producer : Producer) (directive : BoundDirective) :
      (if directive.spec.hook.isSome then directive.spec.wrap producer parent directive.arguments
        else producer) = directive.spec.wrap producer parent directive.arguments := by
    unfold DirectiveSpec.wrap
    cases directive.spec.hook <;> rfl
  rw [wrapProducer, wrapProducer, hfiltered, hbound]
  simp only [bind, Except.bind, List.foldl_filter, hwrap]

end Bindings

end GraphQuery
