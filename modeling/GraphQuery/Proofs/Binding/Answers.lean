import GraphQuery.Binding.Directives
import GraphQuery.Proofs.Success

/-!
# Answers

What resolvers and hooks answer, without the polls that it takes them. Main statements: the value
that the directives of a field produce is made from the value of the resolver by their answers, and
nothing happens on the way but what happens in the resolver.
-/

namespace GraphQuery

/-- The answer of a resolver at a place. -/
def Resolver.answer (resolver : Resolver) (path : ResponsePath) (context : ResolverContext) :
    Except ResolverFault Json :=
  match resolver with
  | .parent => .ok (context.parent.property context.fieldName)
  | .custom answer => answer path context

/-- The answer of the new producer where the one that it replaces answers `old`. -/
def HookAction.answer (action : HookAction) (old : Except ResolverFault Json) :
    Except ResolverFault Json :=
  match action with
  | .reply r => r.answer
  | .run _ resume => (resume old).answer

private theorem HookAction.value_apply (action : HookAction) (producer : Producer) :
    (action.apply producer).value = action.answer producer.value := by
  cases action <;> simp [apply, answer, Future.value]

namespace DirectiveSpec

/-- What a directive makes of the answer `old`. -/
def answer (spec : DirectiveSpec) (parent : Json) (arguments : ArgumentValues)
    (old : Except ResolverFault Json) : Except ResolverFault Json :=
  match spec.hook with
  | some hook => (hook parent arguments).answer old
  | none => old

private theorem value_wrap (spec : DirectiveSpec) (producer : Producer) (parent : Json)
    (arguments : ArgumentValues) :
    (spec.wrap producer parent arguments).value = spec.answer parent arguments producer.value := by
  unfold wrap answer
  cases spec.hook with
  | none => rfl
  | some hook => exact HookAction.value_apply _ producer

end DirectiveSpec

namespace BoundDirective

/-- What directives make of the answer `old`, one after the other. -/
def answers (parent : Json) (directives : List BoundDirective) (old : Except ResolverFault Json) :
    Except ResolverFault Json :=
  directives.foldl (fun answer directive => directive.spec.answer parent directive.arguments answer)
    old

end BoundDirective

/-- What directives make of a producer depends on nothing but its value. -/
theorem Bindings.map_value_wrapProducer (bindings : Bindings) (producer : Producer) (parent : Json)
    (uses : List DirectiveUse) :
    Future.value <$> bindings.wrapProducer producer parent uses =
      (BoundDirective.answers parent · producer.value) <$> bindings.bindDirectives .field uses := by
  unfold wrapProducer
  cases bindings.bindDirectives .field uses with
  | error fault => rfl
  | ok directives =>
    refine congrArg Except.ok ?_
    induction directives generalizing producer with
    | nil => rfl
    | cons directive rest ih =>
      exact (ih _).trans
        (congrArg _ (directive.spec.value_wrap producer parent directive.arguments))

/-- A hook records nothing of its own, and it runs the producer that it replaces once or not at
all. -/
theorem HookAction.events_apply (action : HookAction) (producer : Producer) :
    (action.apply producer).events = producer.events ∨ (action.apply producer).events = [] := by
  cases action with
  | reply r =>
    right
    rw [apply, Future.events_pending, Future.events]
  | run polls resume =>
    left
    rw [apply, Future.events_pending, Future.events_bind, Future.events_pending, Future.events,
      List.append_nil]

private theorem DirectiveSpec.events_wrap (spec : DirectiveSpec) (producer : Producer)
    (parent : Json) (arguments : ArgumentValues) :
    (spec.wrap producer parent arguments).events = producer.events ∨
      (spec.wrap producer parent arguments).events = [] := by
  unfold wrap
  cases spec.hook with
  | none => exact .inl rfl
  | some hook => exact HookAction.events_apply _ producer

theorem Bindings.events_wrapProducer {bindings : Bindings} {producer wrapped : Producer}
    {parent : Json} {uses : List DirectiveUse}
    (h : bindings.wrapProducer producer parent uses = .ok wrapped) :
    wrapped.events = producer.events ∨ wrapped.events = [] := by
  simp only [wrapProducer, bind_eq_ok_iff, pure_eq_ok_iff] at h
  obtain ⟨directives, -, rfl⟩ := h
  induction directives generalizing producer with
  | nil => exact .inl rfl
  | cons directive rest ih =>
    rw [List.foldl_cons]
    rcases ih with hrest | hrest
    · rw [hrest]
      exact directive.spec.events_wrap producer parent _
    · exact .inr hrest

theorem Bindings.events_wrapProducer_subset {bindings : Bindings} {producer wrapped : Producer}
    {parent : Json} {uses : List DirectiveUse}
    (h : bindings.wrapProducer producer parent uses = .ok wrapped) :
    wrapped.events ⊆ producer.events := by
  rcases events_wrapProducer h with heq | heq
  · exact heq ▸ List.Subset.refl _
  · exact heq ▸ List.nil_subset _

end GraphQuery
