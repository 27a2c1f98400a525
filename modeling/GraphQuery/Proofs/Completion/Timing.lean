import GraphQuery.Proofs.Completion.Agreement

/-!
# Timing

How long resolvers and hooks take, and how the futures of siblings are interleaved. Main statement:
neither shows in the response, and neither does the limit on the siblings that run at once.
-/

namespace GraphQuery

/-- How many polls resolvers and hooks take, wherever they are called. -/
structure Timing where
  resolver : Delays
  /-- The polls of a directive's hook before it replies or runs the producer that it replaces. -/
  hook : String → Json → ArgumentValues → Nat
  /-- The polls of a directive's hook after an answer of the producer that it replaces. -/
  resumed : String → Json → ArgumentValues → Except ResolverFault Json → Nat

def HookAction.timed (before : Nat) (after : Except ResolverFault Json → Nat) :
    HookAction → HookAction
  | .reply r => .reply { r with polls := before }
  | .run _ resume => .run before fun old => { resume old with polls := after old }

def DirectiveSpec.timed (timing : Timing) (spec : DirectiveSpec) : DirectiveSpec :=
  { spec with
    hook := spec.hook.map fun hook parent arguments =>
      (hook parent arguments).timed (timing.hook spec.name parent arguments)
        (timing.resumed spec.name parent arguments) }

/-- The schema whose resolvers and hooks take other times. -/
def ExecutableSchema.timed (timing : Timing) (schema : ExecutableSchema) : ExecutableSchema :=
  { schema with
    directives := schema.directives.map (DirectiveSpec.timed timing)
    delays := timing.resolver }

private theorem HookAction.answer_timed (action : HookAction) (before : Nat)
    (after : Except ResolverFault Json → Nat) (old : Except ResolverFault Json) :
    (action.timed before after).answer old = action.answer old := by
  cases action <;> rfl

private theorem DirectiveSpec.answer_timed (spec : DirectiveSpec) (timing : Timing) (parent : Json)
    (arguments : ArgumentValues) (old : Except ResolverFault Json) :
    (spec.timed timing).answer parent arguments old = spec.answer parent arguments old := by
  unfold answer timed
  cases spec.hook with
  | none => rfl
  | some hook => exact (hook parent arguments).answer_timed _ _ old

private theorem ExecutableSchema.agrees_timed (schema : ExecutableSchema)
    (timing timing' : Timing) :
    (schema.timed timing).Agrees (fun _ _ => True) (schema.timed timing') := by
  have hspec (spec : DirectiveSpec) :
      (spec.timed timing).Agrees (fun _ _ => True) schema.toBoundSystem schema.toBoundSystem
        (spec.timed timing') := by
    refine ⟨rfl, rfl, rfl, fun _ _ => rfl, fun parent arguments old _ => ?_⟩
    rw [DirectiveSpec.answer_timed, DirectiveSpec.answer_timed]
  have hdirectives : List.Forall₂
      (DirectiveSpec.Agrees (fun _ _ => True) schema.toBoundSystem schema.toBoundSystem)
      (schema.timed timing).directives (schema.timed timing').directives := by
    refine List.forall₂_map_left_iff.2 (List.forall₂_map_right_iff.2 ?_)
    exact List.forall₂_same.2 fun spec _ => hspec spec
  exact ⟨⟨rfl, rfl, rfl, rfl, hdirectives⟩, fun _ _ _ _ _ _ _ _ => rfl⟩

theorem executeUnder_rounds (schema : ExecutableSchema) (settings : Settings) (request : Request) :
    executeUnder (.rounds ..) schema settings request = execute schema settings request := by
  unfold executeUnder execute Plan.run
  split <;> rfl

/-- Concurrency never shows: a request has one result, with the same data in the same order and the
same errors in the same order, or with the same fault. The limit does not matter, nor do the times
that resolvers and hooks take, nor how siblings are interleaved at any place. -/
theorem executeUnder_timed (schema : ExecutableSchema) (settings : Settings) (request : Request)
    (limit limit' : Nat) (timing timing' : Timing)
    (buffering buffering' : Future.Buffering ResponsePath Event Completion) :
    (executeUnder buffering (schema.timed timing)
        { settings with concurrencyLimit := limit } request).value =
      (executeUnder buffering' (schema.timed timing')
        { settings with concurrencyLimit := limit' } request).value := by
  have hagrees := schema.agrees_timed timing' timing
  refine value_executeUnder_of_agrees hagrees (fun _ _ _ _ _ _ => trivial) ?_ buffering' buffering
    request
  rfl

end GraphQuery
