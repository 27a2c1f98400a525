import GraphQuery.Proofs.Completion.Arguments
import GraphQuery.Proofs.Completion.Fatal
import GraphQuery.Proofs.Selection.RequestFaults

/-!
# Errors of requests and errors of fields

Which faults end a request and which are part of its response. Main statement: an execution without
a response has a violation or a faulty variable, and no error in a response has the code of these.
-/

namespace GraphQuery

private theorem ExecutionFault.isFatal_iff {fault : ExecutionFault} :
    fault.isFatal = true ↔ (∃ violation, fault = .validation violation) ∨
      ∃ name position source, fault = .variable name position source := by
  cases fault <;> simp [isFatal, code, ErrorCode.isRequestError]

private theorem ErrorCode.isRequestError_eq_false_iff {code : ErrorCode} :
    code.isRequestError = false ↔
      code = .argumentError ∨ code = .resolverError ∨ code = .unsupportedConstruct := by
  cases code <;> simp [isRequestError]

namespace Plan

section

variable {plan : Plan} {place : Place} {path : ResponsePath}

private theorem isFatal_of_fatalView {fault : ExecutionFault}
    (hview : plan.view place path = .fatal fault) : fault.isFatal = true := by
  have hshows := plan.shows_view place path
  rw [hview] at hshows
  cases hshows with
  | uncollected _ hcollect => exact plan.toScope.onlyFatal_collect _ _ _ hcollect
  | typenameFatal hfatal | fatal hfatal => exact hfatal
  | undefined | unknown => rfl

private theorem not_isRequestError_of_failedView {failure : Failure}
    (hview : plan.view place path = .failed failure) : failure.code.isRequestError = false := by
  have hshows := plan.shows_view place path
  rw [hview] at hshows
  cases hshows with
  | typenameFault hfatal | fault hfatal => exact hfatal
  | noTypename | nonNull | impossible | refused | noItems => rfl

private theorem Completes.not_isRequestError {completion : Completion}
    (h : plan.Completes place path completion) :
    ∀ error ∈ completion.errors, error.code.isRequestError = false := by
  induction h with
  | value | fatal =>
    intro error hmem
    cases hmem
  | @failed place path failure hview =>
    intro error hmem
    rw [Completion.errors_absorb, Completion.failed, List.mem_singleton] at hmem
    rw [hmem]
    exact not_isRequestError_of_failedView hview
  | @inner place path completions hinner hlength hinside ih =>
    intro error hmem
    rw [Completion.errors_absorb, Completion.errors_join, List.mem_flatMap] at hmem
    obtain ⟨completion, hcompletion, herror⟩ := hmem
    obtain ⟨i, hi⟩ := List.mem_iff_getElem?.1 hcompletion
    obtain ⟨⟨segment, child⟩, hchild⟩ := exists_getElem?_of_length_eq hlength hi
    exact ih i segment child completion hchild hi error herror

private theorem Completes.isFatal_of_outcome {completion : Completion}
    (h : plan.Completes place path completion) {fault : ExecutionFault}
    (hfatal : completion.outcome = .error (.fatal fault)) : fault.isFatal = true := by
  obtain ⟨rest, inner, -, hview⟩ := h.exists_fatal hfatal
  exact isFatal_of_fatalView hview

private theorem errors_of_respond {completion : Completion} {response : Response}
    (h : respond completion = .ok response) : response.errors = completion.errors := by
  unfold respond at h
  split at h
  · exact (congrArg Response.errors (Except.ok.inj h)).symm
  · exact (congrArg Response.errors (Except.ok.inj h)).symm
  · cases h

end

end Plan

/-- Errors of requests and errors of fields never mix, however siblings are interleaved and whatever
resolvers answer. What an execution fails with is a violation or a faulty variable, also where
arguments of directives are at fault, and every error in a response has another code. -/
theorem severity_of_executeUnder (schema : ExecutableSchema) (settings : Settings)
    (request : Request) (buffering : Future.Buffering ResponsePath Event Completion) :
    (∀ fault, (executeUnder buffering schema settings request).value = .error fault →
        fault.isFatal = true ∧
          ((∃ violation, fault = .validation violation) ∨
            ∃ name position source, fault = .variable name position source)) ∧
      ∀ response, (executeUnder buffering schema settings request).value = .ok response →
        ∀ error ∈ response.errors, error.code.isRequestError = false ∧
          (error.code = .argumentError ∨ error.code = .resolverError ∨
            error.code = .unsupportedConstruct) := by
  suffices h : (∀ fault, (executeUnder buffering schema settings request).value = .error fault →
        fault.isFatal = true) ∧
      ∀ response, (executeUnder buffering schema settings request).value = .ok response →
        ∀ error ∈ response.errors, error.code.isRequestError = false by
    refine ⟨fun fault hfault => ?_, fun response hresponse error hmem => ?_⟩
    · have hfatal := h.1 fault hfault
      exact ⟨hfatal, ExecutionFault.isFatal_iff.1 hfatal⟩
    · have hcode := h.2 response hresponse error hmem
      exact ⟨hcode, ErrorCode.isRequestError_eq_false_iff.1 hcode⟩
  unfold executeUnder
  cases hplan : Plan.ofRequest schema settings request with
  | error fault =>
    refine ⟨fun other hfault => ?_, nofun⟩
    obtain rfl := Except.error.inj hfault
    exact Plan.onlyFatal_ofRequest schema settings request fault hplan
  | ok plan =>
    obtain ⟨-, -, -, haccepted⟩ := Plan.accepted_of_ofRequest hplan
    obtain ⟨completion, hcompletes, hrun⟩ := Plan.completes_runUnder buffering haccepted
    simp only [hrun]
    refine ⟨fun fault hfault => ?_, fun response hresponse => ?_⟩
    · exact hcompletes.isFatal_of_outcome (Plan.respond_eq_error_iff.1 hfault)
    · rw [Plan.errors_of_respond hresponse]
      exact hcompletes.not_isRequestError

/-- The request `{ count }` with arguments and directives. -/
def countWith (arguments : List Argument) (directives : List DirectiveUse) : Request :=
  { countRequest with
    document :=
      { operations := .single ⟨⟨1, 1⟩, .query, [], [],
          [.field ⟨⟨1, 3⟩, none, "count", arguments, directives⟩ []]⟩
        fragments := [] } }

/-- The request `{ count(sizes: {}) }`. -/
def objectSizesRequest : Request := countWith [⟨"sizes", .object [], ⟨1, 16⟩⟩] []

/-- The request `{ count(sizes: []) @skip(if: {}) }`. -/
def objectSkipRequest : Request :=
  countWith [⟨"sizes", .list [], ⟨1, 16⟩⟩] [⟨⟨1, 20⟩, "skip", [⟨"if", .object [], ⟨1, 30⟩⟩]⟩]

/-- The same term is a fault of the field in its argument and of the request in its directive. -/
theorem severity_of_objects :
    let unsupported : ResponseError :=
      { message := "Object values are not supported by this executor."
        code := .unsupportedConstruct
        locations := [⟨1, 16⟩]
        path := some [.field "count"] }
    let invalid : ExecutionFault :=
      .validation (.invalidDirective "skip" unsupported.message ⟨1, 20⟩)
    (executeUnder (.rounds ..) countSchema .default objectSizesRequest).value =
        .ok ⟨some (.object [("count", .null)]), [unsupported]⟩ ∧
      unsupported.code.isRequestError = false ∧
      (executeUnder (.rounds ..) countSchema .default objectSkipRequest).value = .error invalid ∧
      invalid.isFatal = true := by
  intro unsupported invalid
  have hsizes : (executeUnder (.rounds ..) countSchema .default objectSizesRequest).value =
      .ok ⟨some (.object [("count", .null)]), [unsupported]⟩ := rfl
  have hskip : (executeUnder (.rounds ..) countSchema .default objectSkipRequest).value =
      .error invalid := rfl
  have hresponse := (severity_of_executeUnder countSchema .default objectSizesRequest
    (.rounds ..)).2 _ hsizes
  have hfault := (severity_of_executeUnder countSchema .default objectSkipRequest
    (.rounds ..)).1 _ hskip
  exact ⟨hsizes, (hresponse unsupported List.mem_cons_self).1, hskip, hfault.1⟩

end GraphQuery
