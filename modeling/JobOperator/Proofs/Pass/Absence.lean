import JobOperator.Proofs.Api.Deletion
import JobOperator.Proofs.Pass.Finalization

/-!
What counts as absent. A look-up takes it from the reason of an error that there is no object, while
failures are told apart by the code of an error. The two agree on an error whose code and reason say
the same. An error with the code of absence and another reason comes out of a look-up as a failure, and
the step that looks for an object stops there, although a deletion would be content with it; an error
with the reason of absence and another code passes for absence.
-/

namespace JobOperator

open Client

namespace Client

variable {kind : Kind} {name : String} {response : Response} {code : Nat} {reason : String}

/-! ### Two readings of an error -/

/-- Whether a response is an error that is classified as absence. -/
def Denies (response : Response) : Prop := ∃ reason, bodyOf response = .error (.api 404 reason)

/-- Whether the code and the reason of an error say the same about absence. -/
def Consistent (response : Response) : Prop :=
  ∀ code reason, bodyOf response = .error (.api code reason) → (code = 404 ↔ reason = notFoundReason)

/-- Whether the answer to a look-up is that there is no object exactly when the response denies it, and
otherwise the object or a failure that is not one of absence. -/
structure AgreesOnAbsence {α : Type} (response : Response) (answer : Except StoreError (Option α)) :
    Prop where
  absent : answer = .ok none ↔ Denies response
  failed : ∀ e, answer = .error e → e.isNotFound = false

theorem isNotFound_storeError {cause : ClientError} :
    (storeError kind name cause).isNotFound = true ↔ ∃ reason, cause = .api 404 reason := by
  unfold storeError
  split <;> simp_all [StoreError.isNotFound]

theorem isNotFound_storeError_iff_denies {cause : ClientError} (h : bodyOf response = .error cause) :
    (storeError kind name cause).isNotFound = true ↔ Denies response := by
  rw [isNotFound_storeError, Denies, h]
  simp only [Except.error.injEq]

theorem denies_iff_of_api (h : bodyOf response = .error (.api code reason)) :
    Denies response ↔ code = 404 := by
  rw [Denies, h]
  simp

theorem consistent_iff_of_api (h : bodyOf response = .error (.api code reason)) :
    Consistent response ↔ (code = 404 ↔ reason = notFoundReason) := by
  refine ⟨fun hall => hall code reason h, fun hsame code' reason' h' => ?_⟩
  cases h.symm.trans h'
  exact hsame

theorem objectOf?_of_api (h : bodyOf response = .error (.api code reason)) (kind : Kind) :
    objectOf? kind response =
      if reason = notFoundReason then .ok none else .error (.api code reason) := by
  simp only [objectOf?, objectOf, h, bind, Except.bind]

/-- A response that is no error of the server holds an object, or fails to be read. -/
theorem objectOf?_of_not_api (h : ∀ code reason, bodyOf response ≠ .error (.api code reason))
    (kind : Kind) : (∃ object, objectOf? kind response = .ok (some object)) ∨
      ∃ cause, objectOf? kind response = .error cause ∧ ∀ code reason, cause ≠ .api code reason := by
  cases hbody : bodyOf response with
  | ok body =>
    simp only [objectOf?, objectOf, hbody, bind, Except.bind, decodeBody]
    cases kind.codec.decode body with
    | ok object => exact .inl ⟨object, rfl⟩
    | error e =>
      refine .inr ⟨.unreadable, rfl, fun code reason h => ?_⟩
      cases h
  | error cause =>
    have hcause : ∀ code reason, cause ≠ .api code reason := by
      rintro code reason rfl
      exact h code reason hbody
    refine .inr ⟨cause, ?_, hcause⟩
    simp only [objectOf?, objectOf, hbody, bind, Except.bind]

theorem request?_get {ns : String} (hpath : hasPath ns name = true) (kind : Kind) :
    request? (.get kind ns name) = some (.get ⟨kind, ns, name⟩) :=
  if_pos hpath

theorem agreesOnAbsence_of_api (h : bodyOf response = .error (.api code reason)) :
    AgreesOnAbsence response (readAs kind name (objectOf? kind response)) ↔
      (code = 404 ↔ reason = notFoundReason) := by
  rw [objectOf?_of_api h]
  by_cases hreason : reason = notFoundReason
  · rw [if_pos hreason]
    constructor
    · rintro ⟨habsent, -⟩
      exact iff_of_true ((denies_iff_of_api h).1 (habsent.1 rfl)) hreason
    · intro hsame
      exact ⟨iff_of_true rfl ((denies_iff_of_api h).2 (hsame.2 hreason)), nofun⟩
  · rw [if_neg hreason]
    constructor
    · rintro ⟨habsent, -⟩
      refine iff_of_false (fun hcode => ?_) hreason
      cases habsent.2 ((denies_iff_of_api h).2 hcode)
    · intro hsame
      have hdenies : ¬ Denies response :=
        fun hdenies => hreason (hsame.1 ((denies_iff_of_api h).1 hdenies))
      refine ⟨iff_of_false nofun hdenies, fun e he => ?_⟩
      cases he
      rwa [← Bool.not_eq_true, isNotFound_storeError_iff_denies h]

theorem agreesOnAbsence_of_not_api
    (h : ∀ code reason, bodyOf response ≠ .error (.api code reason)) :
    AgreesOnAbsence response (readAs kind name (objectOf? kind response)) := by
  have hdenies : ¬ Denies response := fun ⟨reason, hbody⟩ => h 404 reason hbody
  rcases objectOf?_of_not_api h kind with ⟨object, hread⟩ | ⟨cause, hread, hcause⟩
  · rw [hread]
    exact ⟨iff_of_false nofun hdenies, nofun⟩
  · rw [hread]
    refine ⟨iff_of_false nofun hdenies, fun e he => ?_⟩
    cases he
    rw [← Bool.not_eq_true, isNotFound_storeError]
    exact fun ⟨reason, hnotFound⟩ => hcause 404 reason hnotFound

/-- A look-up agrees with the classification on the errors that are consistent, and on what is no
error. -/
theorem agreesOnAbsence_iff :
    AgreesOnAbsence response (readAs kind name (objectOf? kind response)) ↔ Consistent response := by
  by_cases hapi : ∃ code reason, bodyOf response = .error (.api code reason)
  · obtain ⟨code, reason, hbody⟩ := hapi
    rw [agreesOnAbsence_of_api hbody, consistent_iff_of_api hbody]
  · have hno : ∀ code reason, bodyOf response ≠ .error (.api code reason) :=
      fun code reason hbody => hapi ⟨code, reason, hbody⟩
    exact iff_of_true (agreesOnAbsence_of_not_api hno)
      fun code reason hbody => absurd hbody (hno code reason)

/-- A look-up fails with an error of absence that gives another reason. -/
theorem lookup_of_denies (h : Denies response) (hnot : ¬ Consistent response) :
    readAs kind name (objectOf? kind response) = .error (.notFound kind name) := by
  obtain ⟨reason, hbody⟩ := h
  have hreason : reason ≠ notFoundReason :=
    fun hreason => hnot ((consistent_iff_of_api hbody).2 (iff_of_true rfl hreason))
  rw [objectOf?_of_api hbody, if_neg hreason]
  rfl

/-- A deletion takes it from the code of an error that there is no object. -/
theorem deletion_of_denies (h : Denies response) :
    readAs kind name (deletionOf kind response) = .error (.notFound kind name) := by
  obtain ⟨reason, hbody⟩ := h
  simp only [deletionOf, hbody, bind, Except.bind]
  rfl

end Client

namespace Sample

/-- A transport by which every request gets this response. -/
def saying (response : Response) : Transport Unit := fun _ s => (response, s)

/-- The response of a server that does not know the collection of a request. -/
def unregistered : Response := .reply 404 (Json.ofText "404 page not found")

/-- The response of a server to a request about an object that there is not. -/
def absent : Response :=
  .reply 404 (.obj [("status", .str "Failure"), ("reason", .str "NotFound"), ("code", .num (.int 404))])

end Sample

namespace Pass

variable {σ : Type}

/-- What is made of a response to a look-up. That there is no object is told by the reason of an error,
and a failure is one of absence by the code; so the look-up agrees with the classification just on the
responses in which these two agree. An error of absence then lets the step create the object, while with
another reason it makes the step fail; as the answer to the deletion of a pod it tells in either case
that the pod is gone. -/
theorem absence_told (send : Transport σ) (s : σ) (identity : Identity) (kind : Kind)
    (object : kind.Object) (onError : StoreError → PassError)
    (hpath : hasPath identity.namespace identity.name = true) :
    let response := (send (.get ⟨kind, identity.namespace, identity.name⟩) s).1
    let look := handler send (.get kind identity.namespace identity.name) s
    let step := ensure identity kind object onError
    (AgreesOnAbsence response look.1 ↔ Consistent response) ∧
      (Denies response → Consistent response → step.run (handler send) s =
        (createOwned identity kind object onError).run (handler send) look.2) ∧
      (Denies response → ¬ Consistent response → step.run (handler send) s =
        (.error (onError (.notFound kind identity.name)), look.2)) ∧
      (Denies response → ∀ pod : Pod, Deletion.counter
        ⟨pod, answerTo (.delete .pod identity.namespace pod.name) response⟩ = .completed) := by
  intro response look step
  have hlook : look = (readAs kind identity.name (objectOf? kind response),
      (send (.get ⟨kind, identity.namespace, identity.name⟩) s).2) :=
    handler_of_request (request?_get hpath kind) s
  have hagrees : AgreesOnAbsence response look.1 ↔ Consistent response := by
    rw [hlook]
    exact agreesOnAbsence_iff
  have hstep : step.run (handler send) s = _ := Program.run_bind _ _ s
  rw [Program.run_perform] at hstep
  refine ⟨hagrees, fun hdenies hconsistent => ?_, fun hdenies hnot => ?_, fun hdenies pod => ?_⟩
  · have habsent : look.1 = .ok none := (hagrees.2 hconsistent).absent.2 hdenies
    rw [show (handler send _ s).1 = .ok none from habsent] at hstep
    exact hstep
  · have hfails : look.1 = .error (.notFound kind identity.name) := by
      rw [hlook]
      exact lookup_of_denies hdenies hnot
    rw [show (handler send _ s).1 = .error _ from hfails] at hstep
    exact hstep
  · rw [answerTo, deletion_of_denies hdenies]
    rfl

/-- A server says by code and by reason that it has no config map, and the step goes on to create one. -/
theorem absence_told_absent :
    let identity : Identity := ⟨"train", "default", "u1"⟩
    let send := Sample.saying Sample.absent
    let object := Sample.job.configMap identity
    hasPath "default" "train" = true ∧ Denies Sample.absent ∧ Consistent Sample.absent ∧
      AgreesOnAbsence Sample.absent (handler send (.get .configMap "default" "train") ()).1 ∧
      (ensure identity .configMap object .syncConfigMap).run (handler send) () =
        (createOwned identity .configMap object .syncConfigMap).run (handler send) () ∧
      Deletion.counter ⟨Sample.lasting,
        answerTo (.delete .pod "default" Sample.lasting.name) Sample.absent⟩ = .completed := by
  intro identity send object
  have hpath : hasPath "default" "train" = true := by decide
  have hbody : bodyOf Sample.absent = .error (.api 404 notFoundReason) := by decide +kernel
  have hdenies : Denies Sample.absent := ⟨_, hbody⟩
  have hconsistent : Consistent Sample.absent :=
    (consistent_iff_of_api hbody).2 (iff_of_true rfl rfl)
  obtain ⟨hagrees, hcreates, -, hdeletes⟩ :=
    absence_told send () identity .configMap object .syncConfigMap hpath
  exact ⟨hpath, hdenies, hconsistent, hagrees.2 hconsistent, hcreates hdenies hconsistent,
    hdeletes hdenies Sample.lasting⟩

/-- A server that does not know the collection of config maps denies that there is one; the look-up
fails with that, and so does the step that would create it. -/
theorem lookup_fails_unregistered :
    let identity : Identity := ⟨"train", "default", "u1"⟩
    let send := Sample.saying Sample.unregistered
    let object := Sample.job.configMap identity
    Denies Sample.unregistered ∧
      ¬ AgreesOnAbsence Sample.unregistered (handler send (.get .configMap "default" "train") ()).1 ∧
      (ensure identity .configMap object .syncConfigMap).run (handler send) () =
        (.error (.syncConfigMap (.notFound .configMap "train")), ()) := by
  intro identity send object
  have hbody : bodyOf Sample.unregistered = .error (.api 404 unparsedReason) := by decide +kernel
  have hfails : handler send (.get .configMap "default" "train") () =
      (.error (.notFound .configMap "train"), ()) := by
    decide +kernel
  refine ⟨⟨_, hbody⟩, fun hagrees => ?_, ?_⟩
  · have hno := hagrees.failed (.notFound .configMap "train") (congrArg Prod.fst hfails)
    cases hno
  · rw [ensure, Program.run_bind, Program.run_perform]
    rw [show handler send (.get .configMap identity.namespace identity.name) () = _ from hfails]
    rfl

end Pass

end JobOperator
