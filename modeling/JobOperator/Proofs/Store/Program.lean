import JobOperator.Store.Program

/-!
Running programs. A run is taken apart at a `bind`; what holds of every call of a program carries an
invariant of the store through its runs; and a run in one store follows a run in another as long as
the stores answer alike.
-/

namespace JobOperator

/-- What becomes of errors does not touch a success. -/
theorem mapError_eq_ok {ε ε' α : Type} {f : ε → ε'} {x : Except ε α} {a : α} :
    x.mapError f = .ok a ↔ x = .ok a := by
  cases x with
  | error e =>
    constructor
    · intro h
      cases h
    · intro h
      cases h
  | ok b =>
    constructor
    · intro h
      cases h
      rfl
    · intro h
      cases h
      rfl

theorem mapError_eq_error {ε ε' α : Type} {f : ε → ε'} {x : Except ε α} {e' : ε'} :
    x.mapError f = .error e' ↔ ∃ e, e' = f e ∧ x = .error e := by
  cases x with
  | error e =>
    constructor
    · intro h
      exact ⟨e, (Except.error.inj h).symm, rfl⟩
    · rintro ⟨e, rfl, h⟩
      cases h
      rfl
  | ok a =>
    constructor
    · intro h
      cases h
    · rintro ⟨e, -, h⟩
      cases h

namespace Program

variable {ε α β σ τ : Type} {handler : Handler σ} {s s' : σ}

@[simp] theorem run_done (a : α) : (done a : Program ε α).run handler s = (.ok a, s) := rfl

@[simp] theorem run_fail (e : ε) : (fail e : Program ε α).run handler s = (.error e, s) := rfl

theorem run_call (c : Call) (next : Except StoreError c.Answer → Program ε α) :
    (call c next).run handler s = (next (handler c s).1).run handler (handler c s).2 := rfl

@[simp] theorem run_pure (a : α) : (pure a : Program ε α).run handler s = (.ok a, s) := rfl

@[simp] theorem pure_bind (a : α) (f : α → Program ε β) : (pure a >>= f) = f a := rfl

theorem bind_assoc {γ : Type} (program : Program ε α) (f : α → Program ε β) (g : β → Program ε γ) :
    (program >>= f >>= g) = (program >>= fun a => f a >>= g) := by
  induction program with
  | done a => rfl
  | fail e => rfl
  | call c next ih => exact congrArg (call c) (funext ih)

theorem run_bind (program : Program ε α) (f : α → Program ε β) (s : σ) :
    (program >>= f).run handler s =
      match program.run handler s with
      | (.ok a, s') => (f a).run handler s'
      | (.error e, s') => (.error e, s') := by
  induction program generalizing s with
  | done a => rfl
  | fail e => rfl
  | call c next ih => exact ih _ _

theorem run_bind_of_ok {program : Program ε α} {f : α → Program ε β} {a : α}
    (h : program.run handler s = (.ok a, s')) :
    (program >>= f).run handler s = (f a).run handler s' := by
  rw [run_bind, h]

/-- A sequence that ends well does so after its first part has. -/
theorem run_bind_eq_ok {program : Program ε α} {f : α → Program ε β} {b : β} :
    (program >>= f).run handler s = (.ok b, s') ↔
      ∃ a t, program.run handler s = (.ok a, t) ∧ (f a).run handler t = (.ok b, s') := by
  constructor
  · intro h
    rw [run_bind] at h
    split at h
    · rename_i a t ha
      exact ⟨a, t, ha, h⟩
    · cases h
  · rintro ⟨a, t, ha, h⟩
    rw [run_bind_of_ok ha, h]

theorem run_perform (c : Call) (onError : StoreError → ε) :
    (perform c onError).run handler s = ((handler c s).1.mapError onError, (handler c s).2) := by
  rw [perform, run_call]
  cases (handler c s).1 <;> rfl

theorem run_perform_eq_ok {c : Call} {onError : StoreError → ε} {answer : c.Answer} :
    (perform c onError).run handler s = (.ok answer, s') ↔ handler c s = (.ok answer, s') := by
  rw [run_perform]
  cases h : handler c s with
  | mk result t =>
    change (result.mapError onError, t) = (.ok answer, s') ↔ (result, t) = (.ok answer, s')
    rw [Prod.mk.injEq, Prod.mk.injEq, mapError_eq_ok]

theorem run_ofExcept_eq_ok {result : Except ε α} {a : α} :
    (ofExcept result).run handler s = (.ok a, s') ↔ result = .ok a ∧ s = s' := by
  cases result <;> simp [ofExcept]

/-! ### Every call of a program -/

/-- Whether each call that a program may make satisfies `P`, whatever the answers before it, and
each value that it may end with satisfies `Q`. -/
def Within (P : Call → Prop) (Q : α → Prop) : Program ε α → Prop
  | done a => Q a
  | fail _ => True
  | call c next => P c ∧ ∀ answer, (next answer).Within P Q

variable {P P' : Call → Prop} {Q : α → Prop} {R : β → Prop}

theorem Within.bind {program : Program ε α} {f : α → Program ε β} (h : program.Within P Q)
    (hf : ∀ a, Q a → (f a).Within P R) : (program >>= f).Within P R := by
  induction program with
  | done a => exact hf a h
  | fail e => trivial
  | call c next ih => exact ⟨h.1, fun answer => ih answer (h.2 answer)⟩

theorem Within.mono {Q' : α → Prop} {program : Program ε α} (h : program.Within P Q)
    (hP : ∀ c, P c → P' c) (hQ : ∀ a, Q a → Q' a) : program.Within P' Q' := by
  induction program with
  | done a => exact hQ a h
  | fail e => trivial
  | call c next ih => exact ⟨hP c h.1, fun answer => ih answer (h.2 answer)⟩

theorem within_perform {c : Call} {onError : StoreError → ε} (h : P c) :
    (perform c onError).Within P fun _ => True := by
  refine ⟨h, fun answer => ?_⟩
  cases answer <;> trivial

theorem within_ofExcept {result : Except ε α} :
    (ofExcept result).Within P fun a => result = .ok a := by
  cases result with
  | ok a => rfl
  | error e => trivial

/-- An invariant that every call of a program keeps holds after its runs. -/
theorem Within.run {program : Program ε α} {I : σ → Prop} (h : program.Within P Q)
    (hstep : ∀ c s, P c → I s → I (handler c s).2) (hs : I s) :
    I (program.run handler s).2 ∧ ∀ a, (program.run handler s).1 = .ok a → Q a := by
  induction program generalizing s with
  | done a =>
    refine ⟨hs, fun b hb => ?_⟩
    cases hb
    exact h
  | fail e => exact ⟨hs, nofun⟩
  | call c next ih => exact ih _ (h.2 _) (hstep c s h.1 hs)

/-! ### The calls of a run -/

/-- The calls that a run makes. -/
def calls (handler : Handler σ) : Program ε α → σ → List Call
  | done _, _ => []
  | fail _, _ => []
  | call c next, s => c :: (next (handler c s).1).calls handler (handler c s).2

theorem calls_bind_of_ok {program : Program ε α} {f : α → Program ε β} {a : α}
    (h : program.run handler s = (.ok a, s')) :
    (program >>= f).calls handler s = program.calls handler s ++ (f a).calls handler s' := by
  induction program generalizing s with
  | done b => cases h; rfl
  | fail e => cases h
  | call c next ih => exact congrArg (c :: ·) (ih _ h)

/-- The calls of a run are calls that the program may make. -/
theorem Within.calls {program : Program ε α} (h : program.Within P Q) (s : σ) :
    ∀ c ∈ program.calls handler s, P c := by
  induction program generalizing s with
  | done a => exact fun _ hc => absurd hc List.not_mem_nil
  | fail e => exact fun _ hc => absurd hc List.not_mem_nil
  | call c next ih =>
    intro d hd
    rcases List.mem_cons.1 hd with rfl | hd
    · exact h.1
    · exact ih _ (h.2 _) _ d hd

/-- A run follows one in a store that shows what the answers to its calls depend on. -/
theorem Within.run_map {other : Handler τ} {view : σ → τ} {I : σ → Prop}
    {program : Program ε α} (h : program.Within P Q)
    (hstep : ∀ c s, P c → I s → I (handler c s).2 ∧ (handler c s).1 = (other c (view s)).1 ∧
      view (handler c s).2 = (other c (view s)).2) (hs : I s) :
    I (program.run handler s).2 ∧
      (program.run handler s).1 = (program.run other (view s)).1 ∧
      view (program.run handler s).2 = (program.run other (view s)).2 ∧
      program.calls handler s = program.calls other (view s) := by
  induction program generalizing s with
  | done a => exact ⟨hs, rfl, rfl, rfl⟩
  | fail e => exact ⟨hs, rfl, rfl, rfl⟩
  | call c next ih =>
    obtain ⟨hI, hanswer, hview⟩ := hstep c s h.1 hs
    obtain ⟨hkept, hresult, hstore, hcalls⟩ := ih (handler c s).1 (h.2 _) hI
    rw [hview] at hresult hstore hcalls
    rw [run_call, run_call, ← hanswer]
    refine ⟨hkept, hresult, hstore, ?_⟩
    rw [Program.calls, Program.calls, ← hanswer, hcalls]

theorem within_true (program : Program ε α) : program.Within (fun _ => True) fun _ => True := by
  induction program with
  | done a => trivial
  | fail e => trivial
  | call c next ih => exact ⟨trivial, ih⟩

theorem run_map {other : Handler τ} {view : σ → τ} {I : σ → Prop}
    (hstep : ∀ c s, I s → I (handler c s).2 ∧ (handler c s).1 = (other c (view s)).1 ∧
      view (handler c s).2 = (other c (view s)).2) (program : Program ε α) (hs : I s) :
    I (program.run handler s).2 ∧
      (program.run handler s).1 = (program.run other (view s)).1 ∧
      view (program.run handler s).2 = (program.run other (view s)).2 ∧
      program.calls handler s = program.calls other (view s) :=
  (within_true program).run_map (fun c s _ => hstep c s) hs

end Program

end JobOperator
