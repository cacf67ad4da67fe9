import JobOperator.Proofs.Store.Program

/-!
The history of a run: the calls that it makes, each with the answer that it goes on from.
-/

namespace JobOperator

/-- A call with its answer. -/
structure Answered where
  call : Call
  answer : Except StoreError call.Answer

namespace Program

variable {ε α β σ τ : Type} {handler : Handler σ} {s s' : σ}

/-- The calls that a run makes, with their answers. -/
def history (handler : Handler σ) : Program ε α → σ → List Answered
  | done _, _ => []
  | fail _, _ => []
  | call c next, s =>
    ⟨c, (handler c s).1⟩ :: (next (handler c s).1).history handler (handler c s).2

@[simp] theorem history_pure (a : α) : (pure a : Program ε α).history handler s = [] := rfl

theorem history_call (c : Call) (next : Except StoreError c.Answer → Program ε α) :
    (call c next).history handler s =
      ⟨c, (handler c s).1⟩ :: (next (handler c s).1).history handler (handler c s).2 := rfl

theorem history_perform (c : Call) (onError : StoreError → ε) :
    (perform c onError).history handler s = [⟨c, (handler c s).1⟩] := by
  rw [perform, history_call]
  cases (handler c s).1 <;> rfl

@[simp] theorem calls_pure (a : α) : (pure a : Program ε α).calls handler s = [] := rfl

theorem calls_perform (c : Call) (onError : StoreError → ε) :
    (perform c onError).calls handler s = [c] := by
  rw [perform, calls]
  cases (handler c s).1 <;> rfl

theorem history_bind_of_ok {program : Program ε α} {f : α → Program ε β} {a : α}
    (h : program.run handler s = (.ok a, s')) :
    (program >>= f).history handler s =
      program.history handler s ++ (f a).history handler s' := by
  induction program generalizing s with
  | done b => cases h; rfl
  | fail e => cases h
  | call c next ih => exact congrArg (_ :: ·) (ih _ h)

theorem history_bind_of_error {program : Program ε α} {f : α → Program ε β} {e : ε}
    (h : program.run handler s = (.error e, s')) :
    (program >>= f).history handler s = program.history handler s := by
  induction program generalizing s with
  | done b => cases h
  | fail e => rfl
  | call c next ih => exact congrArg (_ :: ·) (ih _ h)

/-- What a sequence does, its first part does, or what comes after that has ended well. -/
theorem mem_history_bind {program : Program ε α} {f : α → Program ε β} {a : Answered} :
    a ∈ (program >>= f).history handler s ↔ a ∈ program.history handler s ∨
      ∃ b t, program.run handler s = (.ok b, t) ∧ a ∈ (f b).history handler t := by
  rcases hrun : program.run handler s with ⟨e | b, t⟩
  · rw [history_bind_of_error hrun]
    constructor
    · exact .inl
    · rintro (hfirst | ⟨_, _, heq, -⟩)
      · exact hfirst
      · cases heq
  · rw [history_bind_of_ok hrun, List.mem_append]
    constructor
    · rintro (hfirst | hrest)
      · exact .inl hfirst
      · exact .inr ⟨_, t, rfl, hrest⟩
    · rintro (hfirst | ⟨_, _, heq, hrest⟩)
      · exact .inl hfirst
      · cases heq
        exact .inr hrest

theorem history_ofExcept (result : Except ε α) :
    (ofExcept result).history handler s = [] := by
  cases result <;> rfl

/-- The calls of a history are calls that the program may make. -/
theorem Within.history {P : Call → Prop} {Q : α → Prop} {program : Program ε α}
    (h : program.Within P Q) {a : Answered} (ha : a ∈ program.history handler s) : P a.call := by
  induction program generalizing s with
  | done b => cases ha
  | fail e => cases ha
  | call c next ih =>
    rcases List.mem_cons.1 ha with rfl | ha
    · exact h.1
    · exact ih _ (h.2 _) ha

/-- An invariant that every call of a history keeps holds after the run. -/
theorem run_of_history {I : σ → Prop} {P : Call → Prop} {program : Program ε α}
    (h : ∀ a ∈ program.history handler s, P a.call)
    (hstep : ∀ c s, P c → I s → I (handler c s).2) (hs : I s) : I (program.run handler s).2 := by
  induction program generalizing s with
  | done b => exact hs
  | fail e => exact hs
  | call c next ih =>
    have hfirst : P c := h ⟨c, _⟩ List.mem_cons_self
    exact ih _ (fun a ha => h a (List.mem_cons_of_mem _ ha)) (hstep c s hfirst hs)

theorem map_call_history (program : Program ε α) (s : σ) :
    (program.history handler s).map (·.call) = program.calls handler s := by
  induction program generalizing s with
  | done a => rfl
  | fail e => rfl
  | call c next ih => exact congrArg (c :: ·) (ih _ _)

/-- Runs in two stores go alike as long as the stores answer alike the calls that are made. -/
theorem run_alike {other : Handler τ} {t : τ} {R : σ → τ → Prop} {P : Call → Prop}
    {program : Program ε α} (h : ∀ a ∈ program.history handler s, P a.call)
    (hstep : ∀ c s t, P c → R s t →
      (handler c s).1 = (other c t).1 ∧ R (handler c s).2 (other c t).2) (hst : R s t) :
    (program.run handler s).1 = (program.run other t).1 ∧
      program.history handler s = program.history other t ∧
      R (program.run handler s).2 (program.run other t).2 := by
  induction program generalizing s t with
  | done a => exact ⟨rfl, rfl, hst⟩
  | fail e => exact ⟨rfl, rfl, hst⟩
  | call c next ih =>
    have hfirst : P c := h ⟨c, _⟩ List.mem_cons_self
    obtain ⟨hanswer, hnext⟩ := hstep c s t hfirst hst
    obtain ⟨hresult, hhistory, hlast⟩ :=
      ih _ (fun a ha => h a (List.mem_cons_of_mem _ ha)) hnext
    rw [hanswer] at hresult hhistory hlast
    rw [run_call, run_call, history_call, history_call, hanswer, hhistory]
    exact ⟨hresult, rfl, hlast⟩

/-- An answer in a history is one that the store gave at some moment. -/
theorem answer_of_mem_history {program : Program ε α} {a : Answered}
    (h : a ∈ program.history handler s) : ∃ t, a.answer = (handler a.call t).1 := by
  induction program generalizing s with
  | done b => cases h
  | fail e => cases h
  | call c next ih =>
    rcases List.mem_cons.1 h with rfl | h
    · exact ⟨s, rfl⟩
    · exact ih _ h

end Program

end JobOperator
