import JobOperator.Proofs.Store.History

/-!
Two programs in one store that make their calls in any order. When the calls of the one commute with
those of the other, each program does what it would do alone, and they leave the same store whatever
the order.
-/

namespace JobOperator

/-- Which of two programs makes the next call. -/
inductive Turn where
  | first
  | second
  deriving DecidableEq, Repr

/-- What a program does: its calls with their answers, and how it ends. -/
structure Trace (ε α : Type) where
  history : List Answered
  result : Except ε α

/-- What a program does that makes one more call before. -/
def Trace.after {ε α : Type} (a : Answered) (trace : Trace ε α) : Trace ε α :=
  { trace with history := a :: trace.history }

namespace Program

variable {ε ε' α β σ : Type}

/-- What a program does when it runs alone. -/
def trace (handler : Handler σ) (program : Program ε α) (s : σ) : Trace ε α :=
  { history := program.history handler s, result := (program.run handler s).1 }

/-- Runs two programs in one store: at each turn, one of them makes its next call, if it has not
ended; after the last turn, the first one goes on to its end, and then the second. Gives what each
has done, and the store after that. -/
def interleave (handler : Handler σ) :
    List Turn → Program ε α → Program ε' β → σ → (Trace ε α × Trace ε' β) × σ
  | [], p, q, s =>
    let (_, middle) := p.run handler s
    ((p.trace handler s, q.trace handler middle), (q.run handler middle).2)
  | .first :: turns, call c next, q, s =>
    let (answer, s) := handler c s
    let ((traceP, traceQ), last) := interleave handler turns (next answer) q s
    ((traceP.after ⟨c, answer⟩, traceQ), last)
  | .second :: turns, p, call c next, s =>
    let (answer, s) := handler c s
    let ((traceP, traceQ), last) := interleave handler turns p (next answer) s
    ((traceP, traceQ.after ⟨c, answer⟩), last)
  | _ :: turns, p, q, s => interleave handler turns p q s

variable {handler : Handler σ} {s : σ}

theorem trace_call (c : Call) (next : Except StoreError c.Answer → Program ε α) :
    (call c next).trace handler s =
      ((next (handler c s).1).trace handler (handler c s).2).after ⟨c, (handler c s).1⟩ := rfl

/-! ### Calls that commute -/

/-- Whether two calls can be made in either order: each has the same answer, and they leave the same
store. -/
structure Commutes (handler : Handler σ) (c d : Call) (s : σ) : Prop where
  first : (handler c (handler d s).2).1 = (handler c s).1
  second : (handler d (handler c s).2).1 = (handler d s).1
  store : (handler d (handler c s).2).2 = (handler c (handler d s).2).2

theorem Commutes.symm {c d : Call} (h : Commutes handler c d s) : Commutes handler d c s :=
  ⟨h.second, h.first, h.store.symm⟩

/-- Whether calls of two sorts commute, in all stores of an invariant that they keep. -/
structure Independent (handler : Handler σ) (P Q : Call → Prop) (I : σ → Prop) : Prop where
  commutes : ∀ c d s, P c → Q d → I s → Commutes handler c d s
  keeps_first : ∀ c s, P c → I s → I (handler c s).2
  keeps_second : ∀ d s, Q d → I s → I (handler d s).2

variable {P Q : Call → Prop} {I : σ → Prop}

theorem Independent.symm (h : Independent handler P Q I) : Independent handler Q P I :=
  ⟨fun d c s hd hc hs => (h.commutes c d s hc hd hs).symm, h.keeps_second, h.keeps_first⟩

/-- A program does the same after a call with which its own calls commute. -/
theorem Independent.past_call (h : Independent handler P Q I) {c : Call} (hc : P c)
    {q : Program ε' β} (hq : ∀ a ∈ q.history handler s, Q a.call) (hs : I s) :
    q.trace handler (handler c s).2 = q.trace handler s ∧
      (handler c (q.run handler s).2).1 = (handler c s).1 ∧
      (q.run handler (handler c s).2).2 = (handler c (q.run handler s).2).2 := by
  -- `c` is carried past one call of `q` after the other, each of which goes on from the same answer
  induction q generalizing s with
  | done b => exact ⟨rfl, rfl, rfl⟩
  | fail e => exact ⟨rfl, rfl, rfl⟩
  | call d next ih =>
    have hd : Q d := hq ⟨d, _⟩ List.mem_cons_self
    have hcommutes := h.commutes c d s hc hd hs
    obtain ⟨htrace, hanswer, hstore⟩ := ih (handler d s).1
      (fun a ha => hq a (List.mem_cons_of_mem _ ha)) (h.keeps_second d s hd hs)
    refine ⟨?_, ?_, ?_⟩
    · rw [trace_call, trace_call, hcommutes.second, hcommutes.store, htrace]
    · rw [run_call, hanswer, hcommutes.first]
    · rw [run_call, run_call, hcommutes.second, hcommutes.store, hstore]

theorem Independent.history_past_call (h : Independent handler P Q I) {c : Call} (hc : P c)
    {q : Program ε' β} (hq : ∀ a ∈ q.history handler s, Q a.call) (hs : I s) :
    ∀ a ∈ q.history handler (handler c s).2, Q a.call := by
  obtain ⟨htrace, -, -⟩ := h.past_call hc hq hs
  rw [show q.history handler (handler c s).2 = q.history handler s from
    congrArg Trace.history htrace]
  exact hq

/-- Programs whose calls commute do the same one after the other, in either order. -/
theorem Independent.in_turn (h : Independent handler P Q I) {p : Program ε α} {q : Program ε' β}
    (hp : ∀ a ∈ p.history handler s, P a.call) (hq : ∀ a ∈ q.history handler s, Q a.call)
    (hs : I s) :
    p.trace handler (q.run handler s).2 = p.trace handler s ∧
      q.trace handler (p.run handler s).2 = q.trace handler s ∧
      (q.run handler (p.run handler s).2).2 = (p.run handler (q.run handler s).2).2 := by
  induction p generalizing s with
  | done a => exact ⟨rfl, rfl, rfl⟩
  | fail e => exact ⟨rfl, rfl, rfl⟩
  | call c next ih =>
    have hc : P c := hp ⟨c, _⟩ List.mem_cons_self
    obtain ⟨htrace, hanswer, hstore⟩ := h.past_call hc hq hs
    obtain ⟨hfirst, hsecond, hlast⟩ := ih (handler c s).1
      (fun a ha => hp a (List.mem_cons_of_mem _ ha)) (h.history_past_call hc hq hs)
      (h.keeps_first c s hc hs)
    refine ⟨?_, ?_, ?_⟩
    · rw [trace_call, trace_call, hanswer, ← hstore, hfirst]
    · rw [run_call, hsecond, htrace]
    · rw [run_call, run_call, hlast, hanswer, hstore]

/-- Programs whose calls commute do what each would do alone, at whatever turns they make their
calls, and leave the store that they leave one after the other. -/
theorem Independent.interleave_eq (h : Independent handler P Q I) (turns : List Turn)
    {p : Program ε α} {q : Program ε' β} (hp : ∀ a ∈ p.history handler s, P a.call)
    (hq : ∀ a ∈ q.history handler s, Q a.call) (hs : I s) :
    interleave handler turns p q s =
      ((p.trace handler s, q.trace handler s), (q.run handler (p.run handler s).2).2) := by
  induction turns generalizing p q s with
  | nil =>
    obtain ⟨-, hsecond, -⟩ := h.in_turn hp hq hs
    simp only [interleave, hsecond]
  | cons turn turns ih =>
    cases turn with
    | first =>
      cases p with
      | done a => exact ih hp hq hs
      | fail e => exact ih hp hq hs
      | call c next =>
        have hc : P c := hp ⟨c, _⟩ List.mem_cons_self
        obtain ⟨htrace, -, -⟩ := h.past_call hc hq hs
        have hrest := ih (fun a ha => hp a (List.mem_cons_of_mem _ ha))
          (h.history_past_call hc hq hs) (h.keeps_first c s hc hs)
        simp only [interleave, hrest, htrace]
        rfl
    | second =>
      cases q with
      | done b => exact ih hp hq hs
      | fail e => exact ih hp hq hs
      | call d next =>
        have hd : Q d := hq ⟨d, _⟩ List.mem_cons_self
        obtain ⟨htrace, hanswer, hstore⟩ := h.symm.past_call hd hp hs
        have hrest := ih (h.symm.history_past_call hd hp hs)
          (fun a ha => hq a (List.mem_cons_of_mem _ ha)) (h.keeps_second d s hd hs)
        simp only [interleave, hrest, htrace, hstore]
        rw [run_call, hanswer]
        rfl

/-- Whether two programs that take turns do what they do one after the other, and leave the same
store, whichever of them runs first. -/
structure Serializable (handler : Handler σ) (turns : List Turn) (p : Program ε α)
    (q : Program ε' β) (s : σ) : Prop where
  first : interleave handler turns p q s =
    ((p.trace handler s, q.trace handler (p.run handler s).2),
      (q.run handler (p.run handler s).2).2)
  second : interleave handler turns p q s =
    ((p.trace handler (q.run handler s).2, q.trace handler s),
      (p.run handler (q.run handler s).2).2)

theorem Independent.serializable (h : Independent handler P Q I) (turns : List Turn)
    {p : Program ε α} {q : Program ε' β} (hp : ∀ a ∈ p.history handler s, P a.call)
    (hq : ∀ a ∈ q.history handler s, Q a.call) (hs : I s) :
    Serializable handler turns p q s := by
  obtain ⟨hfirst, hsecond, hlast⟩ := h.in_turn hp hq hs
  have htogether := h.interleave_eq turns hp hq hs
  constructor
  · rw [htogether, hsecond]
  · rw [htogether, hfirst, hlast]

end Program

end JobOperator
