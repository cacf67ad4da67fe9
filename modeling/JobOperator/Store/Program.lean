import JobOperator.Store.Call

/-!
Programs that talk to a store. A program is finished, has failed, or makes a call and goes on
depending on the answer; so it can be run in any store, and its calls can be interleaved with those
of other programs.
-/

namespace JobOperator

/-- A store: how it answers a call, and what it is afterwards. -/
abbrev Handler (σ : Type) := (c : Call) → σ → Except StoreError c.Answer × σ

/-- A program that ends with an `α` or fails with an `ε`. -/
inductive Program (ε α : Type) where
  | done (a : α)
  | fail (e : ε)
  | call (call : Call) (next : Except StoreError call.Answer → Program ε α)

namespace Program

variable {ε α β σ : Type}

/-- One program after another. -/
def bind (program : Program ε α) (f : α → Program ε β) : Program ε β :=
  match program with
  | done a => f a
  | fail e => fail e
  | call c next => call c (fun answer => (next answer).bind f)

instance : Monad (Program ε) where
  pure := done
  bind := bind

/-- Makes a call, and fails when it fails. -/
def perform (c : Call) (onError : StoreError → ε) : Program ε c.Answer :=
  call c fun
    | .ok answer => done answer
    | .error e => fail (onError e)

/-- A result that needs no call. -/
def ofExcept : Except ε α → Program ε α
  | .ok a => done a
  | .error e => fail e

/-- Runs a program in a store. -/
def run (handler : Handler σ) : Program ε α → σ → Except ε α × σ
  | done a, store => (.ok a, store)
  | fail e, store => (.error e, store)
  | call c next, store =>
    let (answer, store) := handler c store
    (next answer).run handler store

end Program

end JobOperator
