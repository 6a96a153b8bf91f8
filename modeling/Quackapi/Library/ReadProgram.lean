import Quackapi.Library.ExceptRules

/-! Programs whose one effect is to put questions to a shared state, one atomic read at a time. Run
alone, a program gets every answer from one state; in between, other parties may change it. -/

namespace Library

inductive ReadProgram (Q : Type) (R : Q → Type) (α : Type) : Type
  | done (a : α)
  | read (q : Q) (k : R q → ReadProgram Q R α)

namespace ReadProgram
variable {Q : Type} {R : Q → Type} {α β ε : Type}

def bind : ReadProgram Q R α → (α → ReadProgram Q R β) → ReadProgram Q R β
  | done a, f => f a
  | read q k, f => read q fun r => (k r).bind f

instance : Monad (ReadProgram Q R) where
  pure := done
  bind := bind

/-- The result where every question is answered by `answer`. -/
def eval (answer : (q : Q) → R q) : ReadProgram Q R α → α
  | done a => a
  | read q k => (k (answer q)).eval answer

/-- A question that some answers lead the program to. -/
def MayAsk : ReadProgram Q R α → Q → Prop
  | done _, _ => False
  | read q k, q' => q = q' ∨ ∃ r, (k r).MayAsk q'

@[simp] theorem eval_done (answer : (q : Q) → R q) (a : α) : (done a : ReadProgram Q R α).eval answer = a :=
  rfl

@[simp] theorem eval_read (answer : (q : Q) → R q) (q : Q) (k : R q → ReadProgram Q R α) :
    (read q k).eval answer = (k (answer q)).eval answer := rfl

@[simp] theorem eval_bind (answer : (q : Q) → R q) (x : ReadProgram Q R α) (f : α → ReadProgram Q R β) :
    (x >>= f).eval answer = (f (x.eval answer)).eval answer := by
  induction x with
  | done a => rfl
  | read q k ih => exact ih (answer q)

theorem eval_congr {answer answer' : (q : Q) → R q} {x : ReadProgram Q R α}
    (h : ∀ q, x.MayAsk q → answer q = answer' q) : x.eval answer = x.eval answer' := by
  induction x with
  | done a => rfl
  | read q k ih =>
    rw [eval_read, eval_read, ← h q (.inl rfl)]
    exact ih (answer q) fun q' hq' => h q' (.inr ⟨answer q, hq'⟩)

def ask (q : Q) : ExceptT ε (ReadProgram Q R) (R q) := ExceptT.mk (read q fun r => done (.ok r))

def ofExcept (x : Except ε α) : ExceptT ε (ReadProgram Q R) α := ExceptT.mk (done x)

def onFailure (g : ε → ε) (x : ExceptT ε (ReadProgram Q R) α) : ExceptT ε (ReadProgram Q R) α :=
  ExceptT.mk (x.run >>= fun r => done (onError g r))

/-- The program with every answer from one state, as a chain of fallible steps. -/
def evalExcept (answer : (q : Q) → R q) (x : ExceptT ε (ReadProgram Q R) α) : Except ε α :=
  x.run.eval answer

@[simp] theorem evalExcept_pure (answer : (q : Q) → R q) (a : α) :
    evalExcept answer (pure a : ExceptT ε (ReadProgram Q R) α) = pure a := rfl

@[simp] theorem evalExcept_throw (answer : (q : Q) → R q) (e : ε) :
    evalExcept answer (throw e : ExceptT ε (ReadProgram Q R) α) = throw e := rfl

@[simp] theorem evalExcept_ask (answer : (q : Q) → R q) (q : Q) :
    evalExcept answer (ask q : ExceptT ε (ReadProgram Q R) (R q)) = .ok (answer q) := rfl

@[simp] theorem evalExcept_ofExcept (answer : (q : Q) → R q) (x : Except ε α) :
    evalExcept answer (ofExcept x) = x := rfl

@[simp] theorem evalExcept_onFailure (answer : (q : Q) → R q) (g : ε → ε)
    (x : ExceptT ε (ReadProgram Q R) α) :
    evalExcept answer (onFailure g x) = onError g (evalExcept answer x) :=
  eval_bind answer x.run _

@[simp] theorem evalExcept_bind (answer : (q : Q) → R q) (x : ExceptT ε (ReadProgram Q R) α)
    (f : α → ExceptT ε (ReadProgram Q R) β) :
    evalExcept answer (x >>= f) = evalExcept answer x >>= fun a => evalExcept answer (f a) := by
  have hrun : evalExcept answer (x >>= f) = (ExceptT.bindCont f (x.run.eval answer)).eval answer :=
    eval_bind answer x.run _
  rw [hrun]
  unfold evalExcept
  rcases x.run.eval answer with e | a
  · rfl
  · rfl

end ReadProgram
end Library
