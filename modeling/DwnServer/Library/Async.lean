import Mathlib.Data.List.Basic

/-!
# Asynchronous functions on an event loop

An asynchronous function reads and writes a shared state and may wait. A call runs it up to the
point where it waits first, with nothing in between; what is left of it goes on, up to its next
wait, when the loop resumes it. A function that waits nowhere takes effect in the step that
calls it, whatever else the loop is running.
-/

/-- What is left of an asynchronous function over the state `σ`. -/
inductive Async (σ α : Type) where
  | answer (a : α)
  | read (next : σ → Async σ α)
  | write (s : σ) (next : Async σ α)
  | wait (next : Async σ α)

namespace Async

variable {σ α β : Type}

protected def bind : Async σ α → (α → Async σ β) → Async σ β
  | .answer a, f => f a
  | .read next, f => .read fun s => (next s).bind f
  | .write s next, f => .write s (next.bind f)
  | .wait next, f => .wait (next.bind f)

instance : Monad (Async σ) where
  pure := .answer
  bind := Async.bind

def get : Async σ σ := .read .answer

def modify (g : σ → σ) : Async σ Unit := .read fun s => .write (g s) (.answer ())

/-- Run up to the next wait. -/
def segment : Async σ α → σ → Async σ α × σ
  | .answer a, s => (.answer a, s)
  | .read next, s => (next s).segment s
  | .write t next, _ => next.segment t
  | .wait next, s => (.wait next, s)

/-- A call: the function runs up to its first wait, and its caller gets the rest as a promise. -/
def call : Async σ α → Async σ (Async σ α)
  | .answer a => .answer (.answer a)
  | .read next => .read fun s => (next s).call
  | .write s next => .write s next.call
  | .wait next => .answer (.wait next)

/-- `await`: the caller waits, also for a promise that has its answer. -/
def await (promise : Async σ α) : Async σ α := .wait promise

/-- The answer, if all that is left is to wait for it. -/
def settled? : Async σ α → Option α
  | .answer a => some a
  | .wait next => next.settled?
  | .read _ | .write _ _ => none

/-- From the state `s`, the function answers `a` without waiting and leaves `t`. -/
def Answers (x : Async σ α) (s : σ) (a : α) (t : σ) : Prop := x.segment s = (.answer a, t)

variable {x : Async σ α} {s t u : σ} {a : α} {b : β}

@[simp] theorem answers_answer {a' : α} : (answer a').Answers s a t ↔ a' = a ∧ s = t := by
  simp [Answers, segment]

theorem answers_pure (a : α) (s : σ) : (pure a : Async σ α).Answers s a s := rfl

theorem answers_get (s : σ) : get.Answers s s s := rfl

theorem answers_modify (g : σ → σ) (s : σ) : (modify g).Answers s () (g s) := rfl

/-- What comes after a function that does not wait begins in the state it leaves. -/
theorem Answers.segment_bind {f : α → Async σ β} (hx : x.Answers s a t) :
    (x >>= f).segment s = (f a).segment t := by
  induction x generalizing s with
  | answer a' =>
    obtain ⟨rfl, rfl⟩ := answers_answer.mp hx
    rfl
  | read next ih => exact ih s hx
  | write s' next ih => exact ih hx
  | wait next => cases hx

theorem Answers.bind {f : α → Async σ β} (hx : x.Answers s a t) (hf : (f a).Answers t b u) :
    (x >>= f).Answers s b u :=
  hx.segment_bind.trans hf

/-- A function that does not wait has answered when its call returns. -/
theorem Answers.call (hx : x.Answers s a t) : x.call.Answers s (.answer a) t := by
  induction x generalizing s with
  | answer a' =>
    obtain ⟨rfl, rfl⟩ := answers_answer.mp hx
    rfl
  | read next ih => exact ih s hx
  | write s' next ih => exact ih hx
  | wait next => cases hx

/-! ## Functions that may throw -/

section Throw

variable {ε : Type} {y : ExceptT ε (Async σ) α} {f : α → ExceptT ε (Async σ) β} {e : ε}
  {r : Except ε β}

theorem answers_lift (hx : x.Answers s a t) :
    (ExceptT.lift x : ExceptT ε (Async σ) α).run.Answers s (.ok a) t :=
  hx.bind (answers_pure _ _)

theorem answers_liftM (r : Except ε α) (s : σ) :
    (liftM r : ExceptT ε (Async σ) α).run.Answers s r s :=
  answers_pure r s

theorem answers_throw (e : ε) (s : σ) :
    (throw e : ExceptT ε (Async σ) α).run.Answers s (.error e) s :=
  answers_pure _ s

theorem Answers.bind_ok (hy : y.run.Answers s (.ok a) t) (hf : (f a).run.Answers t r u) :
    (y >>= f).run.Answers s r u :=
  hy.bind hf

theorem Answers.bind_error (hy : y.run.Answers s (.error e) t) :
    (y >>= f).run.Answers s (.error e) t :=
  hy.bind (answers_pure _ _)

end Throw

end Async
