import CompressedRom.Bytes
import CompressedRom.Word

/-!
# Queries

A query is a computation that asks for spans of an image, each depending on the answers before
it. It does not say where the bytes come from: the same query is answered by a mapping in memory
and by a cached block device. Main statements: queries form a lawful monad, and `attempt` turns a
refusal into a value.
-/

namespace CompressedRom

/-- A computation that asks for spans of an image. A span that is refused is an answer, too. -/
inductive Query (α : Type) where
  | done (value : α)
  | stop (failure : Failure)
  | ask (offset len : Nat) (next : Except Error Bytes → Query α)

namespace Query

variable {α β γ : Type}

/-- Runs `f` on the value of a query. -/
def bind : Query α → (α → Query β) → Query β
  | done value, f => f value
  | stop failure, _ => stop failure
  | ask offset len next, f => ask offset len fun answer => (next answer).bind f

instance : Monad Query where
  pure := done
  bind := bind

/-- Ends a query for the given cause. -/
def refuse (cause : Error) : Query α := stop (.refused cause)

/-- Goes on only if `p` holds. -/
def ensure (p : Prop) [Decidable p] (cause : Error) : Query Unit :=
  if p then done () else refuse cause

/-- A step within bounds. -/
def within : Except Fault α → Query α
  | .ok value => done value
  | .error step => stop (.fault step)

/-- A result, or the cause why there is none. -/
def ofExcept : Except Error α → Query α
  | .ok value => done value
  | .error cause => refuse cause

instance : MonadLift (Except Fault) Query where
  monadLift := within

instance : MonadLift (Except Error) Query where
  monadLift := ofExcept

/-- The `len` bytes at `offset`. -/
def span (offset len : Nat) : Query Bytes := ask offset len ofExcept

/-- The value of a query, or the cause for which it was refused. A fault stays a fault. -/
def attempt : Query α → Query (Except Error α)
  | done value => done (.ok value)
  | stop (.refused cause) => done (.error cause)
  | stop (.fault step) => stop (.fault step)
  | ask offset len next => ask offset len fun answer => (next answer).attempt

@[simp]
theorem pure_eq_done (a : α) : (pure a : Query α) = done a := rfl

@[simp]
theorem done_bind (a : α) (f : α → Query β) : done a >>= f = f a := rfl

@[simp]
theorem stop_bind (failure : Failure) (f : α → Query β) : stop failure >>= f = stop failure := rfl

@[simp]
theorem refuse_bind (cause : Error) (f : α → Query β) : refuse cause >>= f = refuse cause := rfl

theorem ensure_bind_of {p : Prop} [Decidable p] (h : p) (cause : Error) (f : Unit → Query α) :
    (ensure p cause >>= f) = f () := by
  unfold ensure
  rw [if_pos h]
  rfl

theorem ensure_bind_of_not {p : Prop} [Decidable p] (h : ¬p) (cause : Error)
    (f : Unit → Query α) : (ensure p cause >>= f) = refuse cause := by
  unfold ensure
  rw [if_neg h]
  rfl

@[simp]
theorem ask_bind (offset len : Nat) (next : Except Error Bytes → Query α) (f : α → Query β) :
    ask offset len next >>= f = ask offset len fun answer => next answer >>= f := rfl

theorem bind_done (q : Query α) : q >>= done = q := by
  induction q with
  | done => rfl
  | stop => rfl
  | ask offset len next ih =>
    rw [ask_bind]
    congr
    funext answer
    exact ih answer

theorem bind_assoc (q : Query α) (f : α → Query β) (g : β → Query γ) :
    q >>= f >>= g = q >>= fun a => f a >>= g := by
  induction q with
  | done => rfl
  | stop => rfl
  | ask offset len next ih =>
    simp only [ask_bind]
    congr
    funext answer
    exact ih answer

instance : LawfulMonad Query :=
  LawfulMonad.mk' Query
    bind_done
    (fun _ _ => rfl)
    bind_assoc

end Query

end CompressedRom
