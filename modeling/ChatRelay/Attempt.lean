import ChatRelay.Error
import ChatRelay.Log

/-!
# Attempts

An operation that may fail and that writes to the log on its way. What was written before a failure
stays written.
-/

namespace ChatRelay

structure Attempt (α : Type) where
  log : List LogEntry
  result : Except RelayError α

namespace Attempt

variable {α β : Type}

/-- Writes an entry. -/
def note (entry : LogEntry) : Attempt Unit := ⟨[entry], .ok ()⟩

/-- Writes entries in turn. -/
def notes (entries : List LogEntry) : Attempt Unit := ⟨entries, .ok ()⟩

/-- What has succeeded without a word. -/
def succeed (a : α) : Attempt α := ⟨[], .ok a⟩

/-- One attempt and then, if it succeeds, another. -/
def andThen (x : Attempt α) (f : α → Attempt β) : Attempt β :=
  match x.result with
  | .ok a => ⟨x.log ++ (f a).log, (f a).result⟩
  | .error e => ⟨x.log, .error e⟩

instance : Monad Attempt where
  pure := succeed
  bind := andThen

instance : MonadLift (Except RelayError) Attempt where
  monadLift result := ⟨[], result⟩

@[simp] theorem pure_eq (a : α) : (pure a : Attempt α) = ⟨[], .ok a⟩ := rfl

@[simp] theorem bind_eq (x : Attempt α) (f : α → Attempt β) : x >>= f = x.andThen f := rfl

end Attempt

end ChatRelay
