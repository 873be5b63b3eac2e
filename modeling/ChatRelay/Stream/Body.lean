import ChatRelay.Error

/-!
# Bodies that arrive in pieces

A `ByteSource` delivers its bytes read by read. `Body` is the body of a reply that is known in
advance: its bytes in pieces of a fixed size, then the end or a failure, and nothing but failures
once it is closed.
-/

namespace ChatRelay

/-- What a read brings. No bytes mean the end. -/
inductive ReadOutcome where
  | bytes (b : Bytes)
  | failed (d : Disconnect)
  deriving DecidableEq

/-- Something that is read piece by piece. -/
class ByteSource (σ : Type) where
  read : σ → ReadOutcome × σ

/-- A body known in advance. -/
structure Body where
  /-- The bytes that are still to come. -/
  rest : Bytes
  /-- The largest piece; 0 for as much as a read takes. -/
  chunkSize : Nat := 0
  /-- The failure that comes in place of the end. -/
  failure : Option Bytes := none
  closed : Bool := false

namespace Body

/-- The most bytes that one read takes. -/
def readLimit : Nat := 64 * 1024

/-- The size of the next piece. -/
def pieceSize (b : Body) : Nat :=
  if b.chunkSize = 0 then readLimit else min readLimit b.chunkSize

/-- What a read of a closed body fails with. -/
def closedFailure : Disconnect := ⟨"read on closed body", false⟩

/-- The next piece. -/
def read (b : Body) : ReadOutcome × Body :=
  if b.closed then (.failed closedFailure, b)
  else if b.rest.isEmpty then
    match b.failure with
    | some message => (.failed ⟨message, false⟩, b)
    | none => (.bytes [], b)
  else (.bytes (b.rest.take b.pieceSize), { b with rest := b.rest.drop b.pieceSize })

instance : ByteSource Body := ⟨read⟩

def close (b : Body) : Body :=
  { b with closed := true }

theorem pieceSize_pos (b : Body) : 0 < b.pieceSize := by
  unfold pieceSize readLimit
  split <;> omega

/-- A read that brings bytes leaves fewer to come. -/
theorem rest_lt_of_read {b b' : Body} {x : UInt8} {xs : Bytes}
    (h : b.read = (.bytes (x :: xs), b')) : b'.rest.length < b.rest.length := by
  unfold read at h
  split at h
  · simp at h
  · split at h
    · split at h <;> simp at h
    · rename_i hne
      simp only [Prod.mk.injEq, ReadOutcome.bytes.injEq] at h
      obtain ⟨_, rfl⟩ := h
      have hpos := b.pieceSize_pos
      have : 0 < b.rest.length := by
        cases hr : b.rest with
        | nil => simp [hr] at hne
        | cons y ys => simp
      simp only [List.length_drop]
      omega

end Body

end ChatRelay
