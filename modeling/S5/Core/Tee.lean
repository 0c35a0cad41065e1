import S5.Core.Pins

/-!
# Streams that are written while they are read

`TeeStream` (`s5_core/src/blob/import.rs`), over any stream and any writer: every chunk is handed on, and
written before the next one is asked for.

A poll has an answer or is pending. Wakers are left out: a pending poll is polled again.
-/

namespace Tee

/-- The text of a `std::io::Error`. -/
abbrev IoError := String

inductive Poll (α : Type) where
  | pending
  | ready (a : α)
  deriving DecidableEq

/-- A `Stream` of chunks. -/
class ByteStream (σ : Type) where
  pollNext : σ → σ × Poll (Option (Except IoError Bytes))

/-- The methods of `AsyncWrite` that are used. -/
class AsyncWrite (ω : Type) where
  pollWrite : ω → Bytes → ω × Poll (Except IoError Nat)
  pollShutdown : ω → ω × Poll (Except IoError Unit)

structure TeeStream (σ ω : Type) where
  stream : σ
  writer : ω
  writeBuf : Option Bytes
  streamDone : Bool

namespace TeeStream

variable {σ ω : Type} [ByteStream σ] [AsyncWrite ω]

def new (stream : σ) (writer : ω) : TeeStream σ ω := ⟨stream, writer, none, false⟩

/-- What a poll answers. -/
abbrev Answer := Poll (Option (Except IoError Bytes))

/-- The first part of a round: writes from the buffer. `none` if the round goes on, `some none` if the
next one begins, and `some (some r)` if it returns `r`. -/
def write (t : TeeStream σ ω) : TeeStream σ ω × Option (Option Answer) :=
  match t.writeBuf with
  | none => (t, none)
  | some buf =>
    match AsyncWrite.pollWrite t.writer buf with
    | (writer, .ready (.ok n)) =>
      if n = buf.length then ({ t with writer, writeBuf := none }, none)
      else ({ t with writer, writeBuf := some (buf.drop n) }, some none)
    | (writer, .ready (.error e)) => ({ t with writer }, some (some (.ready (some (.error e)))))
    | (writer, .pending) => ({ t with writer }, some (some .pending))

/-- The rest of a round, when nothing is left to write. -/
def read (t : TeeStream σ ω) : TeeStream σ ω × Option Answer :=
  if t.streamDone then
    match AsyncWrite.pollShutdown t.writer with
    | (writer, .ready _) => ({ t with writer }, some (.ready none))
    | (writer, .pending) => ({ t with writer }, some .pending)
  else
    match ByteStream.pollNext t.stream with
    | (stream, .ready (some (.ok bytes))) =>
      ({ t with stream, writeBuf := some bytes }, some (.ready (some (.ok bytes))))
    | (stream, .ready (some (.error e))) => ({ t with stream }, some (.ready (some (.error e))))
    | (stream, .ready none) => ({ t with stream, streamDone := true }, none)
    | (stream, .pending) => ({ t with stream }, some .pending)

/-- One round of the loop, with the answer if it returns. -/
def round (t : TeeStream σ ω) : TeeStream σ ω × Option Answer :=
  match t.write with
  | (t, some r) => (t, r)
  | (t, none) => t.read

/-- `poll_next`, in at most `fuel` rounds. -/
def pollNext : Nat → TeeStream σ ω → Option (TeeStream σ ω × Answer)
  | 0, _ => none
  | fuel + 1, t =>
    match t.round with
    | (t, some r) => some (t, r)
    | (t, none) => pollNext fuel t

end TeeStream

/-! ## The writer of `import_stream` -/

/-- A hasher, as the bytes it has been updated with. -/
structure HasherWriter where
  hashed : Bytes

instance : AsyncWrite HasherWriter where
  pollWrite w buf := (⟨w.hashed ++ buf⟩, .ready (.ok buf.length))
  pollShutdown w := (w, .ready (.ok ()))

end Tee
