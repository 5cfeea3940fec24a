import LetWhile.Text.Utf8

/-!
# Places to write to

A sink takes bytes, up to a limit if it has one. The write that crosses the limit leaves the bytes
that still fit and fails. A sink does not remember that: what comes next is tried again. It is the
writer in front of it that keeps the first error and writes nothing more after it.
-/

namespace LetWhile

/-- Why a write failed. -/
inductive WriteError where
  | diskFull
deriving DecidableEq, Repr

/-- The wording of the error of a write. -/
def WriteError.message : WriteError → String
  | .diskFull => "disk full"

/-- What was written so far, and how much can be written at all. -/
structure Sink where
  limit : Option Nat := none
  written : List UInt8 := []
deriving DecidableEq, Repr

/-- Writes a text at once, as much of it as there is room for, and says whether that was less than
all of it. -/
def Sink.write (s : Sink) (chunk : String) : Option WriteError × Sink :=
  let bytes := utf8Bytes chunk
  match s.limit with
  | none => (none, { s with written := s.written ++ bytes })
  | some limit =>
    let room := limit - s.written.length
    (if room < bytes.length then some .diskFull else none,
      { s with written := s.written ++ bytes.take room })

/-- A sink, and the first error that a write to it returned. -/
structure Writer where
  sink : Sink := {}
  failure : Option WriteError := none
deriving DecidableEq, Repr

namespace Writer

/-- Writes a text unless a write has failed before. The error of the write is kept. -/
def write (w : Writer) (chunk : String) : Writer :=
  match w.failure with
  | some _ => w
  | none =>
    let (failure, sink) := w.sink.write chunk
    { sink, failure }

/-- Writes one text after the other. -/
def writeAll (w : Writer) (chunks : List String) : Writer :=
  chunks.foldl write w

end Writer

end LetWhile
