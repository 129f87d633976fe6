import DatabaseTracing.Text.Lossy

/-! # In-memory log sinks

A sink names a buffer of bytes. Sharing a sink gives another name for the same
buffer; only creating one gives a new buffer. What a sink holds is read as text,
lossily, over all bytes written so far.
-/
namespace DatabaseTracing

structure Sink where
  buffer : Nat
  deriving DecidableEq, Repr

/-- The handle that a writer factory hands out writes to the same buffer. -/
def Sink.share (s : Sink) : Sink := s

structure Sinks where
  buffers : List (List UInt8)
  deriving DecidableEq, Repr

namespace Sinks

def empty : Sinks := ⟨[]⟩

def create (s : Sinks) : Sink × Sinks := (⟨s.buffers.length⟩, ⟨s.buffers ++ [[]]⟩)

def bytes (s : Sinks) (sink : Sink) : List UInt8 := s.buffers.getD sink.buffer []

/-- Every byte is accepted; the count tells how many there were. -/
def write (s : Sinks) (sink : Sink) (data : List UInt8) : Nat × Sinks :=
  (data.length, ⟨s.buffers.modify sink.buffer (· ++ data)⟩)

def contents (s : Sinks) (sink : Sink) : String := String.ofList (Lossy.decode (s.bytes sink))

end Sinks
end DatabaseTracing
