/-! A sink holds the bytes that were displayed. One with a capacity takes no byte beyond it. -/
namespace CheckedLisp

structure Sink where
  written : ByteArray
  capacity : Option Nat

namespace Sink

def empty (capacity : Option Nat) : Sink := ⟨.empty, capacity⟩

/-- Writes what fits, and says whether that was all. -/
def write (s : Sink) (text : String) : Bool × Sink :=
  let bytes := text.toUTF8
  match s.capacity with
  | none => (true, { s with written := s.written ++ bytes })
  | some capacity =>
    let room := capacity - s.written.size
    if bytes.size ≤ room then (true, { s with written := s.written ++ bytes })
    else (false, { s with written := s.written ++ bytes.extract 0 room })

/-- Writes pieces in order, up to the first that does not fit. -/
def writeEach (s : Sink) : List String → Bool × Sink
  | [] => (true, s)
  | piece :: pieces =>
    match s.write piece with
    | (true, s) => s.writeEach pieces
    | (false, s) => (false, s)

/-- The longest prefix of the bytes that is text, leaving out at most `count` bytes. -/
def textUpTo (bytes : ByteArray) : Nat → String
  | 0 => ""
  | count + 1 =>
    match String.fromUTF8? (bytes.extract 0 (bytes.size - 1)) with
    | some text => text
    | none => textUpTo (bytes.extract 0 (bytes.size - 1)) count

/-- The output as text. A character that was cut at the end shows as one replacement
character. -/
def text (s : Sink) : String :=
  match String.fromUTF8? s.written with
  | some text => text
  | none => textUpTo s.written 3 ++ "\uFFFD"

end Sink

end CheckedLisp
