/-
Where printed text goes: a sequence of bytes that may have a limited size.
-/
import Scriptlet.Diagnostic

namespace Scriptlet

structure Sink where
  written : ByteArray
  /-- The number of bytes that still fit; none if there is no limit. -/
  room : Option Nat
  flushFails : Bool

namespace Sink

def unlimited : Sink := ⟨.empty, none, false⟩

/-- Whether the whole text fits. -/
def fits (sink : Sink) (text : String) : Bool :=
  match sink.room with
  | some room => decide (text.utf8ByteSize ≤ room)
  | none => true

/-- Write as much of the text as fits. -/
def write (sink : Sink) (text : String) : Sink :=
  match sink.room with
  | some room =>
      { sink with
        written := sink.written ++ text.toUTF8.extract 0 room
        room := some (room - text.utf8ByteSize) }
  | none => { sink with written := sink.written ++ text.toUTF8 }

/-- The text written behind the first `start` bytes.  The limit may cut a
character in two; what is left of it shows as a replacement character. -/
def textFrom (sink : Sink) (start : Nat) : String :=
  let bytes := sink.written.extract start sink.written.size
  match String.fromUTF8? bytes with
  | some text => text
  | none => cut bytes 3
where
  /-- Drop up to `tail` bytes from the end until whole characters are left. -/
  cut (bytes : ByteArray) : Nat → String
    | 0 => ""
    | tail + 1 =>
        match String.fromUTF8? (bytes.extract 0 (bytes.size - 1)) with
        | some text => text.push '\uFFFD'
        | none => cut (bytes.extract 0 (bytes.size - 1)) tail

end Sink

end Scriptlet
