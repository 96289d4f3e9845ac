import CompressedRom.Error
import CompressedRom.Bytes

/-!
# Codecs that work call by call

A codec has two halves, one that compresses and one that decompresses, and each of them works on a
stream in as many calls as it takes: a call is handed what is left of the input and of the room for
output, uses up some of both, and tells whether it can go on, cannot, or has come to the end of the
stream. To serve a request the half in question is reset and called until its stream has ended.
Only then is the output given out, so that a stream that is cut short, or that does not fit, is
never mistaken for a whole one.
-/

namespace CompressedRom

namespace Engine

/-- What a call says of its stream: that more calls are needed, that nothing can be done with the
input and the room at hand, or that it is complete. -/
inductive Status where
  | more
  | stuck
  | ended
  deriving DecidableEq, Repr

/-- What comes of a call: its status, or a failure in the engine's own words; the state behind it;
how many bytes of the input were used up; and the output. -/
structure Reply (State : Type) where
  status : Except String Status
  state : State
  taken : Nat
  output : Bytes

/-- The failures of a request: the engine's own, that the room is used up, and that nothing can be
done with the input although there is room. -/
structure Causes where
  refused (text : String) : IoError
  full : IoError
  stuck : IoError

end Engine

/-- One half of a codec. A call keeps to its input and to its room, it uses up some of them if it
asks for more calls, and a reset leads back to the first state. -/
structure Engine where
  State : Type
  fresh : State
  reset (state : State) : State
  call (state : State) (input : Bytes) (room : Nat) : Engine.Reply State
  reset_eq (state : State) : reset state = fresh
  taken_le (state : State) (input : Bytes) (room : Nat) :
    (call state input room).taken ≤ input.size
  size_output_le (state : State) (input : Bytes) (room : Nat) :
    (call state input room).output.size ≤ room
  progress {state : State} {input : Bytes} {room : Nat} :
    (call state input room).status = .ok .more →
      0 < (call state input room).taken + (call state input room).output.size

namespace Engine

variable (e : Engine)

/-- What is left of the input. -/
def inputLeft (src : Bytes) (taken : Nat) : Bytes := src.extract (min taken src.size) src.size

/-- What is left of the room for output. -/
def roomLeft (capacity : Nat) (output : Bytes) : Nat := capacity - min output.size capacity

theorem size_inputLeft_le (src : Bytes) (taken : Nat) :
    (inputLeft src taken).size ≤ src.size - taken := by
  rw [inputLeft, ByteArray.size_extract]
  omega

theorem roomLeft_eq (capacity : Nat) (output : Bytes) :
    roomLeft capacity output = capacity - output.size := by
  unfold roomLeft
  omega

/-- A call that asks for more leaves less to do. -/
theorem left_lt {src : Bytes} {capacity : Nat} {state : e.State} {taken : Nat} {output : Bytes}
    (h : (e.call state (inputLeft src taken) (roomLeft capacity output)).status = .ok .more) :
    src.size - (taken + (e.call state (inputLeft src taken) (roomLeft capacity output)).taken) +
        (capacity -
          (output ++ (e.call state (inputLeft src taken) (roomLeft capacity output)).output).size) <
      src.size - taken + (capacity - output.size) := by
  have hprogress := e.progress h
  have htaken := e.taken_le state (inputLeft src taken) (roomLeft capacity output)
  have houtput := e.size_output_le state (inputLeft src taken) (roomLeft capacity output)
  have hinput := size_inputLeft_le src taken
  rw [roomLeft_eq] at *
  rw [ByteArray.size_append]
  omega

/-- Calls the engine until its stream has ended, from the given state on, with `taken` bytes of
`src` used up and `output` given out so far. -/
def drive (causes : Causes) (src : Bytes) (capacity : Nat) (state : e.State) (taken : Nat)
    (output : Bytes) : Except IoError Bytes × e.State :=
  let room := roomLeft capacity output
  let reply := e.call state (inputLeft src taken) room
  match _h : reply.status with
  | .error text => (.error (causes.refused text), reply.state)
  | .ok .ended => (.ok (output ++ reply.output), reply.state)
  | .ok .more =>
    if room = 0 then (.error causes.full, reply.state)
    else drive causes src capacity reply.state (taken + reply.taken) (output ++ reply.output)
  | .ok .stuck => (.error (if room = 0 then causes.full else causes.stuck), reply.state)
termination_by src.size - taken + (capacity - output.size)
decreasing_by exact left_lt e _h

/-- The failures of a decompression into `capacity` bytes. -/
def decoding (capacity : Nat) : Causes where
  refused text := ⟨.invalidData, text⟩
  full := ⟨.invalidData, s!"decompressed data exceeds {capacity} bytes"⟩
  stuck := ⟨.invalidData, "truncated compressed stream"⟩

/-- The failures of a compression. -/
def encoding : Causes where
  refused text := ⟨.other, text⟩
  full := ⟨.unexpectedEnd, "unexpected end of file"⟩
  stuck := ⟨.unexpectedEnd, "unexpected end of file"⟩

/-- The output of the stream that `src` starts with, for a destination of `capacity` bytes. -/
def decompress (state : e.State) (src : Bytes) (capacity : Nat) : Except IoError Bytes × e.State :=
  e.drive (decoding capacity) src capacity (e.reset state) 0 (Bytes.zeros 0)

/-- The stream for `src`, for a destination of `capacity` bytes. -/
def compress (state : e.State) (src : Bytes) (capacity : Nat) : Except IoError Bytes × e.State :=
  e.drive encoding src capacity (e.reset state) 0 (Bytes.zeros 0)

end Engine

/-- A codec, which may serve any number of requests. -/
structure Codec where
  decoder : Engine
  encoder : Engine

namespace Codec

/-- The present states of both halves. -/
structure Instance (k : Codec) where
  decoder : k.decoder.State
  encoder : k.encoder.State

/-- A codec that has not served any request. -/
def fresh (k : Codec) : k.Instance := ⟨k.decoder.fresh, k.encoder.fresh⟩

/-- To compress or to decompress `src` into a destination of `capacity` bytes. -/
inductive Request where
  | compress (src : Bytes) (capacity : Nat)
  | decompress (src : Bytes) (capacity : Nat)

/-- The answer to a request, and the codec afterwards. -/
def serve (k : Codec) (request : Request) (i : k.Instance) : Except IoError Bytes × k.Instance :=
  match request with
  | .compress src capacity =>
    let (answer, encoder) := k.encoder.compress i.encoder src capacity
    (answer, { i with encoder })
  | .decompress src capacity =>
    let (answer, decoder) := k.decoder.decompress i.decoder src capacity
    (answer, { i with decoder })

/-- The codec after requests served one after the other. -/
def serveAll (k : Codec) (requests : List Request) (i : k.Instance) : k.Instance :=
  requests.foldl (fun i request => (k.serve request i).2) i

end Codec

end CompressedRom
