import WorkLedger.Network.Message

/-!
# Framing messages on a stream

On a stream each message is a frame: the length of its body as eight big-endian bytes, then
the body. A body longer than ten mebibytes is neither sent nor received. Receiving reads the
length, refuses one that is too large before reading further, reads the body and decodes it;
what follows the frame stays on the stream for the next message.
-/

namespace WorkLedger

/-- The longest message body, in bytes. -/
def maxMessageSize : Nat := 10485760

/-- How a stream is read: blocking, or by a task that awaits the bytes. The two report a
stream that ends early in different words. -/
inductive ReadMode where
  | blocking
  | awaiting
  deriving DecidableEq

/-- Why a frame could not be sent or received. -/
inductive FrameError where
  /-- The stream ended inside the length or the body. -/
  | endOfStream (mode : ReadMode)
  /-- The announced body is longer than a message may be. -/
  | tooLarge (length : Nat)
  /-- The body is not a message. -/
  | undecodable (cause : Json.ReadError)
  /-- The message to send is longer than a message may be. -/
  | refused (length : Nat)

/-- The reason, in words. -/
def FrameError.message : FrameError → String
  | .endOfStream .blocking => "failed to fill whole buffer"
  | .endOfStream .awaiting => "early eof"
  | .tooLarge n => "Received message too large: " ++ toString n ++ " bytes, max is " ++
      toString maxMessageSize ++ " bytes"
  | .undecodable e => "Failed to decode message: " ++ e.render
  | .refused n => "Refusing to send " ++ toString n ++ " byte message, max is " ++
      toString maxMessageSize ++ " bytes"

/-- Eight big-endian bytes of a length. -/
def lengthBytes (n : Nat) : List UInt8 :=
  (List.range 8).reverse.map fun i => (n / Nat.pow 256 i % 256).toUInt8

/-- The length that eight big-endian bytes stand for. -/
def lengthOf (bytes : List UInt8) : Nat := bytes.foldl (fun acc b => acc * 256 + b.toNat) 0

namespace Message

/-- The frame of a message, unless its body is too long to send. -/
def frame (m : Message) : Except FrameError (List UInt8) :=
  let body := m.encode.toList
  if maxMessageSize < body.length then .error (.refused body.length)
  else .ok (lengthBytes body.length ++ body)

/-- Receives the first message of a stream, returning what follows its frame. -/
def receive (mode : ReadMode) (stream : List UInt8) : Except FrameError (Message × List UInt8) :=
  if stream.length < 8 then .error (.endOfStream mode)
  else
    let length := lengthOf (stream.take 8)
    let rest := stream.drop 8
    if maxMessageSize < length then .error (.tooLarge length)
    else if rest.length < length then .error (.endOfStream mode)
    else
      match decode ⟨(rest.take length).toArray⟩ with
      | .ok m => .ok (m, rest.drop length)
      | .error e => .error (.undecodable e)

end Message

end WorkLedger
