import SecureShell.Wire.Codec

/-!
# Messages

A message is a number, which says what kind of message it is, and a body. The codec of a message
type is that of its body; the payload on the wire puts the number in front.
-/

namespace SecureShell.Wire

/-- The types of messages. -/
class Message (α : Type) where
  /-- The number that all messages of the type start with. -/
  number : UInt8

/-- The payload of a message, its number included. -/
def encodeMessage {α : Type} [Message α] [Writable α] (m : α) : Except CodecError Bytes :=
  (Emission.byte (Message.number α) ++ emission m).toBytes

/-- The message of a payload, which has to start with the number of the type and to hold nothing
after the body. -/
def decodeMessage {α : Type} [Message α] [Readable α] (payload : Bytes) : Except CodecError α :=
  let numbered : Reader α := do
    Reader.expectByte (Message.number α)
    reader
  match numbered.all? payload with
  | some m => .ok m
  | none => .error .decodingFailed

end SecureShell.Wire
