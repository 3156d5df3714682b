import Mathlib.Data.List.Basic

/-!
# Byte strings and sockets

`std::string` and `std::vector<uint8_t>` hold bytes; both are modelled by `Bytes`.  A string
literal of the source is written `bytes "..."`, one byte per (ASCII) character.  A socket that is
read from is the list of the chunks it is still going to deliver.
-/

namespace WebSocketsLib

/-- The contents of a `std::string`, `std::string_view` or `std::vector<uint8_t>`. -/
abbrev Bytes := List UInt8

/-- A narrow string literal. -/
def bytes (s : String) : Bytes :=
  s.toList.map fun c => UInt8.ofNat c.toNat

/-- The chunks that a socket is still going to deliver. -/
abbrev Socket := List Bytes

/-- The bytes that have not been read from the socket. -/
def Socket.unread (socket : Socket) : Bytes :=
  socket.flatten

/-- `"\r\n"`. -/
def crlf : Bytes :=
  [0x0D, 0x0A]

/-- `"\r\n\r\n"`. -/
def crlfcrlf : Bytes :=
  [0x0D, 0x0A, 0x0D, 0x0A]

end WebSocketsLib
