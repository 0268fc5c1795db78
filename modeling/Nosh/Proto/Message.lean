import Nosh.Proto.Datagram

/-!
# Messages of the reliable stream

The types of `nosh-proto/src/messages.rs`.  The order of the constructors is the
order of the source, which postcard turns into discriminants; fields have the
fixed widths of the source.
-/

namespace Nosh.Proto

/-- A byte array `[u8; n]`. -/
abbrev ByteArr (n : ℕ) := { bytes : List UInt8 // bytes.length = n }

/-- One byte, as often as it takes. -/
def ByteArr.replicate (n : ℕ) (byte : UInt8) : ByteArr n :=
  ⟨List.replicate n byte, List.length_replicate⟩

/-- `ScrollbackCell`. -/
structure ScrollbackCell where
  ch : Char
  style : CellStyle
  fg : Option UInt8
  bg : Option UInt8
  deriving DecidableEq, Repr

/-- `ScrollbackLine`: the column width a line was live at, and its cells. -/
structure ScrollbackLine where
  width : UInt16
  cells : List ScrollbackCell
  deriving DecidableEq, Repr

/-- `TerminalControlPayload`. -/
inductive TerminalControlPayload
  | clipboard (selection data : List UInt8)
  | title (title : String)
  | hyperlink (uri : String)
  deriving DecidableEq, Repr

/-- `ChannelType`. -/
inductive ChannelType
  | echo
  | scrollback
  | portForward
  | agentForward
  deriving DecidableEq, Repr

/-- `Message`. -/
inductive Message
  | sessionOpen (term : String) (cols rows : UInt16) (env : List (String × String))
  | ptyData (data : List UInt8)
  | resize (cols rows : UInt16)
  | sessionClose (exitCode : Int32) (reason : String)
  | sessionOpened (token : ByteArr 16)
  | reattach (token : ByteArr 16) (lastAckedSeq : UInt64)
  | reattachOk (newToken : ByteArr 16) (replayingFromSeq : UInt64) (truncated : Bool)
  | reattachErr
  | ack (seq : UInt64)
  | terminalControl (payload : TerminalControlPayload)
  | channelOpen (channelId : UInt32) (channelType : ChannelType)
  | channelAccept (channelId : UInt32)
  | channelReject (channelId : UInt32)
  | channelCredit (channelId : UInt32) (bytes : UInt64)
  | channelClose (channelId : UInt32)
  | scrollbackRequest (channelId : UInt32) (fromLine : UInt64) (count : UInt32)
  | scrollbackPage (channelId : UInt32) (fromLine totalAvailable epochAtSnapshot : UInt64)
      (lines : List ScrollbackLine)
  | scrollbackCredit (channelId : UInt32) (bytes : UInt64)
  | innerAuthChallenge (serverNonce : ByteArr 32) (serverSpki : List UInt8) (ekm : ByteArr 32)
  | innerAuthResponse (clientNonce : ByteArr 32) (clientSpki clientSig : List UInt8)
  | innerAuthComplete (serverSig : List UInt8)
  | innerAuthFail
  deriving DecidableEq

end Nosh.Proto
