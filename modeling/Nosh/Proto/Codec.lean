import Nosh.Lib.Postcard
import Nosh.Proto.Message

/-!
# The stream codec

`nosh-proto/src/codec.rs`: a frame is the big-endian length of a body and the
postcard body of a `Message`.  Field and variant order are those of the source
types.

## Main results

* `Message.readBody_body` — every message is read back from its postcard body.
* `encode_ok` — a frame holds its message: `decode` gives it back.
* `decode_length_le` — what decodes is at least as long as the body of its message.
-/

namespace Nosh.Proto

open Nosh.Lib Nosh.Lib.Postcard

/-! ## The types of a message -/

instance : Postcard CellStyle where
  ser style := ser style.bits
  de := return ⟨← de⟩
  ser_ne_nil style := ser_ne_nil _
  de_ser style s h := by
    rw [bind_de_ser h]
    rfl

instance : Postcard ScrollbackCell where
  ser c := ser c.ch ++ (ser c.style ++ (ser c.fg ++ ser c.bg))
  de := return ⟨← de, ← de, ← de, ← de⟩
  ser_ne_nil c := List.append_ne_nil_of_left_ne_nil (ser_ne_nil c.ch) _
  de_ser c s h := by
    simp only [List.length_append] at h
    simp (disch := omega) only [List.append_assoc, bind_de_ser, Reader.pure_apply]

instance : Postcard ScrollbackLine where
  ser line := ser line.width ++ ser line.cells
  de := return ⟨← de, ← de⟩
  ser_ne_nil line := List.append_ne_nil_of_left_ne_nil (ser_ne_nil line.width) _
  de_ser line s h := by
    simp only [List.length_append] at h
    simp (disch := omega) only [List.append_assoc, bind_de_ser, Reader.pure_apply]

/-- The index of a variant, in front of its fields. -/
def variant (index : UInt32) : List UInt8 := ser index

/-- The bytes of a payload. -/
def TerminalControlPayload.bytes : TerminalControlPayload → List UInt8
  | .clipboard selection data => variant 0 ++ (ser selection ++ ser data)
  | .title text => variant 1 ++ ser text
  | .hyperlink uri => variant 2 ++ ser uri

instance : Postcard TerminalControlPayload where
  ser := TerminalControlPayload.bytes
  de := do
    match (← (de : Reader UInt32)).toNat with
    | 0 => return .clipboard (← de) (← de)
    | 1 => return .title (← de)
    | 2 => return .hyperlink (← de)
    | _ => failure
  ser_ne_nil payload := by
    cases payload <;> simp [TerminalControlPayload.bytes, variant, ser_ne_nil]
  de_ser payload s h := by
    cases payload <;>
      simp only [TerminalControlPayload.bytes, variant, List.length_append] at h ⊢ <;>
      simp (disch := omega) only [List.append_assoc, bind_de_ser, UInt32.reduceToNat,
        Reader.pure_apply]

/-- The variant index of a channel type. -/
def ChannelType.index : ChannelType → UInt32
  | .echo => 0
  | .scrollback => 1
  | .portForward => 2
  | .agentForward => 3

instance : Postcard ChannelType where
  ser kind := variant kind.index
  de := do
    match (← (de : Reader UInt32)).toNat with
    | 0 => return .echo
    | 1 => return .scrollback
    | 2 => return .portForward
    | 3 => return .agentForward
    | _ => failure
  ser_ne_nil kind := ser_ne_nil _
  de_ser kind s h := by
    rw [variant, bind_de_ser h]
    cases kind <;> rfl

/-- The postcard body of a message. -/
def Message.body : Message → List UInt8
  | .sessionOpen term cols rows env =>
      variant 0 ++ (ser term ++ (ser cols ++ (ser rows ++ ser env)))
  | .ptyData data => variant 1 ++ ser data
  | .resize cols rows => variant 2 ++ (ser cols ++ ser rows)
  | .sessionClose exitCode reason => variant 3 ++ (ser exitCode ++ ser reason)
  | .sessionOpened token => variant 4 ++ ser token
  | .reattach token lastAckedSeq => variant 5 ++ (ser token ++ ser lastAckedSeq)
  | .reattachOk newToken replayingFromSeq truncated =>
      variant 6 ++ (ser newToken ++ (ser replayingFromSeq ++ ser truncated))
  | .reattachErr => variant 7
  | .ack seq => variant 8 ++ ser seq
  | .terminalControl payload => variant 9 ++ ser payload
  | .channelOpen channelId channelType =>
      variant 10 ++ (ser channelId ++ ser channelType)
  | .channelAccept channelId => variant 11 ++ ser channelId
  | .channelReject channelId => variant 12 ++ ser channelId
  | .channelCredit channelId bytes =>
      variant 13 ++ (ser channelId ++ ser bytes)
  | .channelClose channelId => variant 14 ++ ser channelId
  | .scrollbackRequest channelId fromLine count =>
      variant 15 ++ (ser channelId ++ (ser fromLine ++ ser count))
  | .scrollbackPage channelId fromLine totalAvailable epochAtSnapshot lines =>
      variant 16 ++ (ser channelId ++ (ser fromLine ++ (ser totalAvailable ++
        (ser epochAtSnapshot ++ ser lines))))
  | .scrollbackCredit channelId bytes =>
      variant 17 ++ (ser channelId ++ ser bytes)
  | .innerAuthChallenge serverNonce serverSpki ekm =>
      variant 18 ++ (ser serverNonce ++ (ser serverSpki ++ ser ekm))
  | .innerAuthResponse clientNonce clientSpki clientSig =>
      variant 19 ++ (ser clientNonce ++ (ser clientSpki ++ ser clientSig))
  | .innerAuthComplete serverSig => variant 20 ++ ser serverSig
  | .innerAuthFail => variant 21

/-- Read a message. -/
def Message.readBody : Reader Message := do
  match (← (de : Reader UInt32)).toNat with
  | 0 => return .sessionOpen (← de) (← de) (← de) (← de)
  | 1 => return .ptyData (← de)
  | 2 => return .resize (← de) (← de)
  | 3 => return .sessionClose (← de) (← de)
  | 4 => return .sessionOpened (← de)
  | 5 => return .reattach (← de) (← de)
  | 6 => return .reattachOk (← de) (← de) (← de)
  | 7 => return .reattachErr
  | 8 => return .ack (← de)
  | 9 => return .terminalControl (← de)
  | 10 => return .channelOpen (← de) (← de)
  | 11 => return .channelAccept (← de)
  | 12 => return .channelReject (← de)
  | 13 => return .channelCredit (← de) (← de)
  | 14 => return .channelClose (← de)
  | 15 => return .scrollbackRequest (← de) (← de) (← de)
  | 16 => return .scrollbackPage (← de) (← de) (← de) (← de) (← de)
  | 17 => return .scrollbackCredit (← de) (← de)
  | 18 => return .innerAuthChallenge (← de) (← de) (← de)
  | 19 => return .innerAuthResponse (← de) (← de) (← de)
  | 20 => return .innerAuthComplete (← de)
  | 21 => return .innerAuthFail
  | _ => failure

/-- **Messages are read back.**  Whatever follows a body is left alone. -/
theorem Message.readBody_body (msg : Message) (s : List UInt8) (h : msg.body.length < 2 ^ 64) :
    Message.readBody (msg.body ++ s) = some (msg, s) := by
  -- the index that is read first selects the variant, then its fields are read one by one
  cases msg <;>
    simp only [Message.body, variant, List.length_append, List.append_assoc] at h ⊢ <;>
    refine (bind_de_ser (by omega)).trans ?_ <;>
    simp (disch := omega) only [bind_de_ser, UInt32.reduceToNat, Reader.pure_apply]

/-! ## Frames -/

/-- `MAX_FRAME_LEN`: 16 MiB. -/
def maxFrameLen : ℕ := 16 * 1024 * 1024

/-- `u32::to_be_bytes`. -/
def toBeBytes (n : ℕ) : List UInt8 :=
  [UInt8.ofNat (n / 2 ^ 24), UInt8.ofNat (n / 2 ^ 16), UInt8.ofNat (n / 2 ^ 8), UInt8.ofNat n]

/-- `u32::from_be_bytes`. -/
def fromBeBytes (bytes : List UInt8) : ℕ := bytes.foldl (fun n b => n * 2 ^ 8 + b.toNat) 0

/-- `encode`: the length of the body and the body. -/
def encode (msg : Message) : Except ProtoError (List UInt8) :=
  if maxFrameLen < msg.body.length then .error (.frameTooLarge msg.body.length)
  else .ok (toBeBytes msg.body.length ++ msg.body)

/-- `decode`: `postcard::from_bytes`, which leaves trailing bytes unread. -/
def decode (body : List UInt8) : Except ProtoError Message :=
  match Message.readBody body with
  | some (msg, _) => .ok msg
  | none => .error .postcard

@[simp] theorem length_toBeBytes (n : ℕ) : (toBeBytes n).length = 4 := rfl

theorem fromBeBytes_toBeBytes {n : ℕ} (h : n < 2 ^ 32) : fromBeBytes (toBeBytes n) = n := by
  simp only [fromBeBytes, toBeBytes, List.foldl_cons, List.foldl_nil, UInt8.toNat_ofNat']
  omega

/-- The frame of a message: its body fits, its prefix reads as the length of the body,
and `decode` gives the message back. -/
theorem encode_ok {msg : Message} {frame : List UInt8} (h : encode msg = .ok frame) :
    frame = toBeBytes msg.body.length ++ msg.body ∧ msg.body.length ≤ maxFrameLen ∧
      fromBeBytes (toBeBytes msg.body.length) = msg.body.length ∧ decode msg.body = .ok msg := by
  unfold encode at h
  split at h
  · cases h
  · rename_i hlen
    have hfit : msg.body.length ≤ 16777216 := Nat.le_of_not_lt hlen
    obtain rfl := Except.ok.inj h
    refine ⟨rfl, hfit, fromBeBytes_toBeBytes (by omega), ?_⟩
    have hde := msg.readBody_body [] (by omega)
    rw [List.append_nil] at hde
    rw [decode, hde]

/-! ## Bodies that nobody wrote -/

instance : Compact CellStyle where
  pays := Compact.pays.bind fun _ => .pure (Nat.sub_self _)

instance : Compact ScrollbackCell where
  pays := Compact.pays.bind fun ch => Compact.pays.bind fun style => Compact.pays.bind fun fg =>
    Compact.pays.bind fun bg => .pure <| by
      change (ser ch ++ (ser style ++ (ser fg ++ ser bg))).length - _ - _ - _ - _ = 0
      simp only [List.length_append]
      omega

instance : Compact ScrollbackLine where
  pays := Compact.pays.bind fun width => Compact.pays.bind fun cells => .pure <| by
    change (ser width ++ ser cells).length - _ - _ = 0
    rw [List.length_append]
    omega

theorem length_variant {index : UInt32} (h : index.toNat < 128) : (variant index).length = 1 := by
  change (writeVarint 5 index.toNat).length = 1
  rw [writeVarint, if_pos h, List.length_singleton]

/-- The variant index that was read takes at least a byte. -/
theorem length_index_pos (index : UInt32) : 0 < (ser index).length :=
  List.length_pos_iff.mpr (ser_ne_nil index)

instance : Compact TerminalControlPayload where
  pays := by
    change Reader.Pays _ fun payload : TerminalControlPayload => payload.bytes.length
    refine Compact.pays.bind fun index => ?_
    have hindex := length_index_pos index
    split
    on_goal 4 => exact .failure
    all_goals
      repeat refine Compact.pays.bind fun _ => ?_
      refine .pure ?_
      simp (disch := decide) only [TerminalControlPayload.bytes, length_variant,
        List.length_append]
      omega

instance : Compact ChannelType where
  pays := Compact.pays.bind fun index => by
    have hindex := length_index_pos index
    split
    on_goal 5 => exact .failure
    all_goals exact .pure (Nat.sub_eq_zero_of_le hindex)

theorem Message.readBody_pays : Message.readBody.Pays fun msg => msg.body.length := by
  refine Compact.pays.bind fun index => ?_
  have hindex := length_index_pos index
  split
  on_goal 23 => exact .failure
  all_goals
    repeat refine Compact.pays.bind fun _ => ?_
    refine .pure ?_
    simp (disch := decide) only [Message.body, length_variant, List.length_append]
    omega

/-- **What is read is no longer than what it was read from.** -/
theorem decode_length_le {body : List UInt8} {msg : Message} (h : decode body = .ok msg) :
    msg.body.length ≤ body.length := by
  unfold decode at h
  split at h
  · rename_i rest hread
    cases h
    have hpaid := Message.readBody_pays hread
    dsimp only at hpaid
    omega
  · cases h

end Nosh.Proto
