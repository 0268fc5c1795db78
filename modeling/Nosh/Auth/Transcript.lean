import Nosh.Auth.Keys

/-!
# The transcripts of the inner handshake

Client and server each sign the hash of a byte string: a label for the role, the EKM of the TLS
session, both nonces, and the SPKI of the other side. The fields are not delimited. All but the
last have a fixed length, and the two labels differ before either ends.

## Main Definitions

* `Crypto` — SHA-256 and the Ed25519 check, which the handshake takes from other crates
* `Transcript` — the role and the fields of a signed transcript
* `Transcript.bytes` — the byte string that is hashed

## Main Results

* `Transcript.bytes_injective` — the byte string determines the role and every field.
-/

namespace Nosh.Auth

open Nosh.Proto

/-- SHA-256, and `VerifyingKey::verify` (which also fails for a malformed key). -/
structure Crypto where
  sha256 : List UInt8 → ByteArr 32
  verify : ByteArr 32 → ByteArr 32 → ByteArr 64 → Bool

/-- `verify_ed25519_spki`. -/
def Crypto.verifyEd25519Spki (crypto : Crypto) (spki : List UInt8) (msg : ByteArr 32)
    (sig : ByteArr 64) : Bool :=
  match noshKeyFromSpki spki with
  | none => false
  | some key => crypto.verify key.key32 msg sig

/-- `INNER_AUTH_LABEL_CLIENT`, the bytes of `nosh-inner-auth-v1\0`. -/
def innerAuthLabelClient : List UInt8 :=
  [0x6e, 0x6f, 0x73, 0x68, 0x2d, 0x69, 0x6e, 0x6e, 0x65, 0x72, 0x2d, 0x61, 0x75, 0x74, 0x68, 0x2d,
    0x76, 0x31, 0x00]

/-- `INNER_AUTH_LABEL_SERVER`, the bytes of `nosh-inner-auth-v1-server\0`. -/
def innerAuthLabelServer : List UInt8 :=
  [0x6e, 0x6f, 0x73, 0x68, 0x2d, 0x69, 0x6e, 0x6e, 0x65, 0x72, 0x2d, 0x61, 0x75, 0x74, 0x68, 0x2d,
    0x76, 0x31, 0x2d, 0x73, 0x65, 0x72, 0x76, 0x65, 0x72, 0x00]

/-- What every transcript function hashes. -/
def transcriptBytes (label : List UInt8) (ekm serverNonce clientNonce : ByteArr 32)
    (spki : List UInt8) : List UInt8 :=
  label ++ (ekm.val ++ (serverNonce.val ++ (clientNonce.val ++ spki)))

section Builders

variable (crypto : Crypto) (ekm serverNonce clientNonce : ByteArr 32)

/-- `client_transcript` of the server. -/
def clientTranscript (serverSpki : List UInt8) : ByteArr 32 :=
  crypto.sha256 (transcriptBytes innerAuthLabelClient ekm serverNonce clientNonce serverSpki)

/-- `server_transcript` of the server. -/
def serverTranscript (clientSpki : List UInt8) : ByteArr 32 :=
  crypto.sha256 (transcriptBytes innerAuthLabelServer ekm serverNonce clientNonce clientSpki)

/-- `transcript_client_signs` of the client. -/
def transcriptClientSigns (serverSpki : List UInt8) : ByteArr 32 :=
  crypto.sha256 (transcriptBytes innerAuthLabelClient ekm serverNonce clientNonce serverSpki)

/-- `transcript_server_signs` of the client. -/
def transcriptServerSigns (clientSpki : List UInt8) : ByteArr 32 :=
  crypto.sha256 (transcriptBytes innerAuthLabelServer ekm serverNonce clientNonce clientSpki)

end Builders

/-- The role in which a transcript is signed. -/
inductive Role
  | client
  | server
  deriving DecidableEq

/-- A signed transcript: its role, and what it binds. The SPKI is that of the other side. -/
structure Transcript where
  role : Role
  ekm : ByteArr 32
  serverNonce : ByteArr 32
  clientNonce : ByteArr 32
  spki : List UInt8
  deriving DecidableEq

/-- The label of a role. -/
def Role.label : Role → List UInt8
  | .client => innerAuthLabelClient
  | .server => innerAuthLabelServer

/-- The byte string of a transcript. -/
def Transcript.bytes (t : Transcript) : List UInt8 :=
  transcriptBytes t.role.label t.ekm t.serverNonce t.clientNonce t.spki

/-! ## Injectivity -/

/-- Behind one label, the fields are read off. -/
theorem transcriptBytes_inj {label : List UInt8}
    {ekm serverNonce clientNonce ekm' serverNonce' clientNonce' : ByteArr 32}
    {spki spki' : List UInt8}
    (h : transcriptBytes label ekm serverNonce clientNonce spki =
      transcriptBytes label ekm' serverNonce' clientNonce' spki') :
    ekm = ekm' ∧ serverNonce = serverNonce' ∧ clientNonce = clientNonce' ∧ spki = spki' := by
  have hlen : ∀ a b : ByteArr 32, a.val.length = b.val.length :=
    fun a b => a.property.trans b.property.symm
  have hfields := List.append_cancel_left h
  obtain ⟨hekm, hfields⟩ := List.append_inj hfields (hlen _ _)
  obtain ⟨hserver, hfields⟩ := List.append_inj hfields (hlen _ _)
  obtain ⟨hclient, hspki⟩ := List.append_inj hfields (hlen _ _)
  exact ⟨Subtype.ext hekm, Subtype.ext hserver, Subtype.ext hclient, hspki⟩

/-- The labels differ at their nineteenth byte, whatever follows them. -/
theorem transcriptBytes_client_ne_server
    (ekm serverNonce clientNonce ekm' serverNonce' clientNonce' : ByteArr 32)
    (spki spki' : List UInt8) :
    transcriptBytes innerAuthLabelClient ekm serverNonce clientNonce spki ≠
      transcriptBytes innerAuthLabelServer ekm' serverNonce' clientNonce' spki' := by
  intro h
  have hbyte : some (0x00 : UInt8) = some 0x2d := congrArg (fun bytes => bytes[18]?) h
  cases hbyte

/-- **The byte string determines the transcript.** -/
theorem Transcript.bytes_injective : Function.Injective Transcript.bytes := by
  rintro ⟨role, ekm, serverNonce, clientNonce, spki⟩
    ⟨role', ekm', serverNonce', clientNonce', spki'⟩ h
  obtain rfl : role = role' := by
    cases role with
    | client =>
        cases role' with
        | client => rfl
        | server => exact (transcriptBytes_client_ne_server _ _ _ _ _ _ _ _ h).elim
    | server =>
        cases role' with
        | client => exact (transcriptBytes_client_ne_server _ _ _ _ _ _ _ _ h.symm).elim
        | server => rfl
  obtain ⟨rfl, rfl, rfl, rfl⟩ := transcriptBytes_inj h
  rfl

end Nosh.Auth
