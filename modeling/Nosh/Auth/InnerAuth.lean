import Nosh.Auth.KnownHosts
import Nosh.Auth.Transcript

/-!
# The inner handshake

`run_inner_auth_client` and `run_inner_auth_server`, step by step as the source numbers them. What
comes from outside — the frames of the peer, the EKM, the nonces, the signer, the streams, the user
and the file system — is a parameter, and may be anything.

Each function is cut where its side has signed: what the network makes of two handshakes that run
at once is then a matter of these parts.

## Main Definitions

* `clientSign`, `clientFinish`, `runInnerAuthClient`
* `serverChallenge`, `checkResponse`, `serverSign`, `runInnerAuthServer`

## Main Results

* `runInnerAuthClient_eq_ok`, `runInnerAuthServer_eq_ok` — what each side has checked when it
  returns `Ok`.
* `failed_handshake_unpinned_iff` — when a failed handshake leaves `known_hosts` alone.
-/

namespace Nosh.Auth

open Nosh.Proto

/-- The bytes as an array of `n`, if there are as many. -/
def toByteArr (n : ℕ) (bytes : List UInt8) : Option (ByteArr n) :=
  if h : bytes.length = n then some ⟨bytes, h⟩ else none

theorem toByteArr_eq_some {n : ℕ} {bytes : List UInt8} {arr : ByteArr n} :
    toByteArr n bytes = some arr ↔ bytes = arr.val := by
  unfold toByteArr
  split
  · exact ⟨fun h => by cases h; rfl, fun h => by cases h; rfl⟩
  · rename_i hlen
    refine ⟨nofun, ?_⟩
    rintro rfl
    exact (hlen arr.property).elim

/-! ## The client -/

/-- The ways in which `run_inner_auth_client` fails. -/
inductive ClientError
  | openStream
  | exportEkm
  | readChallenge
  | notChallenge (got : Message)
  | ekmMismatch
  | malformedSpki
  | lookup
  | hostKeyMismatch
  | prompt
  | declined
  | record
  | signing
  | sendResponse
  | readComplete
  | rejected
  | notComplete (got : Message)
  | sigLength
  | sigInvalid
  deriving DecidableEq

/-- What the client finds outside. -/
structure ClientIo where
  openBi : Bool
  ekm : Option (ByteArr 32)
  /-- The first frame that is read. -/
  challenge : Option Message
  /-- `known_hosts` can be read. -/
  readable : Bool
  console : Console
  append : AppendIo
  clientNonce : ByteArr 32
  sign : ByteArr 32 → Option (ByteArr 64)
  sendResponse : Bool
  /-- The second frame that is read. -/
  complete : Option Message

/-- What the client knows from the challenge. -/
structure Challenge where
  ekm : ByteArr 32
  serverNonce : ByteArr 32
  serverSpki : List UInt8
  serverKey : NoshPublicKey

/-- Steps 1 to 5: the stream, the EKM, the challenge and its checks. -/
def checkChallenge (io : ClientIo) : Except ClientError Challenge :=
  if !io.openBi then .error .openStream
  else
    match io.ekm with
    | none => .error .exportEkm
    | some ekm =>
        match io.challenge with
        | none => .error .readChallenge
        | some (.innerAuthChallenge serverNonce serverSpki ekmFromServer) =>
            if ekmFromServer ≠ ekm then .error .ekmMismatch
            else
              match noshKeyFromSpki serverSpki with
              | none => .error .malformedSpki
              | some serverKey => .ok ⟨ekm, serverNonce, serverSpki, serverKey⟩
        | some other => .error (.notChallenge other)

section Client

variable (ssh : SshKey) (crypto : Crypto) (host : List Char) (publicKey32 : ByteArr 32)
  (io : ClientIo)

/-- Step 6: the pinned key, or the first contact, which records the key. -/
def checkHost (serverKey : NoshPublicKey) (file : KnownHosts) :
    Except ClientError Unit × KnownHosts :=
  match lookupKnownHost ssh io.readable file host with
  | none => (.error .lookup, file)
  | some (some pinned) =>
      if pinned ≠ serverKey then (.error .hostKeyMismatch, file) else (.ok (), file)
  | some none =>
      match promptHostKeyAccept io.console with
      | none => (.error .prompt, file)
      | some false => (.error .declined, file)
      | some true =>
          match recordKnownHost ssh io.append host serverKey file with
          | (false, file') => (.error .record, file')
          | (true, file') => (.ok (), file')

/-- What the client has signed, and has to send. -/
structure Handshake where
  ekm : ByteArr 32
  serverNonce : ByteArr 32
  clientNonce : ByteArr 32
  serverSpki : List UInt8
  clientSpki : List UInt8
  clientSig : ByteArr 64

/-- Steps 7 to 9: the nonce, the SPKI and the signature. -/
def signChallenge (challenge : Challenge) : Except ClientError Handshake :=
  match io.sign (transcriptClientSigns crypto challenge.ekm challenge.serverNonce io.clientNonce
      challenge.serverSpki) with
  | none => .error .signing
  | some clientSig =>
      .ok ⟨challenge.ekm, challenge.serverNonce, io.clientNonce, challenge.serverSpki,
        ed25519SpkiDer publicKey32, clientSig⟩

/-- Steps 1 to 9, and the file after them. -/
def clientSign (file : KnownHosts) : Except ClientError Handshake × KnownHosts :=
  match checkChallenge io with
  | .error error => (.error error, file)
  | .ok challenge =>
      match checkHost ssh host io challenge.serverKey file with
      | (.error error, file') => (.error error, file')
      | (.ok (), file') => (signChallenge crypto publicKey32 io challenge, file')

/-- The response is sent, and step 10: the completion and its signature. -/
def clientFinish (hs : Handshake) (sendResponse : Bool) (complete : Option Message) :
    Except ClientError Unit :=
  if !sendResponse then .error .sendResponse
  else
    match complete with
    | none => .error .readComplete
    | some (.innerAuthComplete serverSig) =>
        match toByteArr 64 serverSig with
        | none => .error .sigLength
        | some serverSig =>
            if crypto.verifyEd25519Spki hs.serverSpki (transcriptServerSigns crypto hs.ekm
                hs.serverNonce hs.clientNonce hs.clientSpki) serverSig then .ok ()
            else .error .sigInvalid
    | some .innerAuthFail => .error .rejected
    | some other => .error (.notComplete other)

/-- `run_inner_auth_client`: its result, and `known_hosts` after it. -/
def runInnerAuthClient (file : KnownHosts) : Except ClientError Unit × KnownHosts :=
  match clientSign ssh crypto host publicKey32 io file with
  | (.error error, file') => (.error error, file')
  | (.ok hs, file') => (clientFinish crypto hs io.sendResponse io.complete, file')

end Client

/-! ### What the client has checked -/

/-- The challenge is for this TLS session, and its SPKI is that of a key. -/
theorem checkChallenge_eq_ok {io : ClientIo} {challenge : Challenge}
    (h : checkChallenge io = .ok challenge) :
    io.ekm = some challenge.ekm ∧ challenge.serverSpki = challenge.serverKey.spkiDer := by
  unfold checkChallenge at h
  split at h
  · cases h
  split at h
  · cases h
  rename_i ekm hekm
  split at h
  · cases h
  · split at h
    · cases h
    · split at h
      · cases h
      · rename_i serverKey hkey
        cases h
        exact ⟨hekm, noshKeyFromSpki_eq_some_iff.mp hkey⟩
  · cases h

section

variable {ssh : SshKey} {crypto : Crypto} {host : List Char} {publicKey32 : ByteArr 32}
  {io : ClientIo} {file : KnownHosts}
variable {hs : Handshake}

theorem signChallenge_eq_ok {challenge : Challenge}
    (h : signChallenge crypto publicKey32 io challenge = .ok hs) :
    hs.ekm = challenge.ekm ∧ hs.serverSpki = challenge.serverSpki ∧
      hs.clientSpki = ed25519SpkiDer publicKey32 := by
  unfold signChallenge at h
  split at h
  · cases h
  · cases h
    exact ⟨rfl, rfl, rfl⟩

/-- What the client has signed binds the EKM of its TLS session and a key of the server. -/
theorem clientSign_eq_ok (h : (clientSign ssh crypto host publicKey32 io file).1 = .ok hs) :
    io.ekm = some hs.ekm ∧ hs.clientSpki = ed25519SpkiDer publicKey32 ∧
      ∃ serverKey : NoshPublicKey, hs.serverSpki = serverKey.spkiDer := by
  unfold clientSign at h
  split at h
  · cases h
  rename_i challenge hchallenge
  split at h
  · cases h
  · obtain ⟨hekm, hspki⟩ := checkChallenge_eq_ok hchallenge
    obtain ⟨hekm', hspki', hclient⟩ := signChallenge_eq_ok h
    exact ⟨hekm'.symm ▸ hekm, hclient, challenge.serverKey, hspki'.trans hspki⟩

/-- The client accepts a completion with a valid signature of the server, and nothing else. -/
theorem clientFinish_eq_ok_iff {sendResponse : Bool} {complete : Option Message} :
    clientFinish crypto hs sendResponse complete = .ok () ↔
      sendResponse = true ∧ ∃ serverSig : ByteArr 64,
        complete = some (.innerAuthComplete serverSig.val) ∧
          crypto.verifyEd25519Spki hs.serverSpki (transcriptServerSigns crypto hs.ekm
            hs.serverNonce hs.clientNonce hs.clientSpki) serverSig = true := by
  constructor
  · intro h
    unfold clientFinish at h
    split at h
    · cases h
    rename_i hsend
    rw [Bool.not_eq_true, Bool.not_eq_false'] at hsend
    refine ⟨hsend, ?_⟩
    split at h
    · cases h
    · split at h
      · cases h
      rename_i serverSig hsig
      split at h
      · rename_i hverify
        exact ⟨serverSig, by rw [toByteArr_eq_some.mp hsig], hverify⟩
      · cases h
    · cases h
    · cases h
  · rintro ⟨rfl, serverSig, rfl, hverify⟩
    have harr : toByteArr 64 serverSig.val = some serverSig := toByteArr_eq_some.mpr rfl
    simp only [clientFinish, harr, hverify, Bool.not_true, Bool.false_eq_true, if_false, if_true]

/-- **What the client has checked when it returns `Ok`.** -/
theorem runInnerAuthClient_eq_ok
    (h : (runInnerAuthClient ssh crypto host publicKey32 io file).1 = .ok ()) :
    ∃ hs, (clientSign ssh crypto host publicKey32 io file).1 = .ok hs ∧
      clientFinish crypto hs io.sendResponse io.complete = .ok () := by
  unfold runInnerAuthClient at h
  split at h
  · cases h
  · rename_i hs file' hsign
    exact ⟨hs, by rw [hsign], h⟩

/-! ### The file -/

variable (ssh host io file) in
/-- The host is new, the user accepts the key of the challenge, and recording it changes the
file. -/
def RecordsKey (challenge : Challenge) : Prop :=
  checkChallenge io = .ok challenge ∧
    lookupKnownHost ssh io.readable file host = some none ∧
      promptHostKeyAccept io.console = some true ∧
        (recordKnownHost ssh io.append host challenge.serverKey file).2 ≠ file

variable (ssh crypto host publicKey32 io file) in
/-- The key is recorded whole, the client can sign and send, and the peer completes with a
signature of the key over the transcript of this session. -/
def Completes (challenge : Challenge) : Prop :=
  (recordKnownHost ssh io.append host challenge.serverKey file).1 = true ∧
    io.sendResponse = true ∧
      ∃ hs, signChallenge crypto publicKey32 io challenge = .ok hs ∧
        ∃ serverSig : ByteArr 64, io.complete = some (.innerAuthComplete serverSig.val) ∧
          crypto.verifyEd25519Spki hs.serverSpki (transcriptServerSigns crypto hs.ekm
            hs.serverNonce hs.clientNonce hs.clientSpki) serverSig = true

/-- A new host that the user accepts is recorded, whatever comes of it. -/
theorem checkHost_of_accepted {serverKey : NoshPublicKey}
    (hnew : lookupKnownHost ssh io.readable file host = some none)
    (haccepted : promptHostKeyAccept io.console = some true) :
    checkHost ssh host io serverKey file =
      (if (recordKnownHost ssh io.append host serverKey file).1 then .ok () else .error .record,
        (recordKnownHost ssh io.append host serverKey file).2) := by
  rw [checkHost, hnew, haccepted]
  dsimp only
  split
  · rename_i file' hrecord
    rw [hrecord]
    rfl
  · rename_i file' hrecord
    rw [hrecord]
    rfl

/-- Only a first contact changes the file. -/
theorem recordsKey_of_ne (h : (runInnerAuthClient ssh crypto host publicKey32 io file).2 ≠ file) :
    ∃ challenge, RecordsKey ssh host io file challenge := by
  have hsign : (clientSign ssh crypto host publicKey32 io file).2 ≠ file := by
    unfold runInnerAuthClient at h
    split at h
    · rename_i hsign
      rw [hsign]
      exact h
    · rename_i hsign
      rw [hsign]
      exact h
  unfold clientSign at hsign
  split at hsign
  · exact (hsign rfl).elim
  rename_i challenge hchallenge
  have hhost : (checkHost ssh host io challenge.serverKey file).2 ≠ file := by
    split at hsign
    · rename_i hhost
      rw [hhost]
      exact hsign
    · rename_i hhost
      rw [hhost]
      exact hsign
  -- every other exit of the host check returns the file it was given
  have haccepted : lookupKnownHost ssh io.readable file host = some none ∧
      promptHostKeyAccept io.console = some true := by
    unfold checkHost at hhost
    split at hhost
    · exact (hhost rfl).elim
    · split at hhost <;> exact (hhost rfl).elim
    · rename_i hnew
      split at hhost
      · exact (hhost rfl).elim
      · exact (hhost rfl).elim
      · rename_i hprompt
        exact ⟨hnew, hprompt⟩
  rw [checkHost_of_accepted haccepted.1 haccepted.2] at hhost
  exact ⟨challenge, hchallenge, haccepted.1, haccepted.2, hhost⟩

/-- What a first contact comes to is decided after the file is written. -/
theorem runInnerAuthClient_of_recordsKey {challenge : Challenge}
    (h : RecordsKey ssh host io file challenge) :
    (runInnerAuthClient ssh crypto host publicKey32 io file).2 ≠ file ∧
      ((runInnerAuthClient ssh crypto host publicKey32 io file).1 = .ok () ↔
        Completes ssh crypto host publicKey32 io file challenge) := by
  obtain ⟨hchallenge, hnew, haccepted, hchanged⟩ := h
  rw [runInnerAuthClient, clientSign, hchallenge]
  dsimp only
  rw [checkHost_of_accepted hnew haccepted, Completes]
  cases hrecord : (recordKnownHost ssh io.append host challenge.serverKey file).1 with
  | false => exact ⟨hchanged, iff_of_false nofun (fun h => Bool.noConfusion h.1)⟩
  | true =>
      rw [if_pos rfl]
      cases hsign : signChallenge crypto publicKey32 io challenge with
      | error error =>
          refine ⟨hchanged, iff_of_false nofun ?_⟩
          rintro ⟨-, -, hs, hok, -⟩
          cases hok
      | ok hs =>
          refine ⟨hchanged, clientFinish_eq_ok_iff.trans ⟨?_, ?_⟩⟩
          · rintro ⟨hsend, hcomplete⟩
            exact ⟨rfl, hsend, hs, rfl, hcomplete⟩
          · rintro ⟨-, hsend, hs', hok, hcomplete⟩
            cases hok
            exact ⟨hsend, hcomplete⟩

/-- **A failed handshake leaves `known_hosts` alone exactly when every first contact that writes to
it also completes.** -/
theorem failed_handshake_unpinned_iff (ssh : SshKey) (crypto : Crypto) (host : List Char)
    (publicKey32 : ByteArr 32) (io : ClientIo) (file : KnownHosts) :
    (∀ error, (runInnerAuthClient ssh crypto host publicKey32 io file).1 = .error error →
        (runInnerAuthClient ssh crypto host publicKey32 io file).2 = file) ↔
      ∀ challenge, RecordsKey ssh host io file challenge →
        Completes ssh crypto host publicKey32 io file challenge := by
  constructor
  · intro h challenge hrecords
    obtain ⟨hchanged, hok⟩ := runInnerAuthClient_of_recordsKey hrecords
    rw [← hok]
    cases hresult : (runInnerAuthClient ssh crypto host publicKey32 io file).1 with
    | ok => rfl
    | error error => exact absurd (h error hresult) hchanged
  · intro h error herror
    by_contra hchanged
    obtain ⟨challenge, hrecords⟩ := recordsKey_of_ne hchanged
    have hok := (runInnerAuthClient_of_recordsKey hrecords).2.mpr (h challenge hrecords)
    rw [herror] at hok
    cases hok

/-- A peer that presents any key and is accepted on first contact. -/
def unprovenPeer (serverKey : NoshPublicKey) (ekm : ByteArr 32) : ClientIo where
  openBi := true
  ekm := some ekm
  challenge := some (.innerAuthChallenge ekm serverKey.spkiDer ekm)
  readable := true
  console := ⟨true, true, some ['y', 'e', 's']⟩
  append := .synced
  clientNonce := ekm
  sign := fun _ => some ⟨List.replicate 64 0, rfl⟩
  sendResponse := true
  complete := some .innerAuthFail

/-- It refuses to prove that it holds the key, and the key stays pinned. -/
theorem unproven_key_pinned :
    let zeros : ByteArr 32 := ⟨List.replicate 32 0, rfl⟩
    let ssh : SshKey := ⟨fun _ => none, fun _ => some ['k']⟩
    let crypto : Crypto := ⟨fun _ => zeros, fun _ _ _ => false⟩
    runInnerAuthClient ssh crypto ['h'] zeros (unprovenPeer ⟨zeros⟩ zeros) none =
      (.error .rejected, some [0x68, 0x20, 0x6b, 0x0a]) :=
  rfl

end

/-! ## The server -/

/-- The ways in which `run_inner_auth_server` fails. -/
inductive ServerError
  | exportEkm
  | sendChallenge
  | readResponse
  | notResponse (got : Message)
  | sigLength
  | sigInvalid
  | malformedSpki
  | unauthorized
  | signing
  | sendComplete
  deriving DecidableEq

/-- What the server finds outside. -/
structure ServerIo where
  ekm : Option (ByteArr 32)
  serverNonce : ByteArr 32
  sendChallenge : Bool
  response : Option Message
  sign : ByteArr 32 → Option (ByteArr 64)
  sendComplete : Bool

/-- What the server has put in its challenge. -/
structure Hello where
  ekm : ByteArr 32
  serverNonce : ByteArr 32
  serverSpki : List UInt8

/-- Steps 1 to 4: the EKM, the nonce, the SPKI, and the challenge is sent. -/
def serverChallenge (publicKey32 : ByteArr 32) (ekm : Option (ByteArr 32))
    (serverNonce : ByteArr 32) (sendChallenge : Bool) : Except ServerError Hello :=
  match ekm with
  | none => .error .exportEkm
  | some ekm =>
      if !sendChallenge then .error .sendChallenge
      else .ok ⟨ekm, serverNonce, ed25519SpkiDer publicKey32⟩

/-- What the server knows from the response. -/
structure ClientProof where
  clientNonce : ByteArr 32
  clientSpki : List UInt8
  clientKey : NoshPublicKey

section Server

variable (crypto : Crypto)

/-- Steps 5 to 8: the response, its signature, the key and whether it is authorized. -/
def checkResponse (hello : Hello) (authorized : List NoshPublicKey) (response : Option Message) :
    Except ServerError ClientProof :=
  match response with
  | none => .error .readResponse
  | some (.innerAuthResponse clientNonce clientSpki clientSig) =>
      match toByteArr 64 clientSig with
      | none => .error .sigLength
      | some clientSig =>
          if !crypto.verifyEd25519Spki clientSpki (clientTranscript crypto hello.ekm
              hello.serverNonce clientNonce hello.serverSpki) clientSig then .error .sigInvalid
          else
            match noshKeyFromSpki clientSpki with
            | none => .error .malformedSpki
            | some clientKey =>
                if !checkAuthorizedKey clientKey authorized then .error .unauthorized
                else .ok ⟨clientNonce, clientSpki, clientKey⟩
  | some other => .error (.notResponse other)

/-- Steps 9 and 10, up to the signature. -/
def serverSign (hello : Hello) (proof : ClientProof) (sign : ByteArr 32 → Option (ByteArr 64)) :
    Except ServerError (ByteArr 64) :=
  match sign (serverTranscript crypto hello.ekm hello.serverNonce proof.clientNonce
      proof.clientSpki) with
  | none => .error .signing
  | some serverSig => .ok serverSig

/-- The completion is sent. -/
def serverFinish (proof : ClientProof) (sendComplete : Bool) : Except ServerError NoshPublicKey :=
  if !sendComplete then .error .sendComplete else .ok proof.clientKey

/-- `run_inner_auth_server`. -/
def runInnerAuthServer (publicKey32 : ByteArr 32) (authorized : List NoshPublicKey)
    (io : ServerIo) : Except ServerError NoshPublicKey :=
  match serverChallenge publicKey32 io.ekm io.serverNonce io.sendChallenge with
  | .error error => .error error
  | .ok hello =>
      match checkResponse crypto hello authorized io.response with
      | .error error => .error error
      | .ok proof =>
          match serverSign crypto hello proof io.sign with
          | .error error => .error error
          | .ok _ => serverFinish proof io.sendComplete

end Server

/-! ### What the server has checked -/

theorem serverChallenge_eq_ok {publicKey32 : ByteArr 32} {ekm : Option (ByteArr 32)}
    {serverNonce : ByteArr 32} {sendChallenge : Bool} {hello : Hello}
    (h : serverChallenge publicKey32 ekm serverNonce sendChallenge = .ok hello) :
    ekm = some hello.ekm ∧ hello.serverNonce = serverNonce ∧
      hello.serverSpki = ed25519SpkiDer publicKey32 := by
  unfold serverChallenge at h
  split at h
  · cases h
  split at h
  · cases h
  cases h
  exact ⟨rfl, rfl, rfl⟩

/-- The response carries a signature of an authorized key over the transcript of the session. -/
theorem checkResponse_eq_ok {crypto : Crypto} {hello : Hello} {authorized : List NoshPublicKey}
    {response : Option Message} {proof : ClientProof}
    (h : checkResponse crypto hello authorized response = .ok proof) :
    proof.clientKey ∈ authorized ∧ ∃ clientSig : ByteArr 64,
      response = some (.innerAuthResponse proof.clientNonce proof.clientKey.spkiDer clientSig.val) ∧
        crypto.verify proof.clientKey.key32 (clientTranscript crypto hello.ekm hello.serverNonce
          proof.clientNonce hello.serverSpki) clientSig = true := by
  unfold checkResponse at h
  split at h
  · cases h
  · rename_i clientNonce clientSpki bytes
    split at h
    · cases h
    rename_i clientSig hsig
    split at h
    · cases h
    rename_i hverify
    split at h
    · cases h
    rename_i clientKey hkey
    split at h
    · cases h
    rename_i hauthorized
    cases h
    rw [Bool.not_eq_true, Bool.not_eq_false'] at hverify hauthorized
    rw [Crypto.verifyEd25519Spki, hkey] at hverify
    refine ⟨List.contains_iff_mem.mp hauthorized, clientSig, ?_, hverify⟩
    rw [toByteArr_eq_some.mp hsig, noshKeyFromSpki_eq_some_iff.mp hkey]
  · cases h

/-- **What the server has checked when it returns `Ok`.** -/
theorem runInnerAuthServer_eq_ok {crypto : Crypto} {publicKey32 : ByteArr 32}
    {authorized : List NoshPublicKey} {io : ServerIo} {key : NoshPublicKey}
    (h : runInnerAuthServer crypto publicKey32 authorized io = .ok key) :
    key ∈ authorized ∧ ∃ (ekm clientNonce : ByteArr 32) (clientSig : ByteArr 64),
      io.ekm = some ekm ∧
        io.response = some (.innerAuthResponse clientNonce key.spkiDer clientSig.val) ∧
          crypto.verify key.key32 (clientTranscript crypto ekm io.serverNonce clientNonce
            (ed25519SpkiDer publicKey32)) clientSig = true := by
  unfold runInnerAuthServer at h
  split at h
  · cases h
  rename_i hello hhello
  obtain ⟨hekm, hnonce, hspki⟩ := serverChallenge_eq_ok hhello
  split at h
  · cases h
  rename_i proof hproof
  split at h
  · cases h
  unfold serverFinish at h
  split at h
  · cases h
  cases h
  obtain ⟨hauthorized, clientSig, hresponse, hverify⟩ := checkResponse_eq_ok hproof
  rw [hnonce, hspki] at hverify
  exact ⟨hauthorized, hello.ekm, proof.clientNonce, clientSig, hekm, hresponse, hverify⟩

end Nosh.Auth
