import Nosh.Auth.InnerAuth
import Nosh.Lib.Machine

/-!
# Agreement of concurrent inner handshakes

Any number of clients and servers run the inner handshake at once, over any number of TLS
sessions. The attacker is the network: it decides which frame a party reads, and when. It has the
frames that were sent, and may make others, but no signature of an honest key that the holder of
the key did not make.

A TLS session has an EKM of its own, which both ends derive. Nonces are fresh. Every signature that
a party makes is logged, with the TLS session it is made for and the transcript it is over.

## Main Definitions

* `Network`, `NetworkAction`, `network` — the sessions, and what can happen to them
* `Network.Unforged` — what the attacker cannot do
* `Network.NoCollision` — no two strings that are hashed in the run collide

## Main Results

* `Traced` — what a run keeps: each frame that was read is genuine.
* `mutual_agreement` — **who returns `Ok` has agreed with the holder of the other key** on the
  EKM, both nonces and the own SPKI.
-/

namespace Nosh.Auth

open Nosh.Lib Nosh.Proto

/-- A signature that was made: the key, the TLS session, and what was signed. -/
structure Made where
  key : NoshPublicKey
  conn : ℕ
  transcript : Transcript
  deriving DecidableEq

/-- Where a call of `run_inner_auth_server` is. -/
inductive ServerStage
  /-- The challenge is sent. -/
  | challenged
  /-- The response passed its checks. -/
  | verified (response : Option Message) (proof : ClientProof)
  /-- The call is over; this is all it was given. -/
  | returned (io : ServerIo)

/-- A call of `run_inner_auth_server`. -/
structure ServerSession where
  conn : ℕ
  hostKey : NoshPublicKey
  authorized : List NoshPublicKey
  hello : Hello
  stage : ServerStage

/-- A call of `run_inner_auth_client` that has signed. -/
structure ClientSession where
  conn : ℕ
  key : NoshPublicKey
  host : List Char
  file : KnownHosts
  /-- What it was given; the last two fields count when the call is over. -/
  io : ClientIo
  hs : Handshake
  returned : Bool

/-- What the server session was given, once the response is read. -/
def ServerSession.io (session : ServerSession) (response : Option Message)
    (sign : ByteArr 32 → Option (ByteArr 64)) (sendComplete : Bool) : ServerIo :=
  ⟨some session.hello.ekm, session.hello.serverNonce, true, response, sign, sendComplete⟩

/-- The transcript that a server session checks the client's signature against. -/
def ServerSession.clientTranscript (session : ServerSession) (clientNonce : ByteArr 32) :
    Transcript :=
  ⟨.client, session.hello.ekm, session.hello.serverNonce, clientNonce, session.hello.serverSpki⟩

/-- The transcript that a server session signs. -/
def ServerSession.serverTranscript (session : ServerSession) (proof : ClientProof) : Transcript :=
  ⟨.server, session.hello.ekm, session.hello.serverNonce, proof.clientNonce, proof.clientSpki⟩

/-- The transcript that a client signs. -/
def Handshake.clientTranscript (hs : Handshake) : Transcript :=
  ⟨.client, hs.ekm, hs.serverNonce, hs.clientNonce, hs.serverSpki⟩

/-- The transcript that a client checks the server's signature against. -/
def Handshake.serverTranscript (hs : Handshake) : Transcript :=
  ⟨.server, hs.ekm, hs.serverNonce, hs.clientNonce, hs.clientSpki⟩

/-- All handshakes, and what they have in common. -/
structure Network where
  /-- The EKM of each TLS session. -/
  tls : List (ByteArr 32)
  /-- The nonces that were drawn. -/
  nonces : List (ByteArr 32)
  servers : List ServerSession
  clients : List ClientSession
  made : List Made

/-- Before the first connection. -/
def Network.start : Network := ⟨[], [], [], [], []⟩

/-- What can happen. The frames that are read are the attacker's choice. -/
inductive NetworkAction
  /-- A TLS session is set up, between any two ends. -/
  | connect (ekm : ByteArr 32)
  | serverStart (conn : ℕ) (hostKey : NoshPublicKey) (authorized : List NoshPublicKey)
      (serverNonce : ByteArr 32) (sendChallenge : Bool)
  | serverRead (session : ℕ) (response : Option Message)
  | serverFinish (session : ℕ) (sign : ByteArr 32 → Option (ByteArr 64)) (sendComplete : Bool)
  | clientStart (conn : ℕ) (key : NoshPublicKey) (host : List Char) (file : KnownHosts)
      (io : ClientIo)
  | clientFinish (session : ℕ) (sendResponse : Bool) (complete : Option Message)

section Step

variable (ssh : SshKey) (crypto : Crypto)

/-- The server session after it read a frame. -/
def ServerSession.read (session : ServerSession) (response : Option Message) : ServerSession :=
  match checkResponse crypto session.hello session.authorized response with
  | .error _ => { session with stage := .returned (session.io response (fun _ => none) false) }
  | .ok proof => { session with stage := .verified response proof }

/-- The signature that a server session makes, if its signer does not fail. -/
def ServerSession.signs (session : ServerSession) (proof : ClientProof)
    (sign : ByteArr 32 → Option (ByteArr 64)) : List Made :=
  match serverSign crypto session.hello proof sign with
  | .error _ => []
  | .ok _ => [⟨session.hostKey, session.conn, session.serverTranscript proof⟩]

/-- What happens, if it can. -/
def Network.step (s : Network) : NetworkAction → Option Network
  | .connect ekm =>
      if ekm ∈ s.tls then none else some { s with tls := s.tls ++ [ekm] }
  | .serverStart conn hostKey authorized serverNonce sendChallenge =>
      if serverNonce ∈ s.nonces then none
      else
        match serverChallenge hostKey.key32 s.tls[conn]? serverNonce sendChallenge with
        | .error _ => some s
        | .ok hello =>
            some { s with
              nonces := serverNonce :: s.nonces
              servers := s.servers ++ [⟨conn, hostKey, authorized, hello, .challenged⟩] }
  | .serverRead i response =>
      match s.servers[i]? with
      | none => none
      | some session =>
          match session.stage with
          | .challenged => some { s with servers := s.servers.set i (session.read crypto response) }
          | .verified _ _ | .returned _ => none
  | .serverFinish i sign sendComplete =>
      match s.servers[i]? with
      | none => none
      | some session =>
          match session.stage with
          | .verified response proof =>
              some { s with
                servers := s.servers.set i
                  { session with stage := .returned (session.io response sign sendComplete) }
                made := session.signs crypto proof sign ++ s.made }
          | .challenged | .returned _ => none
  | .clientStart conn key host file io =>
      let io := { io with ekm := s.tls[conn]? }
      if io.clientNonce ∈ s.nonces then none
      else
        match (clientSign ssh crypto host key.key32 io file).1 with
        | .error _ => some s
        | .ok hs =>
            some { s with
              nonces := io.clientNonce :: s.nonces
              clients := s.clients ++ [⟨conn, key, host, file, io, hs, false⟩]
              made := ⟨key, conn, hs.clientTranscript⟩ :: s.made }
  | .clientFinish i sendResponse complete =>
      match s.clients[i]? with
      | none => none
      | some session =>
          if session.returned then none
          else
            some { s with
              clients := s.clients.set i
                { session with
                  io := { session.io with sendResponse := sendResponse, complete := complete }
                  returned := true } }

/-- The machine of all handshakes. -/
def network : Machine Network NetworkAction where
  step s a := s.step ssh crypto a

end Step

/-! ## What the attacker cannot do -/

/-- The signature that a frame carries. -/
def frameSignature : Option Message → Option (ByteArr 64)
  | some (.innerAuthResponse _ _ sig) | some (.innerAuthComplete sig) => toByteArr 64 sig
  | _ => none

section Attacker

variable (crypto : Crypto) (honest : NoshPublicKey → Prop)

/-- Every signature of an honest key in the frame was made. -/
def Genuine (made : List Made) (frame : Option Message) : Prop :=
  ∀ sig ∈ frameSignature frame, ∀ key, honest key → ∀ digest,
    crypto.verify key.key32 digest sig = true →
      ∃ m ∈ made, m.key = key ∧ crypto.sha256 m.transcript.bytes = digest

/-- The attacker delivers no forged signature. -/
def Network.Unforged (s : Network) : NetworkAction → Prop
  | .serverRead _ frame | .clientFinish _ _ frame => Genuine crypto honest s.made frame
  | .connect _ | .serverStart _ _ _ _ _ | .serverFinish _ _ _ | .clientStart _ _ _ _ _ => True

/-- What a server session has hashed to check a signature. -/
def ServerSession.hashed (session : ServerSession) : List (List UInt8) :=
  match session.stage with
  | .returned io =>
      match io.response with
      | some (.innerAuthResponse clientNonce _ _) => [(session.clientTranscript clientNonce).bytes]
      | _ => []
  | .challenged | .verified _ _ => []

/-- What is hashed in the run: what is signed, and what signatures are checked against. -/
def Network.hashed (s : Network) : List (List UInt8) :=
  s.made.map (·.transcript.bytes) ++
    (s.servers.flatMap ServerSession.hashed ++ s.clients.map (·.hs.serverTranscript.bytes))

/-- No two of them collide. -/
def Network.NoCollision (s : Network) : Prop :=
  ∀ x ∈ s.hashed, ∀ y ∈ s.hashed, crypto.sha256 x = crypto.sha256 y → x = y

end Attacker

/-! ## What a run keeps -/

section Runs

variable {ssh : SshKey} {crypto : Crypto} {honest : NoshPublicKey → Prop}
variable {made : List Made} {tls : List (ByteArr 32)} {conn : ℕ} {session : ServerSession}
    {s : Network}

/-- A frame stays genuine as more signatures are made. -/
theorem Genuine.mono {made' : List Made} {frame : Option Message}
    (h : Genuine crypto honest made frame) (hsub : made ⊆ made') :
    Genuine crypto honest made' frame := by
  intro sig hsig key hkey digest hverify
  obtain ⟨m, hm, hmade⟩ := h sig hsig key hkey digest hverify
  exact ⟨m, hsub hm, hmade⟩

variable (crypto honest) in
/-- A server session runs over its TLS session, and what it read is genuine. -/
structure ServerSession.Traced (tls : List (ByteArr 32)) (made : List Made)
    (session : ServerSession) : Prop where
  ekm : tls[session.conn]? = some session.hello.ekm
  spki : session.hello.serverSpki = session.hostKey.spkiDer
  verified : ∀ response proof, session.stage = .verified response proof →
    Genuine crypto honest made response
  returned : ∀ io, session.stage = .returned io →
    Genuine crypto honest made io.response ∧ io.ekm = some session.hello.ekm ∧
      io.serverNonce = session.hello.serverNonce

variable (ssh crypto honest) in
/-- A client session runs over its TLS session, and what it read last is genuine. -/
structure ClientSession.Traced (tls : List (ByteArr 32)) (made : List Made)
    (session : ClientSession) : Prop where
  ekm : tls[session.conn]? = some session.hs.ekm
  signed : (clientSign ssh crypto session.host session.key.key32 session.io session.file).1 =
    .ok session.hs
  returned : session.returned = true → Genuine crypto honest made session.io.complete

variable (ssh crypto honest) in
/-- **What a run keeps.** -/
structure Traced (s : Network) : Prop where
  ekms : s.tls.Nodup
  servers : ∀ session ∈ s.servers, session.Traced crypto honest s.tls s.made
  clients : ∀ session ∈ s.clients, session.Traced ssh crypto honest s.tls s.made
  made : ∀ m ∈ s.made, s.tls[m.conn]? = some m.transcript.ekm

/-- Later TLS sessions do not move the earlier ones. -/
theorem getElem?_append_of_eq_some {ekm : ByteArr 32} (h : tls[conn]? = some ekm)
    (more : List (ByteArr 32)) : (tls ++ more)[conn]? = some ekm := by
  rw [List.getElem?_append_left (List.getElem?_eq_some_iff.mp h).1]
  exact h

section Mono

variable {tls' : List (ByteArr 32)} {made' : List Made}

theorem ServerSession.Traced.mono (h : session.Traced crypto honest tls made)
    (htls : ∀ (conn : ℕ) (ekm : ByteArr 32), tls[conn]? = some ekm → tls'[conn]? = some ekm)
    (hsub : made ⊆ made') : session.Traced crypto honest tls' made' where
  ekm := htls _ _ h.ekm
  spki := h.spki
  verified response proof hstage := (h.verified response proof hstage).mono hsub
  returned io hstage := ⟨(h.returned io hstage).1.mono hsub, (h.returned io hstage).2⟩

theorem ClientSession.Traced.mono {session : ClientSession}
    (h : session.Traced ssh crypto honest tls made)
    (htls : ∀ (conn : ℕ) (ekm : ByteArr 32), tls[conn]? = some ekm → tls'[conn]? = some ekm)
    (hsub : made ⊆ made') :
    session.Traced ssh crypto honest tls' made' where
  ekm := htls _ _ h.ekm
  signed := h.signed
  returned hreturned := (h.returned hreturned).mono hsub

end Mono

theorem ServerSession.eq_of_mem_signs (session : ServerSession) {proof : ClientProof}
    {sign : ByteArr 32 → Option (ByteArr 64)} {m : Made}
    (hm : m ∈ session.signs crypto proof sign) :
    m = ⟨session.hostKey, session.conn, session.serverTranscript proof⟩ := by
  unfold ServerSession.signs at hm
  split at hm
  · exact (List.not_mem_nil hm).elim
  · exact List.mem_singleton.mp hm

/-- A server session stays traced when it reads a genuine frame. -/
theorem ServerSession.Traced.read (h : session.Traced crypto honest tls made)
    {response : Option Message} (hgenuine : Genuine crypto honest made response) :
    (session.read crypto response).Traced crypto honest tls made := by
  unfold ServerSession.read
  split
  · refine ⟨h.ekm, h.spki, ?_, ?_⟩
    · rintro _ _ ⟨⟩
    · rintro io ⟨⟩
      exact ⟨hgenuine, rfl, rfl⟩
  · refine ⟨h.ekm, h.spki, ?_, ?_⟩
    · rintro _ _ ⟨⟩
      exact hgenuine
    · rintro _ ⟨⟩

/-- A server session that has read a genuine frame stays traced when it returns. -/
theorem ServerSession.Traced.finish (h : session.Traced crypto honest tls made)
    {response : Option Message} {proof : ClientProof}
    (hstage : session.stage = .verified response proof) (sign : ByteArr 32 → Option (ByteArr 64))
    (sendComplete : Bool) :
    { session with stage := .returned (session.io response sign sendComplete) :
      ServerSession }.Traced crypto honest tls made where
  ekm := h.ekm
  spki := h.spki
  verified := by
    rintro _ _ ⟨⟩
  returned := by
    rintro io ⟨⟩
    exact ⟨h.verified response proof hstage, rfl, rfl⟩

/-- A client session stays traced when it reads a genuine frame. -/
theorem ClientSession.Traced.finish {session : ClientSession}
    (h : session.Traced ssh crypto honest tls made) (sendResponse : Bool)
    {complete : Option Message} (hgenuine : Genuine crypto honest made complete) :
    { session with
      io := { session.io with sendResponse := sendResponse, complete := complete }
      returned := true : ClientSession }.Traced ssh crypto honest tls made where
  ekm := h.ekm
  signed := h.signed
  returned _ := hgenuine

namespace Traced

theorem start : Traced ssh crypto honest .start where
  ekms := List.nodup_nil
  servers _ hsession := (List.not_mem_nil hsession).elim
  clients _ hsession := (List.not_mem_nil hsession).elim
  made _ hm := (List.not_mem_nil hm).elim

variable {s' : Network}

theorem connect (h : Traced ssh crypto honest s) {ekm : ByteArr 32} (hnew : ekm ∉ s.tls) :
    Traced ssh crypto honest { s with tls := s.tls ++ [ekm] } where
  ekms := by
    rw [List.nodup_append]
    refine ⟨h.ekms, List.nodup_singleton _, ?_⟩
    rintro old hold new hmem rfl
    exact hnew (List.mem_singleton.mp hmem ▸ hold)
  servers session hsession := (h.servers session hsession).mono
    (fun _ _ hold => getElem?_append_of_eq_some hold [ekm]) (List.Subset.refl _)
  clients session hsession := (h.clients session hsession).mono
    (fun _ _ hold => getElem?_append_of_eq_some hold [ekm]) (List.Subset.refl _)
  made m hm := getElem?_append_of_eq_some (h.made m hm) [ekm]

/-- A session is new or takes a step, and a signature may be made for its TLS session. -/
theorem advance (h : Traced ssh crypto honest s) {nonces : List (ByteArr 32)}
    {servers : List ServerSession} {clients : List ClientSession}
    (hmade : ∀ m ∈ made, m ∈ s.made ∨ s.tls[m.conn]? = some m.transcript.ekm)
    (hkept : s.made ⊆ made) (hservers : ∀ session ∈ servers,
      session ∈ s.servers ∨ session.Traced crypto honest s.tls made)
    (hclients : ∀ session ∈ clients,
      session ∈ s.clients ∨ session.Traced ssh crypto honest s.tls made) :
    Traced ssh crypto honest ⟨s.tls, nonces, servers, clients, made⟩ where
  ekms := h.ekms
  servers session hsession := by
    rcases hservers session hsession with hold | hnew
    · exact (h.servers session hold).mono (fun _ _ htls => htls) hkept
    · exact hnew
  clients session hsession := by
    rcases hclients session hsession with hold | hnew
    · exact (h.clients session hold).mono (fun _ _ htls => htls) hkept
    · exact hnew
  made m hm := by
    rcases hmade m hm with hold | hnew
    · exact h.made m hold
    · exact hnew

/-- Every step that delivers no forged signature keeps the trace. -/
theorem step {a : NetworkAction} (h : Traced ssh crypto honest s)
    (hok : s.Unforged crypto honest a) (hstep : s.step ssh crypto a = some s') :
    Traced ssh crypto honest s' := by
  cases a with
  | connect ekm =>
      rw [Network.step] at hstep
      split at hstep
      · cases hstep
      · rename_i hnew
        cases hstep
        exact h.connect hnew
  | serverStart conn hostKey authorized serverNonce sendChallenge =>
      rw [Network.step] at hstep
      split at hstep
      · cases hstep
      split at hstep
      · cases hstep
        exact h
      · rename_i hello hhello
        cases hstep
        obtain ⟨hekm, -, hspki⟩ := serverChallenge_eq_ok hhello
        refine h.advance (fun m => Or.inl) (List.Subset.refl _) ?_ (fun session => Or.inl)
        intro session hsession
        rcases List.mem_append.mp hsession with hold | hnew
        · exact Or.inl hold
        · obtain rfl := List.mem_singleton.mp hnew
          refine Or.inr ⟨hekm, hspki, ?_, ?_⟩
          · rintro _ _ ⟨⟩
          · rintro _ ⟨⟩
  | serverRead i response =>
      rw [Network.step] at hstep
      split at hstep
      · cases hstep
      rename_i session hi
      split at hstep
      · cases hstep
        refine h.advance (fun m => Or.inl) (List.Subset.refl _) ?_ (fun session => Or.inl)
        intro other hother
        rcases List.mem_or_eq_of_mem_set hother with hold | rfl
        · exact Or.inl hold
        · exact Or.inr ((h.servers session (List.mem_of_getElem? hi)).read hok)
      · cases hstep
      · cases hstep
  | serverFinish i sign sendComplete =>
      rw [Network.step] at hstep
      split at hstep
      · cases hstep
      rename_i session hi
      split at hstep
      · rename_i response proof hstage
        cases hstep
        have htraced := h.servers session (List.mem_of_getElem? hi)
        have hkept : s.made ⊆ session.signs crypto proof sign ++ s.made :=
          List.subset_append_right _ _
        refine h.advance ?_ hkept ?_ (fun session => Or.inl)
        · intro m hm
          rcases List.mem_append.mp hm with hnew | hold
          · rw [session.eq_of_mem_signs hnew]
            exact Or.inr htraced.ekm
          · exact Or.inl hold
        · intro other hother
          rcases List.mem_or_eq_of_mem_set hother with hold | rfl
          · exact Or.inl hold
          · exact Or.inr ((htraced.mono (fun _ _ htls => htls) hkept).finish hstage sign _)
      · cases hstep
      · cases hstep
  | clientStart conn key host file io =>
      rw [Network.step] at hstep
      split at hstep
      · cases hstep
      split at hstep
      · cases hstep
        exact h
      · rename_i hs hsign
        cases hstep
        obtain ⟨hekm, -, -⟩ := clientSign_eq_ok hsign
        refine h.advance ?_ (List.subset_cons_self _ _) (fun session => Or.inl) ?_
        · intro m hm
          rcases List.mem_cons.mp hm with rfl | hold
          · exact Or.inr hekm
          · exact Or.inl hold
        · intro session hsession
          rcases List.mem_append.mp hsession with hold | hnew
          · exact Or.inl hold
          · obtain rfl := List.mem_singleton.mp hnew
            refine Or.inr ⟨hekm, hsign, ?_⟩
            rintro ⟨⟩
  | clientFinish i sendResponse complete =>
      rw [Network.step] at hstep
      split at hstep
      · cases hstep
      rename_i session hi
      split at hstep
      · cases hstep
      cases hstep
      refine h.advance (fun m => Or.inl) (List.Subset.refl _) (fun session => Or.inl) ?_
      intro other hother
      rcases List.mem_or_eq_of_mem_set hother with hold | rfl
      · exact Or.inl hold
      · exact Or.inr ((h.clients session (List.mem_of_getElem? hi)).finish sendResponse hok)

end Traced

/-! ## Agreement -/

section

variable (h : Traced ssh crypto honest s)

include h

/-- Two TLS sessions with one EKM are one. -/
theorem Traced.conn_eq {conn' : ℕ} {ekm : ByteArr 32} (hconn : s.tls[conn]? = some ekm)
    (hconn' : s.tls[conn']? = some ekm) : conn = conn' := by
  obtain ⟨hlt, -⟩ := List.getElem?_eq_some_iff.mp hconn
  exact (List.getElem?_inj hlt h.ekms).mp (hconn.trans hconn'.symm)

variable (hcollision : s.NoCollision crypto)

include hcollision

/-- A genuine signature over the digest of a transcript is over the transcript itself. -/
theorem Traced.made_of_genuine {frame : Option Message}
    (hgenuine : Genuine crypto honest s.made frame) {sig : ByteArr 64}
    (hsig : sig ∈ frameSignature frame) {key : NoshPublicKey} (hkey : honest key)
    {transcript : Transcript} (hhashed : transcript.bytes ∈ s.hashed)
    (hverify : crypto.verify key.key32 (crypto.sha256 transcript.bytes) sig = true)
    (hconn : s.tls[conn]? = some transcript.ekm) : (⟨key, conn, transcript⟩ : Made) ∈ s.made := by
  obtain ⟨m, hm, rfl, hdigest⟩ := hgenuine sig hsig key hkey _ hverify
  have hmhashed : m.transcript.bytes ∈ s.hashed :=
    List.mem_append_left _ (List.mem_map.mpr ⟨m, hm, rfl⟩)
  have hbytes := hcollision _ hmhashed _ hhashed hdigest
  obtain rfl := Transcript.bytes_injective hbytes
  obtain rfl := h.conn_eq (h.made m hm) hconn
  exact hm

/-- A server session that returns `Ok` has a signature of the client over its transcript. -/
theorem Traced.server_agrees (hsession : session ∈ s.servers) {io : ServerIo}
    (hstage : session.stage = .returned io) {key : NoshPublicKey}
    (hok : runInnerAuthServer crypto session.hostKey.key32 session.authorized io = .ok key) :
    key ∈ session.authorized ∧ ∃ (clientNonce : ByteArr 32) (clientSig : List UInt8),
      io.response = some (.innerAuthResponse clientNonce key.spkiDer clientSig) ∧
        (honest key → (⟨key, session.conn, ⟨.client, session.hello.ekm, session.hello.serverNonce,
          clientNonce, session.hostKey.spkiDer⟩⟩ : Made) ∈ s.made) := by
  have htraced := h.servers session hsession
  obtain ⟨hgenuine, hekm, hnonce⟩ := htraced.returned io hstage
  obtain ⟨hauthorized, ekm, clientNonce, clientSig, hekm', hresponse, hverify⟩ :=
    runInnerAuthServer_eq_ok hok
  rw [hekm] at hekm'
  cases hekm'
  refine ⟨hauthorized, clientNonce, clientSig.val, hresponse, fun hkey => ?_⟩
  have htranscript : session.clientTranscript clientNonce = ⟨.client, session.hello.ekm,
      session.hello.serverNonce, clientNonce, session.hostKey.spkiDer⟩ := by
    rw [ServerSession.clientTranscript, htraced.spki]
  have hhashed : (session.clientTranscript clientNonce).bytes ∈ s.hashed := by
    refine List.mem_append_right _ (List.mem_append_left _ ?_)
    refine List.mem_flatMap.mpr ⟨session, hsession, ?_⟩
    rw [ServerSession.hashed, hstage]
    dsimp only
    rw [hresponse]
    exact List.mem_singleton_self _
  have hsig : clientSig ∈ frameSignature io.response := by
    rw [hresponse]
    exact toByteArr_eq_some.mpr rfl
  rw [hnonce] at hverify
  rw [htranscript] at hhashed
  exact h.made_of_genuine hcollision hgenuine hsig hkey hhashed hverify htraced.ekm

/-- A client session that returns `Ok` has a signature of the server over its transcript. -/
theorem Traced.client_agrees {session : ClientSession} (hsession : session ∈ s.clients)
    (hreturned : session.returned = true)
    (hok : (runInnerAuthClient ssh crypto session.host session.key.key32 session.io
      session.file).1 = .ok ()) :
    ∃ serverKey : NoshPublicKey, session.hs.serverSpki = serverKey.spkiDer ∧
      (honest serverKey → (⟨serverKey, session.conn, ⟨.server, session.hs.ekm,
        session.hs.serverNonce, session.hs.clientNonce, session.key.spkiDer⟩⟩ : Made) ∈
          s.made) := by
  have htraced := h.clients session hsession
  obtain ⟨hs, hsign, hfinish⟩ := runInnerAuthClient_eq_ok hok
  rw [htraced.signed] at hsign
  cases hsign
  obtain ⟨-, hspki, serverKey, hserver⟩ := clientSign_eq_ok htraced.signed
  obtain ⟨-, serverSig, hcomplete, hverify⟩ := clientFinish_eq_ok_iff.mp hfinish
  refine ⟨serverKey, hserver, fun hkey => ?_⟩
  have hhashed : session.hs.serverTranscript.bytes ∈ s.hashed :=
    List.mem_append_right _ (List.mem_append_right _ (List.mem_map.mpr ⟨session, hsession, rfl⟩))
  have hsig : serverSig ∈ frameSignature session.io.complete := by
    rw [hcomplete]
    exact toByteArr_eq_some.mpr rfl
  rw [Crypto.verifyEd25519Spki, hserver, noshKeyFromSpki_eq_some_iff.mpr rfl] at hverify
  have hmade := h.made_of_genuine hcollision (htraced.returned hreturned) hsig hkey hhashed hverify
    htraced.ekm
  rw [Handshake.serverTranscript, hspki] at hmade
  exact hmade

end

/-- **Mutual agreement.** In every run in which no signature of an honest key is forged and no two
hashed strings collide, whatever the sessions and their interleaving:

* a server that returns the key of a client has it authorized, and the holder of the key signed, as
  a client and for this TLS session, this session's EKM, nonces and server SPKI;
* a client that returns `Ok` was shown a key whose holder signed, as a server and for this TLS
  session, this session's EKM, nonces and client SPKI;
* the byte string that is hashed on either side determines the role and every field. -/
theorem mutual_agreement (ssh : SshKey) (crypto : Crypto) (honest : NoshPublicKey → Prop)
    {schedule : List NetworkAction} {s : Network}
    (hunforged : (network ssh crypto).Along (Network.Unforged crypto honest) .start schedule)
    (hrun : (network ssh crypto).run .start schedule = some s)
    (hcollision : s.NoCollision crypto) :
    (∀ session ∈ s.servers, ∀ io key, session.stage = .returned io →
      runInnerAuthServer crypto session.hostKey.key32 session.authorized io = .ok key →
        key ∈ session.authorized ∧ ∃ (clientNonce : ByteArr 32) (clientSig : List UInt8),
          io.response = some (.innerAuthResponse clientNonce key.spkiDer clientSig) ∧
            (honest key → (⟨key, session.conn, ⟨.client, session.hello.ekm,
              session.hello.serverNonce, clientNonce, session.hostKey.spkiDer⟩⟩ : Made) ∈
                s.made)) ∧
      (∀ session ∈ s.clients, session.returned = true →
        (runInnerAuthClient ssh crypto session.host session.key.key32 session.io
          session.file).1 = .ok () →
          ∃ serverKey : NoshPublicKey, session.hs.serverSpki = serverKey.spkiDer ∧
            (honest serverKey → (⟨serverKey, session.conn, ⟨.server, session.hs.ekm,
              session.hs.serverNonce, session.hs.clientNonce, session.key.spkiDer⟩⟩ : Made) ∈
                s.made)) ∧
        Function.Injective Transcript.bytes ∧
          ∀ ekm serverNonce clientNonce spki,
            clientTranscript crypto ekm serverNonce clientNonce spki =
                crypto.sha256 (Transcript.bytes ⟨.client, ekm, serverNonce, clientNonce, spki⟩) ∧
              transcriptClientSigns crypto ekm serverNonce clientNonce spki =
                crypto.sha256 (Transcript.bytes ⟨.client, ekm, serverNonce, clientNonce, spki⟩) ∧
              serverTranscript crypto ekm serverNonce clientNonce spki =
                crypto.sha256 (Transcript.bytes ⟨.server, ekm, serverNonce, clientNonce, spki⟩) ∧
              transcriptServerSigns crypto ekm serverNonce clientNonce spki =
                crypto.sha256
                  (Transcript.bytes ⟨.server, ekm, serverNonce, clientNonce, spki⟩) := by
  have htraced : Traced ssh crypto honest s :=
    (network ssh crypto).invariant_along (Traced ssh crypto honest)
      (fun _ _ _ h hok hstep => h.step hok hstep) .start hunforged hrun
  refine ⟨?_, ?_, Transcript.bytes_injective, fun _ _ _ _ => ⟨rfl, rfl, rfl, rfl⟩⟩
  · intro session hsession io key hstage hok
    exact htraced.server_agrees hcollision hsession hstage hok
  · intro session hsession hreturned hok
    exact htraced.client_agrees hcollision hsession hreturned hok

end Runs

/-! ## A run -/

/-- A signature that shows its key and its digest, and a hash that keeps the start. -/
def plainCrypto : Crypto where
  sha256 bytes := ⟨(bytes ++ List.replicate 32 0).take 32, by
    rw [List.length_take, List.length_append, List.length_replicate]
    omega⟩
  verify key digest sig := sig.val = key.val ++ digest.val

/-- The signer of `plainCrypto`. -/
def plainSign (key : NoshPublicKey) (digest : ByteArr 32) : ByteArr 64 :=
  ⟨key.key32.val ++ digest.val, by rw [List.length_append, key.key32.property, digest.property]⟩

/-- What was made with `plainCrypto` is genuine. -/
theorem genuine_plainSign {honest : NoshPublicKey → Prop} {made : List Made}
    {frame : Option Message} {m : Made} (hm : m ∈ made)
    (hframe : frameSignature frame =
      some (plainSign m.key (plainCrypto.sha256 m.transcript.bytes))) :
    Genuine plainCrypto honest made frame := by
  intro sig hsig key _ digest hverify
  rw [hframe] at hsig
  cases hsig
  have hsplit := of_decide_eq_true hverify
  obtain ⟨hkey, hdigest⟩ :=
    List.append_inj hsplit (m.key.key32.property.trans key.key32.property.symm)
  refine ⟨m, hm, ?_, Subtype.ext hdigest⟩
  exact congrArg NoshPublicKey.mk (Subtype.ext hkey)

/-- A key, a nonce or an EKM of one byte. -/
def bytes32 (byte : UInt8) : ByteArr 32 := .replicate 32 byte

/-- The challenge, the response and the completion of one handshake, over TLS session `0`. -/
def firstContact : List NetworkAction :=
  [.connect (bytes32 5),
    .serverStart 0 ⟨bytes32 7⟩ [⟨bytes32 8⟩] (bytes32 1) true,
    .clientStart 0 ⟨bytes32 8⟩ ['h'] none
      { openBi := true
        ekm := none
        challenge := some (.innerAuthChallenge (bytes32 1) (ed25519SpkiDer (bytes32 7)) (bytes32 5))
        readable := true
        console := ⟨true, true, some ['y', 'e', 's']⟩
        append := .synced
        clientNonce := bytes32 2
        sign := fun digest => some (plainSign ⟨bytes32 8⟩ digest)
        sendResponse := true
        complete := none },
    .serverRead 0 (some (.innerAuthResponse (bytes32 2) (ed25519SpkiDer (bytes32 8))
      (plainSign ⟨bytes32 8⟩ (plainCrypto.sha256 (Transcript.bytes ⟨.client, bytes32 5, bytes32 1,
        bytes32 2, ed25519SpkiDer (bytes32 7)⟩))).val)),
    .serverFinish 0 (fun digest => some (plainSign ⟨bytes32 7⟩ digest)) true,
    .clientFinish 0 true (some (.innerAuthComplete
      (plainSign ⟨bytes32 7⟩ (plainCrypto.sha256 (Transcript.bytes ⟨.server, bytes32 5, bytes32 1,
        bytes32 2, ed25519SpkiDer (bytes32 8)⟩))).val))]

theorem mutual_agreement_firstContact :
    let ssh : SshKey := ⟨fun _ => none, fun _ => some ['k']⟩
    ∃ s, (network ssh plainCrypto).run .start firstContact = some s ∧
      (⟨⟨bytes32 8⟩, 0, ⟨.client, bytes32 5, bytes32 1, bytes32 2, ed25519SpkiDer (bytes32 7)⟩⟩ :
        Made) ∈ s.made ∧
      (⟨⟨bytes32 7⟩, 0, ⟨.server, bytes32 5, bytes32 1, bytes32 2, ed25519SpkiDer (bytes32 8)⟩⟩ :
        Made) ∈ s.made := by
  intro ssh
  have hunforged : (network ssh plainCrypto).Along (Network.Unforged plainCrypto fun _ => True)
      .start firstContact := by
    refine ⟨trivial, trivial, trivial, ?_, trivial, ?_, trivial⟩
    · exact genuine_plainSign List.mem_cons_self rfl
    · exact genuine_plainSign List.mem_cons_self rfl
  refine ⟨_, rfl, ?_⟩
  obtain ⟨hserver, hclient, -⟩ := mutual_agreement ssh plainCrypto (fun _ => True) hunforged rfl
    (by unfold Network.NoCollision; decide +kernel)
  constructor
  · obtain ⟨-, clientNonce, clientSig, hresponse, hmade⟩ :=
      hserver _ List.mem_cons_self _ ⟨bytes32 8⟩ rfl rfl
    cases hresponse
    exact hmade trivial
  · obtain ⟨serverKey, hspki, hmade⟩ := hclient _ List.mem_cons_self rfl rfl
    obtain rfl : serverKey = ⟨bytes32 7⟩ := spkiDer_injective hspki.symm
    exact hmade trivial

end Nosh.Auth
