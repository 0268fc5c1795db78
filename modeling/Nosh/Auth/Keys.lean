import Nosh.Proto.Message

/-!
# Public keys

A nosh identity is an Ed25519 key, reduced to its 32 raw bytes.  On the wire it travels
as a `SubjectPublicKeyInfo`: a fixed prefix of 12 bytes and the raw key.  The SPKI is
read back exactly, and nothing else is accepted for one.
-/

namespace Nosh.Auth

open Nosh.Proto

/-- `NoshPublicKey`: equality is equality of the raw bytes. -/
structure NoshPublicKey where
  key32 : ByteArr 32
  deriving DecidableEq

/-- The DER prefix of an Ed25519 SPKI. -/
def ed25519SpkiPrefix : List UInt8 :=
  [0x30, 0x2a, 0x30, 0x05, 0x06, 0x03, 0x2b, 0x65, 0x70, 0x03, 0x21, 0x00]

/-- `ED25519_SPKI_LEN`. -/
def ed25519SpkiLen : ℕ := 44

/-- The SPKI of a raw key. -/
def ed25519SpkiDer (key32 : ByteArr 32) : List UInt8 := ed25519SpkiPrefix ++ key32.val

/-- `NoshPublicKey::spki_der`. -/
def NoshPublicKey.spkiDer (key : NoshPublicKey) : List UInt8 := ed25519SpkiDer key.key32

/-- The key of an SPKI, if it is one of Ed25519. -/
def noshKeyFromSpki (spki : List UInt8) : Option NoshPublicKey :=
  if hlen : spki.length ≠ ed25519SpkiLen then none
  else if spki.take 12 ≠ ed25519SpkiPrefix then none
  else some ⟨⟨spki.drop 12, by
    rw [ne_eq, not_not] at hlen
    rw [List.length_drop, hlen]
    rfl⟩⟩

/-- `check_authorized_key`. -/
def checkAuthorizedKey (key : NoshPublicKey) (authorized : List NoshPublicKey) : Bool :=
  authorized.contains key

theorem ed25519SpkiDer_length (key32 : ByteArr 32) :
    (ed25519SpkiDer key32).length = ed25519SpkiLen := by
  rw [ed25519SpkiDer, List.length_append, key32.property]
  rfl

/-- An SPKI is accepted for a key exactly when it is the SPKI of that key. -/
theorem noshKeyFromSpki_eq_some_iff {spki : List UInt8} {key : NoshPublicKey} :
    noshKeyFromSpki spki = some key ↔ spki = key.spkiDer := by
  constructor
  · intro h
    unfold noshKeyFromSpki at h
    split at h
    · cases h
    · split at h
      · cases h
      · rename_i hprefix
        rw [ne_eq, not_not] at hprefix
        cases h
        show spki = ed25519SpkiPrefix ++ spki.drop 12
        rw [← hprefix, List.take_append_drop]
  · rintro rfl
    have htake : key.spkiDer.take 12 = ed25519SpkiPrefix := rfl
    have hlen : key.spkiDer.length = ed25519SpkiLen := ed25519SpkiDer_length key.key32
    unfold noshKeyFromSpki
    rw [dif_neg (not_not.mpr hlen), if_neg (not_not.mpr htake)]
    rfl

theorem spkiDer_injective : Function.Injective NoshPublicKey.spkiDer := by
  intro key key' h
  have hkey := noshKeyFromSpki_eq_some_iff.mpr (rfl : key.spkiDer = key.spkiDer)
  rw [h, noshKeyFromSpki_eq_some_iff.mpr rfl] at hkey
  exact (Option.some.inj hkey).symm

end Nosh.Auth
