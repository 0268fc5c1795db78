import Nosh.Lib.Leb128
import Nosh.Server.Channels

/-!
# The channel id in front of a stream

The client opens a stream for an accepted channel and writes the id of the channel in front of its
data (`open_channel` in `nosh-client/src/client.rs`). The `accept_bi` arm of the server reads the id
with `read_varint_u32` and hands the stream to the task of that channel.

The reader takes up to five bytes, which have room for 35 bits, and adds their bits to an
accumulator of 32. The three high bits of a fifth byte fall off, so that an encoding of a number
that is no `u32` is read as that number modulo `2 ^ 32`.

## Main Definitions

* `readVarintU32`
* `acceptStream` — the `accept_bi` arm on the bytes of a stream
* `FifthByteOverflows` — the bytes for which bits fall off

## Main Results

* `readVarintU32_eq_ok_iff` — what the reader makes of a stream: an encoding, modulo `2 ^ 32`.
* `readVarintU32_exact_iff` — **the reader is exact unless a fifth byte has high bits.**
* `acceptStream_opened` — a stream that the client opened goes to the channel it was opened for.
-/

namespace Nosh.Server

open Lib Lib.Postcard

/-- Why `read_varint_u32` fails. -/
inductive VarintError
  /-- `read_exact` finds the end of the stream. -/
  | truncated
  /-- "varint overflow: more than 5 bytes for a u32 channel-id prefix". -/
  | overflow
  deriving DecidableEq, Repr

/-- The loop of `read_varint_u32`, with the turns that are left. -/
def readVarintLoop : ℕ → UInt32 → UInt32 → List UInt8 → Except VarintError (UInt32 × List UInt8)
  | 0, _, _, _ => .error .overflow
  | _ + 1, _, _, [] => .error .truncated
  | turns + 1, value, shift, byte :: stream =>
      let value := value ||| ((byte &&& 0x7F).toUInt32 <<< shift)
      if byte &&& 0x80 = 0 then .ok (value, stream)
      else readVarintLoop turns value (shift + 7) stream

/-- `read_varint_u32` on the bytes of a stream, with the bytes that are left on it. -/
def readVarintU32 (stream : List UInt8) : Except VarintError (UInt32 × List UInt8) :=
  readVarintLoop 5 0 0 stream

/-- The bytes of the stream that `open_channel` opens, once `payload` is written to it. -/
def openedStream (channelId : UInt32) (payload : List UInt8) : List UInt8 :=
  ser channelId ++ payload

/-- The `accept_bi` arm: a stream without an id is dropped. -/
def acceptStream (s : Channels) (stream : List UInt8) : Option Channels :=
  match readVarintU32 stream with
  | .ok (channelId, _) => s.acceptBi channelId
  | .error _ => some s

/-! ## One turn -/

theorem toNat_and_low (byte : UInt8) : (byte &&& 0x7F).toNat = byte.toNat % 128 := by
  rw [UInt8.toNat_and]
  exact Nat.and_two_pow_sub_one_eq_mod byte.toNat 7

theorem and_high_eq_zero_iff (byte : UInt8) : byte &&& 0x80 = 0 ↔ byte.toNat < 128 := by
  have hbits : ∀ n : Fin 256, n.val &&& 128 = 0 ↔ n.val < 128 := by decide +kernel
  rw [← UInt8.toNat_inj, UInt8.toNat_and]
  exact hbits ⟨byte.toNat, byte.toNat_lt⟩

/-- A turn adds seven bits above those that are there, as far as there is room for them. -/
theorem toNat_turn {value shift : UInt32} (hshift : shift.toNat < 32)
    (hvalue : value.toNat < 2 ^ shift.toNat) (byte : UInt8) :
    (value ||| ((byte &&& 0x7F).toUInt32 <<< shift)).toNat =
      (value.toNat + 2 ^ shift.toNat * (byte.toNat % 128)) % 2 ^ 32 := by
  generalize hk : shift.toNat = k at hshift hvalue ⊢
  -- what is shifted beyond the accumulator is lost
  have hroom : 2 ^ k * 2 ^ (32 - k) = 2 ^ 32 := by
    rw [← Nat.pow_add, Nat.add_sub_cancel' hshift.le]
  have hshifted : ((byte &&& 0x7F).toUInt32 <<< shift).toNat =
      2 ^ k * (byte.toNat % 128 % 2 ^ (32 - k)) := by
    rw [UInt32.toNat_shiftLeft, hk, Nat.mod_eq_of_lt hshift, UInt8.toNat_toUInt32, toNat_and_low,
      Nat.shiftLeft_eq, Nat.mul_comm, ← hroom, Nat.mul_mod_mul_left]
  have hkept : value.toNat + 2 ^ k * (byte.toNat % 128 % 2 ^ (32 - k)) < 2 ^ 32 := by
    have hlt := Nat.mod_lt (byte.toNat % 128) (Nat.two_pow_pos (32 - k))
    have hle := Nat.mul_le_mul_left (2 ^ k) (Nat.succ_le_of_lt hlt)
    rw [Nat.mul_succ, hroom] at hle
    omega
  calc (value ||| ((byte &&& 0x7F).toUInt32 <<< shift)).toNat
      = value.toNat + 2 ^ k * (byte.toNat % 128 % 2 ^ (32 - k)) := by
        rw [UInt32.toNat_or, hshifted, Nat.or_comm, ← Nat.two_pow_add_eq_or_of_lt hvalue,
          Nat.add_comm]
    _ = (value.toNat + 2 ^ k * (byte.toNat % 128) % 2 ^ 32) % 2 ^ 32 := by
        rw [← hroom, Nat.mul_mod_mul_left, hroom, Nat.mod_eq_of_lt hkept]
    _ = (value.toNat + 2 ^ k * (byte.toNat % 128)) % 2 ^ 32 := Nat.add_mod_mod _ _ _

section Turn

variable {value shift : UInt32} (hshift : shift.toNat < 32)
  (hvalue : value.toNat < 2 ^ shift.toNat) (byte : UInt8)

include hshift

theorem toNat_shift_next : (shift + 7).toNat = shift.toNat + 7 := by
  rw [UInt32.toNat_add]
  exact Nat.mod_eq_of_lt (by change shift.toNat + 7 < 2 ^ 32; omega)

include hvalue

theorem toNat_turn_lt :
    (value ||| ((byte &&& 0x7F).toUInt32 <<< shift)).toNat < 2 ^ (shift + 7).toNat := by
  rw [toNat_turn hshift hvalue, toNat_shift_next hshift, Nat.pow_add]
  have hseven : byte.toNat % 128 ≤ 127 := by omega
  have hbits := Nat.mul_le_mul_left (2 ^ shift.toNat) hseven
  exact (Nat.mod_le _ _).trans_lt (by omega)

/-- The turns that follow put their bits above the seven of this one. -/
theorem toNat_turn_add (bytes : List UInt8) :
    (value.toNat + 2 ^ shift.toNat * leb128Value (byte :: bytes)) % 2 ^ 32 =
      ((value ||| ((byte &&& 0x7F).toUInt32 <<< shift)).toNat +
        2 ^ (shift + 7).toNat * leb128Value bytes) % 2 ^ 32 := by
  rw [toNat_turn hshift hvalue, toNat_shift_next hshift, Nat.mod_add_mod, leb128Value, Nat.pow_add,
    Nat.mul_add, Nat.add_assoc, Nat.mul_assoc]

end Turn

/-! ## The loop -/

/-- The loop with `turns` left reads an encoding of at most that many bytes, and puts its number
above the bits that are there, modulo `2 ^ 32`. -/
theorem readVarintLoop_eq_ok_iff {turns : ℕ} {value shift : UInt32}
    (hshift : shift.toNat + 7 * turns = 35) (hvalue : value.toNat < 2 ^ shift.toNat)
    {stream rest : List UInt8} {out : UInt32} :
    readVarintLoop turns value shift stream = .ok (out, rest) ↔
      ∃ bytes, stream = bytes ++ rest ∧ IsLeb128 bytes ∧ bytes.length ≤ turns ∧
        out.toNat = (value.toNat + 2 ^ shift.toNat * leb128Value bytes) % 2 ^ 32 := by
  induction turns generalizing value shift stream with
  | zero =>
      refine iff_of_false nofun ?_
      rintro ⟨bytes, -, hleb, hlength, -⟩
      exact hleb.ne_nil (List.length_eq_zero_iff.mp (Nat.le_zero.mp hlength))
  | succ turns ih =>
      cases stream with
      | nil =>
          refine iff_of_false nofun ?_
          rintro ⟨bytes, hstream, hleb, -⟩
          exact hleb.ne_nil (List.append_eq_nil_iff.mp hstream.symm).1
      | cons byte stream =>
          have hturn := toNat_turn (by omega) hvalue byte
          rw [readVarintLoop, exists_isLeb128_cons_iff]
          by_cases hlast : byte.toNat < 128
          · rw [if_pos ((and_high_eq_zero_iff byte).mpr hlast)]
            have hvalue : leb128Value [byte] = byte.toNat % 128 := rfl
            constructor
            · rintro ⟨⟩
              refine .inl ⟨hlast, rfl, Nat.succ_le_succ (Nat.zero_le turns), ?_⟩
              rw [hturn, hvalue]
            · rintro (⟨-, rfl, -, hout⟩ | ⟨hle, -⟩)
              · rw [hvalue, ← hturn] at hout
                rw [UInt32.toNat_inj.mp hout]
              · omega
          · have hlow := toNat_turn_lt (by omega) hvalue byte
            have hrest := toNat_turn_add (by omega) hvalue byte
            have hnext : (shift + 7).toNat + 7 * turns = 35 := by
              rw [toNat_shift_next (by omega)]
              omega
            rw [if_neg fun h => hlast ((and_high_eq_zero_iff byte).mp h), ih hnext hlow]
            simp only [hrest, hlast, false_and, false_or, Nat.le_of_not_lt hlast, true_and,
              List.length_cons, Nat.succ_le_succ_iff]

/-- What `read_varint_u32` makes of a stream: an encoding of at most five bytes, modulo `2 ^ 32`. -/
theorem readVarintU32_eq_ok_iff {stream rest : List UInt8} {out : UInt32} :
    readVarintU32 stream = .ok (out, rest) ↔
      ∃ bytes, stream = bytes ++ rest ∧ IsLeb128 bytes ∧ bytes.length ≤ 5 ∧
        out.toNat = leb128Value bytes % 2 ^ 32 := by
  have hloop := @readVarintLoop_eq_ok_iff 5 0 0 rfl Nat.one_pos stream rest out
  have hvalue : ∀ bytes, (0 : UInt32).toNat + 2 ^ (0 : UInt32).toNat * leb128Value bytes =
      leb128Value bytes := fun bytes => by simp
  unfold readVarintU32
  simpa only [hvalue] using hloop

/-! ## What falls off -/

/-- Five bytes of which the last has bits beyond the 32 of the accumulator. -/
def fifthByteOverflows (stream : List UInt8) : Bool :=
  (stream.take 4).all (0x80 ≤ ·) && (stream[4]?).any fun byte => 0x10 ≤ byte && byte < 0x80

theorem fifthByteOverflows_iff {stream : List UInt8} :
    fifthByteOverflows stream = true ↔
      ∃ low last rest, stream = low ++ [last] ++ rest ∧ low.length = 4 ∧
        IsLeb128 (low ++ [last]) ∧ 16 ≤ last.toNat := by
  unfold fifthByteOverflows
  simp only [isLeb128_concat_iff, Bool.and_eq_true, List.all_eq_true, Option.any_eq_true,
    decide_eq_true_eq, UInt8.le_iff_toNat_le, UInt8.lt_iff_toNat_lt]
  constructor
  · rintro ⟨hhigh, last, hlast, hle, hlt⟩
    obtain ⟨hfour, rfl⟩ := List.getElem?_eq_some_iff.mp hlast
    refine ⟨stream.take 4, stream[4], stream.drop 5, ?_, ?_, ⟨hhigh, hlt⟩, hle⟩
    · rw [List.append_assoc, List.singleton_append, ← List.drop_eq_getElem_cons,
        List.take_append_drop]
    · rw [List.length_take]
      omega
  · rintro ⟨low, last, rest, rfl, hfour, ⟨hhigh, hlt⟩, hle⟩
    rw [List.append_assoc, ← hfour, List.take_left]
    refine ⟨hhigh, last, ?_, hle, hlt⟩
    rw [List.getElem?_append_right (Nat.le_refl _), Nat.sub_self]
    rfl

/-- The last of five bytes decides whether the number is a `u32`. -/
theorem leb128Value_five_lt_iff {low : List UInt8} {last : UInt8} (hfour : low.length = 4)
    (hleb : IsLeb128 (low ++ [last])) :
    leb128Value (low ++ [last]) < 2 ^ 32 ↔ last.toNat < 16 := by
  have hlt := leb128Value_lt_iff low (isLeb128_concat_iff.mp hleb).2 16
  rwa [hfour] at hlt

/-- An encoding of at most five bytes is one of a `u32` unless its fifth byte has high bits. -/
theorem leb128Value_lt_of_fits {bytes rest : List UInt8} (hleb : IsLeb128 bytes)
    (hlength : bytes.length ≤ 5) (hfits : fifthByteOverflows (bytes ++ rest) = false) :
    leb128Value bytes < 2 ^ 32 := by
  obtain ⟨low, last, rfl⟩ := (List.eq_nil_or_concat' bytes).resolve_left hleb.ne_nil
  rw [List.length_append, List.length_singleton] at hlength
  by_cases hfive : low.length = 4
  · have hlast : last.toNat < 16 := by
      by_contra hle
      refine Bool.eq_false_iff.mp hfits (fifthByteOverflows_iff.mpr ?_)
      exact ⟨low, last, rest, rfl, hfive, hleb, Nat.le_of_not_lt hle⟩
    exact (leb128Value_five_lt_iff hfive hleb).mpr hlast
  · have hshort : (low ++ [last]).length ≤ 4 := by
      rw [List.length_append, List.length_singleton]
      omega
    calc leb128Value (low ++ [last])
        < 128 ^ (low ++ [last]).length := leb128Value_lt _
      _ ≤ 128 ^ 4 := Nat.pow_le_pow_right (by decide) hshort
      _ < 2 ^ 32 := by decide

/-- The id that is written is an encoding of itself. -/
theorem readVarintU32_openedStream (channelId : UInt32) (payload : List UInt8) :
    readVarintU32 (openedStream channelId payload) = .ok (channelId, payload) := by
  have hlt : channelId.toNat < 2 ^ 32 := channelId.toNat_lt
  refine readVarintU32_eq_ok_iff.mpr ⟨ser channelId, rfl, ?_, ?_, ?_⟩
  · exact isLeb128_writeVarint (by omega)
  · exact length_writeVarint_le 5 _
  · change channelId.toNat = leb128Value (writeVarint 5 channelId.toNat) % 2 ^ 32
    rw [leb128Value_writeVarint (by omega), Nat.mod_eq_of_lt hlt]

/-- **A stream that the client opened goes to the channel it was opened for.** -/
theorem acceptStream_opened (s : Channels) (channelId : UInt32) (payload : List UInt8) :
    acceptStream s (openedStream channelId payload) = s.acceptBi channelId := by
  rw [acceptStream, readVarintU32_openedStream]

/-- **The reader is exact unless a fifth byte has high bits**: it gives `v` exactly if the stream
begins with an encoding of `v` of at most five bytes, and leaves what follows it; it gives back what
the client writes; and it fails on every encoding of a number that is no `u32`. -/
theorem readVarintU32_exact_iff (stream : List UInt8) :
    ((∀ (v : UInt32) (rest : List UInt8), readVarintU32 stream = .ok (v, rest) ↔
        ∃ bytes, stream = bytes ++ rest ∧ IsLeb128 bytes ∧ bytes.length ≤ 5 ∧
          leb128Value bytes = v.toNat) ∧
      (∀ (v : UInt32) (rest : List UInt8), stream = ser v ++ rest →
        readVarintU32 stream = .ok (v, rest)) ∧
      ∀ bytes rest, stream = bytes ++ rest → IsLeb128 bytes → 2 ^ 32 ≤ leb128Value bytes →
        ∃ err, readVarintU32 stream = .error err) ↔
    fifthByteOverflows stream = false := by
  constructor
  · rintro ⟨-, -, hrejects⟩
    by_contra hover
    obtain ⟨low, last, rest, rfl, hfour, hleb, hlast⟩ :=
      fifthByteOverflows_iff.mp (Bool.eq_true_of_not_eq_false hover)
    have hvalue : 2 ^ 32 ≤ leb128Value (low ++ [last]) := by
      rw [← Nat.not_lt, leb128Value_five_lt_iff hfour hleb]
      exact Nat.not_lt.mpr hlast
    obtain ⟨err, herr⟩ := hrejects _ rest rfl hleb hvalue
    have hread : readVarintU32 (low ++ [last] ++ rest) =
        .ok (UInt32.ofNat (leb128Value (low ++ [last])), rest) :=
      readVarintU32_eq_ok_iff.mpr
        ⟨low ++ [last], rfl, hleb, by simp [hfour], UInt32.toNat_ofNat'⟩
    rw [hread] at herr
    cases herr
  · intro hfits
    refine ⟨fun v rest => ?_, ?_, ?_⟩
    · rw [readVarintU32_eq_ok_iff]
      refine exists_congr fun bytes => and_congr_right fun hstream => ?_
      refine and_congr_right fun hleb => and_congr_right fun hlength => ?_
      rw [hstream] at hfits
      rw [Nat.mod_eq_of_lt (leb128Value_lt_of_fits hleb hlength hfits), eq_comm]
    · rintro v rest rfl
      exact readVarintU32_openedStream v rest
    · rintro bytes rest rfl hleb hvalue
      cases hread : readVarintU32 (bytes ++ rest) with
      | error err => exact ⟨err, rfl⟩
      | ok out =>
          obtain ⟨bytes', hstream, hleb', hlength, -⟩ := readVarintU32_eq_ok_iff.mp hread
          obtain ⟨rfl, -⟩ := hleb.unique hleb' hstream
          exact absurd (leb128Value_lt_of_fits hleb hlength hfits) (Nat.not_lt.mpr hvalue)

/-- The number `2 ^ 32 + 2` is read as `2`, the id of the first channel that a client opens. -/
theorem too_large_id_accepted :
    IsLeb128 [0x82, 0x80, 0x80, 0x80, 0x10] ∧
      leb128Value [0x82, 0x80, 0x80, 0x80, 0x10] = 2 ^ 32 + 2 ∧
      readVarintU32 [0x82, 0x80, 0x80, 0x80, 0x10] = .ok (2, []) := by
  exact ⟨by decide, rfl, rfl⟩

end Nosh.Server
