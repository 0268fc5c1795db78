import Mathlib.Data.List.Basic
import Mathlib.Tactic.Linarith
import Nosh.Lib.Postcard

/-!
# UTF-8 texts

A text is a list of characters. Its encoding is Lean's own; the lossy decoding replaces each
maximal ill-formed piece with U+FFFD, one byte at a time.

## Main Definitions

* `encode` — the bytes of a text
* `Pending` — a multi-byte character of which some bytes are read
* `decodeLossy` — the text of any bytes

## Main Results

* `decoded_iff` — the strict decoding is the inverse of the encoding.
* `exists_of_mem_encode` — the ASCII bytes of a text come from its ASCII characters.
* `decodeLossy_encode` — a text is read back from its bytes.
* `decodeLossy_of_ascii`, `ascii_of_decodeFrom` — a lossy text is ASCII exactly when its bytes
  are, and is then the bytes themselves.
* `filter_decodeLossy_eq_iff` — filtering commutes with lossy decoding into ASCII.
-/

namespace Nosh.Lib.Utf8

variable {bytes : List UInt8} {ch : Char} {byte : UInt8}

/-! ## Encoding -/

/-- The UTF-8 bytes of a text. -/
def encode (text : List Char) : List UInt8 := text.flatMap String.utf8EncodeChar

@[simp]
theorem encode_append (first second : List Char) :
    encode (first ++ second) = encode first ++ encode second :=
  List.flatMap_append

/-- The strict decoding is the inverse of the encoding. -/
theorem decoded_iff {text : List Char} :
    (Postcard.ofUtf8Bytes bytes).map String.toList = some text ↔ bytes = encode text := by
  constructor
  · intro h
    obtain ⟨string, hbytes, rfl⟩ := Option.map_eq_some_iff.mp h
    rw [← Postcard.utf8Bytes_of_ofUtf8Bytes hbytes, encode, ← Postcard.utf8Bytes_ofList,
      String.ofList_toList]
  · rintro rfl
    rw [encode, ← Postcard.utf8Bytes_ofList, Postcard.ofUtf8Bytes_utf8Bytes, Option.map_some,
      String.toList_ofList]

/-- A byte of a character that is below `0x80` is the whole character. -/
theorem toNat_of_mem_utf8EncodeChar (hascii : byte.toNat < 0x80)
    (hmem : byte ∈ String.utf8EncodeChar ch) : ch.toNat = byte.toNat := by
  -- every byte of a longer encoding has its top bit set
  have htop : ∀ n, n < 0x80 → byte ≠ UInt8.ofNat (n + 0x80) := by
    rintro n hn rfl
    rw [UInt8.toNat_ofNat', Nat.mod_eq_of_lt (by omega)] at hascii
    omega
  have hfalse : ∀ n, n < 0x80 → byte = UInt8.ofNat (n + 0x80) → ch.toNat = byte.toNat :=
    fun n hn heq => (htop n hn heq).elim
  unfold String.utf8EncodeChar at hmem
  dsimp only at hmem
  split at hmem
  · rw [List.mem_singleton] at hmem
    rw [hmem, UInt8.toNat_ofNat', Nat.mod_eq_of_lt (by omega)]
    rfl
  split at hmem
  · simp only [List.mem_cons, List.not_mem_nil, or_false] at hmem
    rcases hmem with h | h
    · exact hfalse (ch.val.toNat / 64 % 32 + 0x40) (by omega) h
    · exact hfalse _ (by omega) h
  split at hmem
  · simp only [List.mem_cons, List.not_mem_nil, or_false] at hmem
    rcases hmem with h | h | h
    · exact hfalse (ch.val.toNat / 4096 % 16 + 0x60) (by omega) h
    · exact hfalse _ (by omega) h
    · exact hfalse _ (by omega) h
  · simp only [List.mem_cons, List.not_mem_nil, or_false] at hmem
    rcases hmem with h | h | h | h
    · exact hfalse (ch.val.toNat / 262144 % 8 + 0x70) (by omega) h
    · exact hfalse _ (by omega) h
    · exact hfalse _ (by omega) h
    · exact hfalse _ (by omega) h

/-- **The ASCII bytes of a text come from its ASCII characters.** -/
theorem exists_of_mem_encode {text : List Char} (hascii : byte.toNat < 0x80)
    (hmem : byte ∈ encode text) : ∃ ch ∈ text, ch.toNat = byte.toNat := by
  obtain ⟨ch, hch, hbyte⟩ := List.mem_flatMap.mp hmem
  exact ⟨ch, hch, toNat_of_mem_utf8EncodeChar hascii hbyte⟩

/-- A text is determined by its bytes. -/
theorem encode_injective : Function.Injective encode := by
  intro first second h
  have hbytes : (String.ofList first).toByteArray = (String.ofList second).toByteArray := by
    rw [String.toByteArray_ofList, String.toByteArray_ofList]
    exact congrArg List.toByteArray h
  exact String.ofList_injective (String.toByteArray_inj.mp hbytes)

/-! ## Lossy decoding -/

/-- A character of which some bytes are read: the next one stands between `low` and `high`, and
`owed` more follow. Whatever they are, they complete a scalar value above ASCII. -/
structure Pending where
  value : ℕ
  low : ℕ
  high : ℕ
  owed : ℕ
  scalar : ∀ n, (value * 64 + (low - 0x80)) * 64 ^ owed ≤ n →
    n < (value * 64 + (high - 0x80) + 1) * 64 ^ owed → n.isValidChar ∧ 0x80 ≤ n

/-- What the first byte of a longer character leaves open. -/
def Pending.lead (byte : UInt8) : Option Pending :=
  if h : 0xC2 ≤ byte.toNat ∧ byte.toNat ≤ 0xDF then
    some ⟨byte.toNat - 0xC0, 0x80, 0xBF, 0, fun n hlow hhigh => by
      rw [Nat.isValidChar]; omega⟩
  else if byte.toNat = 0xE0 then
    some ⟨0, 0xA0, 0xBF, 1, fun n hlow hhigh => by rw [Nat.isValidChar]; omega⟩
  else if h : 0xE1 ≤ byte.toNat ∧ byte.toNat ≤ 0xEC then
    some ⟨byte.toNat - 0xE0, 0x80, 0xBF, 1, fun n hlow hhigh => by rw [Nat.isValidChar]; omega⟩
  else if byte.toNat = 0xED then
    some ⟨0xD, 0x80, 0x9F, 1, fun n hlow hhigh => by rw [Nat.isValidChar]; omega⟩
  else if h : 0xEE ≤ byte.toNat ∧ byte.toNat ≤ 0xEF then
    some ⟨byte.toNat - 0xE0, 0x80, 0xBF, 1, fun n hlow hhigh => by rw [Nat.isValidChar]; omega⟩
  else if byte.toNat = 0xF0 then
    some ⟨0, 0x90, 0xBF, 2, fun n hlow hhigh => by rw [Nat.isValidChar]; omega⟩
  else if h : 0xF1 ≤ byte.toNat ∧ byte.toNat ≤ 0xF3 then
    some ⟨byte.toNat - 0xF0, 0x80, 0xBF, 2, fun n hlow hhigh => by rw [Nat.isValidChar]; omega⟩
  else if byte.toNat = 0xF4 then
    some ⟨4, 0x80, 0x8F, 2, fun n hlow hhigh => by rw [Nat.isValidChar]; omega⟩
  else none

/-- The value that the character has when `byte` is its last one. -/
def Pending.extend (pending : Pending) (byte : UInt8) : ℕ :=
  pending.value * 64 + (byte.toNat - 0x80)

theorem Pending.scalar_extend (pending : Pending)
    (hbyte : pending.low ≤ byte.toNat ∧ byte.toNat ≤ pending.high) {n : ℕ}
    (hlow : pending.extend byte * 64 ^ pending.owed ≤ n)
    (hhigh : n < (pending.extend byte + 1) * 64 ^ pending.owed) : n.isValidChar ∧ 0x80 ≤ n := by
  refine pending.scalar n (Nat.le_trans (Nat.mul_le_mul_right _ ?_) hlow)
    (Nat.lt_of_lt_of_le hhigh (Nat.mul_le_mul_right _ ?_))
  all_goals
    unfold Pending.extend
    omega

/-- The next byte, in its bounds: the character, or what it still leaves open. -/
def Pending.next (pending : Pending) (byte : UInt8)
    (hbyte : pending.low ≤ byte.toNat ∧ byte.toNat ≤ pending.high) : Char ⊕ Pending :=
  match howed : pending.owed with
  | 0 =>
      have hscalar : (pending.extend byte).isValidChar :=
        (pending.scalar_extend hbyte (by rw [howed, pow_zero, mul_one])
          (by rw [howed, pow_zero, mul_one]; exact Nat.lt_succ_self _)).1
      .inl (Char.ofNatAux (pending.extend byte) hscalar)
  | owed + 1 =>
      .inr ⟨pending.extend byte, 0x80, 0xBF, owed, fun n hlow hhigh => by
        refine pending.scalar_extend hbyte (le_trans ?_ hlow) (lt_of_lt_of_le hhigh ?_)
        all_goals
          rw [howed, pow_succ', ← mul_assoc]
          refine Nat.mul_le_mul_right _ ?_
          omega⟩

theorem toNat_ofNatAux {n : ℕ} (hvalid : n.isValidChar) : (Char.ofNatAux n hvalid).toNat = n := rfl

/-- A completed character is above ASCII. -/
theorem Pending.next_above (pending : Pending)
    (hbyte : pending.low ≤ byte.toNat ∧ byte.toNat ≤ pending.high) (ch : Char)
    (hnext : pending.next byte hbyte = .inl ch) : 0x80 ≤ ch.toNat := by
  unfold Pending.next at hnext
  split at hnext
  · rename_i howed
    have hch := congrArg Char.toNat (Sum.inl.inj hnext)
    rw [toNat_ofNatAux] at hch
    have hlow : pending.extend byte * 64 ^ pending.owed ≤ ch.toNat := by
      rw [howed, pow_zero, mul_one, hch]
    have hhigh : ch.toNat < (pending.extend byte + 1) * 64 ^ pending.owed := by
      rw [howed, pow_zero, mul_one, hch]
      exact Nat.lt_succ_self _
    exact (pending.scalar_extend hbyte hlow hhigh).2
  · cases hnext

/-- U+FFFD, which stands for an ill-formed piece. -/
def replacement : Char := '\uFFFD'

/-- A byte between two characters: what it gives, and what it leaves open. -/
def opening (byte : UInt8) : List Char × Option Pending :=
  if byte.toNat < 0x80 then ([Char.ofUInt8 byte], none)
  else
    match Pending.lead byte with
    | some pending => ([], some pending)
    | none => ([replacement], none)

/-- One byte. One that does not continue the open character starts the next. -/
def decodeByte (byte : UInt8) : Option Pending → List Char × Option Pending
  | none => opening byte
  | some pending =>
      if hbyte : pending.low ≤ byte.toNat ∧ byte.toNat ≤ pending.high then
        match pending.next byte hbyte with
        | .inl ch => ([ch], none)
        | .inr pending => ([], some pending)
      else (replacement :: (opening byte).1, (opening byte).2)

/-- The rest of a text, after what is open. -/
def decodeFrom : Option Pending → List UInt8 → List Char
  | none, [] => []
  | some _, [] => [replacement]
  | opened, byte :: bytes =>
      (decodeByte byte opened).1 ++ decodeFrom (decodeByte byte opened).2 bytes

/-- The text of any bytes, each maximal ill-formed piece replaced. -/
def decodeLossy (bytes : List UInt8) : List Char := decodeFrom none bytes

example : decodeLossy [0x48, 0xF0, 0x90, 0x80, 0x57, 0xC3, 0xA9] = ['H', '\uFFFD', 'W', 'é'] := by
  decide

/-- The last byte of a character. -/
theorem Pending.next_of_last (pending : Pending)
    (hbyte : pending.low ≤ byte.toNat ∧ byte.toNat ≤ pending.high) (howed : pending.owed = 0)
    (hch : pending.extend byte = ch.toNat) : pending.next byte hbyte = .inl ch := by
  unfold Pending.next
  split
  · refine congrArg _ (Char.ext (UInt32.toNat_inj.mp ?_))
    exact hch
  · rename_i owed hmore
    rw [howed] at hmore
    cases hmore

/-- A byte of a character that more follow. -/
theorem Pending.next_of_more (pending : Pending)
    (hbyte : pending.low ≤ byte.toNat ∧ byte.toNat ≤ pending.high) {owed : ℕ}
    (howed : pending.owed = owed + 1) :
    ∃ pending', pending.next byte hbyte = .inr pending' ∧ pending'.value = pending.extend byte ∧
      pending'.low = 0x80 ∧ pending'.high = 0xBF ∧ pending'.owed = owed := by
  unfold Pending.next
  split
  · rename_i hlast
    rw [howed] at hlast
    cases hlast
  · rename_i more hmore
    rw [howed] at hmore
    cases hmore
    exact ⟨_, rfl, rfl, rfl, rfl, rfl⟩

/-- The bytes that end a character of value `n`, when `owed` more follow the next one. -/
def continuation : ℕ → ℕ → List UInt8
  | 0, n => [UInt8.ofNat (n % 64 + 0x80)]
  | owed + 1, n => UInt8.ofNat (n / 64 ^ (owed + 1) % 64 + 0x80) :: continuation owed n

/-- The bytes that a character is open for complete it. -/
theorem decodeFrom_continuation (pending : Pending) {owed : ℕ} (howed : pending.owed = owed)
    (hvalue : pending.value = ch.toNat / 64 ^ (owed + 1))
    (hlow : pending.low ≤ ch.toNat / 64 ^ owed % 64 + 0x80)
    (hhigh : ch.toNat / 64 ^ owed % 64 + 0x80 ≤ pending.high) (rest : List UInt8) :
    decodeFrom (some pending) (continuation owed ch.toNat ++ rest) =
      ch :: decodeFrom none rest := by
  have hbyte : ∀ m, (UInt8.ofNat (m % 64 + 0x80)).toNat = m % 64 + 0x80 := by
    intro m
    rw [UInt8.toNat_ofNat', Nat.mod_eq_of_lt (by omega)]
  induction owed generalizing pending with
  | zero =>
      have hextend : pending.extend (UInt8.ofNat (ch.toNat % 64 + 0x80)) = ch.toNat := by
        unfold Pending.extend
        rw [hbyte, hvalue, zero_add, pow_one]
        omega
      rw [pow_zero, Nat.div_one, ← hbyte ch.toNat] at hlow hhigh
      rw [continuation, List.cons_append, decodeFrom, decodeByte, dif_pos ⟨hlow, hhigh⟩,
        pending.next_of_last ⟨hlow, hhigh⟩ howed hextend]
      rfl
  | succ owed ih =>
      rw [← hbyte (ch.toNat / 64 ^ (owed + 1))] at hlow hhigh
      obtain ⟨pending', hnext, hvalue', hlow', hhigh', howed'⟩ :=
        pending.next_of_more ⟨hlow, hhigh⟩ howed
      have hextend : pending.extend (UInt8.ofNat (ch.toNat / 64 ^ (owed + 1) % 64 + 0x80)) =
          ch.toNat / 64 ^ (owed + 1) := by
        unfold Pending.extend
        rw [hbyte, hvalue, pow_succ _ (owed + 1), ← Nat.div_div_eq_div_mul]
        omega
      rw [continuation, List.cons_append, decodeFrom, decodeByte, dif_pos ⟨hlow, hhigh⟩, hnext]
      exact ih pending' howed' (hvalue'.trans hextend) (by omega) (by omega)

/-- What the first byte of a character of two, three or four bytes leaves open. -/
theorem Pending.lead_spec (hbyte : 0xC2 ≤ byte.toNat ∧ byte.toNat ≤ 0xF4) :
    ∃ pending, Pending.lead byte = some pending ∧
      (byte.toNat < 0xE0 ∧ pending.owed = 0 ∧ pending.value = byte.toNat - 0xC0 ∧
          pending.low = 0x80 ∧ pending.high = 0xBF ∨
        0xE0 ≤ byte.toNat ∧ byte.toNat < 0xF0 ∧ pending.owed = 1 ∧
          pending.value = byte.toNat - 0xE0 ∧
          (pending.low = 0x80 ∨ byte.toNat = 0xE0 ∧ pending.low = 0xA0) ∧
          (pending.high = 0xBF ∨ byte.toNat = 0xED ∧ pending.high = 0x9F) ∨
        0xF0 ≤ byte.toNat ∧ pending.owed = 2 ∧ pending.value = byte.toNat - 0xF0 ∧
          (pending.low = 0x80 ∨ byte.toNat = 0xF0 ∧ pending.low = 0x90) ∧
          (pending.high = 0xBF ∨ byte.toNat = 0xF4 ∧ pending.high = 0x8F)) := by
  unfold Pending.lead
  iterate 8
    split
    · refine ⟨_, rfl, ?_⟩
      dsimp only
      omega
  omega

/-- A character is read back from its bytes. -/
theorem decodeFrom_utf8EncodeChar (ch : Char) (rest : List UInt8) :
    decodeFrom none (String.utf8EncodeChar ch ++ rest) = ch :: decodeFrom none rest := by
  have hbyte : ∀ m, m < 256 → (UInt8.ofNat m).toNat = m := by
    intro m hm
    rw [UInt8.toNat_ofNat', Nat.mod_eq_of_lt hm]
  -- a first byte opens the character, and the others complete it
  have hlead : ∀ (byte : UInt8) (pending : Pending) (owed : ℕ), 0x80 ≤ byte.toNat →
      Pending.lead byte = some pending → pending.owed = owed →
      pending.value = ch.toNat / 64 ^ (owed + 1) →
      pending.low ≤ ch.toNat / 64 ^ owed % 64 + 0x80 →
      ch.toNat / 64 ^ owed % 64 + 0x80 ≤ pending.high →
      decodeFrom none (byte :: (continuation owed ch.toNat ++ rest)) =
        ch :: decodeFrom none rest := by
    intro byte pending owed habove hopen howed hvalue hlow hhigh
    rw [decodeFrom, decodeByte, opening, if_neg (by omega), hopen]
    exact decodeFrom_continuation pending howed hvalue hlow hhigh rest
  have hvalid : ch.toNat < 0xD800 ∨ 0xDFFF < ch.toNat ∧ ch.toNat < 0x110000 := ch.valid
  have hnat : ch.val.toNat = ch.toNat := rfl
  unfold String.utf8EncodeChar
  dsimp only
  rw [hnat]
  split
  · have hfirst := hbyte ch.toNat (by omega)
    have hch : Char.ofUInt8 (UInt8.ofNat ch.toNat) = ch :=
      Char.ext (UInt32.toNat_inj.mp hfirst)
    rw [List.singleton_append, decodeFrom, decodeByte, opening, if_pos (by omega), hch]
    rfl
  split
  · have hfirst := hbyte (ch.toNat / 64 % 32 + 0xC0) (by omega)
    have hrange : 0xC2 ≤ (UInt8.ofNat (ch.toNat / 64 % 32 + 0xC0)).toNat ∧
        (UInt8.ofNat (ch.toNat / 64 % 32 + 0xC0)).toNat ≤ 0xF4 := by omega
    obtain ⟨pending, hopen, hspec⟩ := Pending.lead_spec hrange
    exact hlead _ pending 0 (by omega) hopen (by omega) (by omega) (by omega) (by omega)
  split
  · have hfirst := hbyte (ch.toNat / 4096 % 16 + 0xE0) (by omega)
    have hrange : 0xC2 ≤ (UInt8.ofNat (ch.toNat / 4096 % 16 + 0xE0)).toNat ∧
        (UInt8.ofNat (ch.toNat / 4096 % 16 + 0xE0)).toNat ≤ 0xF4 := by omega
    obtain ⟨pending, hopen, hspec⟩ := Pending.lead_spec hrange
    exact hlead _ pending 1 (by omega) hopen (by omega) (by omega) (by omega) (by omega)
  · have hfirst := hbyte (ch.toNat / 262144 % 8 + 0xF0) (by omega)
    have hrange : 0xC2 ≤ (UInt8.ofNat (ch.toNat / 262144 % 8 + 0xF0)).toNat ∧
        (UInt8.ofNat (ch.toNat / 262144 % 8 + 0xF0)).toNat ≤ 0xF4 := by omega
    obtain ⟨pending, hopen, hspec⟩ := Pending.lead_spec hrange
    exact hlead _ pending 2 (by omega) hopen (by omega) (by omega) (by omega) (by omega)

/-- **A text is read back from its bytes.** -/
theorem decodeLossy_encode (text : List Char) : decodeLossy (encode text) = text := by
  unfold decodeLossy
  induction text with
  | nil => rfl
  | cons ch text ih =>
      change decodeFrom none (String.utf8EncodeChar ch ++ encode text) = _
      rw [decodeFrom_utf8EncodeChar, ih]

/-- **A text of ASCII bytes is those bytes.** -/
theorem decodeLossy_of_ascii (hascii : ∀ byte ∈ bytes, byte.toNat < 0x80) :
    decodeLossy bytes = bytes.map Char.ofUInt8 := by
  induction bytes with
  | nil => rfl
  | cons byte bytes ih =>
      have hbyte : byte.toNat < 0x80 := hascii byte List.mem_cons_self
      have hopening : opening byte = ([Char.ofUInt8 byte], none) := if_pos hbyte
      change (opening byte).1 ++ decodeFrom (opening byte).2 bytes = _
      rw [hopening, List.map_cons]
      exact congrArg _ (ih fun other hother => hascii other (List.mem_cons_of_mem _ hother))

/-- What is open when a byte is read: a character above ASCII is given, or one stays open. -/
theorem decodeByte_of_not_ascii {opened : Option Pending}
    (hopen : opened ≠ none ∨ 0x80 ≤ byte.toNat) :
    (∃ ch ∈ (decodeByte byte opened).1, 0x80 ≤ ch.toNat) ∨ (decodeByte byte opened).2 ≠ none := by
  cases opened with
  | none =>
      have hbyte : ¬ byte.toNat < 0x80 := by
        rcases hopen with h | h
        · exact (h rfl).elim
        · omega
      rw [decodeByte, opening, if_neg hbyte]
      split
      · exact Or.inr nofun
      · exact Or.inl ⟨replacement, List.mem_singleton_self _, by decide⟩
  | some pending =>
      rw [decodeByte]
      split
      · rename_i hbyte
        have hnext := pending.next_above hbyte
        split
        · rename_i ch hch
          exact Or.inl ⟨ch, List.mem_singleton_self _, hnext ch hch⟩
        · exact Or.inr nofun
      · exact Or.inl ⟨replacement, List.mem_cons_self, by decide⟩

/-- **Only ASCII bytes give an ASCII text.** -/
theorem ascii_of_decodeFrom {opened : Option Pending}
    (hascii : ∀ ch ∈ decodeFrom opened bytes, ch.toNat < 0x80) :
    opened = none ∧ ∀ byte ∈ bytes, byte.toNat < 0x80 := by
  induction bytes generalizing opened with
  | nil =>
      cases opened with
      | none => exact ⟨rfl, nofun⟩
      | some pending => exact absurd (hascii replacement (List.mem_singleton_self _)) (by decide)
  | cons byte bytes ih =>
      have hsplit : decodeFrom opened (byte :: bytes) =
          (decodeByte byte opened).1 ++ decodeFrom (decodeByte byte opened).2 bytes := by
        cases opened <;> rfl
      rw [hsplit] at hascii
      obtain ⟨hclosed, hbytes⟩ := ih fun ch hch => hascii ch (List.mem_append_right _ hch)
      have hkept : ¬ (opened ≠ none ∨ 0x80 ≤ byte.toNat) := by
        intro hopen
        rcases decodeByte_of_not_ascii hopen with ⟨ch, hch, habove⟩ | hleft
        · exact absurd (hascii ch (List.mem_append_left _ hch)) (by omega)
        · exact hleft hclosed
      rw [not_or, not_not] at hkept
      refine ⟨hkept.1, List.forall_mem_cons.mpr ⟨by omega, hbytes⟩⟩

theorem toNat_ofUInt8 (byte : UInt8) : (Char.ofUInt8 byte).toNat = byte.toNat := rfl

theorem ofUInt8_injective : Function.Injective Char.ofUInt8 := by
  intro first second h
  exact UInt8.toNat_inj.mp (congrArg Char.toNat h)

/-- **Filtering a lossy text** by a predicate that keeps all above ASCII leaves an ASCII text
exactly when filtering its bytes does. -/
theorem filter_decodeLossy_eq_iff {keep : Char → Bool}
    (hkeep : ∀ ch, 0x80 ≤ ch.toNat → keep ch = true) {bytes kept : List UInt8}
    (hkept : ∀ byte ∈ kept, byte.toNat < 0x80) :
    (decodeLossy bytes).filter keep = kept.map Char.ofUInt8 ↔
      bytes.filter (keep ∘ Char.ofUInt8) = kept := by
  have hfilter : (∀ byte ∈ bytes, byte.toNat < 0x80) → (decodeLossy bytes).filter keep =
      (bytes.filter (keep ∘ Char.ofUInt8)).map Char.ofUInt8 := by
    intro hascii
    rw [decodeLossy_of_ascii hascii, List.filter_map]
  constructor
  · intro h
    have hascii : ∀ ch ∈ decodeLossy bytes, ch.toNat < 0x80 := by
      intro ch hch
      by_contra habove
      have hmem : ch ∈ kept.map Char.ofUInt8 := by
        rw [← h]
        exact List.mem_filter.mpr ⟨hch, hkeep ch (by omega)⟩
      obtain ⟨byte, hbyte, rfl⟩ := List.mem_map.mp hmem
      exact habove (hkept byte hbyte)
    rw [hfilter (ascii_of_decodeFrom hascii).2] at h
    exact ofUInt8_injective.list_map h
  · intro h
    have hascii : ∀ byte ∈ bytes, byte.toNat < 0x80 := by
      intro byte hbyte
      by_contra habove
      have hmem : byte ∈ kept := by
        rw [← h]
        exact List.mem_filter.mpr ⟨hbyte, hkeep _ (by rw [toNat_ofUInt8]; omega)⟩
      exact habove (hkept byte hmem)
    rw [hfilter hascii, h]

end Nosh.Lib.Utf8
