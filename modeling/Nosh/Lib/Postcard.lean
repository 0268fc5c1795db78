import Mathlib.Algebra.Order.BigOperators.Group.List
import Mathlib.Algebra.Order.Ring.Nat
import Mathlib.Data.Int.Basic
import Mathlib.Data.List.Basic
import Mathlib.Data.Nat.Log

/-!
# The postcard wire format

A serializer in the manner of serde: each type carries its own bytes and its own
reader, and formats compose field by field.  The format is the documented one:
unsigned integers are LEB128 varints of bounded length, signed ones are zigzagged
first, strings and sequences carry their length in front, an option has a tag byte,
a byte stands for itself, and an enum starts with its variant index.

## Main results

* `readVarint_writeVarint` — bounded varints are read back, whatever follows them.
* `Postcard.de_ser` — the law of the class: **a value is read back from its bytes
  with nothing of the rest consumed**, as long as its bytes can be counted in 64
  bits.  The instances below prove it for each format from its parts.
* `Compact.pays` — a reader may accept other bytes than those that are written
  for a value, but **no shorter ones**.
-/

namespace Nosh.Lib

variable {k n : ℕ}

/-- A reader takes bytes from the front of the input, or fails. -/
abbrev Reader (α : Type) := StateT (List UInt8) Option α

theorem Reader.bind_of_eq {α β : Type} {x : Reader α} {f : α → Reader β} {s s' : List UInt8}
    {a : α} (h : x s = some (a, s')) : (x >>= f) s = f a s' := by
  change (x s >>= fun p => f p.1 p.2) = f a s'
  rw [h]
  rfl

@[simp] theorem Reader.pure_apply {α : Type} (a : α) (s : List UInt8) :
    (pure a : Reader α) s = some (a, s) := rfl

/-- What the reader takes for a value is at least `cost` of that value. -/
def Reader.Pays {α : Type} (x : Reader α) (cost : α → ℕ) : Prop :=
  ∀ ⦃s rest : List UInt8⦄ ⦃a : α⦄, x s = some (a, rest) → cost a + rest.length ≤ s.length

theorem Reader.Pays.pure {α : Type} {cost : α → ℕ} {a : α} (h : cost a = 0) :
    (pure a : Reader α).Pays cost := by
  rintro s rest b hread
  cases hread
  omega

theorem Reader.Pays.failure {α : Type} {cost : α → ℕ} : (failure : Reader α).Pays cost := by
  rintro s rest a ⟨⟩

/-- What is left to pay after the first reader is paid by the second. -/
theorem Reader.Pays.bind {α β : Type} {x : Reader α} {f : α → Reader β} {cost : β → ℕ}
    {first : α → ℕ} (hx : x.Pays first) (hf : ∀ a, (f a).Pays fun b => cost b - first a) :
    (x >>= f).Pays cost := by
  intro s rest b hread
  obtain ⟨⟨a, mid⟩, hfirst, hsecond⟩ := Option.bind_eq_some_iff.mp hread
  have hpaid := hx hfirst
  have hleft := hf a hsecond
  dsimp only at hleft
  omega

/-! ## Bytes and varints -/

/-- Take one byte. -/
def readByte : Reader UInt8
  | [] => none
  | b :: s => some (b, s)

/-- Take `n` bytes. -/
def readBytes (n : ℕ) : Reader (List UInt8) := fun s =>
  if n ≤ s.length then some (s.take n, s.drop n) else none

@[simp] theorem readByte_cons (b : UInt8) (s : List UInt8) : readByte (b :: s) = some (b, s) := rfl

@[simp] theorem readBytes_append (bytes s : List UInt8) :
    readBytes bytes.length (bytes ++ s) = some (bytes, s) := by
  simp [readBytes]

/-- The LEB128 bytes of `n`, at most `k` of them: seven bits a byte, the lowest first,
the high bit set on all but the last. -/
def writeVarint : ℕ → ℕ → List UInt8
  | 0, _ => []
  | k + 1, n =>
      if n < 128 then [UInt8.ofNat n]
      else UInt8.ofNat (n % 128 + 128) :: writeVarint k (n / 128)

/-- Read a varint of at most `k` bytes, of which the last possible one is at most
`last`: what does not fit the integer type is refused. -/
def readVarint (last : ℕ) : ℕ → Reader ℕ
  | 0 => failure
  | k + 1 => do
      let b ← readByte
      if b.toNat < 128 then
        if k = 0 ∧ last < b.toNat then failure else return b.toNat
      else return b.toNat % 128 + 128 * (← readVarint last k)

theorem writeVarint_ne_nil (k n : ℕ) : writeVarint (k + 1) n ≠ [] := by
  rw [writeVarint]
  split <;> simp

/-- **Varints are read back.**  `k + 1` bytes with a last byte of at most `last` hold
the numbers below `(last + 1) * 128 ^ k`. -/
theorem readVarint_writeVarint {last : ℕ} (hlast : last < 128) (hn : n < (last + 1) * 128 ^ k)
    (s : List UInt8) : readVarint last (k + 1) (writeVarint (k + 1) n ++ s) = some (n, s) := by
  induction k generalizing n with
  | zero =>
      have hsmall : n < 128 := by
        omega
      have hbyte : (UInt8.ofNat n).toNat = n := by
        rw [UInt8.toNat_ofNat']
        omega
      rw [writeVarint, if_pos hsmall, readVarint, List.singleton_append,
        Reader.bind_of_eq (readByte_cons _ s), hbyte, if_pos hsmall, if_neg (by omega)]
      rfl
  | succ k ih =>
      rw [writeVarint, readVarint]
      by_cases hsmall : n < 128
      · have hbyte : (UInt8.ofNat n).toNat = n := by
          rw [UInt8.toNat_ofNat']
          omega
        rw [if_pos hsmall, List.singleton_append, Reader.bind_of_eq (readByte_cons _ s), hbyte,
          if_pos hsmall, if_neg (by omega)]
        rfl
      · have hbyte : (UInt8.ofNat (n % 128 + 128)).toNat = n % 128 + 128 := by
          rw [UInt8.toNat_ofNat']
          omega
        have hrest : n / 128 < (last + 1) * 128 ^ k := by
          rw [Nat.div_lt_iff_lt_mul (by decide), Nat.mul_assoc, ← Nat.pow_succ]
          exact hn
        rw [if_neg hsmall, List.cons_append, Reader.bind_of_eq (readByte_cons _ _), hbyte,
          if_neg (by omega), Reader.bind_of_eq (ih hrest), Reader.pure_apply]
        congr 2
        omega

theorem log2_lt_seven (h : n < 128) : n.log2 < 7 := by
  by_cases hzero : n = 0
  · subst hzero
    simp
  · exact (Nat.log2_lt hzero).mpr h

/-- A varint takes a byte for every seven bits. -/
theorem length_writeVarint (h : n < 128 ^ (k + 1)) :
    (writeVarint (k + 1) n).length = n.log2 / 7 + 1 := by
  induction k generalizing n with
  | zero =>
      have hsmall : n < 128 := by
        omega
      have hlog := log2_lt_seven hsmall
      rw [writeVarint, if_pos hsmall, List.length_singleton]
      omega
  | succ k ih =>
      rw [writeVarint]
      by_cases hsmall : n < 128
      · have hlog := log2_lt_seven hsmall
        rw [if_pos hsmall, List.length_singleton]
        omega
      · have hrest : n / 128 < 128 ^ (k + 1) := by
          rw [Nat.div_lt_iff_lt_mul (by decide), ← Nat.pow_succ]
          exact h
        have hlog : (n / 128).log2 = n.log2 - 7 := by
          rw [Nat.log2_eq_log_two, Nat.log2_eq_log_two]
          exact Nat.log_div_base_pow 2 n 7
        have hlarge : 7 ≤ n.log2 := (Nat.le_log2 (by omega)).mpr (Nat.le_of_not_lt hsmall)
        rw [if_neg hsmall, List.length_cons, ih hrest, hlog]
        omega

/-- A smaller number takes no more bytes. -/
theorem length_writeVarint_mono {m : ℕ} (h : m ≤ n) :
    (writeVarint k m).length ≤ (writeVarint k n).length := by
  induction k generalizing m n with
  | zero => rfl
  | succ k ih =>
      have hrest := ih (Nat.div_le_div_right h : m / 128 ≤ n / 128)
      unfold writeVarint
      split <;> split <;> simp only [List.length_cons, List.length_nil] <;> omega

/-- A varint takes at most the bytes of its type. -/
theorem length_writeVarint_le (k n : ℕ) : (writeVarint k n).length ≤ k := by
  induction k generalizing n with
  | zero => exact Nat.le_refl 0
  | succ k ih =>
      have hrest := ih (n / 128)
      unfold writeVarint
      split <;> simp only [List.length_cons, List.length_nil] <;> omega

theorem readByte_pays : readByte.Pays fun _ => 1 := by
  intro s rest b hread
  cases s with
  | nil => cases hread
  | cons b s =>
      cases hread
      rw [List.length_cons, Nat.add_comm]

theorem readBytes_bind_pays {β : Type} {f : List UInt8 → Reader β} {cost : β → ℕ}
    (hf : ∀ bytes, bytes.length = n → (f bytes).Pays fun b => cost b - n) :
    (readBytes n >>= f).Pays cost := by
  intro s rest b hread
  obtain ⟨⟨bytes, mid⟩, hbytes, hread⟩ := Option.bind_eq_some_iff.mp hread
  unfold readBytes at hbytes
  split at hbytes
  · rename_i hn
    cases hbytes
    have hleft := hf (s.take n) (List.length_take_of_le hn) hread
    rw [List.length_drop] at hleft
    dsimp only at hleft
    omega
  · cases hbytes

/-- A varint may be padded, but not shortened. -/
theorem readVarint_pays (last k : ℕ) :
    (readVarint last k).Pays fun n => (writeVarint k n).length := by
  induction k with
  | zero => exact .failure
  | succ k ih =>
      unfold readVarint
      refine readByte_pays.bind fun b => ?_
      split
      · rename_i hsmall
        split
        · exact .failure
        · refine .pure ?_
          rw [writeVarint, if_pos hsmall, List.length_singleton]
      · refine ih.bind fun n => .pure ?_
        have hrest : (b.toNat % 128 + 128 * n) / 128 = n := by
          omega
        rw [writeVarint, hrest]
        split
        · rw [List.length_singleton, Nat.sub_self, Nat.zero_sub]
        · rw [List.length_cons]
          omega

/-! ## Serializable types -/

/-- A type with a wire format. -/
class Postcard (α : Type) where
  /-- The bytes of a value. -/
  ser : α → List UInt8
  /-- Read a value. -/
  de : Reader α
  /-- Every value takes at least one byte, so counts are bounded by sizes. -/
  ser_ne_nil : ∀ a, ser a ≠ []
  /-- A value is read back from its bytes. -/
  de_ser : ∀ a s, (ser a).length < 2 ^ 64 → de (ser a ++ s) = some (a, s)

namespace Postcard

variable {α β : Type} [Postcard α]

/-- Reading a field that was written. -/
theorem bind_de_ser {f : α → Reader β} {a : α} {s : List UInt8} (h : (ser a).length < 2 ^ 64) :
    (de >>= f) (ser a ++ s) = f a s :=
  Reader.bind_of_eq (de_ser a s h)

/-- `u8`: the byte itself. -/
instance : Postcard UInt8 where
  ser b := [b]
  de := readByte
  ser_ne_nil b := by simp
  de_ser b s _ := rfl

/-- `u16`: a varint of at most three bytes. -/
instance : Postcard UInt16 where
  ser n := writeVarint 3 n.toNat
  de := return UInt16.ofNat (← readVarint 3 3)
  ser_ne_nil n := writeVarint_ne_nil 2 n.toNat
  de_ser n s _ := by
    have hn : n.toNat < (3 + 1) * 128 ^ 2 := n.toNat_lt
    rw [Reader.bind_of_eq (readVarint_writeVarint (by decide) hn s), Reader.pure_apply,
      UInt16.ofNat_toNat]

/-- `u32`: a varint of at most five bytes. -/
instance : Postcard UInt32 where
  ser n := writeVarint 5 n.toNat
  de := return UInt32.ofNat (← readVarint 15 5)
  ser_ne_nil n := writeVarint_ne_nil 4 n.toNat
  de_ser n s _ := by
    have hn : n.toNat < (15 + 1) * 128 ^ 4 := n.toNat_lt
    rw [Reader.bind_of_eq (readVarint_writeVarint (by decide) hn s), Reader.pure_apply,
      UInt32.ofNat_toNat]

/-- `u64`, and `usize` on a 64-bit machine: a varint of at most ten bytes. -/
instance : Postcard UInt64 where
  ser n := writeVarint 10 n.toNat
  de := return UInt64.ofNat (← readVarint 1 10)
  ser_ne_nil n := writeVarint_ne_nil 9 n.toNat
  de_ser n s _ := by
    have hn : n.toNat < (1 + 1) * 128 ^ 9 := n.toNat_lt
    rw [Reader.bind_of_eq (readVarint_writeVarint (by decide) hn s), Reader.pure_apply,
      UInt64.ofNat_toNat]

theorem length_ser_u16 (n : UInt16) : (ser n).length = n.toNat.log2 / 7 + 1 := by
  have hn := n.toNat_lt
  exact length_writeVarint (by omega)

theorem length_ser_u64 (n : UInt64) : (ser n).length = n.toNat.log2 / 7 + 1 := by
  have hn := n.toNat_lt
  exact length_writeVarint (by omega)

/-- `i32`: zigzagged to a `u32`. -/
def zigzag (n : ℤ) : ℕ := if 0 ≤ n then (2 * n).toNat else (-2 * n - 1).toNat

/-- The inverse of `zigzag`. -/
def unzigzag (n : ℕ) : ℤ := if n % 2 = 0 then (n / 2 : ℕ) else -((n / 2 : ℕ) : ℤ) - 1

theorem unzigzag_zigzag (n : ℤ) : unzigzag (zigzag n) = n := by
  unfold unzigzag zigzag
  split <;> split <;> omega

instance : Postcard Int32 where
  ser n := ser (UInt32.ofNat (zigzag n.toInt))
  de := return Int32.ofInt (unzigzag (← (de : Reader UInt32)).toNat)
  ser_ne_nil n := ser_ne_nil _
  de_ser n s h := by
    have hlow := n.le_toInt
    have hhigh := n.toInt_lt
    have hfit : zigzag n.toInt < 2 ^ 32 := by
      unfold zigzag
      split <;> omega
    have hback : (UInt32.ofNat (zigzag n.toInt)).toNat = zigzag n.toInt := by
      rw [UInt32.toNat_ofNat']
      exact Nat.mod_eq_of_lt hfit
    rw [bind_de_ser h, Reader.pure_apply, hback, unzigzag_zigzag, Int32.ofInt_toInt]

instance : Postcard Bool where
  ser b := [if b then 1 else 0]
  de := do
    match ← readByte with
    | 0 => return false
    | 1 => return true
    | _ => failure
  ser_ne_nil b := by simp
  de_ser b s _ := by cases b <;> rfl

/-- An option: a tag byte, and the value if there is one. -/
instance : Postcard (Option α) where
  ser
    | none => [0]
    | some a => 1 :: ser a
  de := do
    match ← readByte with
    | 0 => return none
    | 1 => return some (← de)
    | _ => failure
  ser_ne_nil a := by cases a <;> simp
  de_ser a s h := by
    cases a with
    | none => rfl
    | some a =>
        have hlen : (ser a).length < 2 ^ 64 := by
          simp only [List.length_cons] at h
          omega
        change (do return some (← de) : Reader (Option α)) (ser a ++ s) = _
        rw [bind_de_ser hlen]
        rfl

/-- A pair: one field after the other. -/
instance [Postcard β] : Postcard (α × β) where
  ser p := ser p.1 ++ ser p.2
  de := return (← de, ← de)
  ser_ne_nil p := by simp [ser_ne_nil]
  de_ser p s h := by
    rw [List.length_append] at h
    rw [List.append_assoc, bind_de_ser (by omega), bind_de_ser (by omega)]
    rfl

/-- Read `n` values. -/
def readMany : ℕ → Reader (List α)
  | 0 => return []
  | n + 1 => return (← de) :: (← readMany n)

theorem length_le_ser (as : List α) : as.length ≤ (as.flatMap ser).length := by
  induction as with
  | nil => simp
  | cons a as ih =>
      have hpos := List.length_pos_iff.mpr (ser_ne_nil a)
      simp only [List.length_cons, List.flatMap_cons, List.length_append]
      omega

theorem readMany_ser (as : List α) (s : List UInt8) (h : (as.flatMap ser).length < 2 ^ 64) :
    readMany as.length (as.flatMap ser ++ s) = some (as, s) := by
  induction as with
  | nil => rfl
  | cons a as ih =>
      rw [List.flatMap_cons, List.length_append] at h
      rw [List.flatMap_cons, List.append_assoc, List.length_cons, readMany,
        bind_de_ser (by omega), Reader.bind_of_eq (ih (by omega))]
      rfl

/-- A sequence: the count, and the values. -/
instance : Postcard (List α) where
  ser as := ser (UInt64.ofNat as.length) ++ as.flatMap ser
  de := do readMany (← (de : Reader UInt64)).toNat
  ser_ne_nil as := by simp [ser_ne_nil]
  de_ser as s h := by
    rw [List.length_append] at h
    have hcount := length_le_ser as
    have hback : (UInt64.ofNat as.length).toNat = as.length := by
      rw [UInt64.toNat_ofNat']
      exact Nat.mod_eq_of_lt (by omega)
    rw [List.append_assoc, bind_de_ser (by omega), hback, readMany_ser as s (by omega)]

theorem length_ser_list (as : List α) :
    (ser as).length =
      (ser (UInt64.ofNat as.length)).length + (as.map fun a => (ser a).length).sum := by
  change (ser (UInt64.ofNat as.length) ++ as.flatMap ser).length = _
  rw [List.length_append, List.length_flatMap]

/-- A sequence takes at most ten bytes for its count, and then what its values take. -/
theorem length_ser_list_le {as : List α} {size : ℕ} (h : ∀ a ∈ as, (ser a).length ≤ size) :
    (ser as).length ≤ 10 + as.length * size := by
  have hcount : (ser (UInt64.ofNat as.length)).length ≤ 10 := length_writeVarint_le 10 _
  have hvalues := List.sum_le_card_nsmul (as.map fun a => (ser a).length) size (by simpa using h)
  rw [List.length_map, Nat.nsmul_eq_mul] at hvalues
  rw [length_ser_list]
  exact Nat.add_le_add hcount hvalues

theorem length_ser_replicate (n : ℕ) (a : α) :
    (ser (List.replicate n a)).length = (ser (UInt64.ofNat n)).length + n * (ser a).length := by
  rw [length_ser_list, List.length_replicate, List.map_replicate, List.sum_replicate_nat]

/-- A byte array `[u8; n]`: the bytes, without a count. -/
instance (n : ℕ) [NeZero n] : Postcard { bytes : List UInt8 // bytes.length = n } where
  ser bytes := bytes.val
  de := fun s =>
    if h : n ≤ s.length then
      some (⟨s.take n, by rw [List.length_take, Nat.min_eq_left h]⟩, s.drop n)
    else none
  ser_ne_nil bytes := by
    rw [← List.length_pos_iff, bytes.property]
    exact Nat.pos_of_neZero n
  de_ser bytes s _ := by
    obtain ⟨bytes, rfl⟩ := bytes
    simp

/-- The UTF-8 bytes of a text. -/
def utf8Bytes (text : String) : List UInt8 := text.toUTF8.data.toList

/-- The text of UTF-8 bytes. -/
def ofUtf8Bytes (bytes : List UInt8) : Option String := String.fromUTF8? ⟨bytes.toArray⟩

theorem ofUtf8Bytes_utf8Bytes (text : String) : ofUtf8Bytes (utf8Bytes text) = some text := by
  change (if h : text.toByteArray.IsValidUTF8 then some (String.fromUTF8 text.toByteArray h)
    else none) = some text
  rw [dif_pos text.isValidUTF8]
  rfl

/-- A text: its length in bytes, and its UTF-8 bytes. -/
instance : Postcard String where
  ser text := ser (UInt64.ofNat (utf8Bytes text).length) ++ utf8Bytes text
  de := do
    let bytes ← readBytes (← (de : Reader UInt64)).toNat
    match ofUtf8Bytes bytes with
    | some text => return text
    | none => failure
  ser_ne_nil text := by simp [ser_ne_nil]
  de_ser text s h := by
    rw [List.length_append] at h
    have hback : (UInt64.ofNat (utf8Bytes text).length).toNat = (utf8Bytes text).length := by
      rw [UInt64.toNat_ofNat']
      exact Nat.mod_eq_of_lt (by omega)
    rw [List.append_assoc, bind_de_ser (by omega), hback,
      Reader.bind_of_eq (readBytes_append _ s), ofUtf8Bytes_utf8Bytes]
    rfl

theorem length_ser_string (text : String) :
    (ser text).length =
      (ser (UInt64.ofNat (utf8Bytes text).length)).length + (utf8Bytes text).length :=
  List.length_append

theorem utf8Bytes_ofList (chars : List Char) :
    utf8Bytes (String.ofList chars) = chars.flatMap String.utf8EncodeChar := by
  unfold utf8Bytes
  rw [String.toUTF8_eq_toByteArray, String.toByteArray_ofList]
  exact List.toList_data_toByteArray

theorem length_utf8Bytes_ofList (chars : List Char) :
    (utf8Bytes (String.ofList chars)).length = (chars.map Char.utf8Size).sum := by
  change (String.ofList chars).utf8ByteSize = _
  induction chars with
  | nil => rfl
  | cons ch chars ih => simp [String.ofList_cons, ih]

theorem length_utf8Bytes_singleton (ch : Char) :
    (utf8Bytes (String.singleton ch)).length = ch.utf8Size := by
  change (String.singleton ch).utf8ByteSize = ch.utf8Size
  simp

/-- A character: the text of that one character, of at most four bytes. -/
instance : Postcard Char where
  ser ch := ser (String.singleton ch)
  de := do
    let size := (← (de : Reader UInt64)).toNat
    if 4 < size then failure
    let bytes ← readBytes size
    match (ofUtf8Bytes bytes).bind fun text => text.toList.head? with
    | some ch => return ch
    | none => failure
  ser_ne_nil ch := ser_ne_nil _
  de_ser ch s h := by
    have hlen := length_utf8Bytes_singleton ch
    have hsize := ch.utf8Size_le_four
    have hback : (UInt64.ofNat (utf8Bytes (String.singleton ch)).length).toNat =
        (utf8Bytes (String.singleton ch)).length := by
      rw [UInt64.toNat_ofNat']
      exact Nat.mod_eq_of_lt (by omega)
    have hparts : (ser (UInt64.ofNat (utf8Bytes (String.singleton ch)).length)).length +
        (utf8Bytes (String.singleton ch)).length < 2 ^ 64 := by
      rw [← List.length_append]
      exact h
    change (_ >>= _ : Reader Char) ((ser (UInt64.ofNat _) ++ utf8Bytes _) ++ s) = _
    rw [List.append_assoc, bind_de_ser (by omega), hback, if_neg (by omega)]
    change (_ >>= _ : Reader Char) _ = _
    rw [Reader.bind_of_eq (readBytes_append _ s), ofUtf8Bytes_utf8Bytes]
    simp

theorem length_ser_char_le (ch : Char) : (ser ch).length ≤ 5 := by
  have hsize := ch.utf8Size_le_four
  have hcount : (ser (UInt64.ofNat 4)).length = 1 := rfl
  have hmono : (ser (UInt64.ofNat ch.utf8Size)).length ≤ (ser (UInt64.ofNat 4)).length := by
    refine length_writeVarint_mono ?_
    rw [UInt64.toNat_ofNat', Nat.mod_eq_of_lt (by omega)]
    exact hsize
  change (ser (String.singleton ch)).length ≤ 5
  rw [length_ser_string, length_utf8Bytes_singleton]
  omega

/-! ## Other bytes for a value -/

/-- What is read for a value takes at least as many bytes as the value has. -/
class Compact (α : Type) [Postcard α] : Prop where
  pays : (de : Reader α).Pays fun a => (ser a).length

instance : Compact UInt8 := ⟨readByte_pays⟩

instance : Compact UInt16 where
  pays := (readVarint_pays 3 3).bind fun n => .pure <| Nat.sub_eq_zero_of_le <|
    length_writeVarint_mono <| by
      rw [UInt16.toNat_ofNat']
      exact Nat.mod_le n _

instance : Compact UInt32 where
  pays := (readVarint_pays 15 5).bind fun n => .pure <| Nat.sub_eq_zero_of_le <|
    length_writeVarint_mono <| by
      rw [UInt32.toNat_ofNat']
      exact Nat.mod_le n _

instance : Compact UInt64 where
  pays := (readVarint_pays 1 10).bind fun n => .pure <| Nat.sub_eq_zero_of_le <|
    length_writeVarint_mono <| by
      rw [UInt64.toNat_ofNat']
      exact Nat.mod_le n _

theorem zigzag_unzigzag (n : ℕ) : zigzag (unzigzag n) = n := by
  unfold unzigzag zigzag
  split <;> split <;> omega

instance : Compact Int32 where
  pays := Compact.pays.bind fun n => .pure <| by
    have hn := n.toNat_lt
    have hback : (Int32.ofInt (unzigzag n.toNat)).toInt = unzigzag n.toNat := by
      refine Int32.toInt_ofInt_of_le ?_ ?_ <;>
        unfold unzigzag <;> split <;> omega
    change (ser (UInt32.ofNat (zigzag (Int32.ofInt (unzigzag n.toNat)).toInt))).length - _ = 0
    rw [hback, zigzag_unzigzag, UInt32.ofNat_toNat, Nat.sub_self]

instance : Compact Bool where
  pays := readByte_pays.bind fun tag => by
    split
    · exact .pure rfl
    · exact .pure rfl
    · exact .failure

section

variable [Compact α]

instance : Compact (Option α) where
  pays := readByte_pays.bind fun tag => by
    split
    · exact .pure rfl
    · refine Compact.pays.bind fun a => .pure ?_
      change (ser a).length + 1 - 1 - (ser a).length = 0
      omega
    · exact .failure

instance [Postcard β] [Compact β] : Compact (α × β) where
  pays := Compact.pays.bind fun a => Compact.pays.bind fun b => .pure <| by
    change (ser a ++ ser b).length - (ser a).length - (ser b).length = 0
    rw [List.length_append]
    omega

theorem readMany_eq_some {s rest : List UInt8} {as : List α} (h : readMany n s = some (as, rest)) :
    as.length = n ∧ (as.flatMap ser).length + rest.length ≤ s.length := by
  induction n generalizing s as with
  | zero =>
      cases h
      exact ⟨rfl, (Nat.zero_add _).le⟩
  | succ n ih =>
      obtain ⟨⟨a, mid⟩, hfirst, h⟩ := Option.bind_eq_some_iff.mp h
      obtain ⟨⟨tail, left⟩, hmany, h⟩ := Option.bind_eq_some_iff.mp h
      cases h
      obtain ⟨hcount, hbytes⟩ := ih hmany
      have hpaid := Compact.pays hfirst
      dsimp only at hpaid
      refine ⟨congrArg Nat.succ hcount, ?_⟩
      rw [List.flatMap_cons, List.length_append]
      omega

instance : Compact (List α) where
  pays := Compact.pays.bind fun count => by
    intro s rest as hread
    obtain ⟨hcount, hbytes⟩ := readMany_eq_some hread
    change (ser (UInt64.ofNat as.length) ++ as.flatMap ser).length - _ + _ ≤ _
    rw [hcount, UInt64.ofNat_toNat, List.length_append, Nat.add_sub_cancel_left]
    exact hbytes

end

instance (n : ℕ) [NeZero n] : Compact { bytes : List UInt8 // bytes.length = n } where
  pays := by
    intro s rest bytes hread
    change (if h : n ≤ s.length then _ else none) = _ at hread
    split at hread
    · cases hread
      change (s.take n).length + (s.drop n).length ≤ s.length
      rw [← List.length_append, List.take_append_drop]
    · cases hread

theorem utf8Bytes_of_ofUtf8Bytes {bytes : List UInt8} {text : String}
    (h : ofUtf8Bytes bytes = some text) : utf8Bytes text = bytes := by
  unfold ofUtf8Bytes String.fromUTF8? at h
  split at h
  · cases h
    rfl
  · cases h

instance : Compact String where
  pays := Compact.pays.bind fun count => readBytes_bind_pays fun bytes hcount => by
    split
    · rename_i text htext
      refine .pure ?_
      rw [length_ser_string, utf8Bytes_of_ofUtf8Bytes htext, hcount, UInt64.ofNat_toNat]
      omega
    · exact .failure

/-- The first character of a text takes at most the bytes of the text. -/
theorem utf8Size_le_of_head? {text : String} {ch : Char} (h : text.toList.head? = some ch) :
    ch.utf8Size ≤ (utf8Bytes text).length := by
  obtain ⟨chars, hchars⟩ := List.head?_eq_some_iff.mp h
  rw [← String.ofList_toList (s := text), hchars, length_utf8Bytes_ofList, List.map_cons,
    List.sum_cons]
  exact Nat.le_add_right _ _

instance : Compact Char where
  pays := Compact.pays.bind fun count => by
    dsimp only
    split
    · exact .failure
    · refine readBytes_bind_pays fun bytes hcount => ?_
      split
      · rename_i ch hhead
        obtain ⟨text, htext, hfirst⟩ := Option.bind_eq_some_iff.mp hhead
        have hsize := utf8Size_le_of_head? hfirst
        rw [utf8Bytes_of_ofUtf8Bytes htext, hcount] at hsize
        have hcost : (ser (UInt64.ofNat ch.utf8Size)).length ≤ (ser count).length := by
          refine length_writeVarint_mono ?_
          rw [UInt64.toNat_ofNat']
          exact (Nat.mod_le _ _).trans hsize
        refine .pure ?_
        change (ser (String.singleton ch)).length - _ - _ = 0
        rw [length_ser_string, length_utf8Bytes_singleton]
        omega
      · exact .failure

end Postcard

end Nosh.Lib
