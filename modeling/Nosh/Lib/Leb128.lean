import Nosh.Lib.Postcard

/-!
# LEB128 numbers

What a sequence of bytes means as a LEB128 number, apart from any reader: every byte has seven bits
of the number, the lowest first, and its high bit says whether another byte follows. A number has
many encodings, since zeros may be added at its end.

## Main Results

* `IsLeb128.unique` — a stream begins with one encoding at most.
* `leb128Value_lt_iff` — an encoding of `k + 1` bytes is below `c * 128 ^ k` exactly if its last
  byte is below `c`.
* `isLeb128_writeVarint`, `leb128Value_writeVarint` — what `writeVarint` writes is an encoding of
  its number.
-/

namespace Nosh.Lib

variable {bytes : List UInt8}

/-- The high bit is set on all bytes but the last. -/
def IsLeb128 : List UInt8 → Prop
  | [] => False
  | [byte] => byte.toNat < 128
  | byte :: bytes => 128 ≤ byte.toNat ∧ IsLeb128 bytes

instance decidableIsLeb128 : (bytes : List UInt8) → Decidable (IsLeb128 bytes)
  | [] => inferInstanceAs (Decidable False)
  | [byte] => inferInstanceAs (Decidable (byte.toNat < 128))
  | byte :: next :: bytes =>
      have := decidableIsLeb128 (next :: bytes)
      inferInstanceAs (Decidable (128 ≤ byte.toNat ∧ IsLeb128 (next :: bytes)))

/-- The number that the bytes encode. -/
def leb128Value : List UInt8 → ℕ
  | [] => 0
  | byte :: bytes => byte.toNat % 128 + 128 * leb128Value bytes

theorem IsLeb128.ne_nil (h : IsLeb128 bytes) : bytes ≠ [] := by
  rintro rfl
  exact h

theorem isLeb128_cons_iff {byte : UInt8} :
    IsLeb128 (byte :: bytes) ↔
      byte.toNat < 128 ∧ bytes = [] ∨ 128 ≤ byte.toNat ∧ IsLeb128 bytes := by
  cases bytes with
  | nil =>
      constructor
      · exact fun h => .inl ⟨h, rfl⟩
      · rintro (⟨h, -⟩ | ⟨-, h⟩)
        · exact h
        · exact h.elim
  | cons next bytes =>
      constructor
      · exact fun h => .inr h
      · rintro (⟨-, h⟩ | h)
        · cases h
        · exact h

/-- An encoding at the beginning of a stream, by its first byte. -/
theorem exists_isLeb128_cons_iff {byte : UInt8} {stream rest : List UInt8}
    {p : List UInt8 → Prop} :
    (∃ bytes, byte :: stream = bytes ++ rest ∧ IsLeb128 bytes ∧ p bytes) ↔
      byte.toNat < 128 ∧ stream = rest ∧ p [byte] ∨
        128 ≤ byte.toNat ∧
          ∃ bytes, stream = bytes ++ rest ∧ IsLeb128 bytes ∧ p (byte :: bytes) := by
  constructor
  · rintro ⟨bytes, hstream, hleb, hp⟩
    cases bytes with
    | nil => exact hleb.elim
    | cons byte' bytes =>
        obtain ⟨rfl, rfl⟩ := List.cons.inj hstream
        rcases isLeb128_cons_iff.mp hleb with ⟨hlt, rfl⟩ | ⟨hle, hleb⟩
        · exact .inl ⟨hlt, rfl, hp⟩
        · exact .inr ⟨hle, bytes, rfl, hleb, hp⟩
  · rintro (⟨hlt, rfl, hp⟩ | ⟨hle, bytes, rfl, hleb, hp⟩)
    · exact ⟨[byte], rfl, hlt, hp⟩
    · exact ⟨byte :: bytes, rfl, isLeb128_cons_iff.mpr (.inr ⟨hle, hleb⟩), hp⟩

/-- All bytes but the last, and the last. -/
theorem isLeb128_concat_iff {last : UInt8} :
    IsLeb128 (bytes ++ [last]) ↔ (∀ byte ∈ bytes, 128 ≤ byte.toNat) ∧ last.toNat < 128 := by
  induction bytes with
  | nil => simp [IsLeb128]
  | cons byte bytes ih =>
      rw [List.cons_append, isLeb128_cons_iff, ih, List.forall_mem_cons, and_assoc]
      constructor
      · rintro (⟨-, h⟩ | h)
        · exact (List.append_ne_nil_of_right_ne_nil bytes (List.cons_ne_nil last []) h).elim
        · exact h
      · exact .inr

/-- **A stream begins with one encoding at most.** -/
theorem IsLeb128.unique {bytes' rest rest' : List UInt8} (h : IsLeb128 bytes) (h' : IsLeb128 bytes')
    (hstream : bytes ++ rest = bytes' ++ rest') : bytes = bytes' ∧ rest = rest' := by
  induction bytes generalizing bytes' with
  | nil => exact h.elim
  | cons byte bytes ih =>
      cases bytes' with
      | nil => exact h'.elim
      | cons byte' bytes' =>
          rw [List.cons_append, List.cons_append] at hstream
          obtain ⟨rfl, htail⟩ := List.cons.inj hstream
          rcases isLeb128_cons_iff.mp h with ⟨hlt, rfl⟩ | ⟨hle, h⟩
          · rcases isLeb128_cons_iff.mp h' with ⟨-, rfl⟩ | ⟨hle, -⟩
            · exact ⟨rfl, htail⟩
            · omega
          · rcases isLeb128_cons_iff.mp h' with ⟨hlt, -⟩ | ⟨-, h'⟩
            · omega
            · obtain ⟨rfl, hrest⟩ := ih h h' htail
              exact ⟨rfl, hrest⟩

theorem leb128Value_concat (bytes : List UInt8) (last : UInt8) :
    leb128Value (bytes ++ [last]) =
      leb128Value bytes + 128 ^ bytes.length * (last.toNat % 128) := by
  induction bytes with
  | nil => simp [leb128Value]
  | cons byte bytes ih =>
      rw [List.cons_append, leb128Value, ih, leb128Value, List.length_cons, Nat.pow_succ',
        Nat.mul_add, Nat.mul_assoc, Nat.add_assoc]

theorem leb128Value_lt (bytes : List UInt8) : leb128Value bytes < 128 ^ bytes.length := by
  induction bytes with
  | nil => exact Nat.one_pos
  | cons byte bytes ih =>
      rw [leb128Value, List.length_cons, Nat.pow_succ']
      omega

/-- The last byte decides whether the number is below `c * 128 ^ k`. -/
theorem leb128Value_lt_iff (bytes : List UInt8) {last : UInt8} (h : last.toNat < 128) (c : ℕ) :
    leb128Value (bytes ++ [last]) < c * 128 ^ bytes.length ↔ last.toNat < c := by
  have hlow := leb128Value_lt bytes
  rw [leb128Value_concat, Nat.mod_eq_of_lt h, Nat.mul_comm c]
  constructor
  · intro hlt
    exact Nat.lt_of_mul_lt_mul_left (Nat.lt_of_le_of_lt (Nat.le_add_left _ _) hlt)
  · intro hlt
    calc leb128Value bytes + 128 ^ bytes.length * last.toNat
        < 128 ^ bytes.length * (last.toNat + 1) := by rw [Nat.mul_succ]; omega
      _ ≤ 128 ^ bytes.length * c := Nat.mul_le_mul_left _ hlt

/-! ## What is written -/

theorem isLeb128_writeVarint {k n : ℕ} (h : n < 128 ^ (k + 1)) :
    IsLeb128 (writeVarint (k + 1) n) := by
  induction k generalizing n with
  | zero =>
      have hsmall : n < 128 := by omega
      rw [writeVarint, if_pos hsmall, IsLeb128, UInt8.toNat_ofNat']
      omega
  | succ k ih =>
      rw [writeVarint]
      split
      · rw [IsLeb128, UInt8.toNat_ofNat']
        omega
      · have hrest : n / 128 < 128 ^ (k + 1) := by
          rw [Nat.div_lt_iff_lt_mul (by decide), ← Nat.pow_succ]
          exact h
        refine isLeb128_cons_iff.mpr (.inr ⟨?_, ih hrest⟩)
        rw [UInt8.toNat_ofNat']
        omega

theorem leb128Value_writeVarint {k n : ℕ} (h : n < 128 ^ (k + 1)) :
    leb128Value (writeVarint (k + 1) n) = n := by
  induction k generalizing n with
  | zero =>
      have hsmall : n < 128 := by omega
      rw [writeVarint, if_pos hsmall, leb128Value, leb128Value, UInt8.toNat_ofNat']
      omega
  | succ k ih =>
      rw [writeVarint]
      split
      · rw [leb128Value, leb128Value, UInt8.toNat_ofNat']
        omega
      · have hrest : n / 128 < 128 ^ (k + 1) := by
          rw [Nat.div_lt_iff_lt_mul (by decide), ← Nat.pow_succ]
          exact h
        rw [leb128Value, ih hrest, UInt8.toNat_ofNat']
        omega

end Nosh.Lib
