import Mathlib.Data.Nat.Basic

/-!
# The parser of a terminal

What a terminal is told, apart from what it makes of it: printable characters and control sequences
with their numbers and their final character. Other control characters and sequences are ignored.

## Main Definitions

* `Command` — what the parser hands on
* `Parse.step`, `Parse.run` — the parser, a character and a text at a time

## Main Results

* `Parse.run_csi` — a control sequence is handed on with the numbers that its decimals spell.
-/

namespace Nosh.Lib.Vt

/-- Where the parser is in a control sequence: the numbers before the last `;`, and the one that is
being read. -/
inductive Parse
  | ground
  | escape
  | csi (params : List ℕ) (current : ℕ)
  deriving DecidableEq, Repr

/-- A control character: C0, DEL or C1. -/
def IsControl (ch : Char) : Prop := ch.toNat < 0x20 ∨ 0x7f ≤ ch.toNat ∧ ch.toNat < 0xa0

instance (ch : Char) : Decidable (IsControl ch) := inferInstanceAs (Decidable (_ ∨ _ ∧ _))

/-- A character that ends a control sequence. -/
def IsFinal (ch : Char) : Prop := 0x40 ≤ ch.toNat ∧ ch.toNat ≤ 0x7e

instance (ch : Char) : Decidable (IsFinal ch) := inferInstanceAs (Decidable (_ ∧ _))

/-- What the parser hands on. -/
inductive Command
  | print (ch : Char)
  | csi (params : List ℕ) (final : Char)
  deriving DecidableEq, Repr

namespace Parse

/-- One character: where the parser is then, and what the character completes. -/
def step : Parse → Char → Parse × List Command
  | .ground, ch =>
      if ch = '\x1b' then (.escape, [])
      else if IsControl ch then (.ground, [])
      else (.ground, [.print ch])
  | .escape, ch => if ch = '[' then (.csi [] 0, []) else (.ground, [])
  | .csi params current, ch =>
      if ch.isDigit then (.csi params (current * 10 + (ch.toNat - '0'.toNat)), [])
      -- a parameter without digits reads as 0
      else if ch = ';' then (.csi (params ++ [current]) 0, [])
      else if IsFinal ch then (.ground, [.csi (params ++ [current]) ch])
      else (.ground, [])

/-- A text. -/
def run : Parse → List Char → Parse × List Command
  | p, [] => (p, [])
  | p, ch :: text => ((run (p.step ch).1 text).1, (p.step ch).2 ++ (run (p.step ch).1 text).2)

theorem run_append (p : Parse) (text text' : List Char) :
    p.run (text ++ text') =
      (((p.run text).1.run text').1, (p.run text).2 ++ ((p.run text).1.run text').2) := by
  induction text generalizing p with
  | nil => rfl
  | cons ch text ih => rw [List.cons_append, run, ih, run, List.append_assoc]

theorem run_singleton (p : Parse) (ch : Char) : p.run [ch] = p.step ch := by
  rw [run, run, List.append_nil]

/-- A printable character, between control sequences. -/
theorem run_print {ch : Char} (hch : ¬ IsControl ch) :
    ground.run [ch] = (.ground, [.print ch]) := by
  have hesc : ch ≠ '\x1b' := by
    rintro rfl
    exact hch (by decide)
  rw [run_singleton, step, if_neg hesc, if_neg hch]

/-- The digits of a number. -/
theorem run_digits (params : List ℕ) {digits : List Char}
    (hdigits : ∀ ch ∈ digits, ch.isDigit = true) (current : ℕ) :
    (csi params current).run digits = (.csi params (Nat.ofDigitChars 10 digits current), []) := by
  induction digits generalizing current with
  | nil => rfl
  | cons ch digits ih =>
      obtain ⟨hch, hrest⟩ := List.forall_mem_cons.mp hdigits
      have hstep : (csi params current).step ch =
          (.csi params (10 * current + (ch.toNat - '0'.toNat)), []) := by
        rw [step, if_pos hch, Nat.mul_comm]
      rw [run, hstep, ih hrest, Nat.ofDigitChars_cons]
      rfl

theorem run_toDigits (params : List ℕ) (n : ℕ) :
    (csi params 0).run (Nat.toDigits 10 n) = (.csi params n, []) := by
  rw [run_digits params fun ch hch => Nat.isDigit_of_mem_toDigits (by decide) le_rfl hch,
    Nat.ofDigitChars_ten_toDigits]

/-- The other numbers, each after a `;`, and the final character. -/
theorem run_params (params : List ℕ) (current : ℕ) (more : List ℕ) {final : Char}
    (hfinal : IsFinal final) :
    (csi params current).run ((more.flatMap fun n => ';' :: Nat.toDigits 10 n) ++ [final]) =
      (.ground, [.csi (params ++ current :: more) final]) := by
  induction more generalizing params current with
  | nil =>
      have hdigit : ¬ final.isDigit = true := by
        rw [Char.isDigit_iff_toNat]
        intro h
        have hnine : '9'.toNat = 0x39 := rfl
        have hlow := hfinal.1
        omega
      have hsemi : final ≠ ';' := by
        rintro rfl
        exact absurd hfinal (by decide)
      rw [List.flatMap_nil, List.nil_append, run_singleton, step, if_neg hdigit, if_neg hsemi,
        if_pos hfinal]
  | cons n more ih =>
      have hsemi : (csi params current).run [';'] = (.csi (params ++ [current]) 0, []) := rfl
      have hparams : params ++ current :: n :: more = (params ++ [current]) ++ n :: more := by
        rw [List.append_assoc, List.singleton_append]
      rw [hparams, ← ih, List.flatMap_cons, ← List.singleton_append, List.append_assoc,
        List.append_assoc, run_append, hsemi, run_append, run_toDigits]
      rfl

/-- **A control sequence** is handed on with the numbers that its decimals spell. -/
theorem run_csi (n : ℕ) (more : List ℕ) {final : Char} (hfinal : IsFinal final) :
    ground.run (['\x1b', '['] ++ (Nat.toDigits 10 n ++
      ((more.flatMap fun n => ';' :: Nat.toDigits 10 n) ++ [final]))) =
        (.ground, [.csi (n :: more) final]) := by
  have hopen : ground.run ['\x1b', '['] = (.csi [] 0, []) := rfl
  rw [run_append, hopen, run_append, run_toDigits, run_params [] n more hfinal]
  rfl

end Parse

end Nosh.Lib.Vt
