import ObjyDb.Js.Utf8

/-!
# Base64Url — bytes as letters of the base64url alphabet

The codec of the token library, on 32-bit words as the bit operators of JavaScript compute: three
bytes are packed into one word and cut into letters of six bits; reading shifts the letters into an
accumulator that is never cleared and takes the topmost eight bits whenever there are that many.

* `letters_word` — the four letters of a packed word in arithmetic terms;
* `base64UrlDecodeBytes_encode` — decoding undoes encoding for every byte array;
* `dot_notMem_encode` — an encoded text holds no `.`.
-/

namespace ObjyDb
namespace Jwt

open Js

/-! ## The alphabet -/

def alphabet : JsString :=
  js "ABCDEFGHIJKLMNOPQRSTUVWXYZabcdefghijklmnopqrstuvwxyz0123456789-_"

/-- `alphabet[index]` -/
def letter (index : Nat) : CodeUnit :=
  alphabet.getD index 0

theorem idxOf?_letter {i : Nat} (h : i < 64) : alphabet.idxOf? (letter i) = some i := by
  have hall : ∀ i : Fin 64, alphabet.idxOf? (letter i.val) = some i.val := by decide +kernel
  exact hall ⟨i, h⟩

theorem letter_ne_dot {i : Nat} (h : i < 64) : letter i ≠ unit '.' := by
  have hall : ∀ i : Fin 64, letter i.val ≠ unit '.' := by decide +kernel
  exact hall ⟨i, h⟩

theorem letter_ascii {i : Nat} (h : i < 64) : (letter i).val < 0x80 := by
  have hall : ∀ i : Fin 64, (letter i.val).val < 0x80 := by decide +kernel
  exact hall ⟨i, h⟩

/-! ## Encoding -/

/-- `(a << 16) | (b << 8) | c` -/
def triplet (a b c : Byte) : BitVec 32 :=
  BitVec.ofNat 32 a.val <<< 16 ||| BitVec.ofNat 32 b.val <<< 8 ||| BitVec.ofNat 32 c.val

/-- `alphabet[(word >>> shift) & 0x3f]` -/
def letterAt (word : BitVec 32) (shift : Nat) : CodeUnit :=
  letter ((word >>> shift) &&& 0x3f).toNat

/-- One turn of the loop takes three bytes; in the last turn `bytes[i + 1] || 0` and
`bytes[i + 2] || 0` stand for the missing ones. -/
def base64UrlEncodeBytes : List Byte → JsString
  | [] => []
  | [a] => [letterAt (triplet a 0 0) 18, letterAt (triplet a 0 0) 12]
  | [a, b] => [letterAt (triplet a b 0) 18, letterAt (triplet a b 0) 12, letterAt (triplet a b 0) 6]
  | a :: b :: c :: rest =>
      letterAt (triplet a b c) 18 :: letterAt (triplet a b c) 12 :: letterAt (triplet a b c) 6 ::
        letterAt (triplet a b c) 0 :: base64UrlEncodeBytes rest

/-! ## Decoding -/

structure Bits where
  bytes : List Byte
  buffer : BitVec 32
  bits : Nat
  deriving DecidableEq

/-- One turn of the loop; `none` where the letter is not of the alphabet.  A character outside the
basic plane is not of the alphabet, and neither is its first code unit. -/
def Bits.push (s : Bits) (char : CodeUnit) : Option Bits :=
  match alphabet.idxOf? char with
  | none => none
  | some idx =>
      let buffer := s.buffer <<< 6 ||| BitVec.ofNat 32 idx
      let bits := s.bits + 6
      if 8 ≤ bits then
        some ⟨s.bytes ++ [Fin.ofNat _ ((buffer >>> (bits - 8)) &&& 0xff).toNat], buffer, bits - 8⟩
      else
        some ⟨s.bytes, buffer, bits⟩

def Bits.run (s : Bits) : JsString → Option Bits
  | [] => some s
  | char :: value => (s.push char).bind (fun s => s.run value)

/-- `none` where the source throws `Invalid base64url character`. -/
def base64UrlDecodeBytes (value : JsString) : Option (List Byte) :=
  (Bits.run ⟨[], 0, 0⟩ value).map Bits.bytes

/-! ## The words in arithmetic terms -/

theorem toNat_triplet (a b c : Byte) :
    (triplet a b c).toNat = a.val * 65536 + b.val * 256 + c.val := by
  have hb : b.val <<< 8 ||| c.val = b.val * 256 + c.val := by
    rw [← Nat.shiftLeft_add_eq_or_of_lt c.isLt, Nat.shiftLeft_eq]
  have ha : a.val <<< 16 ||| (b.val * 256 + c.val) = a.val * 65536 + (b.val * 256 + c.val) := by
    have hlt : b.val * 256 + c.val < 2 ^ 16 := by omega
    rw [← Nat.shiftLeft_add_eq_or_of_lt hlt, Nat.shiftLeft_eq]
  have hmod : ∀ (x : Byte) (k : Nat), k ≤ 16 → x.val <<< k % 2 ^ 32 = x.val <<< k := by
    intro x k hk
    have hpow : 2 ^ k ≤ 2 ^ 16 := Nat.pow_le_pow_right (by decide) hk
    have hle : x.val * 2 ^ k ≤ 255 * 2 ^ 16 := Nat.mul_le_mul (by omega) hpow
    rw [Nat.shiftLeft_eq]
    exact Nat.mod_eq_of_lt (by omega)
  have hbyte : ∀ x : Byte, x.val % 2 ^ 32 = x.val := fun x => Nat.mod_eq_of_lt (by omega)
  rw [triplet, BitVec.toNat_or, BitVec.toNat_or, BitVec.toNat_shiftLeft, BitVec.toNat_shiftLeft,
    BitVec.toNat_ofNat, BitVec.toNat_ofNat, BitVec.toNat_ofNat, hbyte, hbyte, hbyte,
    hmod a 16 (by decide), hmod b 8 (by decide), Nat.or_assoc, hb, ha]
  omega

theorem letterAt_eq (word : BitVec 32) (shift : Nat) :
    letterAt word shift = letter (word.toNat / 2 ^ shift % 64) := by
  have hand : ∀ n : Nat, n &&& 63 = n % 64 := fun n => Nat.and_two_pow_sub_one_eq_mod n 6
  rw [letterAt, BitVec.toNat_and, BitVec.toNat_ushiftRight, Nat.shiftRight_eq_div_pow]
  exact congrArg letter (hand _)

/-- The four letters of a packed word. -/
theorem letters_word (a b c : Byte) :
    letterAt (triplet a b c) 18 = letter (a.val / 4) ∧
      letterAt (triplet a b c) 12 = letter (a.val % 4 * 16 + b.val / 16) ∧
      letterAt (triplet a b c) 6 = letter (b.val % 16 * 4 + c.val / 64) ∧
      letterAt (triplet a b c) 0 = letter (c.val % 64) := by
  have ha := a.isLt
  have hb := b.isLt
  have hc := c.isLt
  refine ⟨?_, ?_, ?_, ?_⟩
  all_goals
    rw [letterAt_eq, toNat_triplet]
    congr 1
    omega

theorem toNat_shifted (buffer : BitVec 32) {i : Nat} (hi : i < 64) :
    (buffer <<< 6 ||| BitVec.ofNat 32 i).toNat = (buffer.toNat * 64 + i) % 2 ^ 32 := by
  have hshift : buffer.toNat <<< 6 % 2 ^ 32 = (buffer.toNat % 2 ^ 26) <<< 6 := by
    rw [Nat.shiftLeft_eq, Nat.shiftLeft_eq]
    omega
  rw [BitVec.toNat_or, BitVec.toNat_shiftLeft, BitVec.toNat_ofNat,
    Nat.mod_eq_of_lt (show i < 2 ^ 32 by omega), hshift, ← Nat.shiftLeft_add_eq_or_of_lt hi, Nat.shiftLeft_eq]
  omega

theorem toNat_byteAt (word : BitVec 32) (shift : Nat) :
    ((word >>> shift) &&& 0xff).toNat = word.toNat / 2 ^ shift % 256 := by
  have hand : ∀ n : Nat, n &&& 255 = n % 256 := fun n => Nat.and_two_pow_sub_one_eq_mod n 8
  rw [BitVec.toNat_and, BitVec.toNat_ushiftRight, Nat.shiftRight_eq_div_pow]
  exact hand _

/-! ## Reading letters -/

namespace Bits

/-- What one letter does: six bits are shifted in and, of eight or more, the topmost eight are a
byte. -/
theorem push_letter {s : Bits} {i : Nat} (hi : i < 64) :
    ∃ buffer : BitVec 32, buffer.toNat = (s.buffer.toNat * 64 + i) % 2 ^ 32 ∧
      s.push (letter i) =
        if 8 ≤ s.bits + 6 then
          some ⟨s.bytes ++ [Fin.ofNat _ (buffer.toNat / 2 ^ (s.bits + 6 - 8) % 256)], buffer,
            s.bits + 6 - 8⟩
        else
          some ⟨s.bytes, buffer, s.bits + 6⟩ := by
  refine ⟨s.buffer <<< 6 ||| BitVec.ofNat 32 i, toNat_shifted s.buffer hi, ?_⟩
  simp only [push, idxOf?_letter hi, toNat_byteAt]

theorem push_few {s : Bits} {i : Nat} (hi : i < 64) (hbits : s.bits < 2) :
    ∃ buffer : BitVec 32, buffer.toNat = (s.buffer.toNat * 64 + i) % 2 ^ 32 ∧
      s.push (letter i) = some ⟨s.bytes, buffer, s.bits + 6⟩ := by
  rcases push_letter (s := s) hi with ⟨buffer, hbuffer, hpush⟩
  rw [if_neg (by omega)] at hpush
  exact ⟨buffer, hbuffer, hpush⟩

theorem push_many {s : Bits} {i : Nat} (hi : i < 64) (hbits : 2 ≤ s.bits) :
    ∃ buffer : BitVec 32, buffer.toNat = (s.buffer.toNat * 64 + i) % 2 ^ 32 ∧
      s.push (letter i) =
        some ⟨s.bytes ++ [Fin.ofNat _ (buffer.toNat / 2 ^ (s.bits - 2) % 256)], buffer,
          s.bits - 2⟩ := by
  rcases push_letter (s := s) hi with ⟨buffer, hbuffer, hpush⟩
  have hleft : s.bits + 6 - 8 = s.bits - 2 := by omega
  rw [if_pos (by omega), hleft] at hpush
  exact ⟨buffer, hbuffer, hpush⟩

theorem run_cons {s s' : Bits} {char : CodeUnit} (h : s.push char = some s') (value : JsString) :
    s.run (char :: value) = s'.run value := by
  rw [run, h, Option.bind_some]

/-- The first two letters of a group give its first byte. -/
theorem run_two (bytes : List Byte) (buffer : BitVec 32) (a : Byte) {y : Nat} (hy : y < 16)
    (value : JsString) :
    ∃ buffer' : BitVec 32, buffer'.toNat % 16 = y ∧
      run ⟨bytes, buffer, 0⟩ (letter (a.val / 4) :: letter (a.val % 4 * 16 + y) :: value) =
        run ⟨bytes ++ [a], buffer', 4⟩ value := by
  have ha := a.isLt
  rcases push_few (s := ⟨bytes, buffer, 0⟩) (i := a.val / 4) (by omega) (by simp)
    with ⟨b₁, hb₁, hpush₁⟩
  rcases push_many (s := ⟨bytes, b₁, 6⟩) (i := a.val % 4 * 16 + y) (by omega) (by simp)
    with ⟨b₂, hb₂, hpush₂⟩
  have hbyte : b₂.toNat / 2 ^ (6 - 2) % 256 = a.val := by
    rw [hb₂]
    simp only [hb₁]
    omega
  refine ⟨b₂, ?_, ?_⟩
  · rw [hb₂]
    omega
  · rw [run_cons hpush₁, run_cons hpush₂]
    simp only [hbyte, Fin.ofNat_val_eq_self]

/-- The third letter of a group gives its second byte. -/
theorem run_third (bytes : List Byte) {buffer : BitVec 32} {b : Byte} {z : Nat}
    (hbuffer : buffer.toNat % 16 = b.val / 16) (hz : z < 4) (value : JsString) :
    ∃ buffer' : BitVec 32, buffer'.toNat % 4 = z ∧
      run ⟨bytes, buffer, 4⟩ (letter (b.val % 16 * 4 + z) :: value) =
        run ⟨bytes ++ [b], buffer', 2⟩ value := by
  have hb := b.isLt
  rcases push_many (s := ⟨bytes, buffer, 4⟩) (i := b.val % 16 * 4 + z) (by omega) (by simp)
    with ⟨b₃, hb₃, hpush₃⟩
  have hbyte : b₃.toNat / 2 ^ (4 - 2) % 256 = b.val := by
    rw [hb₃]
    simp only
    omega
  refine ⟨b₃, ?_, ?_⟩
  · rw [hb₃]
    omega
  · rw [run_cons hpush₃]
    simp only [hbyte, Fin.ofNat_val_eq_self]

/-- The fourth letter of a group gives its third byte. -/
theorem run_fourth (bytes : List Byte) {buffer : BitVec 32} {c : Byte}
    (hbuffer : buffer.toNat % 4 = c.val / 64) (value : JsString) :
    ∃ buffer' : BitVec 32,
      run ⟨bytes, buffer, 2⟩ (letter (c.val % 64) :: value) =
        run ⟨bytes ++ [c], buffer', 0⟩ value := by
  have hc := c.isLt
  rcases push_many (s := ⟨bytes, buffer, 2⟩) (i := c.val % 64) (by omega) (by simp)
    with ⟨b₄, hb₄, hpush₄⟩
  have hbyte : b₄.toNat / 2 ^ (2 - 2) % 256 = c.val := by
    rw [hb₄]
    simp only
    omega
  refine ⟨b₄, ?_⟩
  rw [run_cons hpush₄]
  simp only [hbyte, Fin.ofNat_val_eq_self]

/-- Between two groups no bit is left over, whatever the accumulator still holds. -/
theorem run_encode (bytes : List Byte) (out : List Byte) (buffer : BitVec 32) :
    ∃ buffer' bits', run ⟨out, buffer, 0⟩ (base64UrlEncodeBytes bytes) =
      some ⟨out ++ bytes, buffer', bits'⟩ := by
  induction bytes using base64UrlEncodeBytes.induct generalizing out buffer with
  | case1 => exact ⟨buffer, 0, by simp [base64UrlEncodeBytes, run]⟩
  | case2 a =>
      rcases letters_word a 0 0 with ⟨h₁, h₂, -, -⟩
      rcases run_two out buffer a (y := 0) (by omega) [] with ⟨b₂, -, hrun⟩
      refine ⟨b₂, 4, ?_⟩
      rw [base64UrlEncodeBytes, h₁, h₂]
      exact hrun
  | case3 a b =>
      have hb := b.isLt
      rcases letters_word a b 0 with ⟨h₁, h₂, h₃, -⟩
      rcases run_two out buffer a (y := b.val / 16) (by omega)
        [letter (b.val % 16 * 4 + 0)] with ⟨b₂, hb₂, hrun₂⟩
      rcases run_third (out ++ [a]) (z := 0) hb₂ (by omega) [] with ⟨b₃, -, hrun₃⟩
      refine ⟨b₃, 2, ?_⟩
      rw [base64UrlEncodeBytes, h₁, h₂, h₃]
      calc run ⟨out, buffer, 0⟩ [letter (a.val / 4), letter (a.val % 4 * 16 + b.val / 16),
            letter (b.val % 16 * 4 + (0 : Byte).val / 64)]
          = run ⟨out ++ [a] ++ [b], b₃, 2⟩ [] := by rw [← hrun₃, ← hrun₂]; rfl
        _ = some ⟨out ++ [a, b], b₃, 2⟩ := by rw [List.append_assoc]; rfl
  | case4 a b c rest ih =>
      have hb := b.isLt
      have hc := c.isLt
      rcases letters_word a b c with ⟨h₁, h₂, h₃, h₄⟩
      rcases run_two out buffer a (y := b.val / 16) (by omega)
        (letter (b.val % 16 * 4 + c.val / 64) :: letter (c.val % 64) :: base64UrlEncodeBytes rest)
        with ⟨b₂, hb₂, hrun₂⟩
      rcases run_third (out ++ [a]) (z := c.val / 64) hb₂ (by omega)
        (letter (c.val % 64) :: base64UrlEncodeBytes rest) with ⟨b₃, hb₃, hrun₃⟩
      rcases run_fourth (out ++ [a] ++ [b]) hb₃ (base64UrlEncodeBytes rest)
        with ⟨b₄, hrun₄⟩
      rcases ih (out ++ [a] ++ [b] ++ [c]) b₄ with ⟨buffer', bits', hrest⟩
      refine ⟨buffer', bits', ?_⟩
      rw [base64UrlEncodeBytes, h₁, h₂, h₃, h₄, hrun₂, hrun₃, hrun₄, hrest]
      simp

end Bits

/-- Decoding undoes encoding. -/
theorem base64UrlDecodeBytes_encode (bytes : List Byte) :
    base64UrlDecodeBytes (base64UrlEncodeBytes bytes) = some bytes := by
  rcases Bits.run_encode bytes [] 0 with ⟨buffer, bits, hrun⟩
  rw [base64UrlDecodeBytes, hrun]
  rfl

/-! ## The letters of an encoded text -/

theorem mem_encode {bytes : List Byte} {u : CodeUnit} (h : u ∈ base64UrlEncodeBytes bytes) :
    ∃ i < 64, u = letter i := by
  have hletter : ∀ (word : BitVec 32) (shift : Nat), ∃ i < 64, letterAt word shift = letter i :=
    fun word shift => ⟨_, Nat.mod_lt _ (by omega), letterAt_eq word shift⟩
  induction bytes using base64UrlEncodeBytes.induct with
  | case1 => simp [base64UrlEncodeBytes] at h
  | case2 a =>
      simp only [base64UrlEncodeBytes, List.mem_cons, List.not_mem_nil, or_false] at h
      rcases h with rfl | rfl
      all_goals exact hletter _ _
  | case3 a b =>
      simp only [base64UrlEncodeBytes, List.mem_cons, List.not_mem_nil, or_false] at h
      rcases h with rfl | rfl | rfl
      all_goals exact hletter _ _
  | case4 a b c rest ih =>
      simp only [base64UrlEncodeBytes, List.mem_cons] at h
      rcases h with rfl | rfl | rfl | rfl | h
      · exact hletter _ _
      · exact hletter _ _
      · exact hletter _ _
      · exact hletter _ _
      · exact ih h

theorem dot_notMem_encode (bytes : List Byte) : unit '.' ∉ base64UrlEncodeBytes bytes := by
  intro h
  rcases mem_encode h with ⟨i, hi, hu⟩
  exact letter_ne_dot hi hu.symm

end Jwt
end ObjyDb
