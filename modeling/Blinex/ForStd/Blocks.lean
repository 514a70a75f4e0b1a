import Mathlib.Data.Set.Disjoint

/-!
# Blocks of words

The words that agree with a given one in all but the last `k` bits. Two blocks are apart or one
of them lies in the other, so whether they meet can be read off from one word of each
(`Block.meets_iff`), for instance from the first (`Block.clear_mem`).
-/

/-- The words with the leading bits of `a`, the last `k` bits free. -/
def Block {w : Nat} (k : Nat) (a : BitVec w) : Set (BitVec w) := {x | x >>> k = a >>> k}

namespace Block

variable {w k l : Nat} {a b x : BitVec w}

/-- Two words are in one block when they agree above the `k` lowest bits. -/
theorem mem_iff : x ∈ Block k a ↔ x >>> k = a >>> k := Iff.rfl

/-- A block holds the word it is named by. -/
theorem mem_self : a ∈ Block k a := rfl

/-- Membership in each other's blocks is symmetric: any member may name the block. -/
theorem mem_comm : b ∈ Block k a ↔ a ∈ Block k b := eq_comm

/-- A longer block is wider. -/
theorem mono (h : l ≤ k) (hx : x ∈ Block l a) : x ∈ Block k a := by
  obtain ⟨d, rfl⟩ := Nat.exists_eq_add_of_le h
  rw [mem_iff] at hx ⊢
  rw [BitVec.shiftRight_add, BitVec.shiftRight_add, hx]

/-- Any word of a block names it. -/
theorem eq_of_mem (h : b ∈ Block k a) : Block k b = Block k a := by
  ext x
  rw [mem_iff, mem_iff, h]

/-- Clearing the free bits changes nothing. -/
theorem clear_mem (k : Nat) (a : BitVec w) : a >>> k <<< k ∈ Block k a := by
  rw [mem_iff]
  ext i hi
  simp only [BitVec.getElem_ushiftRight, BitVec.getLsbD_shiftLeft, BitVec.getLsbD_ushiftRight]
  by_cases hlt : k + i < w
  · simp [hlt]
  · have hout : a.getLsbD (k + i) = false := BitVec.getLsbD_of_ge _ _ (by omega)
    simp [hout, hlt]

/-- Two blocks have a word in common exactly when one of them has the word that names the
    other. -/
theorem meets_iff : (∃ x, x ∈ Block k a ∧ x ∈ Block l b) ↔ a ∈ Block l b ∨ b ∈ Block k a := by
  constructor
  · rintro ⟨x, ha, hb⟩
    -- the longer block contains the shorter
    rcases Nat.le_total k l with hle | hle
    · left
      rw [← eq_of_mem hb]
      exact mem_comm.mp (mono hle ha)
    · right
      rw [← eq_of_mem ha]
      exact mem_comm.mp (mono hle hb)
  · rintro (h | h)
    · exact ⟨a, mem_self, h⟩
    · exact ⟨b, h, mem_self⟩

end Block
