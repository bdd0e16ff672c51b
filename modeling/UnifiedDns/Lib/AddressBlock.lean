import Mathlib.Data.BitVec
import Mathlib.Tactic.Ring

/-!
# Address blocks

Blocks of addresses given by a prefix, over numbers of any width.

* `AddressBlock`, `AddressBlock.Contains` — a base, a prefix length, and the numbers with that prefix.
* `AddressBlock.embed` — the same block behind a fixed high part.
* `AddressBlock.contains_embed` — the numbers of the embedded block.
* `and_highMask_eq_iff` — a mask of high bits compares prefixes.
-/

namespace UnifiedDns

/-- A block of addresses of `width` bits: those that agree with `base` in the first `length` bits. -/
structure AddressBlock (width : Nat) where
  base : Nat
  length : Nat
  length_le : length ≤ width
deriving DecidableEq

namespace AddressBlock

variable {width : Nat}

def Contains (block : AddressBlock width) (n : Nat) : Prop :=
  n / 2 ^ (width - block.length) = block.base / 2 ^ (width - block.length)

instance (block : AddressBlock width) (n : Nat) : Decidable (block.Contains n) := by
  unfold Contains
  infer_instance

/-- The block of wider addresses whose high part is `high`. -/
def embed (extra high : Nat) (block : AddressBlock width) : AddressBlock (extra + width) where
  base := high * 2 ^ width + block.base
  length := extra + block.length
  length_le := Nat.add_le_add_left block.length_le extra

/-- An address of the embedded block is the high part with an address of the block. -/
theorem contains_embed {extra high n low : Nat} {block : AddressBlock width}
    (hbase : block.base < 2 ^ width) (hlow : low < 2 ^ width) :
    (block.embed extra high).Contains (n * 2 ^ width + low) ↔ n = high ∧ block.Contains low := by
  have hshift : extra + width - (extra + block.length) = width - block.length := by omega
  obtain ⟨k, hk⟩ : ∃ k, width = (width - block.length) + k :=
    ⟨block.length, (Nat.sub_add_cancel block.length_le).symm⟩
  have hpow : 2 ^ width = 2 ^ k * 2 ^ (width - block.length) := by
    conv_lhs => rw [hk, pow_add, Nat.mul_comm]
  -- Both quotients split into the high part and a quotient below `2 ^ k`.
  have hsplit (m r : Nat) : (m * 2 ^ width + r) / 2 ^ (width - block.length) =
      m * 2 ^ k + r / 2 ^ (width - block.length) := by
    rw [hpow, ← Nat.mul_assoc, Nat.add_comm, Nat.add_mul_div_right _ _ (Nat.two_pow_pos _),
      Nat.add_comm]
  have hsmall {r : Nat} (hr : r < 2 ^ width) : r / 2 ^ (width - block.length) < 2 ^ k :=
    Nat.div_lt_of_lt_mul (by rw [Nat.mul_comm, ← hpow]; exact hr)
  unfold Contains embed
  simp only
  rw [hshift, hsplit, hsplit]
  have hlowSmall := hsmall hlow
  have hbaseSmall := hsmall hbase
  generalize low / 2 ^ (width - block.length) = q at *
  generalize block.base / 2 ^ (width - block.length) = q' at *
  constructor
  · intro h
    have hhigh : n = high := by
      have hdiv := congrArg (· / 2 ^ k) h
      simpa [Nat.add_comm _ q, Nat.add_comm _ q', Nat.add_mul_div_right,
        Nat.div_eq_of_lt hlowSmall, Nat.div_eq_of_lt hbaseSmall] using hdiv
    subst hhigh
    exact ⟨rfl, Nat.add_left_cancel h⟩
  · rintro ⟨rfl, rfl⟩
    rfl

end AddressBlock

/-- Comparing under a mask of the bits from `k` on compares the prefixes. -/
theorem and_highMask_eq_iff {w : Nat} (x c : BitVec w) (k : Nat) (hc : (c >>> k) <<< k = c) :
    x &&& (BitVec.allOnes w <<< k) = c ↔ x.toNat / 2 ^ k = c.toNat / 2 ^ k := by
  have hshift : x &&& (BitVec.allOnes w <<< k) = c ↔ x >>> k = c >>> k := by
    constructor
    · intro h
      rw [← h]
      ext i hi
      simp
      grind
    · intro h
      rw [← hc, ← h]
      ext i hi
      simp
      grind
  rw [hshift, ← BitVec.toNat_inj, BitVec.toNat_ushiftRight, BitVec.toNat_ushiftRight,
    Nat.shiftRight_eq_div_pow, Nat.shiftRight_eq_div_pow]

end UnifiedDns
