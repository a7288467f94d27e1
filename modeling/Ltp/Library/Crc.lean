import Mathlib.Tactic

/-!
# Reflected CRC registers

The register of a reflected CRC of width `w` with polynomial `p`, advanced a bit at a time
(`crcStep`) or a byte at a time through a table of 256 words (`crcTableByte`).  A step is linear
in exclusive or (`crcStep_xor`), and steps of a register whose low bits are clear only move it
down (`iterate_crcStep_of_low`).  So eight steps of `c ^ b` are the table's word for the low byte
and `c` moved down eight places, once the table holds the eight steps of each byte
(`crcByte_eq_crcTableByte`).
-/

namespace Crc

variable {w : Nat} (p : BitVec w)

/-- One bit: shift the register down, and add the polynomial when the bit shifted out was set. -/
def crcStep (c : BitVec w) : BitVec w :=
  (c >>> 1) ^^^ (if c.getLsbD 0 then p else 0)

/-- One byte, a bit at a time: xor it into the low byte, then eight steps. -/
def crcByte (c : BitVec w) (b : BitVec 8) : BitVec w :=
  (crcStep p)^[8] (c ^^^ b.setWidth w)

/-- The table word of a byte value `i`: eight steps from `i`. -/
def crcTable (i : Nat) : BitVec w :=
  (crcStep p)^[8] (BitVec.ofNat w i)

/-- One byte through a table `t`: the word for the low byte of `c ^ b`, xor `c` moved down. -/
def crcTableByte (t : Nat → BitVec w) (c : BitVec w) (b : BitVec 8) : BitVec w :=
  t ((c ^^^ b.setWidth w) &&& 255#w).toNat ^^^ (c >>> 8)

theorem ite_xor (x y : Bool) :
    (if (x ^^ y) then p else 0) = (if x then p else 0) ^^^ (if y then p else 0) := by
  cases x <;> cases y <;> simp

theorem crcStep_xor (a b : BitVec w) : crcStep p (a ^^^ b) = crcStep p a ^^^ crcStep p b := by
  unfold crcStep
  rw [BitVec.getLsbD_xor, BitVec.ushiftRight_xor_distrib, ite_xor]
  ac_rfl

theorem iterate_crcStep_xor (n : Nat) (a b : BitVec w) :
    (crcStep p)^[n] (a ^^^ b) = (crcStep p)^[n] a ^^^ (crcStep p)^[n] b := by
  induction n with
  | zero => rfl
  | succ n ih =>
    rw [Function.iterate_succ_apply', ih, crcStep_xor, ← Function.iterate_succ_apply' (crcStep p),
      ← Function.iterate_succ_apply' (crcStep p)]

/-- While the bit shifted out is clear, a step is a plain shift. -/
theorem iterate_crcStep_of_low (y : BitVec w) (k : Nat) (hy : ∀ i < k, y.getLsbD i = false) :
    (crcStep p)^[k] y = y >>> k := by
  induction k with
  | zero => simp
  | succ k ih =>
    rw [Function.iterate_succ_apply', ih (fun i hi => hy i (by omega))]
    have hk : (y >>> k).getLsbD 0 = false := by simpa using hy k (by omega)
    simp [crcStep, hk, BitVec.shiftRight_add]

theorem testBit_255 (i : Nat) : (255 : Nat).testBit i = decide (i < 8) := by
  rw [show (255 : Nat) = 2 ^ 8 - 1 by rfl, Nat.testBit_two_pow_sub_one]

theorem xor_low_high (x : BitVec w) : (x &&& 255#w) ^^^ (x &&& ~~~255#w) = x := by
  ext i
  simp only [BitVec.getElem_xor, BitVec.getElem_and, BitVec.getElem_not]
  cases x[i] <;> cases (255#w)[i] <;> rfl

theorem getLsbD_high (x : BitVec w) {i : Nat} (hi : i < 8) :
    (x &&& ~~~255#w).getLsbD i = false := by
  simp [BitVec.getLsbD_and, BitVec.getLsbD_not, BitVec.getLsbD_ofNat, testBit_255, hi]

theorem high_ushiftRight (x : BitVec w) : (x &&& ~~~255#w) >>> 8 = x >>> 8 := by
  apply BitVec.eq_of_getLsbD_eq
  intro i _
  simp only [BitVec.getLsbD_ushiftRight, BitVec.getLsbD_and, BitVec.getLsbD_not,
    BitVec.getLsbD_ofNat, testBit_255]
  by_cases h : 8 + i < w
  · simp [h]
  · simp [BitVec.getLsbD_of_ge x (8 + i) (by omega)]

/-- Eight steps of `x`: those of its low byte, and the rest of it moved down eight places. -/
theorem iterate_crcStep_eight (x : BitVec w) :
    (crcStep p)^[8] x = (crcStep p)^[8] (x &&& 255#w) ^^^ (x >>> 8) := by
  conv_lhs => rw [← xor_low_high x]
  rw [iterate_crcStep_xor, iterate_crcStep_of_low p _ 8 (fun i hi => getLsbD_high x hi),
    high_ushiftRight]

theorem setWidth_ushiftRight_eight (b : BitVec 8) : b.setWidth w >>> 8 = 0#w := by
  apply BitVec.eq_of_toNat_eq
  have hb : b.toNat % 2 ^ w < 2 ^ 8 := lt_of_le_of_lt (Nat.mod_le _ _) b.isLt
  simp only [BitVec.toNat_ushiftRight, BitVec.toNat_setWidth, BitVec.toNat_ofNat]
  rw [Nat.shiftRight_eq_div_pow, Nat.div_eq_of_lt hb, Nat.zero_mod]

theorem toNat_and_255_lt (x : BitVec w) : (x &&& 255#w).toNat < 256 := by
  rw [BitVec.toNat_and]
  have h255 : (255#w).toNat ≤ 255 := by simp [BitVec.toNat_ofNat, Nat.mod_le]
  exact lt_of_le_of_lt (Nat.and_le_right.trans h255) (by norm_num)

variable {p}

/-- A byte through a table that holds `crcTable p` is the byte a bit at a time. -/
theorem crcByte_eq_crcTableByte {t : Nat → BitVec w} (ht : ∀ i < 256, t i = crcTable p i)
    (c : BitVec w) (b : BitVec 8) : crcByte p c b = crcTableByte t c b := by
  rw [crcByte, iterate_crcStep_eight, crcTableByte, ht _ (toNat_and_255_lt _), crcTable,
    BitVec.ofNat_toNat, BitVec.setWidth_eq, BitVec.ushiftRight_xor_distrib,
    setWidth_ushiftRight_eight, BitVec.xor_zero]

end Crc
