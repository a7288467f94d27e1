import Mathlib.Tactic

/-!
# Ranks of set bits

`rank x p` counts the set bits of a bit vector below position `p`.  It grows by one exactly at
each set bit (`rank_succ`), so two set bits with the same rank are the same bit
(`eq_of_rank_eq`).  The last lemmas read single bits through masks: `x &&& 1 ≠ 0` and
`x &&& (1 <<< p) ≠ 0` test bit `0` and bit `p`.
-/

namespace Bits

variable {w : Nat} (x : BitVec w)

/-- The number of set bits of `x` below position `p`. -/
def rank (p : Nat) : Nat :=
  (List.range p).countP fun i => x.getLsbD i

@[simp] theorem rank_zero : rank x 0 = 0 := rfl

theorem rank_succ (p : Nat) : rank x (p + 1) = rank x p + if x.getLsbD p then 1 else 0 := by
  unfold rank
  rw [List.range_succ, List.countP_append]
  cases h : x.getLsbD p <;> simp [h]

theorem rank_mono {p q : Nat} (h : p ≤ q) : rank x p ≤ rank x q := by
  induction q with
  | zero => rw [Nat.le_zero.1 h]
  | succ q ih =>
    rcases Nat.lt_or_ge p (q + 1) with hlt | hge
    · have := ih (by omega)
      rw [rank_succ]
      omega
    · rw [show p = q + 1 by omega]

variable {x}

theorem rank_lt_of_getLsbD {p q : Nat} (hp : x.getLsbD p = true) (h : p < q) :
    rank x p < rank x q := by
  have hstep : rank x (p + 1) = rank x p + 1 := by simp [rank_succ, hp]
  have := rank_mono x (show p + 1 ≤ q by omega)
  omega

/-- Two set bits with the same rank are the same bit. -/
theorem eq_of_rank_eq {p q : Nat} (hp : x.getLsbD p = true) (hq : x.getLsbD q = true)
    (h : rank x p = rank x q) : p = q := by
  rcases Nat.lt_trichotomy p q with hlt | heq | hgt
  · exact absurd h (rank_lt_of_getLsbD hp hlt).ne
  · exact heq
  · exact absurd h (rank_lt_of_getLsbD hq hgt).ne'

/-- No bit is set at or past the width. -/
theorem rank_of_ge {p : Nat} (hp : w ≤ p) : rank x p = rank x w := by
  obtain ⟨k, rfl⟩ := Nat.exists_eq_add_of_le hp
  induction k with
  | zero => rfl
  | succ k ih =>
    rw [← Nat.add_assoc, rank_succ, ih (by omega), BitVec.getLsbD_of_ge x _ (by omega)]
    simp

theorem rank_pos {x : BitVec w} (hx : x ≠ 0) : 0 < rank x w := by
  obtain ⟨p, hp, hset⟩ : ∃ p < w, x.getLsbD p = true := by
    by_contra hno
    apply hx
    apply BitVec.eq_of_getLsbD_eq
    intro i hi
    by_contra hset
    exact hno ⟨i, hi, by simpa using hset⟩
  have := rank_lt_of_getLsbD hset hp
  omega

/-! ## Reading a bit through a mask -/

theorem one_shiftLeft (p : Nat) : 1#w <<< p = BitVec.twoPow w p := by
  rw [BitVec.shiftLeft_eq_mul_twoPow, BitVec.one_mul]

theorem and_one_shiftLeft_ne_zero {p : Nat} (hp : p < w) :
    x &&& 1#w <<< p ≠ 0 ↔ x.getLsbD p = true := by
  rw [one_shiftLeft, BitVec.and_twoPow]
  by_cases h : x.getLsbD p = true
  · simp only [h, if_true, iff_true]
    intro h0
    have := congrArg (fun y : BitVec w => y.getLsbD p) h0
    simp [hp] at this
  · simp [h]

theorem and_one_ne_zero (hw : 0 < w) : x &&& 1#w ≠ 0 ↔ x.getLsbD 0 = true := by
  have h := and_one_shiftLeft_ne_zero (x := x) hw
  rwa [BitVec.shiftLeft_zero] at h

/-! ## Widths -/

/-- Widening by sign extension and narrowing back gives the value. -/
theorem setWidth_signExtend {v : Nat} (y : BitVec v) (hv : v ≤ w) : (y.signExtend w).setWidth v = y := by
  ext i hi
  simp [BitVec.getElem_signExtend, hi, show i < w by omega]

/-- Bits set in `x` stay set in `x ||| y`. -/
theorem or_and_of_and_eq {x y k : BitVec w} (h : x &&& k = k) : (x ||| y) &&& k = k := by
  rw [BitVec.and_or_distrib_right, h]
  ext i hi
  simp only [BitVec.getElem_or, BitVec.getElem_and]
  cases k[i] <;> simp

end Bits
