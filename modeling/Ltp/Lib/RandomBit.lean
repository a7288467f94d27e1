import Ltp.Library.Bits
import Ltp.Lib.RandomRange

/-!
# A random set bit of a mask (`random_bit` in `random_range.c`)

`random_bit(mask)` counts the set bits of the `long` `mask` over its 64 positions, draws an
ordinal `bit` in `[1, nbits]` with `random_range(1, nbits, 1, NULL)`, and shifts `mask` down,
counting set bits until the ordinal is used up; it returns `01L << (nshift - 1)`.

`long` is a `BitVec 64`, with shifts as gcc computes them: `bit << 1` wraps, so the count loop
visits every position and then `bit` is `0`; `mask >> 1` is arithmetic; `1L << 63` is the sign
bit.  (ISO C leaves the last shifts of the count loop and `1L << 63` undefined.)

* `countBitsLoop_eq`: the count loop counts the set bits, `Bits.rank mask 64`.
* `randomBitLoop_eq`: the shift loop stops one past the set bit whose rank is the ordinal less one.
* `randomBit_spec`, `randomBit_onto`: a nonzero mask gives a single bit of the mask, and every set
  bit (the sign bit too) is the result for some value of `lrand48()`.
-/

namespace Ltp

open Bits

/-- `for (nshift = 0; nshift < sizeof(long) * 8; nshift++) { if (mask & bit) nbits++; bit = bit << 1; }`,
with `k` iterations left. -/
def countBitsLoop (mask : BitVec 64) : Nat → BitVec 64 → Nat → Nat
  | 0, _, nbits => nbits
  | k + 1, bit, nbits =>
    countBitsLoop mask k (bit <<< 1) (if mask &&& bit ≠ 0 then nbits + 1 else nbits)

/-- `while (bit) { if (mask & 1L) bit--; mask = mask >> 1; nshift++; }`, returning `nshift`;
`none` when the fuel runs out. -/
def randomBitLoop : Nat → BitVec 64 → Int → Nat → Option Nat
  | 0, _, _, _ => none
  | fuel + 1, mask, bit, nshift =>
    if bit = 0 then some nshift
    else
      randomBitLoop fuel (mask.sshiftRight 1) (if mask &&& 1#64 ≠ 0 then bit - 1 else bit)
        (nshift + 1)

/-- `random_bit(mask)`, with `lrand48` the value `random_range` draws.  The shift loop runs at most
64 times, so 65 rounds of fuel are enough. -/
def randomBit (mask : BitVec 64) (lrand48 : Nat) : Option (BitVec 64) := do
  if mask = 0 then return 0
  let nbits := countBitsLoop mask 64 1#64 0
  let bit ← randomRange 1 nbits 1 lrand48
  let nshift ← randomBitLoop 65 mask bit.ret 0
  return 1#64 <<< (nshift - 1)

theorem countBitsLoop_eq (mask : BitVec 64) (k j acc : Nat) (hjk : j + k ≤ 64) :
    countBitsLoop mask k (1#64 <<< j) acc + rank mask j = acc + rank mask (j + k) := by
  induction k generalizing j acc with
  | zero => rfl
  | succ k ih =>
    have hstep : (1#64 <<< j) <<< 1 = 1#64 <<< (j + 1) := by
      rw [BitVec.shiftLeft_add]
    have hbit := and_one_shiftLeft_ne_zero (x := mask) (show j < 64 by omega)
    rw [countBitsLoop, hstep]
    by_cases hset : mask.getLsbD j = true
    · have h := ih (j + 1) (acc + 1) (by omega)
      rw [if_pos (hbit.2 hset)]
      rw [rank_succ, show j + 1 + k = j + (k + 1) by omega] at h
      simp only [hset, if_true] at h
      omega
    · have h := ih (j + 1) acc (by omega)
      rw [if_neg (mt hbit.1 hset)]
      rw [rank_succ, show j + 1 + k = j + (k + 1) by omega] at h
      simp only [hset, Bool.false_eq_true, if_false] at h
      omega

/-- The shift loop from position `s`, with the ordinal `b ≥ 1` and enough set bits left: it stops
at `p + 1` for the set bit `p` whose rank is `rank mask s + b - 1`. -/
theorem randomBitLoop_eq (mask : BitVec 64) (fuel s b : Nat) (hb : 1 ≤ b)
    (hleft : rank mask s + b ≤ rank mask 64) (hfuel : 65 ≤ fuel + s) :
    ∃ p, s ≤ p ∧ p < 64 ∧ mask.getLsbD p = true ∧ rank mask p + 1 = rank mask s + b ∧
      randomBitLoop fuel (mask.sshiftRight s) b s = some (p + 1) := by
  induction fuel generalizing s b with
  | zero =>
    -- a start at or past the width has no set bits left
    have := rank_of_ge (x := mask) (show 64 ≤ s by omega)
    omega
  | succ fuel ih =>
    have hs : s < 64 := by
      by_contra hge
      have := rank_of_ge (x := mask) (show 64 ≤ s by omega)
      omega
    have hlow : (mask.sshiftRight s).getLsbD 0 = mask.getLsbD s := by
      rw [BitVec.getLsbD_sshiftRight, if_pos (by omega : s + 0 < 64)]
      simp
    have hshift : (mask.sshiftRight s).sshiftRight 1 = mask.sshiftRight (s + 1) :=
      BitVec.sshiftRight_add.symm
    rw [randomBitLoop, if_neg (show (b : Int) ≠ 0 by omega), hshift]
    by_cases hset : mask.getLsbD s = true
    · have hand : mask.sshiftRight s &&& 1#64 ≠ 0 := by
        rw [and_one_ne_zero (by norm_num), hlow]
        exact hset
      rw [if_pos hand]
      have hrank : rank mask (s + 1) = rank mask s + 1 := by simp [rank_succ, hset]
      by_cases hb1 : b = 1
      · -- the ordinal is used up at this bit
        subst hb1
        refine ⟨s, le_rfl, hs, hset, rfl, ?_⟩
        cases fuel with
        | zero => omega
        | succ fuel => simp [randomBitLoop]
      · obtain ⟨p, hp1, hp2, hp3, hp4, hp5⟩ :=
          ih (s + 1) (b - 1) (by omega) (by omega) (by omega)
        refine ⟨p, by omega, hp2, hp3, by omega, ?_⟩
        rw [show (b : Int) - 1 = ((b - 1 : Nat) : Int) by omega]
        exact hp5
    · have hand : ¬ (mask.sshiftRight s &&& 1#64 ≠ 0) := by
        rw [and_one_ne_zero (by norm_num), hlow]
        exact hset
      rw [if_neg hand]
      have hrank : rank mask (s + 1) = rank mask s := by simp [rank_succ, hset]
      obtain ⟨p, hp1, hp2, hp3, hp4, hp5⟩ := ih (s + 1) b hb (by omega) (by omega)
      exact ⟨p, by omega, hp2, hp3, by omega, hp5⟩

/-- The draw of `random_bit`: `random_range(1, nbits, 1, NULL)` is `1 + lrand48() % nbits`. -/
theorem randomRange_one_nbits {n : Nat} (hn : 1 ≤ n) (hn' : n ≤ 64) {r : Nat} (hr : r < 2 ^ 31) :
    randomRange 1 n 1 r = some ⟨1 + (r : Int) % n, none⟩ := by
  have hbounds : rangeBounds 32 1 n 1 = some (.inr (1, n, n)) := by
    rw [rangeBounds_of_nonneg le_rfl (by norm_num) (by omega) (by norm_num) (by omega) le_rfl
      (by norm_num)]
    have hmin : min (1 : Int) n = 1 := min_eq_left (by exact_mod_cast hn)
    have hmax : max (1 : Int) n = n := max_eq_right (by exact_mod_cast hn)
    simp only [hmin, hmax, Int.emod_one, ne_eq, not_true_eq_false, if_false, sub_zero,
      Int.ediv_one, sub_add_cancel]
    rw [if_neg (by omega)]
  rw [randomRange_of_inr r hbounds]
  have hpick := (rangePick_of_nonneg (show (0 : Int) ≤ 1 by norm_num)
    (show (1 : Int) ≤ n by omega) (show (1 : Int) ≤ 1 from le_rfl) (by omega)
    (Int.natCast_nonneg r) (by omega)).1
  rw [hpick, mul_one]

/-- A nonzero mask gives one of its bits: the set bit `p` whose rank is `lrand48() % nbits`. -/
theorem randomBit_spec {mask : BitVec 64} (hm : mask ≠ 0) {r : Nat} (hr : r < 2 ^ 31) :
    ∃ p < 64, mask.getLsbD p = true ∧ rank mask p = r % rank mask 64 ∧
      randomBit mask r = some (1#64 <<< p) := by
  have hcount : countBitsLoop mask 64 1#64 0 = rank mask 64 := by
    have h := countBitsLoop_eq mask 64 0 0 (by norm_num)
    rw [BitVec.shiftLeft_zero] at h
    simpa using h
  have hpos := rank_pos hm
  have hle : rank mask 64 ≤ 64 := by
    unfold rank
    simpa using List.countP_le_length (l := List.range 64)
  have hmod := Nat.mod_lt r hpos
  obtain ⟨p, -, hp, hset, hrank, hloop⟩ :=
    randomBitLoop_eq mask 65 0 (1 + r % rank mask 64) (by omega) (by simp; omega) (by norm_num)
  refine ⟨p, hp, hset, by simp at hrank; omega, ?_⟩
  have hret : (1 + (r : Int) % (rank mask 64 : Nat)) = ((1 + r % rank mask 64 : Nat) : Int) := by
    push_cast
    rfl
  rw [BitVec.sshiftRight_zero] at hloop
  simp only [randomBit, hm, if_false, hcount, randomRange_one_nbits hpos hle hr, hret, hloop,
    Option.bind_eq_bind, Option.bind_some, Nat.add_sub_cancel]
  rfl

/-- Every set bit of the mask, the sign bit too, is drawn for some value of `lrand48()`. -/
theorem randomBit_onto {mask : BitVec 64} {p : Nat} (hp : p < 64) (hset : mask.getLsbD p = true) :
    ∃ r < 2 ^ 31, randomBit mask r = some (1#64 <<< p) := by
  have hm : mask ≠ 0 := by
    rintro rfl
    simp at hset
  -- the value that draws `p` is its rank
  have hlt : rank mask p < rank mask 64 := rank_lt_of_getLsbD hset hp
  have hle : rank mask 64 ≤ 64 := by
    unfold rank
    simpa using List.countP_le_length (l := List.range 64)
  obtain ⟨q, -, hq, hrank, hbit⟩ := randomBit_spec hm (r := rank mask p) (by omega)
  rw [Nat.mod_eq_of_lt hlt] at hrank
  rw [eq_of_rank_eq hq hset hrank] at hbit
  exact ⟨rank mask p, by omega, hbit⟩

end Ltp
