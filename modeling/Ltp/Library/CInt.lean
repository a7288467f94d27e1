import Mathlib.Tactic

/-!
# Signed C integers

A `w`-bit signed C integer is an `Int` in `[-2^(w-1), 2^(w-1))`.  Signed overflow is undefined
behaviour in C, so the arithmetic here is checked: an operation returns `none` when its exact
result leaves the range, and programs built from it are `Option`-valued, `none` standing for
undefined behaviour.  Division and remainder truncate toward zero (`Int.tdiv`, `Int.tmod`), as in C.

The lemmas say when an operation does not overflow, and how truncating remainders behave on
non-negative and on negative operands; the last section bounds the rounding of a number up and down
to a multiple.
-/

namespace CInt

/-- `x` is a value of a `w`-bit signed type. -/
def InRange (w : Nat) (x : Int) : Prop :=
  -2 ^ (w - 1) ≤ x ∧ x < 2 ^ (w - 1)

instance (w : Nat) (x : Int) : Decidable (InRange w x) :=
  inferInstanceAs (Decidable (_ ∧ _))

/-- The result of a signed operation, `none` when it overflows. -/
def checked (w : Nat) (x : Int) : Option Int :=
  if InRange w x then some x else none

/-- `a + b`. -/
def sadd (w : Nat) (a b : Int) : Option Int := checked w (a + b)

/-- `a - b`. -/
def ssub (w : Nat) (a b : Int) : Option Int := checked w (a - b)

/-- `a * b`. -/
def smul (w : Nat) (a b : Int) : Option Int := checked w (a * b)

/-- `a << k` for a signed `a`: defined only for a non-negative `a` whose shifted value fits. -/
def sshl (w : Nat) (a : Int) (k : Nat) : Option Int :=
  if 0 ≤ a then checked w (a * 2 ^ k) else none

/-- `a / b`, truncating. -/
def sdiv (w : Nat) (a b : Int) : Option Int :=
  if b = 0 then none else checked w (a.tdiv b)

/-- `a % b`, with the sign of `a`; undefined where `a / b` is. -/
def srem (w : Nat) (a b : Int) : Option Int :=
  if b = 0 then none else if InRange w (a.tdiv b) then some (a.tmod b) else none

/-- A value that fits in 32 bits fits in every wider type. -/
theorem inRange_of_lt {w : Nat} (hw : 32 ≤ w) {x : Int} (h0 : -2 ^ 31 ≤ x) (h1 : x < 2 ^ 31) :
    InRange w x := by
  have hpow : (2 : Int) ^ 31 ≤ 2 ^ (w - 1) := pow_le_pow_right₀ (by norm_num) (by omega)
  exact ⟨by linarith, by linarith⟩

/-- The 64-bit range with its bounds written out, for `omega`. -/
theorem inRange_64_iff {x : Int} :
    InRange 64 x ↔ -9223372036854775808 ≤ x ∧ x < 9223372036854775808 := by
  unfold InRange
  norm_num

theorem checked_of_inRange {w : Nat} {x : Int} (h : InRange w x) : checked w x = some x := by
  simp [checked, h]

theorem checked_eq_some {w : Nat} {x y : Int} : checked w x = some y ↔ InRange w x ∧ x = y := by
  unfold checked
  split <;> simp_all

theorem sadd_of_inRange {w : Nat} {a b : Int} (h : InRange w (a + b)) : sadd w a b = some (a + b) :=
  checked_of_inRange h

theorem ssub_of_inRange {w : Nat} {a b : Int} (h : InRange w (a - b)) : ssub w a b = some (a - b) :=
  checked_of_inRange h

theorem smul_of_inRange {w : Nat} {a b : Int} (h : InRange w (a * b)) : smul w a b = some (a * b) :=
  checked_of_inRange h

theorem sshl_of_inRange {w : Nat} {a : Int} {k : Nat} (ha : 0 ≤ a) (h : InRange w (a * 2 ^ k)) :
    sshl w a k = some (a * 2 ^ k) := by
  simp [sshl, ha, checked_of_inRange h]

/-- Dividing by a positive number stays between `0` and the dividend. -/
theorem tdiv_between {a b : Int} (hb : 0 < b) :
    (0 ≤ a → 0 ≤ a.tdiv b ∧ a.tdiv b ≤ a) ∧ (a < 0 → a ≤ a.tdiv b ∧ a.tdiv b ≤ 0) := by
  refine ⟨fun ha => ⟨Int.tdiv_nonneg ha hb.le, Int.tdiv_le_self b ha⟩, fun ha => ?_⟩
  have hneg : a.tdiv b = -((-a).tdiv b) := by rw [Int.neg_tdiv, neg_neg]
  have h₁ := Int.tdiv_nonneg (show 0 ≤ -a by omega) hb.le
  have h₂ := Int.tdiv_le_self b (show 0 ≤ -a by omega)
  omega

theorem sdiv_of_pos {w : Nat} {a b : Int} (hb : 0 < b) (h : InRange w a) :
    sdiv w a b = some (a.tdiv b) := by
  have hq : InRange w (a.tdiv b) := by
    unfold InRange at h ⊢
    have := tdiv_between (a := a) hb
    rcases le_or_gt 0 a with ha | ha
    · have := this.1 ha; omega
    · have := this.2 ha; omega
  simp [sdiv, hb.ne', checked_of_inRange hq]

theorem srem_of_pos {w : Nat} {a b : Int} (hb : 0 < b) (h : InRange w a) :
    srem w a b = some (a.tmod b) := by
  have hq := sdiv_of_pos hb h
  simp only [sdiv, hb.ne', if_false, checked_eq_some] at hq
  simp [srem, hb.ne', hq.1]

/-! ### Rounding to a multiple -/

/-- Rounding `x` up to a multiple of `m` (`x += m - x % m` when `x % m ≠ 0`) gives the least
multiple at or above `x`. -/
theorem roundUp_le {m x v : Int} (hm : 0 < m) (hv : v % m = 0) (hxv : x ≤ v) :
    (if x % m ≠ 0 then x + (m - x % m) else x) ≤ v := by
  split_ifs with hx
  · have hx' := Int.emod_add_mul_ediv x m
    have hv' := Int.emod_add_mul_ediv v m
    rw [hv, zero_add] at hv'
    -- `v` is a multiple of `m` above `x`, so its quotient is past `x`'s
    have hlt : x / m < v / m := by
      by_contra hge
      have hmul := Int.mul_le_mul_of_nonneg_left (not_lt.1 hge) hm.le
      have := Int.emod_nonneg x hm.ne'
      omega
    have hmul := Int.mul_le_mul_of_nonneg_left (show x / m + 1 ≤ v / m by omega) hm.le
    rw [mul_add, mul_one] at hmul
    omega
  · exact hxv

/-- Rounding `y` down to a multiple of `m` (`y -= y % m`) gives the greatest multiple at or below
`y`. -/
theorem le_roundDown {m y v : Int} (hm : 0 < m) (hv : v % m = 0) (hvy : v ≤ y) :
    v ≤ y - y % m := by
  have hy' := Int.emod_add_mul_ediv y m
  have hv' := Int.emod_add_mul_ediv v m
  rw [hv, zero_add] at hv'
  have hle : v / m ≤ y / m := by
    by_contra hlt
    have hmul := Int.mul_le_mul_of_nonneg_left (show y / m + 1 ≤ v / m by omega) hm.le
    have := Int.emod_lt_of_pos y hm
    rw [mul_add, mul_one] at hmul
    omega
  have := Int.mul_le_mul_of_nonneg_left hle hm.le
  omega

theorem roundUp_emod {m x : Int} : (if x % m ≠ 0 then x + (m - x % m) else x) % m = 0 := by
  split_ifs with hx
  · rw [← add_sub_assoc, add_comm, add_sub_assoc, Int.add_emod, Int.emod_self, zero_add,
      Int.emod_emod_of_dvd _ (dvd_refl m), Int.sub_emod, Int.emod_emod_of_dvd _ (dvd_refl m), sub_self,
      Int.zero_emod]
  · exact not_not.1 hx

theorem roundDown_nonneg {m y : Int} (hm : 0 < m) (hy : 0 ≤ y) : 0 ≤ y - y % m := by
  have hdec := Int.emod_add_mul_ediv y m
  have hq := Int.mul_nonneg hm.le (Int.ediv_nonneg hy hm.le)
  omega

theorem roundDown_emod {m y : Int} : (y - y % m) % m = 0 := by
  rw [Int.sub_emod, Int.emod_emod_of_dvd _ (dvd_refl m), sub_self, Int.zero_emod]

/-! ### Unsigned conversions

A value converted to a `w`-bit unsigned type is taken modulo `2^w`; an unsigned value stored into
the signed type of the same width is read in two's complement, as GCC defines the conversion. -/

/-- `(unsigned)x` in a `w`-bit unsigned type. -/
def toUnsigned (w : Nat) (x : Int) : Nat :=
  (x % 2 ^ w).toNat

/-- A `w`-bit unsigned value stored in the `w`-bit signed type. -/
def ofUnsigned (w n : Nat) : Int :=
  if n < 2 ^ (w - 1) then n else n - 2 ^ w

theorem toUnsigned_of_lt {w : Nat} {x : Int} (h0 : 0 ≤ x) (h : x < 2 ^ w) :
    (toUnsigned w x : Int) = x := by
  rw [toUnsigned, Int.emod_eq_of_lt h0 h, Int.toNat_of_nonneg h0]

theorem toUnsigned_lt (w : Nat) (x : Int) : toUnsigned w x < 2 ^ w := by
  have hpos : (0 : Int) < 2 ^ w := by positivity
  have hlt := Int.emod_lt_of_pos x hpos
  have hcast : ((2 ^ w : Nat) : Int) = 2 ^ w := by norm_cast
  rw [toUnsigned, Int.toNat_lt (Int.emod_nonneg x hpos.ne'), hcast]
  exact hlt

theorem ofUnsigned_of_lt {w n : Nat} (h : n < 2 ^ (w - 1)) : ofUnsigned w n = n := by
  rw [ofUnsigned, if_pos h]

theorem ofUnsigned_of_ge {w n : Nat} (h : 2 ^ (w - 1) ≤ n) : ofUnsigned w n = n - 2 ^ w := by
  rw [ofUnsigned, if_neg (Nat.not_lt.2 h)]

end CInt
