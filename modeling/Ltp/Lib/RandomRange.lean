import Mathlib.Data.Int.Bitwise
import Ltp.Library.CInt
import Ltp.Library.CText

/-!
# Random numbers in a range (`random_range.c`)

`random_range(min, max, mult, errp)` returns a random multiple of `mult` between `min` and `max`
(swapped if given the other way round), or `-1` with a message in `*errp`.  `random_rangel` is the
same code on `long`, and `random_rangell` on `long long`, which draws from `divider` when the rounded
upper bound is past `2^31 - 1`.

The three share `rangeBounds`, in the width of their arguments: the sanity check, the swap, the
rounding of `min` up and `max` down with C's truncating `%`, the empty-range check and the number of
multiples.  Each then scales one `lrand48()` value in `long` arithmetic; the value drawn is an
argument of the model.  A result of `none` is undefined behaviour: a signed overflow, a division by
zero or a shift out of range.

* `random_range_negative_max`: with a negative upper bound that is not a multiple of `mult`, the
  rounding moves `max` up, and the result lies above the range (`-7, -4, 3` gives `-3`);
  `random_rangell`'s `divider` path returns a value below the range (`-10, 2^31, 1` gives `-20`).
* `randomRange_nonneg`, `randomRangel_nonneg`: on non-negative bounds below `2^30` the result obeys
  `RangeLaw`: a multiple of `mult` between the bounds in either order, or `-1` with the message exactly
  when there is no such multiple.

`randomRangeAt` is `random_range` as a call on the stream of `lrand48()` values: it draws a value
only when the range holds a multiple.
-/

namespace Ltp

open CInt CText

/-- What `random_range` hands back: its return value and what it stores in `*errp` (`none` is
`NULL`). -/
structure RangeResult where
  ret : Int
  errp : Option (List Char)
  deriving DecidableEq, Repr

/-- The message for `mult < 1`. -/
def multArgMessage : List Char :=
  "mult arg must be greater than 0".toList

/-- The message for a range without a multiple of `mult`, with the arguments as given. -/
def noNumbersMessage (min max mult : Int) : List Char :=
  "no numbers in the range ".toList ++ fmtInt min ++ [':'] ++ fmtInt max ++
    " that are a multiple of ".toList ++ fmtInt mult

/-- The common part of the three functions in `w`-bit arithmetic: the early return (`inl`), or the
rounded bounds and the number of multiples between them (`inr`). -/
def rangeBounds (w : Nat) (min max mult : Int) : Option (RangeResult ⊕ (Int × Int × Int)) := do
  if mult < 1 then return .inl ⟨-1, some multArgMessage⟩
  let origMin := min
  let origMax := max
  -- switch min/max if max < min
  let (min, max) := if max < min then (max, min) else (min, max)
  -- bump `min` to the next higher multiple, reduce `max` to the next lower one
  let r ← srem w min mult
  let min ← if r ≠ 0 then ssub w mult r >>= sadd w min else pure min
  let r ← srem w max mult
  let max ← if r ≠ 0 then ssub w max r else pure max
  if min > max then return .inl ⟨-1, some (noNumbersMessage origMin origMax mult)⟩
  let nmults ← ssub w max min >>= (sdiv w · mult) >>= (sadd w · 1)
  return .inr (min, max, nmults)

/-- `min + ((rand % nmults) * mult)` in `long`, with `*errp` set to `NULL`. -/
def rangePick (min nmults mult rand : Int) : Option RangeResult := do
  let v ← srem 64 rand nmults >>= (smul 64 · mult) >>= sadd 64 min
  return ⟨v, none⟩

/-- `random_range(min, max, mult, errp)` on `int`, drawing `lrand48`. -/
def randomRange (min max mult : Int) (lrand48 : Nat) : Option RangeResult := do
  match ← rangeBounds 32 min max mult with
  | .inl res => return res
  | .inr (min, _, nmults) => rangePick min nmults mult lrand48

/-- `random_rangel(min, max, mult, errp)` on `long`, drawing `lrand48`. -/
def randomRangel (min max mult : Int) (lrand48 : Nat) : Option RangeResult := do
  match ← rangeBounds 64 min max mult with
  | .inl res => return res
  | .inr (min, _, nmults) => rangePick min nmults mult lrand48

/-- The recursion of `divider(min, max, cnt, rand)` on `long long`; the first call draws
`lrand48`.  It halves the range until the half fits in 31 bits, choosing a half by bit `cnt` of the
random number, and stops at `cnt > 32`; `fuel` bounds the depth, which the `cnt` test keeps below
34. -/
def dividerLoop (lrand48 : Nat) : (fuel : Nat) → (min max cnt rand : Int) → Option Int
  | 0, _, _, _, _ => none
  | fuel + 1, min, max, cnt, rand => do
    if cnt > 32 then return -1
    -- only get a random number the first time
    let rand := if cnt = 0 ∨ rand < -1 then (lrand48 : Int) else rand
    let diff ← ssub 64 max min
    if diff ≤ 2147483647 then sadd 64 min rand
    else
      let half ← sdiv 64 diff 2
      let med ← sadd 64 min half
      -- `1 << cnt` is an `int` shift
      let bit ← sshl 32 1 cnt.toNat
      if half ≤ 2147483647 then
        if Int.land rand bit ≠ 0 then sadd 64 med rand else sadd 64 min rand
      else if Int.land rand bit ≠ 0 then dividerLoop lrand48 fuel med max (cnt + 1) rand
      else dividerLoop lrand48 fuel min med (cnt + 1) rand

/-- `divider(min, max, cnt, rand)`. -/
def divider (lrand48 : Nat) (min max cnt rand : Int) : Option Int :=
  dividerLoop lrand48 34 min max cnt rand

/-- `random_rangell(min, max, mult, errp)` on `long long`, drawing `lrand48`: past `2^31 - 1` the
random base comes from `divider`. -/
def randomRangell (min max mult : Int) (lrand48 : Nat) : Option RangeResult := do
  match ← rangeBounds 64 min max mult with
  | .inl res => return res
  | .inr (min, max, nmults) =>
    if max ≤ 2147483647 then rangePick min nmults mult lrand48
    else
      let randnum ← divider lrand48 min max 0 (-1)
      rangePick min nmults mult randnum

/-- `random_range` on the stream `rng` of `lrand48()` values at position `k`: the result and the
position after the call, which draws only when the range holds a multiple. -/
def randomRangeAt (rng : Nat → Nat) (min max mult : Int) (k : Nat) : Option (RangeResult × Nat) := do
  match ← rangeBounds 32 min max mult with
  | .inl res => return (res, k)
  | .inr (min, _, nmults) => return (← rangePick min nmults mult (rng k), k + 1)

/-- What `random_range(a, b, mult, &errp)` promises: a multiple of `mult` between `a` and `b`, in either
order, with `*errp = NULL`; or `-1` and the message, when there is no such multiple. -/
def RangeLaw (a b mult : Int) (res : RangeResult) : Prop :=
  (res.errp = none ∧ min a b ≤ res.ret ∧ res.ret ≤ max a b ∧ res.ret % mult = 0) ∨
    (res = ⟨-1, some (noNumbersMessage a b mult)⟩ ∧
      ∀ v, min a b ≤ v → v ≤ max a b → v % mult ≠ 0)

/-! ### One equation per function -/

section Spec

variable {min max mult lo hi n : Int} {res : RangeResult}

theorem randomRange_of_inl (r : Nat) (h : rangeBounds 32 min max mult = some (.inl res)) :
    randomRange min max mult r = some res := by
  simp only [randomRange, h, Option.bind_eq_bind, Option.bind_some]; rfl

theorem randomRange_of_inr (r : Nat) (h : rangeBounds 32 min max mult = some (.inr (lo, hi, n))) :
    randomRange min max mult r = rangePick lo n mult r := by
  simp only [randomRange, h, Option.bind_eq_bind, Option.bind_some]

theorem randomRangel_of_inr (r : Nat) (h : rangeBounds 64 min max mult = some (.inr (lo, hi, n))) :
    randomRangel min max mult r = rangePick lo n mult r := by
  simp only [randomRangel, h, Option.bind_eq_bind, Option.bind_some]

/-- Below `2^31` the `long long` version draws like the others. -/
theorem randomRangell_of_inr_small (r : Nat) (h : rangeBounds 64 min max mult = some (.inr (lo, hi, n)))
    (hhi : hi ≤ 2147483647) : randomRangell min max mult r = rangePick lo n mult r := by
  simp only [randomRangell, h, Option.bind_eq_bind, Option.bind_some, if_pos hhi]

theorem randomRangeAt_of_inl (rng : Nat → Nat) (k : Nat)
    (h : rangeBounds 32 min max mult = some (.inl res)) :
    randomRangeAt rng min max mult k = some (res, k) := by
  simp only [randomRangeAt, h, Option.bind_eq_bind, Option.bind_some]; rfl

theorem randomRangeAt_of_inr (rng : Nat → Nat) (k : Nat)
    (h : rangeBounds 32 min max mult = some (.inr (lo, hi, n))) :
    randomRangeAt rng min max mult k = (rangePick lo n mult (rng k)).map (·, k + 1) := by
  simp only [randomRangeAt, h, Option.bind_eq_bind, Option.bind_some]
  cases rangePick lo n mult (rng k) <;> rfl

end Spec

/-! ### Non-negative bounds -/

section Nonneg

variable {w : Nat} {a b mult : Int}

/-- `min += mult - r` when `r = min % mult` is nonzero: the next multiple up. -/
theorem roundUpStep_eq {α : Type} (hw : 32 ≤ w) {x : Int} (h0 : 0 ≤ x) (h1 : x < 2 ^ 30)
    (hm : 1 ≤ mult) (hm' : mult < 2 ^ 30) (k : Int → Option α) :
    (if x % mult ≠ 0 then ((ssub w mult (x % mult)).bind (sadd w x)).bind k
      else (pure x : Option Int).bind k) =
      k (if x % mult ≠ 0 then x + (mult - x % mult) else x) := by
  have hmod0 := Int.emod_nonneg x (show mult ≠ 0 by omega)
  have hmod1 := Int.emod_lt_of_pos x (show 0 < mult by omega)
  split_ifs with h
  · rw [ssub_of_inRange (inRange_of_lt hw (by omega) (by omega)), Option.bind_some,
      sadd_of_inRange (inRange_of_lt hw (by omega) (by omega)), Option.bind_some]
  · rfl

/-- `max -= r` when `r = max % mult` is nonzero: the last multiple down. -/
theorem roundDownStep_eq {α : Type} (hw : 32 ≤ w) {x : Int} (h0 : 0 ≤ x) (h1 : x < 2 ^ 30)
    (hm : 1 ≤ mult) (hm' : mult < 2 ^ 30) (k : Int → Option α) :
    (if x % mult ≠ 0 then (ssub w x (x % mult)).bind k else (pure x : Option Int).bind k) =
      k (x - x % mult) := by
  have hmod0 := Int.emod_nonneg x (show mult ≠ 0 by omega)
  have hmod1 := Int.emod_lt_of_pos x (show 0 < mult by omega)
  split_ifs with h
  · rw [ssub_of_inRange (inRange_of_lt hw (by omega) (by omega)), Option.bind_some]
  · rw [not_not.1 h, sub_zero]
    rfl

/-- On non-negative bounds the common part swaps them, rounds them inwards to multiples of `mult`,
and counts the multiples between. -/
theorem rangeBounds_of_nonneg (hw : 32 ≤ w) (ha : 0 ≤ a) (hb : 0 ≤ b) (ha' : a < 2 ^ 30)
    (hb' : b < 2 ^ 30) (hm : 1 ≤ mult) (hm' : mult < 2 ^ 30) :
    rangeBounds w a b mult =
      let lo := min a b
      let hi := max a b
      let lo' := if lo % mult ≠ 0 then lo + (mult - lo % mult) else lo
      let hi' := hi - hi % mult
      if lo' > hi' then some (.inl ⟨-1, some (noNumbersMessage a b mult)⟩)
      else some (.inr (lo', hi', (hi' - lo') / mult + 1)) := by
  obtain ⟨lo, hi, hp, hlo, hhi⟩ : ∃ lo hi, (if b < a then (b, a) else (a, b)) = (lo, hi) ∧
      lo = min a b ∧ hi = max a b := by
    by_cases h : b < a
    · exact ⟨b, a, if_pos h, (min_eq_right h.le).symm, (max_eq_left h.le).symm⟩
    · exact ⟨a, b, if_neg h, (min_eq_left (not_lt.1 h)).symm, (max_eq_right (not_lt.1 h)).symm⟩
  rw [← hlo, ← hhi]
  have hlo0 : 0 ≤ lo := by rw [hlo]; exact le_min ha hb
  have hlo1 : lo < 2 ^ 30 := by rw [hlo]; exact min_lt_of_left_lt ha'
  have hhi0 : 0 ≤ hi := by rw [hhi]; exact le_max_of_le_left ha
  have hhi1 : hi < 2 ^ 30 := by rw [hhi]; exact max_lt ha' hb'
  have hr : ∀ x : Int, 0 ≤ x → x < 2 ^ 30 → srem w x mult = some (x % mult) := fun x h0 h1 => by
    rw [srem_of_pos (by omega) (inRange_of_lt hw (by omega) (by omega)),
      Int.tmod_eq_emod_of_nonneg h0]
  unfold rangeBounds
  simp only [not_lt.2 hm, if_false, hp, hr lo hlo0 hlo1, hr hi hhi0 hhi1, Option.bind_eq_bind,
    Option.bind_some, roundDownStep_eq hw hhi0 hhi1 hm hm', roundUpStep_eq hw hlo0 hlo1 hm hm']
  -- the rounded lower bound stays within one multiple of `lo`
  generalize hlo' : (if lo % mult ≠ 0 then lo + (mult - lo % mult) else lo) = lo'
  have hlolo : lo ≤ lo' ∧ lo' ≤ lo + mult := by
    rw [← hlo']
    have := Int.emod_nonneg lo (show mult ≠ 0 by omega)
    have := Int.emod_lt_of_pos lo (show 0 < mult by omega)
    split_ifs <;> omega
  split_ifs with hgt
  · rfl
  · -- the number of multiples, once the rounded bounds are in order
    have hdiff : 0 ≤ hi - hi % mult - lo' := by omega
    have hq0 := Int.ediv_nonneg hdiff (by omega : 0 ≤ mult)
    have hq1 := Int.ediv_le_self mult hdiff
    have hmod := Int.emod_nonneg hi (show mult ≠ 0 by omega)
    rw [ssub_of_inRange (inRange_of_lt hw (by omega) (by omega)), Option.bind_some,
      sdiv_of_pos (by omega) (inRange_of_lt hw (by omega) (by omega)), Option.bind_some,
      Int.tdiv_eq_ediv_of_nonneg hdiff, sadd_of_inRange (inRange_of_lt hw (by omega) (by omega)),
      Option.bind_some]
    rfl

/-- Drawing among the `n` multiples of `mult` from `lo` on. -/
theorem rangePick_of_nonneg {lo n rand : Int} (hlo : 0 ≤ lo) (hn : 1 ≤ n) (hm : 1 ≤ mult)
    (hspan : lo + (n - 1) * mult < 2 ^ 30) (hr0 : 0 ≤ rand) (hr1 : rand < 2 ^ 31) :
    rangePick lo n mult rand = some ⟨lo + rand % n * mult, none⟩ ∧
      lo ≤ lo + rand % n * mult ∧ lo + rand % n * mult ≤ lo + (n - 1) * mult := by
  have hq0 := Int.emod_nonneg rand (by omega : n ≠ 0)
  have hq1 := Int.emod_lt_of_pos rand (by omega : 0 < n)
  have hmul0 : 0 ≤ rand % n * mult := mul_nonneg hq0 (by omega)
  have hmul1 : rand % n * mult ≤ (n - 1) * mult :=
    Int.mul_le_mul_of_nonneg_right (by omega) (by omega)
  have hsrem : srem 64 rand n = some (rand % n) := by
    rw [srem_of_pos (by omega) (inRange_of_lt (by norm_num) (by omega) hr1),
      Int.tmod_eq_emod_of_nonneg hr0]
  have hsmul : smul 64 (rand % n) mult = some (rand % n * mult) :=
    smul_of_inRange (inRange_of_lt (by norm_num) (by omega) (by omega))
  have hsadd : sadd 64 lo (rand % n * mult) = some (lo + rand % n * mult) :=
    sadd_of_inRange (inRange_of_lt (by norm_num) (by omega) (by omega))
  refine ⟨?_, by omega, by omega⟩
  simp only [rangePick, hsrem, hsmul, hsadd, Option.bind_eq_bind, Option.bind_some]
  rfl

/-- The law of the three functions' shared path on non-negative bounds, at any width from 32 bits. -/
theorem rangeLaw_of_nonneg (hw : 32 ≤ w) (ha : 0 ≤ a) (hb : 0 ≤ b) (ha' : a < 2 ^ 30)
    (hb' : b < 2 ^ 30) (hm : 1 ≤ mult) (hm' : mult < 2 ^ 30) (r : Nat) (hr : r < 2 ^ 31) :
    ∃ res, (do match ← rangeBounds w a b mult with
        | .inl res => return res
        | .inr (min, _, nmults) => rangePick min nmults mult r) = some res ∧
      RangeLaw a b mult res := by
  have hmpos : 0 < mult := by omega
  have hlo0 : 0 ≤ min a b := le_min ha hb
  have hhi1 : max a b < 2 ^ 30 := max_lt ha' hb'
  have hle := min_le_max (a := a) (b := b)
  rw [rangeBounds_of_nonneg hw ha hb ha' hb' hm hm']
  simp only
  generalize hlo' : (if min a b % mult ≠ 0 then min a b + (mult - min a b % mult) else min a b) = lo'
  have hlolo' : min a b ≤ lo' := by
    rw [← hlo']
    split_ifs <;> have := Int.emod_lt_of_pos (min a b) hmpos <;> omega
  have hlo'm : lo' % mult = 0 := hlo' ▸ roundUp_emod
  have hhi'm : (max a b - max a b % mult) % mult = 0 := roundDown_emod
  have hhihi' := Int.emod_nonneg (max a b) hmpos.ne'
  split_ifs with hgt
  · -- no multiple between the bounds: the least one above `lo` is past the greatest below `hi`
    refine ⟨_, rfl, .inr ⟨rfl, fun v hv1 hv2 hv => ?_⟩⟩
    have h1 := roundUp_le hmpos hv hv1
    have h2 := le_roundDown hmpos hv hv2
    rw [hlo'] at h1
    omega
  · -- the count of multiples spans exactly the rounded range
    set n := (max a b - max a b % mult - lo') / mult + 1 with hn
    have hq := Int.ediv_nonneg (show 0 ≤ max a b - max a b % mult - lo' by omega) hmpos.le
    have hspan : (n - 1) * mult ≤ max a b - max a b % mult - lo' := by
      rw [hn, add_sub_cancel_right]
      exact Int.ediv_mul_le _ hmpos.ne'
    obtain ⟨hpick, hge, hle'⟩ := rangePick_of_nonneg (show 0 ≤ lo' by omega) (show 1 ≤ n by omega) hm
      (show lo' + (n - 1) * mult < 2 ^ 30 by omega) (show (0 : Int) ≤ r by omega)
      (show (r : Int) < 2 ^ 31 by omega)
    refine ⟨_, by simpa only [Option.bind_eq_bind, Option.bind_some] using hpick, .inl ⟨rfl, ?_, ?_, ?_⟩⟩
      <;> dsimp only
    · omega
    · omega
    · rw [Int.add_emod, hlo'm, zero_add, Int.emod_emod_of_dvd _ (dvd_refl mult),
        Int.mul_emod_left]

theorem randomRange_nonneg (ha : 0 ≤ a) (hb : 0 ≤ b) (ha' : a < 2 ^ 30) (hb' : b < 2 ^ 30)
    (hm : 1 ≤ mult) (hm' : mult < 2 ^ 30) (r : Nat) (hr : r < 2 ^ 31) :
    ∃ res, randomRange a b mult r = some res ∧ RangeLaw a b mult res :=
  rangeLaw_of_nonneg le_rfl ha hb ha' hb' hm hm' r hr

theorem randomRangel_nonneg (ha : 0 ≤ a) (hb : 0 ≤ b) (ha' : a < 2 ^ 30) (hb' : b < 2 ^ 30)
    (hm : 1 ≤ mult) (hm' : mult < 2 ^ 30) (r : Nat) (hr : r < 2 ^ 31) :
    ∃ res, randomRangel a b mult r = some res ∧ RangeLaw a b mult res :=
  rangeLaw_of_nonneg (by norm_num) ha hb ha' hb' hm hm' r hr

/-- The stream version draws one value exactly when the range holds a multiple. -/
theorem randomRangeAt_nonneg (rng : Nat → Nat) (hrng : ∀ i, rng i < 2 ^ 31) (k : Nat)
    (ha : 0 ≤ a) (hb : 0 ≤ b) (ha' : a < 2 ^ 30) (hb' : b < 2 ^ 30) (hm : 1 ≤ mult)
    (hm' : mult < 2 ^ 30) :
    ∃ res k', randomRangeAt rng a b mult k = some (res, k') ∧ RangeLaw a b mult res := by
  obtain ⟨res, hres, hlaw⟩ := randomRange_nonneg ha hb ha' hb' hm hm' (rng k) (hrng k)
  cases hb : rangeBounds 32 a b mult with
  | none => simp [randomRange, hb] at hres
  | some e =>
    cases e with
    | inl res' =>
      rw [randomRange_of_inl _ hb, Option.some.injEq] at hres
      exact ⟨res, k, by rw [randomRangeAt_of_inl rng k hb, hres], hlaw⟩
    | inr t =>
      obtain ⟨lo, hi, n⟩ := t
      rw [randomRange_of_inr _ hb] at hres
      exact ⟨res, k + 1, by rw [randomRangeAt_of_inr rng k hb, hres]; rfl, hlaw⟩

end Nonneg

/-! ### Negative bounds -/

/-- Picking among `nmults = 1` multiples ignores the random number. -/
theorem rangePick_one {min rand : Int} (mult : Int) (hmin : InRange 64 min) (hrand : InRange 64 rand) :
    rangePick min 1 mult rand = some ⟨min, none⟩ := by
  have hmul : smul 64 0 mult = some 0 := by
    rw [smul, zero_mul, checked_of_inRange (by unfold InRange; norm_num)]
  have hadd : sadd 64 min 0 = some min := by rw [sadd, add_zero, checked_of_inRange hmin]
  simp only [rangePick, srem_of_pos one_pos hrand, Int.tmod_one, Option.bind_eq_bind,
    Option.bind_some, hmul, hadd]
  rfl

/-- A negative upper bound that is not a multiple of `mult` is rounded up, past the range, by all
three functions; and `divider` hands `random_rangell` a base below the range. -/
theorem random_range_negative_max (r : Nat) (hr : r < 2 ^ 31) :
    randomRange (-7) (-4) 3 r = some ⟨-3, none⟩ ∧ randomRangel (-7) (-4) 3 r = some ⟨-3, none⟩ ∧
      randomRangell (-7) (-4) 3 r = some ⟨-3, none⟩ ∧
      randomRangell (-10) 2147483648 1 0 = some ⟨-20, none⟩ := by
  have hmin : InRange 64 (-3) := by unfold InRange; norm_num
  have hrand : InRange 64 (r : Int) := by unfold InRange; norm_num; omega
  have h32 : rangeBounds 32 (-7) (-4) 3 = some (.inr (-3, -3, 1)) := by decide
  have h64 : rangeBounds 64 (-7) (-4) 3 = some (.inr (-3, -3, 1)) := by decide
  refine ⟨?_, ?_, ?_, by decide⟩
  · rw [randomRange_of_inr r h32]; exact rangePick_one 3 hmin hrand
  · rw [randomRangel_of_inr r h64]; exact rangePick_one 3 hmin hrand
  · rw [randomRangell_of_inr_small r h64 (by norm_num)]; exact rangePick_one 3 hmin hrand

theorem random_range_negative_max_zero :
    (0 : Nat) < 2 ^ 31 ∧ randomRange (-7) (-4) 3 0 = some ⟨-3, none⟩ ∧
      randomRangel (-7) (-4) 3 0 = some ⟨-3, none⟩ ∧ randomRangell (-7) (-4) 3 0 = some ⟨-3, none⟩ ∧
      randomRangell (-10) 2147483648 1 0 = some ⟨-20, none⟩ :=
  ⟨by norm_num, random_range_negative_max 0 (by norm_num)⟩

end Ltp
