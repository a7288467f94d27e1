import Ltp.Library.CInt

/-!
# Timespec arithmetic (`tst_timer.h`)

The inline helpers of `tst_timer.h` on `struct timespec`: conversions to nanoseconds, rounded
microseconds and milliseconds, the comparison `tst_timespec_lt`, `tst_timespec_add_us`, the
difference with its borrow and the absolute difference.  On Linux `time_t`, `long` and
`long long` are 64-bit, so every operation is the checked 64-bit arithmetic of `CInt`, `none`
standing for a signed overflow.

A time `t` stands for `t.ns = 10^9 * tv_sec + tv_nsec` nanoseconds; it is normalized when
`0 ≤ tv_nsec < 10^9`, and its seconds are small when `|tv_sec| ≤ secMax`, which leaves room for
the nanosecond totals of sums and differences of two such times in 64 bits.

* `tstTimespecDiff_spec`, `tstTimespecAbsDiff_spec`: the difference and the absolute difference
  are normalized and stand for the difference of the totals, which `tstTimespecDiffNs_eq` computes.
* `tstTimespecLt_iff`: the comparison orders the totals.
* `tstTimespecAbsDiff_rounded`: the rounded conversions of the absolute difference round its total
  half up (`roundHalfUp`).
* `tstTimespecAddUs_spec`: adding `us` microseconds adds `1000 * us` to the total for every `us`,
  and keeps the time normalized when `0 ≤ us`.  A negative `us` is carried but never borrowed, so
  `{1, 0}` plus `-1` is `{1, -1000}` (`tst_timespec_add_us_negative`).
-/

namespace Ltp

open CInt

/-- `struct timespec`. -/
structure Timespec where
  tvSec : Int
  tvNsec : Int
  deriving DecidableEq, Repr

/-- The nanoseconds a time stands for. -/
def Timespec.ns (t : Timespec) : Int := 10 ^ 9 * t.tvSec + t.tvNsec

def Timespec.Normalized (t : Timespec) : Prop := 0 ≤ t.tvNsec ∧ t.tvNsec < 10 ^ 9

/-- The largest seconds count whose nanosecond total, doubled, fits in 64 bits:
`⌊2^62 / 10^9⌋ - 1`. -/
def secMax : Int := 4611686017

def Timespec.SmallSec (t : Timespec) : Prop := -secMax ≤ t.tvSec ∧ t.tvSec ≤ secMax

/-! ## The helpers -/

/-- `tst_timespec_to_ns`: `t.tv_sec * 1000000000 + t.tv_nsec`. -/
def tstTimespecToNs (t : Timespec) : Option Int := do
  let s ← smul 64 t.tvSec 1000000000
  sadd 64 s t.tvNsec

/-- The rounded conversions: `t.tv_sec * perSec + (t.tv_nsec + half) / unit`. -/
def timespecToRounded (perSec half unit : Int) (t : Timespec) : Option Int := do
  let s ← smul 64 t.tvSec perSec
  let n ← sadd 64 t.tvNsec half
  let q ← sdiv 64 n unit
  sadd 64 s q

/-- `tst_timespec_to_us`. -/
def tstTimespecToUs (t : Timespec) : Option Int := timespecToRounded 1000000 500 1000 t

/-- `tst_timespec_to_ms`. -/
def tstTimespecToMs (t : Timespec) : Option Int := timespecToRounded 1000 500000 1000000 t

/-- `tst_timespec_lt`. -/
def tstTimespecLt (t1 t2 : Timespec) : Bool :=
  if t1.tvSec = t2.tvSec then decide (t1.tvNsec < t2.tvNsec) else decide (t1.tvSec < t2.tvSec)

/-- `tst_timespec_add_us`: the seconds and the truncated remainder are added, and a
`tv_nsec` at or past a second is carried. -/
def tstTimespecAddUs (t : Timespec) (us : Int) : Option Timespec := do
  let q ← sdiv 64 us 1000000
  let sec ← sadd 64 t.tvSec q
  let r ← srem 64 us 1000000
  let r' ← smul 64 r 1000
  let nsec ← sadd 64 t.tvNsec r'
  if nsec ≥ 1000000000 then
    let sec' ← sadd 64 sec 1
    let nsec' ← ssub 64 nsec 1000000000
    pure ⟨sec', nsec'⟩
  else
    pure ⟨sec, nsec⟩

/-- `tst_timespec_diff`, borrowing a second when `t1.tv_nsec < t2.tv_nsec`. -/
def tstTimespecDiff (t1 t2 : Timespec) : Option Timespec := do
  let sec ← ssub 64 t1.tvSec t2.tvSec
  if t1.tvNsec < t2.tvNsec then
    let sec' ← ssub 64 sec 1
    let d ← ssub 64 t2.tvNsec t1.tvNsec
    let nsec ← ssub 64 1000000000 d
    pure ⟨sec', nsec⟩
  else
    let nsec ← ssub 64 t1.tvNsec t2.tvNsec
    pure ⟨sec, nsec⟩

/-- `tst_timespec_diff_ns`: `t1.tv_nsec - t2.tv_nsec + 1000000000LL * (t1.tv_sec - t2.tv_sec)`. -/
def tstTimespecDiffNs (t1 t2 : Timespec) : Option Int := do
  let n ← ssub 64 t1.tvNsec t2.tvNsec
  let s ← ssub 64 t1.tvSec t2.tvSec
  let s' ← smul 64 1000000000 s
  sadd 64 n s'

def tstTimespecDiffUs (t1 t2 : Timespec) : Option Int := tstTimespecDiff t1 t2 >>= tstTimespecToUs

def tstTimespecDiffMs (t1 t2 : Timespec) : Option Int := tstTimespecDiff t1 t2 >>= tstTimespecToMs

/-- `tst_timespec_abs_diff`. -/
def tstTimespecAbsDiff (t1 t2 : Timespec) : Option Timespec :=
  if tstTimespecLt t1 t2 then tstTimespecDiff t2 t1 else tstTimespecDiff t1 t2

def tstTimespecAbsDiffUs (t1 t2 : Timespec) : Option Int :=
  tstTimespecAbsDiff t1 t2 >>= tstTimespecToUs

def tstTimespecAbsDiffMs (t1 t2 : Timespec) : Option Int :=
  tstTimespecAbsDiff t1 t2 >>= tstTimespecToMs

/-! ## Specifications -/

/-- `x / u` rounded to the nearest integer, halves up. -/
def roundHalfUp (x u : Int) : Int := ⌊(x : ℚ) / u + 1 / 2⌋

/-- Floor division after adding half the unit rounds half up. -/
theorem ediv_add_half {x u h : Int} (hu : 0 < u) (hh : 2 * h = u) : (x + h) / u = roundHalfUp x u := by
  subst hh
  have hk : (0 : ℚ) < h := by exact_mod_cast (show 0 < h by omega)
  -- the quotient `q` brackets `x + h` between two multiples of `2h`
  have hlo := Int.ediv_mul_le (x + h) (show 2 * h ≠ 0 by omega)
  have hhi := Int.lt_ediv_add_one_mul_self (x + h) (show 0 < 2 * h by omega)
  set q := (x + h) / (2 * h)
  have hlo' : (q : ℚ) * (2 * h) ≤ x + h := by exact_mod_cast hlo
  have hhi' : (x : ℚ) + h < (q + 1) * (2 * h) := by exact_mod_cast hhi
  have hmid : (x : ℚ) / ↑(2 * h) + 1 / 2 = (x + h) / (2 * h) := by
    push_cast
    field_simp
  unfold roundHalfUp
  rw [eq_comm, Int.floor_eq_iff, hmid]
  constructor
  · rw [le_div_iff₀ (by positivity)]
    exact hlo'
  · rw [div_lt_iff₀ (by positivity)]
    exact hhi'

/-- Any count of nanoseconds over fewer than `9223372036` seconds fits in 64 bits. -/
theorem inRange_64_of_ns {x : Int} (h0 : -9223372036 * 10 ^ 9 ≤ x)
    (h1 : x ≤ 9223372036 * 10 ^ 9) : InRange 64 x :=
  inRange_64_iff.2 ⟨by omega, by omega⟩

section Normalized

variable {t t1 t2 : Timespec} {us : Int}

theorem tstTimespecLt_iff (n1 : t1.Normalized) (n2 : t2.Normalized) :
    tstTimespecLt t1 t2 = true ↔ t1.ns < t2.ns := by
  unfold Timespec.Normalized at n1 n2
  unfold tstTimespecLt Timespec.ns
  split_ifs with hsec
  · rw [decide_eq_true_iff]
    omega
  · rw [decide_eq_true_iff]
    omega

theorem tstTimespecDiff_spec (n1 : t1.Normalized) (n2 : t2.Normalized) (s1 : t1.SmallSec)
    (s2 : t2.SmallSec) :
    ∃ r, tstTimespecDiff t1 t2 = some r ∧ r.Normalized ∧ r.ns = t1.ns - t2.ns := by
  unfold Timespec.Normalized at n1 n2
  unfold Timespec.SmallSec secMax at s1 s2
  unfold tstTimespecDiff
  rw [ssub_of_inRange (inRange_64_of_ns (by omega) (by omega))]
  simp only [Option.bind_eq_bind, Option.bind_some]
  by_cases hlt : t1.tvNsec < t2.tvNsec
  · rw [if_pos hlt, ssub_of_inRange (inRange_64_of_ns (by omega) (by omega)), Option.bind_some,
      ssub_of_inRange (inRange_64_of_ns (by omega) (by omega)), Option.bind_some,
      ssub_of_inRange (inRange_64_of_ns (by omega) (by omega)), Option.bind_some]
    refine ⟨_, rfl, ?_, ?_⟩
    · dsimp only [Timespec.Normalized]
      omega
    · dsimp only [Timespec.ns]
      ring
  · rw [if_neg hlt, ssub_of_inRange (inRange_64_of_ns (by omega) (by omega)), Option.bind_some]
    refine ⟨_, rfl, ?_, ?_⟩
    · dsimp only [Timespec.Normalized]
      omega
    · dsimp only [Timespec.ns]
      ring

theorem tstTimespecDiffNs_eq (n1 : t1.Normalized) (n2 : t2.Normalized) (s1 : t1.SmallSec)
    (s2 : t2.SmallSec) : tstTimespecDiffNs t1 t2 = some (t1.ns - t2.ns) := by
  unfold Timespec.Normalized at n1 n2
  unfold Timespec.SmallSec secMax at s1 s2
  unfold tstTimespecDiffNs
  rw [ssub_of_inRange (inRange_64_of_ns (by omega) (by omega)), Option.bind_eq_bind, Option.bind_some,
    ssub_of_inRange (inRange_64_of_ns (by omega) (by omega)), Option.bind_some,
    smul_of_inRange (inRange_64_of_ns (by omega) (by omega)), Option.bind_some,
    sadd_of_inRange (inRange_64_of_ns (by omega) (by omega)), Timespec.ns, Timespec.ns]
  congr 1
  ring

/-- Totals that fit in 64 bits are not enough: here both totals and their difference fit, but
`1000000000LL * (t1.tv_sec - t2.tv_sec)` overflows. -/
example : tstTimespecDiffNs ⟨9223372036, 0⟩ ⟨-1, 999999999⟩ = none := by
  decide

/-- The seconds of a difference of two times with small seconds. -/
def Timespec.DiffSec (t : Timespec) : Prop := -(2 * secMax + 1) ≤ t.tvSec ∧ t.tvSec ≤ 2 * secMax + 1

theorem tstTimespecToNs_eq (n : t.Normalized) (hs : t.DiffSec) : tstTimespecToNs t = some t.ns := by
  unfold Timespec.Normalized at n
  unfold Timespec.DiffSec secMax at hs
  unfold tstTimespecToNs
  rw [smul_of_inRange (inRange_64_of_ns (by omega) (by omega)), Option.bind_eq_bind, Option.bind_some,
    sadd_of_inRange (inRange_64_of_ns (by omega) (by omega)), Timespec.ns]
  congr 1
  ring

/-- The rounded conversions of a normalized time, `perSec * unit = 10^9`: the total plus `half`,
divided by `unit`. -/
theorem timespecToRounded_eq {perSec half unit : Int} (hp : 0 < perSec ∧ perSec ≤ 10 ^ 6)
    (hu : 0 < unit) (hpu : perSec * unit = 10 ^ 9) (hh : 0 ≤ half ∧ half ≤ 10 ^ 9)
    (n : t.Normalized) (hs : t.DiffSec) :
    timespecToRounded perSec half unit t = some ((t.ns + half) / unit) := by
  unfold Timespec.Normalized at n
  unfold Timespec.DiffSec secMax at hs
  -- `perSec` is at most `10^6`, so the scaled seconds stay far inside 64 bits
  have hmul : -9223372035 * 10 ^ 6 ≤ t.tvSec * perSec ∧ t.tvSec * perSec ≤ 9223372035 * 10 ^ 6 := by
    constructor <;> nlinarith
  have hq0 := Int.ediv_nonneg (show 0 ≤ t.tvNsec + half by omega) hu.le
  have hq1 := Int.ediv_le_self unit (show 0 ≤ t.tvNsec + half by omega)
  unfold timespecToRounded
  rw [smul_of_inRange (inRange_64_of_ns (by omega) (by omega)), Option.bind_eq_bind, Option.bind_some,
    sadd_of_inRange (inRange_64_of_ns (by omega) (by omega)), Option.bind_some,
    sdiv_of_pos hu (inRange_64_of_ns (by omega) (by omega)), Option.bind_some,
    Int.tdiv_eq_ediv_of_nonneg (by omega), sadd_of_inRange (inRange_64_of_ns (by omega) (by omega))]
  have hns : t.ns + half = t.tvNsec + half + t.tvSec * perSec * unit := by
    rw [Timespec.ns, mul_assoc, hpu]
    ring
  rw [hns, Int.add_mul_ediv_right _ _ hu.ne']
  congr 1
  ring

theorem tstTimespecAbsDiff_spec (n1 : t1.Normalized) (n2 : t2.Normalized) (s1 : t1.SmallSec)
    (s2 : t2.SmallSec) :
    ∃ r, tstTimespecAbsDiff t1 t2 = some r ∧ r.Normalized ∧ r.ns = |t1.ns - t2.ns| := by
  unfold tstTimespecAbsDiff
  by_cases hlt : tstTimespecLt t1 t2 = true
  · obtain ⟨r, hr, hn, hns⟩ := tstTimespecDiff_spec n2 n1 s2 s1
    have hlt' := (tstTimespecLt_iff n1 n2).1 hlt
    refine ⟨r, by rw [if_pos hlt, hr], hn, ?_⟩
    rw [hns, abs_of_neg (by omega)]
    ring
  · obtain ⟨r, hr, hn, hns⟩ := tstTimespecDiff_spec n1 n2 s1 s2
    have hge : ¬ t1.ns < t2.ns := fun h => hlt ((tstTimespecLt_iff n1 n2).2 h)
    refine ⟨r, by rw [if_neg hlt, hr], hn, ?_⟩
    rw [hns, abs_of_nonneg (by omega)]

/-- A normalized time that stands for a difference of two small times has the seconds of one. -/
theorem diffSec_of_ns {r : Timespec} (n : r.Normalized) (n1 : t1.Normalized) (n2 : t2.Normalized)
    (s1 : t1.SmallSec) (s2 : t2.SmallSec) (h : r.ns = t1.ns - t2.ns ∨ r.ns = t2.ns - t1.ns) :
    r.DiffSec := by
  unfold Timespec.Normalized at n n1 n2
  unfold Timespec.SmallSec at s1 s2
  unfold Timespec.DiffSec
  unfold Timespec.ns at h
  omega

/-- A rounded conversion of the absolute difference rounds its total half up. -/
theorem tstTimespecAbsDiff_rounded {perSec half unit : Int} (hp : 0 < perSec ∧ perSec ≤ 10 ^ 6)
    (hu : 0 < unit) (hpu : perSec * unit = 10 ^ 9) (hh : 2 * half = unit) (n1 : t1.Normalized)
    (n2 : t2.Normalized) (s1 : t1.SmallSec) (s2 : t2.SmallSec) :
    tstTimespecAbsDiff t1 t2 >>= timespecToRounded perSec half unit =
      some (roundHalfUp |t1.ns - t2.ns| unit) := by
  obtain ⟨r, hr, hn, hns⟩ := tstTimespecAbsDiff_spec n1 n2 s1 s2
  have hd : r.DiffSec := by
    refine diffSec_of_ns hn n1 n2 s1 s2 ?_
    rcases abs_cases (t1.ns - t2.ns) with ⟨h, _⟩ | ⟨h, _⟩
    · exact .inl (hns.trans h)
    · exact .inr (by rw [hns, h]; ring)
  have hunit : unit ≤ 10 ^ 9 := by nlinarith
  rw [hr, Option.bind_eq_bind, Option.bind_some,
    timespecToRounded_eq hp hu hpu ⟨by omega, by omega⟩ hn hd, hns, ediv_add_half hu hh]

/-- `tst_timespec_add_us` adds `1000 * us` to the total, for every `us`; it keeps `tv_nsec`
within a second either way, and normalized when `0 ≤ us`. -/
theorem tstTimespecAddUs_spec (n : t.Normalized) (s : t.SmallSec) (hus : InRange 64 us) :
    ∃ r, tstTimespecAddUs t us = some r ∧ r.ns = t.ns + 1000 * us ∧
      -10 ^ 9 < r.tvNsec ∧ r.tvNsec < 10 ^ 9 ∧ (0 ≤ us → r.Normalized) := by
  unfold Timespec.Normalized at n ⊢
  unfold Timespec.SmallSec secMax at s
  have hus' := inRange_64_iff.1 hus
  -- C's truncating quotient and remainder of `us` by a million
  have hdiv := Int.mul_tdiv_add_tmod us 1000000
  have hlo := Int.lt_tmod_of_pos us (show (0 : Int) < 1000000 by norm_num)
  have hhi := Int.tmod_lt_of_pos us (show (0 : Int) < 1000000 by norm_num)
  unfold tstTimespecAddUs
  rw [sdiv_of_pos (by norm_num) hus, Option.bind_eq_bind, Option.bind_some,
    sadd_of_inRange (inRange_64_of_ns (by omega) (by omega)), Option.bind_some,
    srem_of_pos (by norm_num) hus, Option.bind_some,
    smul_of_inRange (inRange_64_of_ns (by omega) (by omega)), Option.bind_some,
    sadd_of_inRange (inRange_64_of_ns (by omega) (by omega)), Option.bind_some]
  by_cases hc : t.tvNsec + us.tmod 1000000 * 1000 ≥ 1000000000
  · -- the carry into the seconds
    rw [if_pos hc, sadd_of_inRange (inRange_64_of_ns (by omega) (by omega)), Option.bind_some,
      ssub_of_inRange (inRange_64_of_ns (by omega) (by omega)), Option.bind_some]
    refine ⟨_, rfl, ?_, ?_, ?_, fun _ => ⟨?_, ?_⟩⟩ <;> dsimp only [Timespec.ns] at * <;> omega
  · rw [if_neg hc]
    refine ⟨_, rfl, ?_, ?_, ?_, fun h0 => ⟨?_, ?_⟩⟩ <;> dsimp only [Timespec.ns] at *
    · omega
    · omega
    · omega
    · have := Int.tmod_nonneg 1000000 h0
      omega
    · omega

end Normalized

/-- The helpers on normalized times with small seconds: the difference, its total in nanoseconds,
the comparison, the absolute difference and its rounded conversions are exact, and adding `us`
microseconds adds `1000 * us` nanoseconds, normalized when `0 ≤ us`. -/
theorem tst_timespec_arith_normalized (t1 t2 t : Timespec) (us : Int) (n1 : t1.Normalized)
    (n2 : t2.Normalized) (s1 : t1.SmallSec) (s2 : t2.SmallSec) (n : t.Normalized)
    (s : t.SmallSec) (hus : InRange 64 us) :
    (∃ r, tstTimespecDiff t1 t2 = some r ∧ r.Normalized ∧ r.ns = t1.ns - t2.ns ∧
      tstTimespecToNs r = tstTimespecDiffNs t1 t2) ∧
    (tstTimespecLt t1 t2 = true ↔ t1.ns < t2.ns) ∧
    (∃ r, tstTimespecAbsDiff t1 t2 = some r ∧ r.Normalized ∧ r.ns = |t1.ns - t2.ns|) ∧
    tstTimespecAbsDiffUs t1 t2 = some (roundHalfUp |t1.ns - t2.ns| 1000) ∧
    tstTimespecAbsDiffMs t1 t2 = some (roundHalfUp |t1.ns - t2.ns| 1000000) ∧
    (∃ r, tstTimespecAddUs t us = some r ∧ r.ns = t.ns + 1000 * us ∧
      -10 ^ 9 < r.tvNsec ∧ r.tvNsec < 10 ^ 9 ∧ (0 ≤ us → r.Normalized)) := by
  obtain ⟨r, hr, hn, hns⟩ := tstTimespecDiff_spec n1 n2 s1 s2
  have hto : tstTimespecToNs r = tstTimespecDiffNs t1 t2 := by
    rw [tstTimespecToNs_eq hn (diffSec_of_ns hn n1 n2 s1 s2 (.inl hns)), hns,
      tstTimespecDiffNs_eq n1 n2 s1 s2]
  refine ⟨⟨r, hr, hn, hns, hto⟩, tstTimespecLt_iff n1 n2, tstTimespecAbsDiff_spec n1 n2 s1 s2,
    ?_, ?_, tstTimespecAddUs_spec n s hus⟩
  · exact tstTimespecAbsDiff_rounded ⟨by norm_num, by norm_num⟩ (by norm_num) (by norm_num)
      (by norm_num) n1 n2 s1 s2
  · exact tstTimespecAbsDiff_rounded ⟨by norm_num, by norm_num⟩ (by norm_num) (by norm_num)
      (by norm_num) n1 n2 s1 s2

theorem tst_timespec_arith_normalized_at :
    (∃ r, tstTimespecDiff ⟨2, 300⟩ ⟨1, 999999999⟩ = some r ∧ r.Normalized ∧
      r.ns = Timespec.ns ⟨2, 300⟩ - Timespec.ns ⟨1, 999999999⟩ ∧
      tstTimespecToNs r = tstTimespecDiffNs ⟨2, 300⟩ ⟨1, 999999999⟩) ∧
    (tstTimespecLt ⟨2, 300⟩ ⟨1, 999999999⟩ = true ↔
      Timespec.ns ⟨2, 300⟩ < Timespec.ns ⟨1, 999999999⟩) ∧
    (∃ r, tstTimespecAbsDiff ⟨2, 300⟩ ⟨1, 999999999⟩ = some r ∧ r.Normalized ∧
      r.ns = |Timespec.ns ⟨2, 300⟩ - Timespec.ns ⟨1, 999999999⟩|) ∧
    tstTimespecAbsDiffUs ⟨2, 300⟩ ⟨1, 999999999⟩ =
      some (roundHalfUp |Timespec.ns ⟨2, 300⟩ - Timespec.ns ⟨1, 999999999⟩| 1000) ∧
    tstTimespecAbsDiffMs ⟨2, 300⟩ ⟨1, 999999999⟩ =
      some (roundHalfUp |Timespec.ns ⟨2, 300⟩ - Timespec.ns ⟨1, 999999999⟩| 1000000) ∧
    (∃ r, tstTimespecAddUs ⟨5, 999999000⟩ 2500 = some r ∧
      r.ns = Timespec.ns ⟨5, 999999000⟩ + 1000 * 2500 ∧ -10 ^ 9 < r.tvNsec ∧ r.tvNsec < 10 ^ 9 ∧
        (0 ≤ (2500 : Int) → r.Normalized)) :=
  tst_timespec_arith_normalized ⟨2, 300⟩ ⟨1, 999999999⟩ ⟨5, 999999000⟩ 2500
    ⟨by norm_num, by norm_num⟩ ⟨by norm_num, by norm_num⟩
    ⟨by unfold secMax; norm_num, by unfold secMax; norm_num⟩
    ⟨by unfold secMax; norm_num, by unfold secMax; norm_num⟩
    ⟨by norm_num, by norm_num⟩ ⟨by unfold secMax; norm_num, by unfold secMax; norm_num⟩
    (inRange_64_iff.2 ⟨by norm_num, by norm_num⟩)

/-- A negative `us` is carried but never borrowed: `{1, 0}` plus `-1` microseconds is
`{1, -1000}`, whose `tv_nsec` is negative. -/
theorem tst_timespec_add_us_negative :
    tstTimespecAddUs ⟨1, 0⟩ (-1) = some ⟨1, -1000⟩ ∧ ¬ (⟨1, -1000⟩ : Timespec).Normalized := by
  refine ⟨by decide, ?_⟩
  unfold Timespec.Normalized
  norm_num

end Ltp
