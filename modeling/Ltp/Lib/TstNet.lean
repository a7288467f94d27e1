import Ltp.Library.CText
import Ltp.Library.Inet

/-!
# Network prefixes (`tst_net.h`)

`get_prefix(ip_str, is_ipv6)` splits `ADDR/P` at the `/` and reads the prefix `P`: for IPv4 a `P`
with a dot is a netmask, read by `inet_pton` and turned into a prefix by `bit_count`; any other `P`
is a number for `safe_atoi` (`strtol` with base `0`, the whole text, in `int` range).  A failed
conversion or a prefix out of `[0, 32]` (IPv4) or `[0, 128]` (IPv6) ends the test by `tst_brk`,
modelled as an `Except` whose error is the message.

`bit_count` scans the mask from its low bit and fails only on a zero after a one, so it counts the
ones of any single run of ones, wherever the run sits (`bitCount_run`, `bitCount_eq_neg_one_iff`).
A netmask is accepted exactly when its bits are such a run (`getPrefix_mask`), so a mask like
`0.0.0.255`, whose ones are not leading, is read as the prefix `8`.
-/

namespace Ltp

open CText Inet

/-- `MAX_IPV4_PREFIX` or `MAX_IPV6_PREFIX`. -/
def maxPrefix (isIpv6 : Bool) : Int :=
  if isIpv6 then 128 else 32

/-! ### `bit_count`, `mask2prefix` and `ipv4_mask_to_int` -/

/-- The loop of `bit_count(i)` on the `uint32_t` value `i`, with the count `c` and `seen_one`. -/
def bitCountLoop (i : Nat) (c : Int) (seenOne : Bool) : Int :=
  if 0 < i then
    if i % 2 = 1 then bitCountLoop (i / 2) (c + 1) true
    else if seenOne then -1
    else bitCountLoop (i / 2) c seenOne
  else c
termination_by i
decreasing_by all_goals omega

/-- `bit_count(i)`. -/
def bitCount (i : Nat) : Int :=
  bitCountLoop i 0 false

/-- `mask2prefix(mask)`: `bit_count(ntohl(mask.s_addr))`. -/
def mask2Prefix (mask : UInt32) : Int :=
  bitCount mask.toNat

/-- `ipv4_mask_to_int(prefix)`. -/
def ipv4MaskToInt (pfx : List Char) : Int :=
  match inetPton4 pfx with
  | none => -1
  | some mask => mask2Prefix mask

/-! ### `safe_atoi` and `get_prefix` -/

/-- `EINVAL` and `ERANGE` on Linux. -/
def einval : Int := 22
def erange : Int := 34

/-- `safe_atoi(s, &ret_i)`: the `int` read, or the negative error code returned. -/
def safeAtoi (s : List Char) : Except Int Int :=
  let (l, len, rangeErr) := strtol0 s
  -- `!x || x == s || *x || errno`
  if len = 0 ∨ len < s.length ∨ rangeErr = true then
    .error (if rangeErr then -erange else -einval)
  else if l < -2 ^ 31 ∨ 2 ^ 31 ≤ l then .error (-erange)
  else .ok l

/-- The message of `tst_brk` when `safe_atoi` fails. -/
def conversionError (prefixStr : List Char) : List Char :=
  "conversion error: '".toList ++ prefixStr ++ "' is not integer".toList

/-- The message of `tst_brk` for a prefix out of range. -/
def badPrefix (isIpv6 : Bool) (prefixStr : List Char) : List Char :=
  "bad ".toList ++ (if isIpv6 then "IPv6" else "IPv4").toList ++ " prefix: ".toList ++ prefixStr

/-- The prefix `get_prefix` reads from the text after the `/`, before its range check. -/
def readPrefix (prefixStr : List Char) (isIpv6 : Bool) : Except (List Char) Int :=
  if !isIpv6 && (strchr prefixStr '.').isSome then .ok (ipv4MaskToInt prefixStr)
  else
    match safeAtoi prefixStr with
    | .ok k => .ok k
    | .error _ => .error (conversionError prefixStr)

/-- `get_prefix(ip_str, is_ipv6)`: the text `ip_str` is left with (cut at the `/`), and the prefix
returned or the message of the `tst_brk` that ends the test. -/
def getPrefix (ipStr : List Char) (isIpv6 : Bool) : List Char × Except (List Char) Int :=
  match strchr ipStr '/' with
  | none => (ipStr, .ok (-1))
  | some rest =>
    let prefixStr := rest.drop 1
    (ipStr.take (ipStr.length - rest.length),
      (readPrefix prefixStr isIpv6).bind fun pfx =>
        if pfx < 0 ∨ maxPrefix isIpv6 < pfx then .error (badPrefix isIpv6 prefixStr)
        else .ok pfx)

/-- `get_in_addr(ip_str, ip)`: the address, or the message of `tst_brk`. -/
def getInAddr (ipStr : List Char) : Except (List Char) UInt32 :=
  match inetPton4 ipStr with
  | some a => .ok a
  | none => .error ("bad IPv4 address: '".toList ++ ipStr ++ "'".toList)

/-! ### What `bit_count` counts -/

section BitCount

variable {i : Nat} {c : Int} {s : Bool}

theorem bitCountLoop_zero (c : Int) (s : Bool) : bitCountLoop 0 c s = c := by
  rw [bitCountLoop]
  simp

theorem bitCountLoop_odd (h : i % 2 = 1) :
    bitCountLoop i c s = bitCountLoop (i / 2) (c + 1) true := by
  rw [bitCountLoop, if_pos (by omega), if_pos h]

theorem bitCountLoop_even_seen (hi : 0 < i) (h : i % 2 = 0) : bitCountLoop i c true = -1 := by
  rw [bitCountLoop, if_pos hi, if_neg (by omega), if_pos rfl]

theorem bitCountLoop_even (hi : 0 < i) (h : i % 2 = 0) :
    bitCountLoop i c false = bitCountLoop (i / 2) c false := by
  rw [bitCountLoop, if_pos hi, if_neg (by omega)]
  rfl

/-- A run of `k` ones at the bottom is counted whatever was seen before. -/
theorem bitCountLoop_ones (k : Nat) (c : Int) (s : Bool) :
    bitCountLoop (2 ^ k - 1) c s = c + k := by
  induction k generalizing c s with
  | zero => simp [bitCountLoop_zero]
  | succ k ih =>
    have hpow := Nat.one_le_two_pow (n := k)
    rw [bitCountLoop_odd (by rw [Nat.pow_succ]; omega),
      show (2 ^ (k + 1) - 1) / 2 = 2 ^ k - 1 by rw [Nat.pow_succ]; omega, ih]
    push_cast
    ring

/-- A run of `k` ones above `j` zeros counts `k`. -/
theorem bitCountLoop_run (k j : Nat) (c : Int) :
    bitCountLoop ((2 ^ k - 1) * 2 ^ j) c false = c + k := by
  induction j with
  | zero => rw [pow_zero, mul_one, bitCountLoop_ones]
  | succ j ih =>
    rcases Nat.eq_zero_or_pos (2 ^ k - 1) with h0 | hpos
    · rw [h0, zero_mul, bitCountLoop_zero, ← ih, h0, zero_mul, bitCountLoop_zero]
    · -- the low zero is skipped before anything is seen
      have hj : 0 < 2 ^ j := Nat.two_pow_pos j
      rw [bitCountLoop_even (Nat.mul_pos hpos (Nat.two_pow_pos _))
          (by rw [Nat.pow_succ, ← Nat.mul_assoc, Nat.mul_mod_left]),
        show (2 ^ k - 1) * 2 ^ (j + 1) / 2 = (2 ^ k - 1) * 2 ^ j by
          rw [Nat.pow_succ, ← Nat.mul_assoc, Nat.mul_div_cancel _ (by norm_num)], ih]

/-- Whatever the loop returns other than `-1` is the length of a run of ones, one ending at the
bottom if a one was already seen. -/
theorem bitCountLoop_cases (hc : 0 ≤ c) :
    bitCountLoop i c s = -1 ∨ ∃ k j : Nat, i = (2 ^ k - 1) * 2 ^ j ∧ (s = true → j = 0) ∧
      bitCountLoop i c s = c + k := by
  induction i, c, s using bitCountLoop.induct with
  | case1 i c s hi hodd ih =>
    -- a one: the rest is a run ending at the bottom
    rw [bitCountLoop_odd hodd]
    rcases ih (by omega) with h | ⟨k, j, hk, hj, hr⟩
    · exact .inl h
    · obtain rfl := hj rfl
      refine .inr ⟨k + 1, 0, ?_, fun _ => rfl, by rw [hr]; push_cast; ring⟩
      have hpow := Nat.one_le_two_pow (n := k)
      rw [pow_zero, mul_one] at hk
      rw [pow_zero, mul_one, Nat.pow_succ]
      omega
  | case2 i c hi heven =>
    exact .inl (bitCountLoop_even_seen hi (by omega))
  | case3 i c s hi heven hs ih =>
    -- a zero before any one
    have hs' : s = false := by simpa using hs
    subst hs'
    rw [bitCountLoop_even hi (by omega)]
    rcases ih hc with h | ⟨k, j, hk, -, hr⟩
    · exact .inl h
    · refine .inr ⟨k, j + 1, ?_, by simp, hr⟩
      rw [Nat.pow_succ, ← Nat.mul_assoc]
      omega
  | case4 i c s hi =>
    refine .inr ⟨0, 0, by omega, fun _ => rfl, ?_⟩
    rw [show i = 0 by omega, bitCountLoop_zero]
    simp

end BitCount

/-- A run of `k` ones above `j` zeros: `bit_count` gives `k`. -/
theorem bitCount_run (k j : Nat) : bitCount ((2 ^ k - 1) * 2 ^ j) = k := by
  rw [bitCount, bitCountLoop_run, zero_add]

/-- `bit_count` fails exactly on the numbers whose ones are not one run. -/
theorem bitCount_eq_neg_one_iff (i : Nat) :
    bitCount i = -1 ↔ ¬ ∃ k j : Nat, i = (2 ^ k - 1) * 2 ^ j := by
  constructor
  · rintro h ⟨k, j, rfl⟩
    rw [bitCount_run] at h
    omega
  · intro hno
    rcases bitCountLoop_cases (i := i) (s := false) le_rfl with h | ⟨k, j, hk, -, -⟩
    · exact h
    · exact absurd ⟨k, j, hk⟩ hno

/-- Any run of ones in 32 bits has at most 32 of them. -/
theorem run_le_32 {k j : Nat} (h : (2 ^ k - 1) * 2 ^ j < 2 ^ 32) : k ≤ 32 := by
  by_contra hk
  have h1 : 2 ^ 33 ≤ 2 ^ k := Nat.pow_le_pow_right (by norm_num) (by omega)
  have h2 : 2 ^ k - 1 ≤ (2 ^ k - 1) * 2 ^ j := Nat.le_mul_of_pos_right _ (Nat.two_pow_pos j)
  omega

/-- The prefix of a 32-bit mask is `-1` or at most `32`. -/
theorem mask2Prefix_cases (mask : UInt32) :
    mask2Prefix mask = -1 ∨ (0 ≤ mask2Prefix mask ∧ mask2Prefix mask ≤ 32) := by
  rcases bitCountLoop_cases (i := mask.toNat) (c := 0) (s := false) le_rfl with h | ⟨k, j, hk, -, hr⟩
  · exact .inl h
  · refine .inr ⟨by rw [mask2Prefix, bitCount, hr]; omega, ?_⟩
    have := run_le_32 (hk ▸ mask.toNat_lt)
    rw [mask2Prefix, bitCount, hr]
    omega

/-! ### What `get_prefix` accepts -/

section GetPrefix

variable {addr : List Char}

/-- The text before the `/` is what `ip_str` is left with, and the rest is read as the prefix. -/
theorem getPrefix_split (haddr : '/' ∉ addr) (hnul : '\x00' ∉ addr) (p : List Char) (isIpv6 : Bool) :
    getPrefix (addr ++ '/' :: p) isIpv6 =
      (addr, (readPrefix p isIpv6).bind fun pfx =>
        if pfx < 0 ∨ maxPrefix isIpv6 < pfx then .error (badPrefix isIpv6 p)
        else .ok pfx) := by
  rw [getPrefix, strchr_append haddr hnul]
  simp

theorem strchr_dot_inetNtop4 (a : UInt32) : (strchr (inetNtop4 a) '.').isSome := by
  have hdig : ∀ c ∈ fmtOctet (octet a 0), c ≠ '.' ∧ c ≠ '\x00' := by
    intro c hc
    have := isDigit_of_mem_toDigits hc
    constructor <;> rintro rfl <;> exact absurd this (by decide)
  rw [inetNtop4]
  simp only [List.append_assoc, List.cons_append]
  rw [strchr_append (fun h => (hdig _ h).1 rfl) (fun h => (hdig _ h).2 rfl)]
  rfl

/-- An IPv4 netmask in dotted-quad text is accepted exactly when `bit_count` finds its ones to be
one run, and then its prefix is the length of the run. -/
theorem getPrefix_mask (haddr : '/' ∉ addr) (hnul : '\x00' ∉ addr) (mask : UInt32) :
    getPrefix (addr ++ '/' :: inetNtop4 mask) false =
      (addr, if mask2Prefix mask = -1 then .error (badPrefix false (inetNtop4 mask))
        else .ok (mask2Prefix mask)) := by
  rw [getPrefix_split haddr hnul]
  have hread : readPrefix (inetNtop4 mask) false = .ok (mask2Prefix mask) := by
    rw [readPrefix, if_pos (by simpa using strchr_dot_inetNtop4 mask), ipv4MaskToInt,
      inetPton4_inetNtop4]
  rw [hread]
  rcases mask2Prefix_cases mask with h | ⟨h0, h32⟩
  · rw [if_pos h, h]
    simp only [Except.bind]
    rw [if_pos (Or.inl (by norm_num))]
  · rw [if_neg (by omega)]
    simp only [Except.bind, maxPrefix, Bool.false_eq_true, if_false]
    rw [if_neg (by omega)]

/-- A mask of `k` ones above `j` zeros is read as the prefix `k`, whether or not its ones lead. -/
theorem get_prefix_shifted_mask (haddr : '/' ∉ addr) (hnul : '\x00' ∉ addr) (k j : Nat)
    (hkj : k + j ≤ 32) :
    getPrefix (addr ++ '/' :: inetNtop4 (UInt32.ofNat ((2 ^ k - 1) * 2 ^ j))) false =
      (addr, .ok k) := by
  have hlt : (2 ^ k - 1) * 2 ^ j < 2 ^ 32 := by
    calc (2 ^ k - 1) * 2 ^ j < 2 ^ k * 2 ^ j :=
          Nat.mul_lt_mul_of_pos_right (by have := Nat.one_le_two_pow (n := k); omega)
            (Nat.two_pow_pos j)
      _ = 2 ^ (k + j) := (Nat.pow_add 2 k j).symm
      _ ≤ 2 ^ 32 := Nat.pow_le_pow_right (by norm_num) hkj
  have hmask : mask2Prefix (UInt32.ofNat ((2 ^ k - 1) * 2 ^ j)) = k := by
    rw [mask2Prefix, UInt32.toNat_ofNat_of_lt' hlt, bitCount_run]
  rw [getPrefix_mask haddr hnul, hmask, if_neg (by omega)]

theorem get_prefix_shifted_mask_wildcard :
    getPrefix "10.0.0.1/0.0.0.255".toList false = ("10.0.0.1".toList, .ok 8) := by
  have h : getPrefix ("10.0.0.1".toList ++ '/' :: inetNtop4 (UInt32.ofNat ((2 ^ 8 - 1) * 2 ^ 0)))
      false = ("10.0.0.1".toList, .ok 8) :=
    get_prefix_shifted_mask (by decide) (by decide) 8 0 (by norm_num)
  rw [show inetNtop4 (UInt32.ofNat ((2 ^ 8 - 1) * 2 ^ 0)) = "0.0.0.255".toList by decide] at h
  exact h

/-- A prefix in decimal is accepted up to the maximum of its family. -/
theorem getPrefix_decimal (haddr : '/' ∉ addr) (hnul : '\x00' ∉ addr) (isIpv6 : Bool) {n : Nat}
    (hn : (n : Int) ≤ maxPrefix isIpv6) :
    getPrefix (addr ++ '/' :: Nat.toDigits 10 n) isIpv6 = (addr, .ok n) := by
  have hmax : maxPrefix isIpv6 ≤ 128 := by unfold maxPrefix; split <;> norm_num
  have hnodot : strchr (Nat.toDigits 10 n) '.' = none :=
    strchr_eq_none fun h => absurd (isDigit_of_mem_toDigits h) (by decide)
  have hatoi : safeAtoi (Nat.toDigits 10 n) = .ok n := by
    rw [safeAtoi, strtol0_toDigits (by unfold longMax; omega)]
    simp only [List.length_eq_zero_iff, Nat.toDigits_ne_nil, lt_self_iff_false, Bool.false_eq_true,
      or_self, if_false]
    rw [if_neg (by omega)]
  rw [getPrefix_split haddr hnul, readPrefix, hnodot]
  simp only [Option.isSome_none, Bool.and_false, Bool.false_eq_true, if_false, hatoi,
    Except.bind]
  rw [if_neg (by omega)]

end GetPrefix

end Ltp
