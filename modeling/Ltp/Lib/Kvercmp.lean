import Ltp.Library.CText
import Ltp.Library.CInt

/-!
# Kernel version parsing and comparison (`tst_kvercmp.c`)

`tst_parse_kver` reads `a.b` or `a.b.c` from the front of a version string through `parse_digit`
(`strtoul` bounded by `INT_MAX`), and `tst_kvcmp` compares the parsed triple with a requested one by
packing both as `(v1 << 16) + (v2 << 8) + v3` and subtracting.

* `tstParseKver_long`, `tstParseKver_short`: the printed forms the parser accepts and what it returns;
  the short form `a.b` is accepted only at the end of the string or before a blank.
* `tstKvcmp_sign`: the sign of `tst_kvcmp` is the lexicographic order of the triples as long as the
  minor and patch components are below 256 and the major ones below `2^15`, so that nothing
  overflows; a patch level of 256 or more breaks the order (`tst_kvcmp_sublevel_256`).

Strings are `List Char`; reading past the end reads the terminating `'\0'`.  `tst_kvcmp` returns
the `TWARN` message it prints, if any, and its `int` result, `none` when the packing overflows.
-/

namespace Ltp

open CText CInt

/-- `INT_MAX`. -/
def intMax : Int := 2 ^ 31 - 1

/-- The character at the front of a C string, `'\0'` at its end. -/
def headChar : List Char → Char
  | [] => '\x00'
  | c :: _ => c

@[simp] theorem headChar_cons (c : Char) (t : List Char) : headChar (c :: t) = c := rfl

/-- `parse_digit(str, &d)`: `NULL` (`none`) when no digit was read or the value exceeds `INT_MAX`,
otherwise the value stored in `*d` and the text after it. -/
def parseDigit (str : List Char) : Option (Int × List Char) :=
  let (v, rest) := strtoul str
  if rest = str then none
  else if intMax < v then none
  else some (v, rest)

/-- `tst_parse_kver(str, &v1, &v2, &v3)`: the return value and the three outputs, each left at `0`
unless `parse_digit` stored it before the parse stopped. -/
def tstParseKver (str : List Char) : Int × Int × Int × Int :=
  match parseDigit str with
  | none => (1, 0, 0, 0)
  | some (v1, str) =>
    if headChar str ≠ '.' then (1, v1, 0, 0)
    else
      match parseDigit str.tail with
      | none => (1, v1, 0, 0)
      | some (v2, str) =>
        -- the short version, e.g. `2.4`
        if headChar str = ' ' ∨ headChar str = '\x00' then (0, v1, v2, 0)
        else if headChar str ≠ '.' then (1, v1, v2, 0)
        else
          -- the rest of the string after the third number is ignored
          match parseDigit str.tail with
          | none => (1, v1, v2, 0)
          | some (v3, _) => (0, v1, v2, v3)

/-- The `TWARN` message of `tst_kvcmp` for an unparsable version string. -/
def invalidKverMessage (curKver : List Char) : List Char :=
  "Invalid kernel version ".toList ++ cstr curKver ++ ", expected %d.%d.%d".toList

/-- `(v1 << 16) + (v2 << 8) + v3` in `int`. -/
def packKver (v1 v2 v3 : Int) : Option Int := do
  let a ← sshl 32 v1 16
  let b ← sshl 32 v2 8
  let s ← sadd 32 a b
  sadd 32 s v3

/-- `tst_kvcmp(cur_kver, r1, r2, r3)`: the warning it prints for an unparsable version, and
`currver - testver` (`none` on a signed overflow). -/
def tstKvcmp (curKver : List Char) (r1 r2 r3 : Int) : Option (List Char) × Option Int :=
  let (ret, a1, a2, a3) := tstParseKver curKver
  (if ret ≠ 0 then some (invalidKverMessage curKver) else none, do
    let testver ← packKver r1 r2 r3
    let currver ← packKver a1 a2 a3
    ssub 32 currver testver)

/-! ### The abstract order -/

/-- The lexicographic order of two version triples. -/
def kverCompare (a1 a2 a3 r1 r2 r3 : Int) : Ordering :=
  (compare a1 r1).then ((compare a2 r2).then (compare a3 r3))

/-- The sign an `int` comparison result should have for an order. -/
def orderSign : Ordering → Int
  | .lt => -1
  | .eq => 0
  | .gt => 1

/-! ### Parsing -/

theorem parseDigit_bounds {str rest : List Char} {v : Int} (h : parseDigit str = some (v, rest)) :
    0 ≤ v ∧ v ≤ intMax := by
  obtain ⟨u, r⟩ := strtoul str
  simp only [parseDigit] at h
  split_ifs at h with h₁ h₂
  cases h
  exact ⟨by omega, by omega⟩

theorem parseDigit_toDigits {a : Nat} {rest : List Char} (ha : a ≤ intMax) (hr : NoDigitHead rest) :
    parseDigit (Nat.toDigits 10 a ++ rest) = some ((a : Int), rest) := by
  have hne : rest ≠ Nat.toDigits 10 a ++ rest := by
    intro h
    have := congrArg List.length h
    rw [List.length_append] at this
    have := Nat.length_toDigits_pos (b := 10) (n := a)
    omega
  have hul : a ≤ ulongMax := by unfold intMax at ha; unfold ulongMax; omega
  simp [parseDigit, strtoul_toDigits hul hr, hne, not_lt.2 ha]

theorem noDigitHead_dot (t : List Char) : NoDigitHead ('.' :: t) := by
  intro c hc
  cases hc
  decide

theorem noDigitHead_of_headChar {rest : List Char} (h : headChar rest = ' ' ∨ headChar rest = '\x00') :
    NoDigitHead rest := by
  intro c hc
  cases rest with
  | nil => cases hc
  | cons d t =>
    cases hc
    rcases h with h | h <;> simp only [headChar] at h <;> subst h <;> decide

/-- Every value `tst_parse_kver` stores was read by `parse_digit`, or is the initial `0`. -/
theorem tstParseKver_bounds {str : List Char} {ret a1 a2 a3 : Int}
    (h : tstParseKver str = (ret, a1, a2, a3)) :
    (0 ≤ a1 ∧ a1 ≤ intMax) ∧ (0 ≤ a2 ∧ a2 ≤ intMax) ∧ (0 ≤ a3 ∧ a3 ≤ intMax) := by
  have h0 : (0 : Int) ≤ 0 ∧ (0 : Int) ≤ intMax := ⟨le_rfl, by unfold intMax; omega⟩
  unfold tstParseKver at h
  split at h
  · cases h; exact ⟨h0, h0, h0⟩
  · rename_i v1 s₁ h₁
    have b₁ := parseDigit_bounds h₁
    split_ifs at h
    · cases h; exact ⟨b₁, h0, h0⟩
    · split at h
      · cases h; exact ⟨b₁, h0, h0⟩
      · rename_i v2 s₂ h₂
        have b₂ := parseDigit_bounds h₂
        split_ifs at h
        · cases h; exact ⟨b₁, b₂, h0⟩
        · cases h; exact ⟨b₁, b₂, h0⟩
        · split at h
          · cases h; exact ⟨b₁, b₂, h0⟩
          · rename_i v3 s₃ h₃
            cases h; exact ⟨b₁, b₂, parseDigit_bounds h₃⟩

/-- `a.b.c` followed by anything that does not go on with a digit. -/
theorem tstParseKver_long {a b c : Nat} {rest : List Char} (ha : a ≤ intMax) (hb : b ≤ intMax)
    (hc : c ≤ intMax) (hr : NoDigitHead rest) :
    tstParseKver (Nat.toDigits 10 a ++ '.' :: (Nat.toDigits 10 b ++ '.' :: (Nat.toDigits 10 c ++ rest))) =
      (0, (a : Int), (b : Int), (c : Int)) := by
  unfold tstParseKver
  rw [parseDigit_toDigits ha (noDigitHead_dot _)]
  simp only [headChar_cons, ne_eq, not_true_eq_false, if_false, List.tail_cons]
  rw [parseDigit_toDigits hb (noDigitHead_dot _)]
  simp only [headChar_cons, List.tail_cons]
  rw [parseDigit_toDigits hc hr]
  simp

/-- `a.b` at the end of the string or before a blank. -/
theorem tstParseKver_short {a b : Nat} {rest : List Char} (ha : a ≤ intMax) (hb : b ≤ intMax)
    (hr : headChar rest = ' ' ∨ headChar rest = '\x00') :
    tstParseKver (Nat.toDigits 10 a ++ '.' :: (Nat.toDigits 10 b ++ rest)) = (0, (a : Int), (b : Int), 0) := by
  unfold tstParseKver
  rw [parseDigit_toDigits ha (noDigitHead_dot _)]
  simp only [headChar_cons, ne_eq, not_true_eq_false, if_false, List.tail_cons]
  rw [parseDigit_toDigits hb (noDigitHead_of_headChar hr)]
  simp only [if_pos hr]

-- the short form before any other suffix, such as a release candidate's, is refused
example : tstParseKver "2.4-rc1".toList = (1, 2, 4, 0) := by decide

/-! ### Comparison -/

/-- Without overflow, `packKver` is the sum of the major number shifted by 16, the minor shifted by
8 and the sublevel, whatever the size of the last two. -/
theorem packKver_eq_of_lt {v1 v2 v3 : Int} (h1 : 0 ≤ v1) (h2 : 0 ≤ v2) (h3 : 0 ≤ v3)
    (h : v1 * 2 ^ 16 + v2 * 2 ^ 8 + v3 < 2 ^ 31) :
    packKver v1 v2 v3 = some (v1 * 2 ^ 16 + v2 * 2 ^ 8 + v3) := by
  have r1 : InRange 32 (v1 * 2 ^ 16) := by unfold InRange; norm_num; omega
  have r2 : InRange 32 (v2 * 2 ^ 8) := by unfold InRange; norm_num; omega
  have r12 : InRange 32 (v1 * 2 ^ 16 + v2 * 2 ^ 8) := by unfold InRange; norm_num; omega
  have r123 : InRange 32 (v1 * 2 ^ 16 + v2 * 2 ^ 8 + v3) := by unfold InRange; norm_num; omega
  simp only [packKver, sshl_of_inRange h1 r1, sshl_of_inRange h2 r2, Option.bind_eq_bind,
    Option.bind_some, sadd_of_inRange r12, sadd_of_inRange r123]

/-- With the last two components below 256, `packKver` is the base-256 packing. -/
theorem packKver_eq {v1 v2 v3 : Int} (h1 : 0 ≤ v1 ∧ v1 < 2 ^ 15) (h2 : 0 ≤ v2 ∧ v2 < 256)
    (h3 : 0 ≤ v3 ∧ v3 < 256) : packKver v1 v2 v3 = some (v1 * 2 ^ 16 + v2 * 2 ^ 8 + v3) :=
  packKver_eq_of_lt h1.1 h2.1 h3.1 (by omega)

/-- The difference of two packings has the sign of the lexicographic order, as long as the low two
components are below 256. -/
theorem packed_sub_sign {a1 a2 a3 r1 r2 r3 : Int} (ha : 0 ≤ a2 ∧ a2 < 256 ∧ 0 ≤ a3 ∧ a3 < 256)
    (hr : 0 ≤ r2 ∧ r2 < 256 ∧ 0 ≤ r3 ∧ r3 < 256) :
    ((a1 * 2 ^ 16 + a2 * 2 ^ 8 + a3) - (r1 * 2 ^ 16 + r2 * 2 ^ 8 + r3)).sign =
      orderSign (kverCompare a1 a2 a3 r1 r2 r3) := by
  have compare_self : ∀ x : Int, compare x x = .eq := fun x => compare_eq_iff_eq.2 rfl
  unfold kverCompare
  -- the first component that differs decides both sides
  rcases lt_trichotomy a1 r1 with h₁ | rfl | h₁
  · simp only [compare_lt_iff_lt.2 h₁, Ordering.lt_then, orderSign]
    exact Int.sign_eq_neg_one_of_neg (by omega)
  · rcases lt_trichotomy a2 r2 with h₂ | rfl | h₂
    · simp only [compare_self, compare_lt_iff_lt.2 h₂, Ordering.eq_then, Ordering.lt_then, orderSign]
      exact Int.sign_eq_neg_one_of_neg (by omega)
    · rcases lt_trichotomy a3 r3 with h₃ | rfl | h₃
      · simp only [compare_self, compare_lt_iff_lt.2 h₃, Ordering.eq_then, orderSign]
        exact Int.sign_eq_neg_one_of_neg (by omega)
      · simp [orderSign]
      · simp only [compare_self, compare_gt_iff_gt.2 h₃, Ordering.eq_then, orderSign]
        exact Int.sign_eq_one_of_pos (by omega)
    · simp only [compare_self, compare_gt_iff_gt.2 h₂, Ordering.eq_then, Ordering.gt_then, orderSign]
      exact Int.sign_eq_one_of_pos (by omega)
  · simp only [compare_gt_iff_gt.2 h₁, Ordering.gt_then, orderSign]
    exact Int.sign_eq_one_of_pos (by omega)

/-- `tst_kvcmp` on a parsed version: no warning, and the sign of the lexicographic order, when the
components are small enough for the packing. -/
theorem tstKvcmp_sign {s : List Char} {a1 a2 a3 r1 r2 r3 : Int} (hs : tstParseKver s = (0, a1, a2, a3))
    (ha : a1 < 2 ^ 15 ∧ a2 < 256 ∧ a3 < 256)
    (hr : (0 ≤ r1 ∧ r1 < 2 ^ 15) ∧ (0 ≤ r2 ∧ r2 < 256) ∧ (0 ≤ r3 ∧ r3 < 256)) :
    ∃ v, tstKvcmp s r1 r2 r3 = (none, some v) ∧ v.sign = orderSign (kverCompare a1 a2 a3 r1 r2 r3) := by
  obtain ⟨⟨b1, -⟩, ⟨b2, -⟩, ⟨b3, -⟩⟩ := tstParseKver_bounds hs
  refine ⟨_, ?_, packed_sub_sign ⟨b2, ha.2.1, b3, ha.2.2⟩ ⟨hr.2.1.1, hr.2.1.2, hr.2.2.1, hr.2.2.2⟩⟩
  have hsub : ssub 32 (a1 * 2 ^ 16 + a2 * 2 ^ 8 + a3) (r1 * 2 ^ 16 + r2 * 2 ^ 8 + r3) =
      some ((a1 * 2 ^ 16 + a2 * 2 ^ 8 + a3) - (r1 * 2 ^ 16 + r2 * 2 ^ 8 + r3)) :=
    ssub_of_inRange (by unfold InRange; norm_num; omega)
  simp only [tstKvcmp, hs, ne_eq, not_true_eq_false, if_false, Option.bind_eq_bind,
    packKver_eq hr.1 hr.2.1 hr.2.2, packKver_eq ⟨b1, ha.1⟩ ⟨b2, ha.2.1⟩ ⟨b3, ha.2.2⟩,
    Option.bind_some, hsub]

/-! ### Sublevels of 256 and more -/

/-- A stable kernel whose sublevel is `256` or more compares at or above the next minor version,
which is newer: the sublevel carries into the minor number of the packing, and `tst_kvcmp`
returns the sublevel less `256`, never the negative result that `tst_kvercmp.h` promises for an
older kernel. -/
theorem tst_kvcmp_sublevel_overflow {s : List Char} {a1 a2 a3 : Int}
    (hs : tstParseKver s = (0, a1, a2, a3)) (ha : a1 < 2 ^ 14 ∧ a2 < 255 ∧ 256 ≤ a3 ∧ a3 < 2 ^ 16) :
    kverCompare a1 a2 a3 a1 (a2 + 1) 0 = .lt ∧ tstKvcmp s a1 (a2 + 1) 0 = (none, some (a3 - 256)) := by
  obtain ⟨⟨b1, -⟩, ⟨b2, -⟩, -⟩ := tstParseKver_bounds hs
  have hcmp : kverCompare a1 a2 a3 a1 (a2 + 1) 0 = .lt := by
    simp [kverCompare, compare_lt_iff_lt.2 (show a2 < a2 + 1 by omega)]
  have hcur := packKver_eq_of_lt b1 b2 (show 0 ≤ a3 by omega) (show a1 * 2 ^ 16 + a2 * 2 ^ 8 + a3 < 2 ^ 31 by omega)
  have htest := packKver_eq_of_lt b1 (show 0 ≤ a2 + 1 by omega) le_rfl
    (show a1 * 2 ^ 16 + (a2 + 1) * 2 ^ 8 + 0 < 2 ^ 31 by omega)
  -- the two packings differ by the sublevel less one step of the minor number
  have hsub : ssub 32 (a1 * 2 ^ 16 + a2 * 2 ^ 8 + a3) (a1 * 2 ^ 16 + (a2 + 1) * 2 ^ 8 + 0) =
      some (a3 - 256) := by
    rw [ssub_of_inRange (by unfold InRange; norm_num; omega)]
    congr 1
    ring
  refine ⟨hcmp, ?_⟩
  simp only [tstKvcmp, hs, ne_eq, not_true_eq_false, if_false, Option.bind_eq_bind, htest, hcur,
    Option.bind_some, hsub]

theorem tst_kvcmp_sublevel_overflow_302 :
    tstParseKver "4.4.302".toList = (0, 4, 4, 302) ∧ kverCompare 4 4 302 4 5 0 = .lt ∧
      tstKvcmp "4.4.302".toList 4 5 0 = (none, some 46) := by
  have hs : tstParseKver "4.4.302".toList = (0, 4, 4, 302) := by decide
  have h := tst_kvcmp_sublevel_overflow hs (by norm_num)
  norm_num at h
  exact ⟨hs, h⟩

/-! ### The order law on small components -/

theorem tst_kvcmp_lex_small_components (s : List Char) (a1 a2 a3 r1 r2 r3 : Int) (a b c : Nat)
    (rest : List Char) :
    (tstParseKver s = (0, a1, a2, a3) → a1 < 2 ^ 15 ∧ a2 < 256 ∧ a3 < 256 →
      (0 ≤ r1 ∧ r1 < 2 ^ 15) ∧ (0 ≤ r2 ∧ r2 < 256) ∧ (0 ≤ r3 ∧ r3 < 256) →
      ∃ v, tstKvcmp s r1 r2 r3 = (none, some v) ∧ v.sign = orderSign (kverCompare a1 a2 a3 r1 r2 r3)) ∧
    ((a : Int) ≤ intMax → (b : Int) ≤ intMax → (c : Int) ≤ intMax → NoDigitHead rest →
      tstParseKver (Nat.toDigits 10 a ++ '.' :: (Nat.toDigits 10 b ++ '.' :: (Nat.toDigits 10 c ++ rest))) =
        (0, (a : Int), (b : Int), (c : Int))) ∧
    ((a : Int) ≤ intMax → (b : Int) ≤ intMax → (headChar rest = ' ' ∨ headChar rest = '\x00') →
      tstParseKver (Nat.toDigits 10 a ++ '.' :: (Nat.toDigits 10 b ++ rest)) = (0, (a : Int), (b : Int), 0)) :=
  ⟨fun hs ha hr => tstKvcmp_sign hs ha hr, fun ha hb hc hr => tstParseKver_long ha hb hc hr,
    fun ha hb hr => tstParseKver_short ha hb hr⟩

theorem tst_kvcmp_lex_small_components_at_5_10 :
    tstParseKver "5.10.2".toList = (0, 5, 10, 2) ∧
      (∃ v, tstKvcmp "5.10.2".toList 4 19 0 = (none, some v) ∧ v.sign = orderSign (kverCompare 5 10 2 4 19 0)) ∧
      tstParseKver (Nat.toDigits 10 5 ++ '.' :: (Nat.toDigits 10 10 ++ '.' :: (Nat.toDigits 10 2 ++ "-rc1".toList))) =
        (0, 5, 10, 2) ∧
      tstParseKver (Nat.toDigits 10 5 ++ '.' :: (Nat.toDigits 10 10 ++ " x".toList)) = (0, 5, 10, 0) := by
  have h := tst_kvcmp_lex_small_components "5.10.2".toList 5 10 2 4 19 0 5 10 2 "-rc1".toList
  have h' := tst_kvcmp_lex_small_components "5.10.2".toList 5 10 2 4 19 0 5 10 2 " x".toList
  refine ⟨by decide, h.1 (by decide) (by norm_num) (by norm_num),
    h.2.1 (by unfold intMax; norm_num) (by unfold intMax; norm_num) (by unfold intMax; norm_num)
      (by intro c hc; cases hc; decide),
    h'.2.2 (by unfold intMax; norm_num) (by unfold intMax; norm_num) (by decide)⟩

end Ltp
