import Mathlib.Tactic
import Mathlib.Data.List.TakeWhile

/-!
# C text conversions

The few `<ctype.h>`, `<stdlib.h>` and `printf` conversions that C programs use on plain text, over
`List Char` in the C locale on an LP64 target:

* `isspace`, `isprint`;
* `fmtInt` (`%d`) and `fmtIntWidth` (`%*d`);
* `strtoul`, `strtol` (base 10) and `atoi`, which skip blanks, read an optional sign and a run of
  digits; `strtoul` negates in `unsigned long` and saturates at `ULONG_MAX`, `strtol` saturates at
  `LONG_MIN`/`LONG_MAX`, and `atoi` is glibc's `(int) strtol(s, NULL, 10)`;
* `strtol0`, `strtol` with base `0`, which takes the base from a `0x` or `0` in front of the digits
  and reports overflow as `errno` does;
* `fmtStrLeft` (`%-*.*s`), `strchr` and `strncmpEq` (`strncmp(a, b, n) == 0`);
* a stream on a file held as its bytes: `fgets` at a file position, and `fwriteAt`, which overwrites
  the bytes at a position as `fseek` followed by `fprintf` or `fputs` does.

The main facts are the round trips: reading back a printed number gives the number and the text
after it (`strtoul_toDigits`, `atoi_fmtInt`); and `fgets` reads back a line the file holds, while
`fwriteAt` replaces a run of bytes of the same length and leaves the bytes around it
(`fgets_line`, `fwriteAt_mid`).
-/

namespace CText

/-- `isspace` in the C locale. -/
def isspace (c : Char) : Bool :=
  c = ' ' || c = '\t' || c = '\n' || c = '\x0b' || c = '\x0c' || c = '\r'

/-- `isprint` in the C locale. -/
def isprint (c : Char) : Bool :=
  32 ≤ c.toNat && c.toNat ≤ 126

/-- `printf("%s", s)`: the text up to the terminating `'\0'`. -/
def cstr (s : List Char) : List Char :=
  s.takeWhile fun c => c != '\x00'

/-- `printf("%d", n)`. -/
def fmtInt (n : Int) : List Char :=
  if n < 0 then '-' :: Nat.toDigits 10 n.natAbs else Nat.toDigits 10 n.toNat

/-- `printf("%*d", w, n)`: `n` right-justified in a field of `w` characters. -/
def fmtIntWidth (w : Nat) (n : Int) : List Char :=
  List.replicate (w - (fmtInt n).length) ' ' ++ fmtInt n

/-- `ULONG_MAX` on an LP64 target. -/
def ulongMax : Nat := 2 ^ 64 - 1

/-- `LONG_MAX` on an LP64 target. -/
def longMax : Int := 2 ^ 63 - 1

/-- `LONG_MIN` on an LP64 target. -/
def longMin : Int := -2 ^ 63

/-- The optional sign in front of the digits: `true` for `-`. -/
def splitSign : List Char → Bool × List Char
  | '-' :: u => (true, u)
  | '+' :: u => (false, u)
  | u => (false, u)

/-- What the base-10 conversions read: after the leading blanks, the sign, the digits, and the text
after the digits. -/
def numPrefix (s : List Char) : Bool × List Char × List Char :=
  let (neg, u) := splitSign (s.dropWhile isspace)
  (neg, u.takeWhile Char.isDigit, u.dropWhile Char.isDigit)

/-- `strtoul(s, &end, 10)`: the value and the text at `end` (all of `s` when no digit was read). -/
def strtoul (s : List Char) : Nat × List Char :=
  let (neg, ds, rest) := numPrefix s
  if ds = [] then (0, s)
  else
    let v := Nat.ofDigitChars 10 ds 0
    (if ulongMax < v then ulongMax else if neg then (2 ^ 64 - v) % 2 ^ 64 else v, rest)

/-- `strtol(s, &end, 10)`: the value and the text at `end` (all of `s` when no digit was read). -/
def strtol (s : List Char) : Int × List Char :=
  let (neg, ds, rest) := numPrefix s
  if ds = [] then (0, s)
  else
    let v : Int := Nat.ofDigitChars 10 ds 0
    (max longMin (min longMax (if neg then -v else v)), rest)

/-- `atoi(s)`: glibc's `(int) strtol(s, NULL, 10)`, the conversion to `int` wrapping. -/
def atoi (s : List Char) : Int :=
  (strtol s).1.bmod (2 ^ 32)

/-! ### Reading back printed numbers -/

theorem isDigit_of_mem_toDigits {c : Char} {n : Nat} (h : c ∈ Nat.toDigits 10 n) : c.isDigit :=
  Nat.isDigit_of_mem_toDigits (by decide) (by decide) h

theorem isspace_of_isDigit {c : Char} (h : c.isDigit) : isspace c = false := by
  cases hs : isspace c
  · rfl
  · -- every blank is one of six characters, none of them a digit
    unfold isspace at hs
    simp only [Bool.or_eq_true, decide_eq_true_eq] at hs
    rcases hs with ((((rfl | rfl) | rfl) | rfl) | rfl) | rfl <;> exact absurd h (by decide)

theorem splitSign_of_isDigit {c : Char} (u : List Char) (h : c.isDigit) :
    splitSign (c :: u) = (false, c :: u) := by
  simp only [Char.isDigit, Bool.and_eq_true, decide_eq_true_eq] at h
  have h₁ : c ≠ '-' := fun hc => by subst hc; exact absurd h.1 (by decide)
  have h₂ : c ≠ '+' := fun hc => by subst hc; exact absurd h.1 (by decide)
  unfold splitSign
  split <;> simp_all

/-- The text after a printed number does not go on with a digit. -/
def NoDigitHead (rest : List Char) : Prop :=
  ∀ c ∈ rest.head?, c.isDigit = false

theorem takeWhile_append_of_all {l rest : List Char} {p : Char → Bool} (hl : ∀ c ∈ l, p c)
    (hr : ∀ c ∈ rest.head?, p c = false) : (l ++ rest).takeWhile p = l := by
  induction l with
  | nil =>
    cases rest with
    | nil => rfl
    | cons c t => simp [hr c (by simp)]
  | cons a l ih =>
    rw [List.cons_append, List.takeWhile_cons_of_pos (hl a (by simp)),
      ih fun c hc => hl c (by simp [hc])]

theorem dropWhile_append_of_all {l rest : List Char} {p : Char → Bool} (hl : ∀ c ∈ l, p c)
    (hr : ∀ c ∈ rest.head?, p c = false) : (l ++ rest).dropWhile p = rest := by
  induction l with
  | nil =>
    cases rest with
    | nil => rfl
    | cons c t => simp [hr c (by simp)]
  | cons a l ih =>
    rw [List.cons_append, List.dropWhile_cons_of_pos (hl a (by simp)),
      ih fun c hc => hl c (by simp [hc])]

/-- A printed natural number, possibly after a sign, splits into its digits and the rest. -/
theorem numPrefix_digits (n : Nat) {rest : List Char} (hr : NoDigitHead rest) :
    splitSign ((Nat.toDigits 10 n ++ rest).dropWhile isspace) = (false, Nat.toDigits 10 n ++ rest) ∧
      (Nat.toDigits 10 n ++ rest).takeWhile Char.isDigit = Nat.toDigits 10 n ∧
      (Nat.toDigits 10 n ++ rest).dropWhile Char.isDigit = rest := by
  obtain ⟨c, t, hct⟩ := List.exists_cons_of_ne_nil (Nat.toDigits_ne_nil : Nat.toDigits 10 n ≠ [])
  have hc : c.isDigit := isDigit_of_mem_toDigits (by rw [hct]; simp)
  refine ⟨?_, takeWhile_append_of_all (fun _ h => isDigit_of_mem_toDigits h) hr,
    dropWhile_append_of_all (fun _ h => isDigit_of_mem_toDigits h) hr⟩
  rw [hct, List.cons_append, List.dropWhile_cons_of_neg (by simp [isspace_of_isDigit hc]),
    splitSign_of_isDigit _ hc]

theorem strtoul_toDigits {n : Nat} {rest : List Char} (hn : n ≤ ulongMax) (hr : NoDigitHead rest) :
    strtoul (Nat.toDigits 10 n ++ rest) = (n, rest) := by
  obtain ⟨h₁, h₂, h₃⟩ := numPrefix_digits n hr
  simp [strtoul, numPrefix, h₁, h₂, h₃, Nat.ofDigitChars_ten_toDigits, not_lt.2 hn]

theorem strtol_fmtInt {p : Int} {rest : List Char} (hlo : longMin ≤ p) (hhi : p ≤ longMax)
    (hr : NoDigitHead rest) : strtol (fmtInt p ++ rest) = (p, rest) := by
  unfold fmtInt
  by_cases hp : p < 0
  · obtain ⟨h₁, h₂, h₃⟩ := numPrefix_digits p.natAbs hr
    have hsign : splitSign ((('-' :: Nat.toDigits 10 p.natAbs) ++ rest).dropWhile isspace) =
        (true, Nat.toDigits 10 p.natAbs ++ rest) := by
      simp [isspace, splitSign]
    simp only [hp, if_true, strtol, numPrefix, hsign, h₂, h₃, Nat.toDigits_ne_nil, if_false,
      Nat.ofDigitChars_ten_toDigits, Int.natCast_natAbs, if_true, Prod.mk.injEq, and_true]
    rw [abs_of_neg hp, neg_neg, min_eq_right hhi, max_eq_right hlo]
  · obtain ⟨h₁, h₂, h₃⟩ := numPrefix_digits p.toNat hr
    simp only [hp, if_false, strtol, numPrefix, h₁, h₂, h₃, Nat.toDigits_ne_nil,
      Nat.ofDigitChars_ten_toDigits, Int.toNat_of_nonneg (not_lt.1 hp), Bool.false_eq_true,
      Prod.mk.injEq, and_true]
    rw [min_eq_right hhi, max_eq_right hlo]

/-- `atoi` reads back a printed `int`. -/
theorem atoi_fmtInt {p : Int} {rest : List Char} (hlo : -2 ^ 31 ≤ p) (hhi : p < 2 ^ 31)
    (hr : NoDigitHead rest) : atoi (fmtInt p ++ rest) = p := by
  unfold atoi
  rw [strtol_fmtInt (by unfold longMin; omega) (by unfold longMax; omega) hr]
  exact Int.bmod_eq_of_le (by omega) (by omega)

/-- Every character of a printed number is a sign or a digit. -/
theorem mem_fmtInt {c : Char} {n : Int} (h : c ∈ fmtInt n) : c = '-' ∨ c.isDigit := by
  unfold fmtInt at h
  split at h
  · rcases List.mem_cons.1 h with rfl | h
    · exact .inl rfl
    · exact .inr (isDigit_of_mem_toDigits h)
  · exact .inr (isDigit_of_mem_toDigits h)

/-- A printed `int` takes at most eleven characters. -/
theorem fmtInt_length_le {n : Int} (hlo : -2 ^ 31 ≤ n) (hhi : n < 2 ^ 31) :
    (fmtInt n).length ≤ 11 := by
  have hdig : ∀ k : Nat, k ≤ 2 ^ 31 → (Nat.toDigits 10 k).length ≤ 10 :=
    fun k hk => Nat.toDigits_length 10 k 10 (by norm_num) (by omega)
  unfold fmtInt
  split
  · have := hdig n.natAbs (by omega)
    simp only [List.length_cons]; omega
  · have := hdig n.toNat (by omega)
    omega

/-- A printed number starts with a sign or a digit. -/
theorem fmtInt_head (n : Int) : ∃ c t, fmtInt n = c :: t ∧ (c = '-' ∨ c.isDigit) := by
  obtain ⟨c, t, h⟩ : ∃ c t, fmtInt n = c :: t := by
    unfold fmtInt
    split
    · exact ⟨_, _, rfl⟩
    · exact List.exists_cons_of_ne_nil Nat.toDigits_ne_nil
  exact ⟨c, t, h, mem_fmtInt (h ▸ List.mem_cons_self)⟩

/-! ### Strings -/

/-- `printf("%-*.*s", w, w, s)`: at most `w` characters of `s`, left-justified in a field of `w`. -/
def fmtStrLeft (w : Nat) (s : List Char) : List Char :=
  (cstr s).take w ++ List.replicate (w - (cstr s).length) ' '

/-- `strchr(s, c)`: the text from the first `c` on, `none` (`NULL`) when the string ends first. -/
def strchr (s : List Char) (c : Char) : Option (List Char) :=
  match s with
  | [] => none
  | d :: t => if d = c then some (d :: t) else if d = '\x00' then none else strchr t c

/-- `strncmp(a, b, n) == 0`: the two strings agree on their first `n` characters. -/
def strncmpEq (a b : List Char) (n : Nat) : Bool :=
  (cstr a).take n == (cstr b).take n

/-- The tokens that `strtok(s, sep)` and then `strtok(NULL, sep)` return until `NULL`, with `cur`
the token read so far: the maximal runs of characters not in `sep`, empty ones skipped. -/
def strtokFrom (sep cur : List Char) : List Char → List (List Char)
  | [] => if cur = [] then [] else [cur]
  | c :: s =>
    if c ∈ sep then
      if cur = [] then strtokFrom sep [] s else cur :: strtokFrom sep [] s
    else strtokFrom sep (cur ++ [c]) s

/-- All the tokens of the string `s`. -/
def strtokAll (sep s : List Char) : List (List Char) :=
  strtokFrom sep [] (cstr s)

/-- The tokens of a string, as what `strtok` is for: the pieces between separators, the empty ones
left out. -/
def tokens (sep s : List Char) : List (List Char) :=
  ((cstr s).splitOnP fun c => decide (c ∈ sep)).filter (· ≠ [])

/-- `strtok` from a partial token `cur` returns the non-empty pieces of `cur ++ s`. -/
theorem strtokFrom_eq_splitOnP (sep : List Char) {cur : List Char} (s : List Char)
    (hcur : ∀ c ∈ cur, c ∉ sep) :
    strtokFrom sep cur s = ((cur ++ s).splitOnP fun c => decide (c ∈ sep)).filter (· ≠ []) := by
  induction s generalizing cur with
  | nil =>
    have hsplit : (cur ++ []).splitOnP (fun c => decide (c ∈ sep)) = [cur] := by
      rw [List.append_nil]
      exact List.splitOnP_eq_singleton fun c hc => by simpa using hcur c hc
    rw [strtokFrom, hsplit]
    by_cases h : cur = [] <;> simp [h]
  | cons c s ih =>
    by_cases hc : c ∈ sep
    · -- a separator ends the piece `cur`
      have hsplit := List.splitOnP_append_cons_of_forall_mem (p := fun c => decide (c ∈ sep))
        (fun c hc' => by simpa using hcur c hc') c (by simpa using hc) s
      have hrest := @ih [] (by simp)
      rw [List.nil_append] at hrest
      rw [strtokFrom, if_pos hc, hsplit, hrest]
      by_cases h : cur = [] <;> simp [h]
    · -- any other character extends it
      have hext : ∀ d ∈ cur ++ [c], d ∉ sep := by
        intro d hd
        rcases List.mem_append.1 hd with hd | hd
        · exact hcur d hd
        · rw [List.mem_singleton.1 hd]
          exact hc
      have hrest := @ih (cur ++ [c]) hext
      rw [strtokFrom, if_neg hc, hrest, List.append_assoc, List.singleton_append]

/-- The tokens `strtok` returns are the non-empty pieces of the C string between separators. -/
theorem strtokAll_eq_tokens (sep s : List Char) : strtokAll sep s = tokens sep s :=
  strtokFrom_eq_splitOnP sep (cstr s) (by simp)

/-- A token is not empty, and holds no separator. -/
theorem mem_strtokFrom {sep cur s t : List Char} (hcur : ∀ c ∈ cur, c ∉ sep)
    (ht : t ∈ strtokFrom sep cur s) : t ≠ [] ∧ ∀ c ∈ t, c ∉ sep := by
  induction s generalizing cur with
  | nil =>
    rw [strtokFrom] at ht
    split_ifs at ht with h
    · cases ht
    · rw [List.mem_singleton.1 ht]
      exact ⟨h, hcur⟩
  | cons c s ih =>
    rw [strtokFrom] at ht
    split_ifs at ht with hc h
    · exact ih (by simp) ht
    · rcases List.mem_cons.1 ht with rfl | ht
      · exact ⟨h, hcur⟩
      · exact ih (by simp) ht
    · refine ih ?_ ht
      intro d hd
      rcases List.mem_append.1 hd with hd | hd
      · exact hcur d hd
      · rw [List.mem_singleton.1 hd]
        exact hc

theorem mem_tokens {sep s t : List Char} (ht : t ∈ tokens sep s) : t ≠ [] ∧ ∀ c ∈ t, c ∉ sep := by
  rw [← strtokAll_eq_tokens] at ht
  exact mem_strtokFrom (by simp) ht

theorem mem_cstr {c : Char} {s : List Char} (h : c ∈ cstr s) : c ∈ s ∧ c ≠ '\x00' := by
  unfold cstr at h
  exact ⟨(List.takeWhile_sublist _).subset h, by simpa using List.mem_takeWhile_imp h⟩

theorem cstr_of_not_mem {s : List Char} (h : '\x00' ∉ s) : cstr s = s :=
  List.takeWhile_eq_self_iff.2 fun c hc => by
    have : c ≠ '\x00' := fun e => h (e ▸ hc)
    simpa using this

@[simp] theorem fmtStrLeft_length (w : Nat) (s : List Char) : (fmtStrLeft w s).length = w := by
  simp only [fmtStrLeft, List.length_append, List.length_take, List.length_replicate]
  omega

theorem mem_fmtStrLeft {c : Char} {w : Nat} {s : List Char} (h : c ∈ fmtStrLeft w s) :
    c = ' ' ∨ (c ∈ s ∧ c ≠ '\x00') := by
  rcases List.mem_append.1 h with h | h
  · exact .inr (mem_cstr (List.mem_of_mem_take h))
  · exact .inl (List.eq_of_mem_replicate h)

theorem cstr_take (w : Nat) (s : List Char) : cstr (s.take w) = (cstr s).take w :=
  List.take_takeWhile.symm

theorem cstr_append {a : List Char} (b : List Char) (ha : '\x00' ∉ a) : cstr (a ++ b) = a ++ cstr b := by
  rw [cstr, List.takeWhile_append, ← cstr, cstr_of_not_mem ha, if_pos rfl]
  rfl

/-- A text ended by `'\0'` is that C string. -/
theorem cstr_append_nul {a : List Char} (t : List Char) (ha : '\x00' ∉ a) :
    cstr (a ++ '\x00' :: t) = a := by
  rw [cstr_append _ ha]
  simp [cstr]

/-- A buffer whose C string ends before the buffer does holds a `'\0'` right after it. -/
theorem eq_cstr_append_nul {s : List Char} (h : (cstr s).length < s.length) :
    s = cstr s ++ '\x00' :: s.drop ((cstr s).length + 1) := by
  have hsplit : cstr s ++ s.dropWhile (fun c => c != '\x00') = s := List.takeWhile_append_dropWhile
  obtain ⟨c, t, hct⟩ : ∃ c t, s.dropWhile (fun c => c != '\x00') = c :: t := by
    apply List.exists_cons_of_ne_nil
    intro hnil
    rw [hnil, List.append_nil] at hsplit
    rw [hsplit] at h
    exact lt_irrefl _ h
  -- the scan stopped at the `'\0'`
  have hc : c = '\x00' := by
    have := List.head_dropWhile_not (fun c => c != '\x00')
      (by simp [hct] : s.dropWhile (fun c => c != '\x00') ≠ [])
    simpa [hct] using this
  rw [hct] at hsplit
  generalize cstr s = w at hsplit ⊢
  subst hsplit hc
  simp

/-- Truncating the text to the field first changes nothing. -/
theorem fmtStrLeft_take (w : Nat) (s : List Char) : fmtStrLeft w (s.take w) = fmtStrLeft w s := by
  have hlen : w - ((cstr s).take w).length = w - (cstr s).length := by
    rw [List.length_take]; omega
  rw [fmtStrLeft, fmtStrLeft, cstr_take, List.take_take, Nat.min_self, hlen]

/-- A text that starts with `a` fills the field with `a`, then with the rest in what is left. -/
theorem fmtStrLeft_append {w : Nat} {a : List Char} (b : List Char) (ha : '\x00' ∉ a)
    (hw : a.length ≤ w) : fmtStrLeft w (a ++ b) = a ++ fmtStrLeft (w - a.length) b := by
  have hpad : w - (a ++ cstr b).length = w - a.length - (cstr b).length := by
    rw [List.length_append]; omega
  rw [fmtStrLeft, fmtStrLeft, cstr_append b ha, List.take_append, List.take_of_length_le hw, hpad,
    List.append_assoc]

theorem strchr_append {u v : List Char} {c : Char} (hc : c ∉ u) (hu : '\x00' ∉ u) :
    strchr (u ++ c :: v) c = some (c :: v) := by
  induction u with
  | nil => simp [strchr]
  | cons d u ih =>
    have hdc : d ≠ c := fun e => hc (e ▸ List.mem_cons_self)
    have hd0 : d ≠ '\x00' := fun e => hu (e ▸ List.mem_cons_self)
    rw [List.cons_append, strchr, if_neg hdc, if_neg hd0]
    exact ih (fun h => hc (List.mem_cons_of_mem d h)) (fun h => hu (List.mem_cons_of_mem d h))

/-- `strspn(s, accept)`: the length of the run of characters of `accept` that starts `s`. -/
def strspn (s accept : List Char) : Nat :=
  (s.takeWhile fun c => decide (c ∈ accept)).length

theorem strspn_cons_of_mem {c : Char} {s accept : List Char} (h : c ∈ accept) :
    strspn (c :: s) accept = strspn s accept + 1 := by
  simp [strspn, h]

theorem strspn_cons_of_not_mem {c : Char} {s accept : List Char} (h : c ∉ accept) :
    strspn (c :: s) accept = 0 := by
  simp [strspn, h]

/-- `strstr(hay, needle)`, as the index of the first place `needle` starts in `hay`. -/
def strstr (hay needle : List Char) : Option Nat :=
  if needle.isPrefixOf hay then some 0
  else
    match hay with
    | [] => none
    | _ :: t => (strstr t needle).map (· + 1)

/-- `strstr` returns `hay` itself exactly when `needle` starts it. -/
theorem strstr_eq_zero_iff {hay needle : List Char} : strstr hay needle = some 0 ↔ needle <+: hay := by
  rw [← List.isPrefixOf_iff_prefix]
  constructor
  · intro h
    unfold strstr at h
    split_ifs at h with hp
    · exact hp
    · -- a later match is at an index past `0`
      cases hay with
      | nil => cases h
      | cons c t => cases hs : strstr t needle <;> simp [hs] at h
  · intro h
    unfold strstr
    rw [if_pos h]

theorem strchr_eq_none {s : List Char} {c : Char} (h : c ∉ s) : strchr s c = none := by
  induction s with
  | nil => rfl
  | cons d s ih =>
    have hdc : d ≠ c := fun e => h (e ▸ List.mem_cons_self)
    rw [strchr, if_neg hdc]
    split
    · rfl
    · exact ih (fun hs => h (List.mem_cons_of_mem d hs))

/-- `strncmp(a, b, strlen(b)) == 0` holds exactly when `b` starts `a`. -/
theorem strncmpEq_length_iff {a b : List Char} :
    strncmpEq a b (cstr b).length = true ↔ cstr b <+: cstr a := by
  rw [strncmpEq, List.take_length, beq_iff_eq]
  constructor
  · intro h
    rw [← h]
    exact List.take_prefix _ _
  · intro h
    exact List.prefix_iff_eq_take.1 h |>.symm

/-! ### Splitting and formatting strings -/

/-- `strsep(&s, delim)`: the token before the first character of `delim`, and the text after that
character; `none` when the string holds none of them, as `strsep` then sets `s` to `NULL`. -/
def strsep (delim : List Char) : List Char → List Char × Option (List Char)
  | [] => ([], none)
  | c :: s => if c ∈ delim then ([], some s) else (c :: (strsep delim s).1, (strsep delim s).2)

/-- The text `sprintf(buf, fmt, args...)` writes for a format whose conversions are `%%` and `%s`,
each `%s` taking the next string argument.  Any other conversion, and a `%s` with no argument left,
are outside the model (`none`): the first reads an argument of another type, the second one that
was never passed. -/
def formatS : List Char → List (List Char) → Option (List Char)
  | [], _ => some []
  | '%' :: '%' :: f, args => (formatS f args).map ('%' :: ·)
  | '%' :: 's' :: f, a :: args => (formatS f args).map (cstr a ++ ·)
  | '%' :: _, _ => none
  | c :: f, args => (formatS f args).map (c :: ·)

/-- `snprintf(buf, size, fmt, args...)`: the text of the format, cut to `size - 1` characters. -/
def snprintfS (size : Nat) (fmt : List Char) (args : List (List Char)) : Option (List Char) :=
  (formatS (cstr fmt) args).map (·.take (size - 1))

theorem strsep_of_forall_not_mem {delim s : List Char} (h : ∀ c ∈ s, c ∉ delim) :
    strsep delim s = (s, none) := by
  induction s with
  | nil => rfl
  | cons c s ih =>
    rw [strsep, if_neg (h c List.mem_cons_self), ih (fun d hd => h d (List.mem_cons_of_mem c hd))]

/-- `strsep` cuts at the first delimiter. -/
theorem strsep_append_of_mem {delim t r : List Char} {d : Char} (ht : ∀ c ∈ t, c ∉ delim)
    (hd : d ∈ delim) : strsep delim (t ++ d :: r) = (t, some r) := by
  induction t with
  | nil => simp [strsep, hd]
  | cons c t ih =>
    rw [List.cons_append, strsep, if_neg (ht c List.mem_cons_self),
      ih (fun e he => ht e (List.mem_cons_of_mem c he))]

theorem strstr_cons_of_not_prefix {c : Char} {t needle : List Char}
    (h : needle.isPrefixOf (c :: t) = false) : strstr (c :: t) needle = (strstr t needle).map (· + 1) := by
  rw [strstr, if_neg (by simp [h])]

theorem strstr_self_append (needle r : List Char) : strstr (needle ++ r) needle = some 0 :=
  strstr_eq_zero_iff.2 (List.prefix_append needle r)

/-- No match of a needle starts inside a text without the needle's first character. -/
theorem strstr_append_of_head_not_mem {c : Char} {n u : List Char} (hu : c ∉ u) (v : List Char) :
    strstr (u ++ v) (c :: n) = (strstr v (c :: n)).map (· + u.length) := by
  induction u with
  | nil => simp
  | cons d u ih =>
    have hdc : d ≠ c := fun e => hu (e ▸ List.mem_cons_self)
    rw [List.cons_append, strstr_cons_of_not_prefix (by simp [List.isPrefixOf, Ne.symm hdc]),
      ih (fun h => hu (List.mem_cons_of_mem d h)), Option.map_map]
    rfl

theorem formatS_pct_pct (f : List Char) (args : List (List Char)) :
    formatS ('%' :: '%' :: f) args = (formatS f args).map ('%' :: ·) := rfl

theorem formatS_pct_s (f a : List Char) (args : List (List Char)) :
    formatS ('%' :: 's' :: f) (a :: args) = (formatS f args).map (cstr a ++ ·) := rfl

theorem formatS_cons_of_ne {c : Char} (hc : c ≠ '%') (f : List Char) (args : List (List Char)) :
    formatS (c :: f) args = (formatS f args).map (c :: ·) := by
  rw [formatS.eq_def]
  split <;> simp_all

/-- A text without `%` is printed as it is. -/
theorem formatS_append_of_not_mem {u : List Char} (hu : '%' ∉ u) (f : List Char)
    (args : List (List Char)) : formatS (u ++ f) args = (formatS f args).map (u ++ ·) := by
  induction u with
  | nil => simp
  | cons c u ih =>
    have hc : c ≠ '%' := fun e => hu (e ▸ List.mem_cons_self)
    rw [List.cons_append, formatS_cons_of_ne hc, ih (fun h => hu (List.mem_cons_of_mem c h)),
      Option.map_map]
    rfl

theorem formatS_of_not_mem {f : List Char} (hf : '%' ∉ f) (args : List (List Char)) :
    formatS f args = some f := by
  have h := formatS_append_of_not_mem hf [] args
  rw [List.append_nil] at h
  rw [h, formatS]
  simp

/-! ### Files -/

/-- What `fgets` stores from the bytes `rest`: at most `k` of them, through the first newline. -/
def takeLine : Nat → List Char → List Char
  | 0, _ => []
  | _ + 1, [] => []
  | k + 1, c :: cs => if c = '\n' then [c] else c :: takeLine k cs

/-- `fgets(buf, n, fp)` with the stream at offset `pos` of the file `f`: `none` (`NULL`) at the end of
the file.  The stream then stands after what was read. -/
def fgets (f : List Char) (n pos : Nat) : Option (List Char) :=
  match f.drop pos with
  | [] => none
  | rest => some (takeLine (n - 1) rest)

/-- `fseek(fp, pos, SEEK_SET)` followed by writing `s`: the bytes from `pos` on are overwritten, and
the file grows where `s` runs past its end. -/
def fwriteAt (f : List Char) (pos : Nat) (s : List Char) : List Char :=
  f.take pos ++ s ++ f.drop (pos + s.length)

theorem takeLine_line {l rest : List Char} {k : Nat} (hl : '\n' ∉ l) (hk : l.length < k) :
    takeLine k (l ++ '\n' :: rest) = l ++ ['\n'] := by
  induction l generalizing k with
  | nil =>
    obtain ⟨k, rfl⟩ : ∃ j, k = j + 1 := ⟨k - 1, by simp at hk; omega⟩
    simp [takeLine]
  | cons c l ih =>
    obtain ⟨k, rfl⟩ : ∃ j, k = j + 1 := ⟨k - 1, by simp at hk; omega⟩
    have hc : c ≠ '\n' := fun e => hl (e ▸ List.mem_cons_self)
    rw [List.cons_append, takeLine, if_neg hc,
      ih (fun h => hl (List.mem_cons_of_mem c h)) (by simp at hk; omega)]
    rfl

/-- `fgets` reads a whole line that fits in its buffer. -/
theorem fgets_line {f l rest : List Char} {n pos : Nat} (hf : f.drop pos = l ++ '\n' :: rest)
    (hl : '\n' ∉ l) (hn : l.length + 1 < n) : fgets f n pos = some (l ++ ['\n']) := by
  rw [fgets, hf]
  split
  · simp_all
  · rw [takeLine_line hl (by omega)]

theorem fgets_eof {f : List Char} {n pos : Nat} (h : f.length ≤ pos) : fgets f n pos = none := by
  rw [fgets, List.drop_eq_nil_of_le h]

/-- Overwriting a run of bytes with as many keeps the bytes around it. -/
theorem fwriteAt_mid {pre mid post s : List Char} (h : mid.length = s.length) :
    fwriteAt (pre ++ mid ++ post) pre.length s = pre ++ s ++ post := by
  have htake : (pre ++ mid ++ post).take pre.length = pre := by
    rw [List.append_assoc, List.take_left']
    rfl
  have hdrop : (pre ++ mid ++ post).drop (pre.length + mid.length) = post := by
    rw [List.append_assoc, List.drop_append, List.drop_append, Nat.add_sub_cancel_left]
    simp
  rw [fwriteAt, htake, ← h, hdrop]

/-- Writing at the end of the file appends. -/
theorem fwriteAt_length (f s : List Char) : fwriteAt f f.length s = f ++ s := by
  simp [fwriteAt]

/-! ### `strtol` with base `0` -/

/-- The digit `strtol` reads `c` as: `0`–`9`, then the letters of either case from `10` on; `36`,
past every base, for any other character. -/
def digitVal (c : Char) : Nat :=
  if c.isDigit then c.toNat - '0'.toNat
  else if c.isAlpha then c.toUpper.toNat - 'A'.toNat + 10
  else 36

/-- `strtol(s, &end, 0)` as glibc computes it: the value, the number of characters before `end`,
and whether it set `errno` to `ERANGE`.  The base comes from the text: `0x` or `0X` for 16, a
leading `0` for 8, else 10. -/
def strtol0 (s : List Char) : Int × Nat × Bool :=
  let (neg, u) := splitSign (s.dropWhile isspace)
  let (base, v) : Nat × List Char :=
    if u.head? = some '0' then
      if (u.drop 1).head?.map Char.toUpper = some 'X' then (16, u.drop 2) else (8, u)
    else (10, u)
  let ds := v.takeWhile fun c => digitVal c < base
  if ds = [] then
    -- no digit: `end` is `s`, except after a `0x`, where it is the `x`
    if base = 16 then (0, s.length - u.length + 1, false) else (0, 0, false)
  else
    let n : Nat := ds.foldl (fun acc c => base * acc + digitVal c) 0
    let val : Int := if neg then -n else n
    let len := s.length - (v.length - ds.length)
    if longMax < val then (longMax, len, true)
    else if val < longMin then (longMin, len, true)
    else (val, len, false)

theorem digitVal_of_isDigit {c : Char} (h : c.isDigit) : digitVal c = c.toNat - '0'.toNat := by
  simp [digitVal, h]

theorem digitVal_lt_ten {c : Char} (h : c.isDigit) : digitVal c < 10 := by
  have hc := Char.isDigit_iff_toNat.1 h
  rw [show '0'.toNat = 48 from rfl, show '9'.toNat = 57 from rfl] at hc
  rw [digitVal_of_isDigit h, show '0'.toNat = 48 from rfl]
  omega

/-- A decimal number is printed without a leading zero. -/
theorem toDigits_head_ne_zero {n : Nat} (hn : 0 < n) : (Nat.toDigits 10 n).head? ≠ some '0' := by
  induction n using Nat.strong_induction_on with
  | _ n ih =>
    rw [Nat.toDigits_eq_if (by norm_num)]
    split_ifs with h10
    · -- a single digit, not `0`
      intro h
      simp only [List.head?_cons, Option.some.injEq] at h
      interval_cases n <;> simp_all [Nat.digitChar]
    · obtain ⟨d, t, hdt⟩ := List.exists_cons_of_ne_nil (Nat.toDigits_ne_nil (n := n / 10) (b := 10))
      have := ih (n / 10) (by omega) (by omega)
      rw [hdt] at this ⊢
      simpa using this

/-- Reading decimal digits with `digitVal` is reading them with `Nat.ofDigitChars`. -/
theorem foldl_digitVal {ds : List Char} (h : ∀ c ∈ ds, c.isDigit) (init : Nat) :
    ds.foldl (fun acc c => 10 * acc + digitVal c) init = Nat.ofDigitChars 10 ds init := by
  induction ds generalizing init with
  | nil => rfl
  | cons c ds ih =>
    rw [List.foldl_cons, digitVal_of_isDigit (h c List.mem_cons_self),
      ih (fun d hd => h d (List.mem_cons_of_mem c hd))]
    rfl

theorem strtol0_toDigits {n : Nat} (hn : (n : Int) ≤ longMax) :
    strtol0 (Nat.toDigits 10 n) = ((n : Int), (Nat.toDigits 10 n).length, false) := by
  have hdig : ∀ c ∈ Nat.toDigits 10 n, c.isDigit := fun c hc => isDigit_of_mem_toDigits hc
  obtain ⟨d, t, hdt⟩ := List.exists_cons_of_ne_nil (Nat.toDigits_ne_nil (n := n) (b := 10))
  have hd : d.isDigit := hdig d (by rw [hdt]; exact List.mem_cons_self)
  have hsign : splitSign ((Nat.toDigits 10 n).dropWhile isspace) = (false, Nat.toDigits 10 n) := by
    rw [hdt, List.dropWhile_cons_of_neg (by simp [isspace_of_isDigit hd]),
      splitSign_of_isDigit t hd]
  rcases Nat.eq_zero_or_pos n with rfl | hpos
  · -- `0` reads as an octal number
    decide
  · -- a decimal number: every character is a digit
    have hall : (Nat.toDigits 10 n).takeWhile (fun c => digitVal c < 10) = Nat.toDigits 10 n := by
      rw [List.takeWhile_eq_self_iff]
      intro c hc
      exact decide_eq_true (digitVal_lt_ten (hdig c hc))
    simp only [strtol0, hsign, if_neg (toDigits_head_ne_zero hpos), hall,
      Nat.toDigits_ne_nil, if_false, foldl_digitVal hdig, Nat.ofDigitChars_toDigits (by norm_num)
        (le_refl 10), Bool.false_eq_true, not_lt.2 hn, Nat.sub_self, Nat.sub_zero]
    rw [if_neg (by unfold longMin; omega)]

/-! ### `scanf` formats -/

/-- A piece of a `scanf` format: a literal character, the escape `%%`, or a conversion
`%[*][width][length]conversion`, whose value is stored unless `*` suppresses it. -/
inductive ScanfItem
  | lit (c : Char)
  | pct
  | conv (suppress : Bool) (width len : List Char) (conversion : Char)
  deriving DecidableEq, Repr

/-- The length modifiers of a conversion. -/
def scanfLengths : List (List Char) :=
  [[], ['h', 'h'], ['h'], ['l'], ['l', 'l'], ['j'], ['z'], ['t'], ['L'], ['q']]

/-- The conversions that store one value and read one input item: all but `%n` and `%[`. -/
def scanfConversions : List Char :=
  ['d', 'i', 'o', 'u', 'x', 'X', 'f', 'e', 'g', 'E', 'G', 'a', 's', 'p', 'c']

/-- A piece as it is written: a literal is neither `%` nor the terminating `'\0'`, a width is
decimal. -/
def ScanfItem.WF : ScanfItem → Prop
  | .lit c => c ≠ '%' ∧ c ≠ '\x00'
  | .pct => True
  | .conv _ width len c => (∀ d ∈ width, d.isDigit) ∧ len ∈ scanfLengths ∧ c ∈ scanfConversions

instance (it : ScanfItem) : Decidable it.WF :=
  match it with
  | .lit c => inferInstanceAs (Decidable (c ≠ '%' ∧ c ≠ '\x00'))
  | .pct => inferInstanceAs (Decidable True)
  | .conv _ width len c =>
    inferInstanceAs (Decidable ((∀ d ∈ width, d.isDigit) ∧ len ∈ scanfLengths ∧ c ∈ scanfConversions))

/-- The text of a piece. -/
def ScanfItem.text : ScanfItem → List Char
  | .lit c => [c]
  | .pct => ['%', '%']
  | .conv suppress width len c => '%' :: ((if suppress then ['*'] else []) ++ width ++ len ++ [c])

/-- The values a piece stores when it matches. -/
def ScanfItem.assigns : ScanfItem → Nat
  | .conv false _ _ _ => 1
  | _ => 0

/-- The text of a format. -/
def scanfText (items : List ScanfItem) : List Char :=
  items.flatMap ScanfItem.text

/-- The number of values a format stores when every conversion matches: what `scanf` returns then. -/
def assignCount (items : List ScanfItem) : Nat :=
  (items.map ScanfItem.assigns).sum

@[simp] theorem scanfText_nil : scanfText [] = [] := rfl

@[simp] theorem scanfText_cons (it : ScanfItem) (items : List ScanfItem) :
    scanfText (it :: items) = it.text ++ scanfText items := by
  simp [scanfText]

@[simp] theorem assignCount_nil : assignCount [] = 0 := rfl

@[simp] theorem assignCount_cons (it : ScanfItem) (items : List ScanfItem) :
    assignCount (it :: items) = it.assigns + assignCount items := by
  simp [assignCount]

/-- No character of a conversion after its `%` is `%`, nor the `'\0'`. -/
theorem ScanfItem.not_pct_of_conv {suppress : Bool} {width len : List Char} {c d : Char}
    (hwf : (ScanfItem.conv suppress width len c).WF)
    (hd : d ∈ (if suppress then ['*'] else []) ++ width ++ len ++ [c]) : d ≠ '%' ∧ d ≠ '\x00' := by
  obtain ⟨hw, hl, hc⟩ := hwf
  have hlens : ∀ l ∈ scanfLengths, ∀ d ∈ l, d ≠ '%' ∧ d ≠ '\x00' := by simp [scanfLengths]
  have hconvs : ∀ d ∈ scanfConversions, d ≠ '%' ∧ d ≠ '\x00' := by simp [scanfConversions]
  simp only [List.mem_append, List.mem_singleton] at hd
  rcases hd with ((hs | hd) | hd) | rfl
  · -- the `*`
    split_ifs at hs
    · rw [List.mem_singleton.1 hs]
      decide
    · cases hs
  · have := hw d hd
    constructor <;> rintro rfl <;> simp at this
  · exact hlens len hl d hd
  · exact hconvs d hc

/-- A format holds no `'\0'`, so it is the whole C string. -/
theorem nul_not_mem_scanfText {items : List ScanfItem} (hwf : ∀ it ∈ items, it.WF) :
    '\x00' ∉ scanfText items := by
  induction items with
  | nil => simp
  | cons it items ih =>
    rw [scanfText_cons, List.mem_append, not_or]
    refine ⟨?_, ih fun it' h => hwf it' (List.mem_cons_of_mem it h)⟩
    have hit := hwf it List.mem_cons_self
    cases it with
    | lit c => simpa [ScanfItem.text, eq_comm] using hit.2
    | pct => simp [ScanfItem.text]
    | conv suppress width len c =>
      intro h
      rcases List.mem_cons.1 h with h | h
      · exact absurd h (by decide)
      · exact (ScanfItem.not_pct_of_conv hit h).2 rfl

end CText
