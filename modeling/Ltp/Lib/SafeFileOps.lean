import Ltp.Library.CText

/-!
# Counting the conversions of a `scanf` format (`safe_file_ops.c`)

`file_scanf` and `file_lines_scanf` read a file with a `scanf` format and call the read a success
when `scanf` returns the number of conversions that `count_scanf_conversions(fmt)` expects.  The
counter is a two-state automaton over the format: a `%` counts a conversion and sets `flag`; a
second `%` or a `*` right after it takes the count back.

The files are not modelled: `file_scanf` takes what `fopen`, `vfscanf` and `fclose` return, and
`file_lines_scanf` the lines `fgets` returns with the function that `vsscanf` is on each of them.
Both return their warnings or the message of `tst_brkm`, and their value.

* `countScanfConversions_eq`: on a format made of literal characters, `%%` and conversions
  `%[*][width][length]conversion`, the count is the number of conversions without `*`
  (`CText.assignCount`); `foldl_scanfCountStep_inv` shows `cnt--` never wraps.
* `count_scanf_conversions_assigning`: so `file_scanf` returns `0` exactly when the file opens and
  closes and `vfscanf` stores a value for every conversion, and `file_lines_scanf` exactly when
  `vsscanf` does so on some line (or there is no line and nothing to store).
-/

namespace Ltp

open CText

/-- One character of the loop of `count_scanf_conversions`, on `(cnt, flag)`. -/
def scanfCountStep (st : Nat × Bool) (c : Char) : Nat × Bool :=
  match c with
  | '%' => if st.2 then (st.1 - 1, false) else (st.1 + 1, true)
  | '*' => if st.2 then (st.1 - 1, false) else st
  | _ => (st.1, false)

/-- `count_scanf_conversions(fmt)`. -/
def countScanfConversions (fmt : List Char) : Nat :=
  ((cstr fmt).foldl scanfCountStep (0, false)).1

/-- `EOF`. -/
def eof : Int := -1

/-- `" at %s:%d"`, the place of the call in the messages. -/
def atFileLine (file : List Char) (lineno : Int) : List Char :=
  " at ".toList ++ cstr file ++ ':' :: fmtInt lineno

/-- What `file_scanf` gets from the stream: whether `fopen` succeeds, the value of `vfscanf`, and
whether `fclose` succeeds. -/
structure FileScanfIo where
  opens : Bool
  ret : Int
  closes : Bool
  deriving DecidableEq, Repr

/-- `file_scanf(file, lineno, path, fmt, ...)`: the `TWARN` messages and the value returned. -/
def fileScanf (file : List Char) (lineno : Int) (path fmt : List Char) (io : FileScanfIo) :
    List (List Char) × Int :=
  let closeWarn : List (List Char) :=
    if io.closes then [] else ["Failed to close FILE '".toList ++ cstr path ++ "'".toList ++ atFileLine file lineno]
  if !io.opens then (["Failed to open FILE '".toList ++ cstr path ++ "'".toList ++ atFileLine file lineno], 1)
  else
    let expConvs : Int := countScanfConversions fmt
    if io.ret = eof then
      (("The FILE '".toList ++ cstr path ++ "' ended prematurely".toList ++ atFileLine file lineno) ::
        closeWarn, 1)
    else if io.ret ≠ expConvs then
      (("Expected ".toList ++ fmtInt expConvs ++ " conversions got ".toList ++ fmtInt io.ret ++
        " FILE '".toList ++ cstr path ++ "'".toList ++ atFileLine file lineno) :: closeWarn, 1)
    else (closeWarn, if io.closes then 0 else 1)

/-- The `fgets` loop of `file_lines_scanf`, from the value `ret` of the last `vsscanf`: it stops at
the first line on which `vsscanf` returns `arg_count`. -/
def fileLinesScanfLoop (argCount : Int) (vsscanf : List Char → Int) : List (List Char) → Int → Int
  | [], ret => ret
  | line :: lines, _ =>
    let ret := vsscanf line
    if ret = argCount then ret else fileLinesScanfLoop argCount vsscanf lines ret

/-- `file_lines_scanf(file, lineno, cleanup_fn, strict, path, fmt, ...)`: the message of
`tst_brkm` (which ends the test), or the value returned; `fmt` is `none` for `NULL`. -/
def fileLinesScanf (file : List Char) (lineno : Int) (strict : Bool) (path : List Char)
    (fmt : Option (List Char)) (opens : Bool) (lines : List (List Char))
    (vsscanf : List Char → Int) : Except (List Char) Int :=
  match fmt with
  | none => .error ("pattern is NULL, ".toList ++ cstr file ++ ':' :: fmtInt lineno)
  | some fmt =>
    if !opens then
      .error ("Failed to open FILE '".toList ++ cstr path ++ "' for reading".toList ++
        atFileLine file lineno)
    else
      let argCount : Int := countScanfConversions fmt
      let ret := fileLinesScanfLoop argCount vsscanf lines 0
      if strict ∧ ret ≠ argCount then
        .error ("Expected ".toList ++ fmtInt argCount ++ " conversions got ".toList ++ fmtInt ret ++
          atFileLine file lineno)
      else .ok (if ret = argCount then 0 else 1)

/-! ### The counter -/

/-- `flag` is set only right after a count, so `cnt--` never takes `cnt` below `0`. -/
theorem foldl_scanfCountStep_inv (s : List Char) {st : Nat × Bool} (h : st.2 = true → 1 ≤ st.1) :
    (s.foldl scanfCountStep st).2 = true → 1 ≤ (s.foldl scanfCountStep st).1 := by
  induction s generalizing st with
  | nil => exact h
  | cons c s ih =>
    apply ih
    obtain ⟨cnt, flag⟩ := st
    unfold scanfCountStep
    split <;> cases flag <;> simp

/-- From a state without `flag`, text without `%` leaves the count alone. -/
theorem foldl_scanfCountStep_of_not_pct {s : List Char} (h : ∀ c ∈ s, c ≠ '%') (k : Nat) :
    s.foldl scanfCountStep (k, false) = (k, false) := by
  induction s with
  | nil => rfl
  | cons c s ih =>
    have hc : c ≠ '%' := h c List.mem_cons_self
    have hstep : scanfCountStep (k, false) c = (k, false) := by
      unfold scanfCountStep
      split
      · exact absurd rfl hc
      · rfl
      · rfl
    rw [List.foldl_cons, hstep]
    exact ih fun d hd => h d (List.mem_cons_of_mem c hd)

/-- Each piece of a format adds the values it stores, and ends without `flag`. -/
theorem foldl_scanfCountStep_text {it : ScanfItem} (hwf : it.WF) (k : Nat) :
    it.text.foldl scanfCountStep (k, false) = (k + it.assigns, false) := by
  cases it with
  | lit c =>
    -- a literal `*` finds `flag` clear and leaves the state as it is
    have hstep : scanfCountStep (k, false) c = (k, false) := by
      unfold scanfCountStep
      split
      · exact absurd rfl hwf.1
      · rfl
      · rfl
    simp [ScanfItem.text, ScanfItem.assigns, hstep]
  | pct => simp [ScanfItem.text, ScanfItem.assigns, scanfCountStep]
  | conv suppress width len c =>
    have hrest : ∀ d ∈ width ++ len ++ [c], d ≠ '%' := by
      intro d hd
      refine (ScanfItem.not_pct_of_conv hwf ?_).1
      simp only [List.mem_append] at hd ⊢
      tauto
    cases suppress with
    | true =>
      -- `%*` counts and takes the count back
      simp only [ScanfItem.text, if_true, List.cons_append, List.nil_append, List.foldl_cons,
        ScanfItem.assigns]
      rw [show scanfCountStep (scanfCountStep (k, false) '%') '*' = (k, false) by
        simp [scanfCountStep]]
      rw [foldl_scanfCountStep_of_not_pct hrest, Nat.add_zero]
    | false =>
      -- the character after `%` is neither `%` nor `*`, so it only clears `flag`
      obtain ⟨d, rest, hdr⟩ : ∃ d rest, width ++ len ++ [c] = d :: rest :=
        List.exists_cons_of_ne_nil (by simp)
      have hd : d ≠ '%' ∧ d ≠ '*' := by
        have hmem : d ∈ width ++ len ++ [c] := hdr ▸ List.mem_cons_self
        refine ⟨hrest d hmem, ?_⟩
        rintro rfl
        have hw := hwf.1
        obtain ⟨-, hl, hc⟩ := hwf
        have hlens : ∀ l ∈ scanfLengths, '*' ∉ l := by decide
        have hconvs : '*' ∉ scanfConversions := by decide
        simp only [List.mem_append, List.mem_singleton] at hmem
        rcases hmem with (hmem | hmem) | hmem
        · simpa using hw _ hmem
        · exact hlens len hl hmem
        · exact hconvs (hmem ▸ hc)
      have hstep : scanfCountStep (k + 1, true) d = (k + 1, false) := by
        unfold scanfCountStep
        split
        · exact absurd rfl hd.1
        · exact absurd rfl hd.2
        · rfl
      have hrest' : ∀ e ∈ rest, e ≠ '%' := fun e he => hrest e (hdr ▸ List.mem_cons_of_mem d he)
      simp only [ScanfItem.text, Bool.false_eq_true, if_false, List.nil_append, hdr,
        List.foldl_cons, ScanfItem.assigns]
      rw [show scanfCountStep (k, false) '%' = (k + 1, true) by simp [scanfCountStep], hstep,
        foldl_scanfCountStep_of_not_pct hrest']

/-- The whole format, piece by piece. -/
theorem foldl_scanfCountStep_scanfText {items : List ScanfItem} (hwf : ∀ it ∈ items, it.WF)
    (k : Nat) : (scanfText items).foldl scanfCountStep (k, false) = (k + assignCount items, false) := by
  induction items generalizing k with
  | nil => rfl
  | cons it items ih =>
    rw [scanfText_cons, List.foldl_append, foldl_scanfCountStep_text (hwf it List.mem_cons_self),
      ih (fun it' h => hwf it' (List.mem_cons_of_mem it h)), assignCount_cons, Nat.add_assoc]

/-- `count_scanf_conversions` counts the conversions that store a value. -/
theorem countScanfConversions_eq {items : List ScanfItem} (hwf : ∀ it ∈ items, it.WF) :
    countScanfConversions (scanfText items) = assignCount items := by
  rw [countScanfConversions, cstr_of_not_mem (nul_not_mem_scanfText hwf),
    foldl_scanfCountStep_scanfText hwf, Nat.zero_add]

/-! ### The readers -/

/-- The loop ends on `arg_count` exactly when some line gives it, or when there is no line and
the value it starts from is `arg_count` already. -/
theorem fileLinesScanfLoop_eq_iff (n : Int) (f : List Char → Int) (lines : List (List Char))
    (ret : Int) :
    fileLinesScanfLoop n f lines ret = n ↔ (∃ l ∈ lines, f l = n) ∨ (lines = [] ∧ ret = n) := by
  induction lines generalizing ret with
  | nil => simp [fileLinesScanfLoop]
  | cons l lines ih =>
    rw [fileLinesScanfLoop]
    split_ifs with h
    · simp [h]
    · rw [ih]
      simp [h]

/-- `file_scanf` succeeds exactly when `vfscanf` returns `n` and the file opens and closes. -/
theorem fileScanf_eq_zero_iff {file path fmt : List Char} {lineno : Int} {io : FileScanfIo}
    {n : Nat} (hcount : countScanfConversions fmt = n) :
    (fileScanf file lineno path fmt io).2 = 0 ↔ io.opens ∧ io.ret = n ∧ io.closes := by
  rw [fileScanf]
  dsimp only
  rw [hcount]
  have hneof : eof ≠ (n : Int) := by rw [eof]; omega
  by_cases hopen : io.opens
  · by_cases hret : io.ret = n
    · -- the count matched: only `fclose` can still fail
      simp [hopen, hret, hneof.symm]
    · by_cases heof : io.ret = eof <;> simp [hopen, hret, heof, hneof]
  · simp [hopen]

/-- `file_lines_scanf` returns `0` exactly when `vsscanf` returns `n` on some line. -/
theorem fileLinesScanf_eq_ok_zero_iff {file path fmt : List Char} {lineno : Int} {strict opens : Bool}
    {lines : List (List Char)} {f : List Char → Int} {n : Nat} (hcount : countScanfConversions fmt = n) :
    fileLinesScanf file lineno strict path (some fmt) opens lines f = .ok 0 ↔
      opens ∧ ((∃ l ∈ lines, f l = n) ∨ (lines = [] ∧ n = 0)) := by
  have hloop := fileLinesScanfLoop_eq_iff n f lines 0
  rw [eq_comm (a := (0 : Int)), Nat.cast_eq_zero] at hloop
  rw [fileLinesScanf]
  dsimp only
  rw [hcount]
  cases opens with
  | false => simp
  | true =>
    by_cases hret : fileLinesScanfLoop n f lines 0 = n
    · simp [hret, ← hloop]
    · cases strict <;> simp [hret, ← hloop]

/-- On a format of literal characters, `%%` and conversions, `count_scanf_conversions` returns the
number of conversions that store a value, which is what `scanf` returns when all of them match:
so `file_scanf` and `file_lines_scanf` report success exactly when every such conversion matched. -/
theorem count_scanf_conversions_assigning (items : List ScanfItem) (hwf : ∀ it ∈ items, it.WF) :
    countScanfConversions (scanfText items) = assignCount items ∧
      (∀ file path lineno io, (fileScanf file lineno path (scanfText items) io).2 = 0 ↔
        io.opens ∧ io.ret = assignCount items ∧ io.closes) ∧
      (∀ file path lineno strict opens lines f,
        fileLinesScanf file lineno strict path (some (scanfText items)) opens lines f = .ok 0 ↔
          opens ∧ ((∃ l ∈ lines, f l = assignCount items) ∨ (lines = [] ∧ assignCount items = 0))) :=
  ⟨countScanfConversions_eq hwf, fun _ _ _ _ => fileScanf_eq_zero_iff (countScanfConversions_eq hwf),
    fun _ _ _ _ _ _ _ => fileLinesScanf_eq_ok_zero_iff (countScanfConversions_eq hwf)⟩

/-- The format `"%*s %lu"` as its items. -/
def skipWordFormat : List ScanfItem :=
  [.conv true [] [] 's', .lit ' ', .conv false [] ['l'] 'u']

/-- On `"%*s %lu"` one conversion stores a value. -/
theorem count_scanf_conversions_skip_word :
    countScanfConversions (scanfText skipWordFormat) = assignCount skipWordFormat ∧
      (∀ file path lineno io, (fileScanf file lineno path (scanfText skipWordFormat) io).2 = 0 ↔
        io.opens ∧ io.ret = assignCount skipWordFormat ∧ io.closes) ∧
      (∀ file path lineno strict opens lines f,
        fileLinesScanf file lineno strict path (some (scanfText skipWordFormat)) opens lines f = .ok 0 ↔
          opens ∧ ((∃ l ∈ lines, f l = assignCount skipWordFormat) ∨
            (lines = [] ∧ assignCount skipWordFormat = 0))) :=
  count_scanf_conversions_assigning skipWordFormat
    (by simp [skipWordFormat, ScanfItem.WF, scanfLengths, scanfConversions])

end Ltp
