import Ltp.Library.CText

/-!
# The command file of `ltp-pan` (`get_collection`, `subst_pcnt_f`)

`get_collection` reads a command file into a collection of entries: each line that starts with
neither `#`, a space nor its end gives the tag up to the first space or tab and the command line
after it; trailing arguments, when there are any, are joined into one more entry `cmdln`.  A first
`%f` in a line is rewritten to `%s` in place, and `run_child` later runs such a command line through
`subst_pcnt_f`, which prints it with `snprintf` as a format, the `%s` taking `<pid>_<counter>`.

The file is its bytes (no `NUL`), cut at each newline as the loop of `get_collection` cuts it with
`strchr`; the two ways the function can go wrong are faults (`PanFault`): `strdup(NULL)` for a tag
with nothing after it, and a `strncat` past the end of `workstr`.  The main results:

* `getCollection_cnt`: along the whole run, `cnt` counts the entries linked.
* `collEntryOfLine_split`, `getCollectionLoop_of_ok`: a line `tag sep cmdline` gives the entry
  `(tag, cmdline)`, and the entries follow the lines in file order.
* `getCollection_tag_only`: a tag alone on its line makes `strsep` leave `NULL`, which goes to
  `strdup`.
* `fillArgsLoop_spec`, `getCollection_args`: the trailing arguments and their spaces fit in
  `workstr` exactly when they take at most 1024 bytes; past that a `strncat` writes beyond it.
* `childCmdline_pcnt`, `get_collection_pcnt_f_percent`: the command line is a format, so the `%s`
  takes `<pid>_<counter>` and a `%%` in it is printed as `%`.
-/

namespace Ltp

open CText

/-- The faults that end `get_collection`: `strdup(NULL)`, and a `strncat` past `workstr`. -/
inductive PanFault
  | strdupNull
  | workstrOverflow
  deriving DecidableEq, Repr

/-- `struct coll_entry`: the tag, the command line, and whether `pcnt_f` is set. -/
structure CollEntry where
  name : List Char
  cmdline : List Char
  pcntF : Bool
  deriving DecidableEq, Repr

/-- `struct collection`: the counter `cnt` and the entries of `ary`, in the order of the list. -/
structure Collection where
  cnt : Nat
  ary : List CollEntry
  deriving DecidableEq, Repr

/-- `if ((n->pcnt_f = strstr(a, "%f"))) n->pcnt_f[1] = 's';`: the first `%f` becomes `%s`. -/
def markPcntF (a : List Char) : List Char :=
  match strstr a "%f".toList with
  | some i => a.set (i + 1) 's'
  | none => a

/-- One pass of the loop of `get_collection` over the line `a`: `none` for a line skipped as a
comment, as empty, or as starting with a space. -/
def collEntryOfLine (a : List Char) : Except PanFault (Option CollEntry) :=
  let c := a.headD '\x00'
  if c ≠ '#' ∧ c ≠ '\x00' ∧ c ≠ ' ' then
    -- `strsep` runs on the line after the `%f` was rewritten
    match strsep " \t".toList (markPcntF a) with
    | (name, some cmdline) => .ok (some ⟨name, cmdline, (strstr a "%f".toList).isSome⟩)
    | (_, none) => .error .strdupNull
  else .ok none

/-- The loop of `get_collection` over the lines of the file, with the entries linked so far and
`coll->cnt`. -/
def getCollectionLoop : List (List Char) → List CollEntry → Nat →
    Except PanFault (List CollEntry × Nat)
  | [], es, cnt => .ok (es, cnt)
  | a :: as, es, cnt => do
    match ← collEntryOfLine a with
    | none => getCollectionLoop as es cnt
    | some n => getCollectionLoop as (es ++ [n]) (cnt + 1)

/-- The size of `workstr`. -/
def workstrSize : Nat := 1024

/-- `strncat(workstr, src, n)` with the `int` budget `n` passed as a `size_t`: it copies at most
`n` bytes and a terminator, which must stay inside `workstr`. -/
def strncatWork (work src : List Char) (n : Int32) : Except PanFault (List Char) :=
  let m := min (n.toInt % 2 ^ 64).toNat src.length
  if work.length + m < workstrSize then .ok (work ++ src.take m) else .error .workstrOverflow

/-- The loop that joins the trailing arguments in `workstr`, with the `int` budget `workstr_left`;
`workstr_left - strlen(arg)` is computed in `size_t` and stored back in the `int`. -/
def fillArgsLoop : List (List Char) → List Char → Int32 → Except PanFault (List Char)
  | [], work, _ => .ok work
  | arg :: args, work, left => do
    let work ← strncatWork work arg left
    let left := left - Int32.ofNat arg.length
    let work ← strncatWork work [' '] left
    fillArgsLoop args work (left - 1)

/-- `get_collection(file, optind, argc, argv)` on the bytes of the file and the arguments from
`optind` on. -/
def getCollection (file : List Char) (args : List (List Char)) : Except PanFault Collection := do
  let (es, cnt) ← getCollectionLoop (file.splitOn '\n') [] 0
  if args = [] then pure ⟨cnt, es⟩
  else
    let workstr ← fillArgsLoop args [] 1023
    let n : CollEntry := ⟨"cmdln".toList, markPcntF workstr, (strstr workstr "%f".toList).isSome⟩
    pure ⟨cnt + 1, es ++ [n]⟩

/-- `snprintf(pid_and_counter, 20, "%d_%d", getpid(), counter)`. -/
def pidAndCounter (pid counter : Int) : List Char :=
  (fmtInt pid ++ '_' :: fmtInt counter).take 19

/-- `subst_pcnt_f(colle)` with the pid and the value of its static counter: the command line
printed with `snprintf` as a format of 1024 bytes.  `none` when the format has a conversion the
model leaves out. -/
def substPcntF (colle : CollEntry) (pid counter : Int) : Option (List Char) :=
  if !colle.pcntF then some colle.cmdline
  else snprintfS 1024 colle.cmdline [pidAndCounter pid counter]

/-- The command line `run_child` runs for an entry. -/
def childCmdline (colle : CollEntry) (pid counter : Int) : Option (List Char) :=
  if colle.pcntF then substPcntF colle pid counter else some colle.cmdline

/-! ### One line -/

theorem mem_markPcntF {a : List Char} {c : Char} (h : c ∈ markPcntF a) : c ∈ a ∨ c = 's' := by
  unfold markPcntF at h
  split at h
  · exact List.mem_or_eq_of_mem_set h
  · exact .inl h

/-- The rewrite of a first `%f` found at its place. -/
theorem markPcntF_of_strstr {p s : List Char}
    (h : strstr (p ++ '%' :: 'f' :: s) "%f".toList = some p.length) :
    markPcntF (p ++ '%' :: 'f' :: s) = p ++ '%' :: 's' :: s := by
  rw [markPcntF, h]
  simp [List.set_append_right]

theorem markPcntF_of_strstr_none {a : List Char} (h : strstr a "%f".toList = none) :
    markPcntF a = a := by
  rw [markPcntF, h]

/-- A line can only fail on `strdup(NULL)`. -/
theorem collEntryOfLine_error {a : List Char} {f : PanFault} (h : collEntryOfLine a = .error f) :
    f = .strdupNull := by
  unfold collEntryOfLine at h
  dsimp only at h
  -- the skipped lines give `ok none`, which `split_ifs` discards
  split_ifs at h
  split at h
  · cases h
  · cases h
    rfl

/-- A tag with no space or tab after it: `strsep` sets the rest to `NULL`, and `strdup` gets it. -/
theorem collEntryOfLine_tag_only {c : Char} {rest : List Char} (hc : c ≠ '#' ∧ c ≠ '\x00' ∧ c ≠ ' ')
    (hsp : ' ' ∉ c :: rest) (htab : '\t' ∉ c :: rest) :
    collEntryOfLine (c :: rest) = .error .strdupNull := by
  have hnone : strsep " \t".toList (markPcntF (c :: rest)) = (markPcntF (c :: rest), none) := by
    apply strsep_of_forall_not_mem
    intro x hx hd
    have hd' : x = ' ' ∨ x = '\t' := by simpa using hd
    rcases mem_markPcntF hx with h | rfl
    · rcases hd' with rfl | rfl
      · exact hsp h
      · exact htab h
    · simp at hd'
  unfold collEntryOfLine
  dsimp only
  split_ifs with h
  · rw [hnone]
  · exact absurd hc h

section Split

variable {c d : Char} {t : List Char} (hc : c ≠ '#' ∧ c ≠ '\x00')
  (ht : ∀ x ∈ c :: t, x ∉ " \t".toList) (hd : d ∈ " \t".toList)
include hc ht hd

/-- A line `tag sep cmdline` without `%f` gives the entry `(tag, cmdline)`. -/
theorem collEntryOfLine_split {r : List Char} (hf : strstr (c :: t ++ d :: r) "%f".toList = none) :
    collEntryOfLine (c :: t ++ d :: r) = .ok (some ⟨c :: t, r, false⟩) := by
  have hc' : c ≠ ' ' := fun h => ht c List.mem_cons_self (by simp [h])
  unfold collEntryOfLine
  dsimp only
  rw [List.cons_append, List.headD_cons, if_pos ⟨hc.1, hc.2, hc'⟩, ← List.cons_append,
    markPcntF_of_strstr_none hf, strsep_append_of_mem ht hd, hf]
  rfl

/-- A line `tag sep p%fs`, its first `%f` in the command line, gives the entry `(tag, p%ss)`. -/
theorem collEntryOfLine_split_pcnt {p s : List Char}
    (hf : strstr (c :: t ++ d :: p ++ '%' :: 'f' :: s) "%f".toList = some (t.length + 2 + p.length)) :
    collEntryOfLine (c :: t ++ d :: (p ++ '%' :: 'f' :: s)) =
      .ok (some ⟨c :: t, p ++ '%' :: 's' :: s, true⟩) := by
  have hc' : c ≠ ' ' := fun h => ht c List.mem_cons_self (by simp [h])
  have hlen : (c :: t ++ d :: p).length = t.length + 2 + p.length := by simp; omega
  have hmark : markPcntF (c :: t ++ d :: (p ++ '%' :: 'f' :: s)) =
      c :: t ++ d :: (p ++ '%' :: 's' :: s) := by
    have h := markPcntF_of_strstr (p := c :: t ++ d :: p) (s := s) (by rw [hlen]; simpa using hf)
    simpa using h
  unfold collEntryOfLine
  dsimp only
  rw [List.cons_append, List.headD_cons, if_pos ⟨hc.1, hc.2, hc'⟩, ← List.cons_append, hmark,
    strsep_append_of_mem ht hd]
  simp only [Except.ok.injEq, Option.some.injEq, CollEntry.mk.injEq, true_and]
  rw [Option.isSome_iff_exists]
  exact ⟨_, by simpa using hf⟩

end Split

/-! ### The loop over the lines -/

/-- When every line gives its entry or nothing, the entries are those of the lines in file order,
and `cnt` grows by their number. -/
theorem getCollectionLoop_of_ok {o : List Char → Option CollEntry} {as : List (List Char)}
    (h : ∀ a ∈ as, collEntryOfLine a = .ok (o a)) (es : List CollEntry) (cnt : Nat) :
    getCollectionLoop as es cnt = .ok (es ++ as.filterMap o, cnt + (as.filterMap o).length) := by
  induction as generalizing es cnt with
  | nil => simp [getCollectionLoop]
  | cons a as ih =>
    have ih' := ih (fun b hb => h b (List.mem_cons_of_mem a hb))
    rw [getCollectionLoop, h a List.mem_cons_self]
    cases hoa : o a with
    | none =>
      simp only [bind, Except.bind, List.filterMap_cons, hoa]
      exact ih' es cnt
    | some e =>
      simp only [bind, Except.bind, List.filterMap_cons, hoa, ih', List.append_assoc,
        List.singleton_append, List.length_cons]
      congr 2
      omega

/-- The first line that fails ends the loop, whatever the lines around it. -/
theorem getCollectionLoop_error {as : List (List Char)} {a : List Char} (ha : a ∈ as)
    (h : collEntryOfLine a = .error .strdupNull) (es : List CollEntry) (cnt : Nat) :
    getCollectionLoop as es cnt = .error .strdupNull := by
  induction as generalizing es cnt with
  | nil => cases ha
  | cons b as ih =>
    rw [getCollectionLoop]
    cases hb : collEntryOfLine b with
    | error f =>
      rw [collEntryOfLine_error hb]
      rfl
    | ok o =>
      -- `b` is not the failing line, which comes later
      have ha' : a ∈ as := by
        rcases List.mem_cons.1 ha with rfl | ha'
        · rw [h] at hb
          cases hb
        · exact ha'
      cases o with
      | none => exact ih ha' es cnt
      | some e => exact ih ha' (es ++ [e]) (cnt + 1)

/-- The loop keeps `cnt` and the number of linked entries in step. -/
theorem getCollectionLoop_cnt {as : List (List Char)} {es : List CollEntry} {cnt : Nat}
    {r : List CollEntry × Nat} (h : getCollectionLoop as es cnt = .ok r) :
    r.2 + es.length = r.1.length + cnt := by
  induction as generalizing es cnt with
  | nil =>
    cases h
    show cnt + es.length = es.length + cnt
    omega
  | cons a as ih =>
    rw [getCollectionLoop] at h
    cases ha : collEntryOfLine a with
    | error f => simp [ha, bind, Except.bind] at h
    | ok o =>
      simp only [ha, bind, Except.bind] at h
      cases o with
      | none => exact ih h
      | some e =>
        have := ih h
        simp only [List.length_append, List.length_singleton] at this
        omega

/-! ### The collection -/

/-- `cnt` is the number of entries of the array. -/
theorem getCollection_cnt {file : List Char} {args : List (List Char)} {coll : Collection}
    (h : getCollection file args = .ok coll) : coll.cnt = coll.ary.length := by
  unfold getCollection at h
  cases hl : getCollectionLoop (file.splitOn '\n') [] 0 with
  | error f => simp [hl, bind, Except.bind] at h
  | ok r =>
    have hr := getCollectionLoop_cnt hl
    simp only [List.length_nil, Nat.add_zero] at hr
    simp only [hl, bind, Except.bind] at h
    split_ifs at h
    · cases h
      exact hr
    · cases hw : fillArgsLoop args [] 1023 with
      | error f => simp [hw] at h
      | ok w =>
        simp only [hw] at h
        cases h
        simp [hr]

/-- A tag alone on a line of the file ends `get_collection` with `strdup(NULL)`. -/
theorem getCollection_tag_only {file : List Char} {c : Char} {rest : List Char}
    (hline : c :: rest ∈ file.splitOn '\n') (hc : c ≠ '#' ∧ c ≠ '\x00' ∧ c ≠ ' ')
    (hsp : ' ' ∉ c :: rest) (htab : '\t' ∉ c :: rest) (args : List (List Char)) :
    getCollection file args = .error .strdupNull := by
  unfold getCollection
  rw [getCollectionLoop_error hline (collEntryOfLine_tag_only hc hsp htab)]
  rfl

/-- The lines of a command file, each ended by a newline, are the pieces the loop visits, and an
empty piece after the last newline. -/
theorem splitOn_lines {lines : List (List Char)} (h : ∀ l ∈ lines, '\n' ∉ l) :
    (lines.flatMap (· ++ ['\n'])).splitOn '\n' = lines ++ [[]] := by
  induction lines with
  | nil => rfl
  | cons l ls ih =>
    rw [List.flatMap_cons, List.append_assoc, List.singleton_append,
      List.splitOn_append_cons_self_of_not_mem (h l List.mem_cons_self),
      ih (fun m hm => h m (List.mem_cons_of_mem l hm))]
    rfl

/-- A command file of lines that each give their entry or nothing: the collection holds the entries
of the lines in file order, and `cnt` their number. -/
theorem getCollection_lines {lines : List (List Char)} (hlines : ∀ l ∈ lines, '\n' ∉ l)
    {o : List Char → Option CollEntry} (ho : ∀ l ∈ lines, collEntryOfLine l = .ok (o l))
    (ho0 : o [] = none) :
    getCollection (lines.flatMap (· ++ ['\n'])) [] =
      .ok ⟨(lines.filterMap o).length, lines.filterMap o⟩ := by
  have hall : ∀ a ∈ lines ++ [[]], collEntryOfLine a = .ok (o a) := by
    intro a ha
    rcases List.mem_append.1 ha with ha | ha
    · exact ho a ha
    · rw [List.mem_singleton.1 ha, ho0]
      rfl
  unfold getCollection
  rw [splitOn_lines hlines, getCollectionLoop_of_ok hall, List.filterMap_append]
  simp [ho0]

/-! ### The trailing arguments -/

section Strncat

variable {w s : List Char} {n : Int32}

theorem strncatWork_of_le (hn : (s.length : Int) ≤ n.toInt)
    (hfit : w.length + s.length < workstrSize) : strncatWork w s n = .ok (w ++ s) := by
  have hlt := n.toInt_lt
  have hm : min (n.toInt % 2 ^ 64).toNat s.length = s.length := by
    rw [Int.emod_eq_of_lt (by omega) (by omega)]
    omega
  rw [strncatWork, hm, if_pos hfit, List.take_length]

/-- A budget short of the text: `strncat` copies `n` bytes. -/
theorem strncatWork_of_lt (h0 : 0 ≤ n.toInt) (hn : n.toInt < s.length)
    (hfit : w.length + n.toInt < workstrSize) :
    strncatWork w s n = .ok (w ++ s.take n.toInt.toNat) := by
  have hlt := n.toInt_lt
  have hm : min (n.toInt % 2 ^ 64).toNat s.length = n.toInt.toNat := by
    rw [Int.emod_eq_of_lt h0 (by omega)]
    omega
  rw [strncatWork, hm, if_pos (by omega)]

/-- A negative budget is a huge `size_t`: `strncat` copies the whole text. -/
theorem strncatWork_of_neg (hn : n.toInt < 0) (hsrc : s.length < 2 ^ 32)
    (hw : workstrSize ≤ w.length + s.length) : strncatWork w s n = .error .workstrOverflow := by
  have hle := n.le_toInt
  have hm : min (n.toInt % 2 ^ 64).toNat s.length = s.length := by
    have : n.toInt % 2 ^ 64 = n.toInt + 2 ^ 64 := by
      rw [Int.emod_eq_iff (by norm_num)]
      omega
    rw [this]
    omega
  rw [strncatWork, hm, if_neg (by omega)]

theorem strncatWork_nil (hw : w.length < workstrSize) : strncatWork w [] n = .ok w := by
  rw [strncatWork]
  simp [hw]

end Strncat

/-- `workstr_left - strlen(arg)` stored back in the `int`, while it stays in its range. -/
theorem toInt_sub_ofNat {l : Int32} {k : Nat} (hk : k < 2 ^ 31) (h : -2 ^ 31 ≤ l.toInt - k) :
    (l - Int32.ofNat k).toInt = l.toInt - k := by
  have hlt := l.toInt_lt
  rw [Int32.toInt_sub, Int32.toInt_ofNat_of_lt hk]
  exact Int.bmod_eq_of_le (by omega) (by omega)

theorem toInt_sub_one {l : Int32} (h : -2 ^ 31 < l.toInt) : (l - 1).toInt = l.toInt - 1 :=
  toInt_sub_ofNat (k := 1) (by norm_num) (by omega)

/-- The bytes the arguments take in `workstr`, each with its space. -/
def argsLength (args : List (List Char)) : Nat :=
  (args.map fun a => a.length + 1).sum

theorem argsLength_nil : argsLength [] = 0 := rfl

theorem argsLength_cons (a : List Char) (args : List (List Char)) :
    argsLength (a :: args) = a.length + 1 + argsLength args := by
  simp only [argsLength, List.map_cons, List.sum_cons]

/-- The loop that joins the arguments, from any state whose budget and text fill `workstr[0..1022]`:
the arguments and their spaces fit, the last space maybe cut, exactly when they take at most one
byte more than the budget; otherwise a `strncat` writes past `workstr`. -/
theorem fillArgsLoop_spec {args : List (List Char)} (hargs : ∀ a ∈ args, a.length < 2 ^ 31)
    {work : List Char} {left : Int32} (hleft : left.toInt + work.length = 1023) (h0 : 0 ≤ left.toInt) :
    (argsLength args ≤ left.toInt + 1 →
      fillArgsLoop args work left = .ok ((work ++ args.flatMap (· ++ [' '])).take 1023)) ∧
    (left.toInt + 1 < argsLength args → fillArgsLoop args work left = .error .workstrOverflow) := by
  induction args generalizing work left with
  | nil =>
    refine ⟨fun _ => ?_, fun h => by rw [argsLength_nil] at h; omega⟩
    simp only [fillArgsLoop, List.flatMap_nil, List.append_nil]
    rw [List.take_of_length_le (by omega)]
  | cons a args ih =>
    have ha := hargs a List.mem_cons_self
    have ih' : ∀ {w : List Char} {l : Int32}, l.toInt + w.length = 1023 → 0 ≤ l.toInt →
        (argsLength args ≤ l.toInt + 1 →
          fillArgsLoop args w l = .ok ((w ++ args.flatMap (· ++ [' '])).take 1023)) ∧
        (l.toInt + 1 < argsLength args → fillArgsLoop args w l = .error .workstrOverflow) :=
      fun hl hl0 => ih (fun b hb => hargs b (List.mem_cons_of_mem a hb)) hl hl0
    rw [argsLength_cons]
    by_cases hfits : (a.length : Int) ≤ left.toInt
    · -- the argument fits: it is copied whole
      have h1 := strncatWork_of_le (w := work) (s := a) hfits (by rw [workstrSize]; omega)
      have hl1 := toInt_sub_ofNat (l := left) ha (by omega)
      have hwa : (work ++ a).length = work.length + a.length := List.length_append
      by_cases hsp : 1 ≤ left.toInt - a.length
      · -- and so does its space
        have h2 := strncatWork_of_le (w := work ++ a) (s := [' '])
          (n := left - Int32.ofNat a.length) (by rw [hl1]; simp only [List.length_singleton]; omega)
          (by simp only [List.length_singleton, workstrSize]; omega)
        have hl2 := toInt_sub_one (l := left - Int32.ofNat a.length) (by omega)
        obtain ⟨ihok, iherr⟩ := ih' (w := work ++ a ++ [' ']) (l := left - Int32.ofNat a.length - 1)
          (by simp only [List.length_append, List.length_singleton]; omega) (by omega)
        rw [fillArgsLoop]
        simp only [h1, h2, bind, Except.bind]
        refine ⟨fun h => ?_, fun h => iherr (by omega)⟩
        rw [ihok (by omega), List.flatMap_cons]
        simp only [List.append_assoc]
      · -- the budget is spent: the space is cut, and the budget becomes `-1`
        have h2 : strncatWork (work ++ a) [' '] (left - Int32.ofNat a.length) = .ok (work ++ a) := by
          have h := strncatWork_of_lt (w := work ++ a) (s := [' '])
            (n := left - Int32.ofNat a.length) (by omega)
            (by rw [hl1]; simp only [List.length_singleton]; omega)
            (by rw [hl1, workstrSize]; omega)
          rw [h, show (left - Int32.ofNat a.length).toInt.toNat = 0 by omega, List.take_zero,
            List.append_nil]
        have hl2 := toInt_sub_one (l := left - Int32.ofNat a.length) (by omega)
        rw [fillArgsLoop]
        simp only [h1, h2, bind, Except.bind]
        cases args with
        | nil =>
          refine ⟨fun _ => ?_, fun h => by rw [argsLength_nil] at h; omega⟩
          rw [fillArgsLoop, List.flatMap_cons, List.flatMap_nil, List.append_nil, ← List.append_assoc,
            List.take_append_of_le_length (by omega), List.take_of_length_le (by omega)]
        | cons b args =>
          -- a next argument, or its space, goes past the end
          refine ⟨fun h => by rw [argsLength_cons] at h; omega, fun _ => ?_⟩
          rw [fillArgsLoop]
          cases b with
          | nil =>
            have hl3 := toInt_sub_ofNat (l := left - Int32.ofNat a.length - 1)
              (k := ([] : List Char).length) (by simp) (by simp only [List.length_nil]; omega)
            simp only [strncatWork_nil (by rw [workstrSize]; omega : (work ++ a).length < workstrSize),
              bind, Except.bind]
            rw [strncatWork_of_neg (by omega) (by simp)
              (by simp only [List.length_singleton, workstrSize]; omega)]
          | cons x b =>
            have hb := hargs (x :: b) (by simp)
            rw [strncatWork_of_neg (by omega) (by omega)
              (by simp only [List.length_cons, workstrSize]; omega)]
            rfl
    · -- the argument does not fit: its first bytes fill `workstr`, and the budget goes negative
      have h1 := strncatWork_of_lt (w := work) (s := a) h0 (by omega) (by rw [workstrSize]; omega)
      have hl1 := toInt_sub_ofNat (l := left) ha (by omega)
      have hcut : (work ++ a.take left.toInt.toNat).length = 1023 := by
        simp only [List.length_append, List.length_take]
        omega
      refine ⟨fun h => by omega, fun _ => ?_⟩
      rw [fillArgsLoop]
      simp only [h1, bind, Except.bind]
      rw [strncatWork_of_neg (by omega) (by simp)
        (by simp only [hcut, List.length_singleton, workstrSize]; omega)]

/-- `get_collection` with trailing arguments: one more entry `cmdln` for them when they fit in
`workstr` with their spaces (the last one maybe cut), and a `strncat` past `workstr` otherwise. -/
theorem getCollection_args {file : List Char} {args : List (List Char)} {es : List CollEntry}
    {cnt : Nat} (hfile : getCollectionLoop (file.splitOn '\n') [] 0 = .ok (es, cnt))
    (hargs : ∀ a ∈ args, a.length < 2 ^ 31) (hne : args ≠ []) :
    (argsLength args ≤ 1024 → getCollection file args = .ok ⟨cnt + 1, es ++
      [⟨"cmdln".toList, markPcntF ((args.flatMap (· ++ [' '])).take 1023),
        (strstr ((args.flatMap (· ++ [' '])).take 1023) "%f".toList).isSome⟩]⟩) ∧
    (1024 < argsLength args → getCollection file args = .error .workstrOverflow) := by
  -- the loop starts from an empty `workstr` and the budget 1023
  obtain ⟨hok, herr⟩ := @fillArgsLoop_spec args hargs [] 1023 rfl (by decide)
  have h1023 : (1023 : Int32).toInt = 1023 := rfl
  unfold getCollection
  rw [hfile]
  simp only [bind, Except.bind, if_neg hne]
  constructor
  · intro h
    rw [hok (by omega)]
    rfl
  · intro h
    rw [herr (by omega)]

/-! ### The command line of a child -/

theorem nul_not_mem_pidAndCounter (pid counter : Int) : '\x00' ∉ pidAndCounter pid counter := by
  intro h
  rcases List.mem_append.1 (List.mem_of_mem_take h) with h | h
  · rcases mem_fmtInt h with h | h
    · cases h
    · cases h
  · rcases List.mem_cons.1 h with h | h
    · cases h
    · rcases mem_fmtInt h with h | h
      · cases h
      · cases h

theorem length_pidAndCounter_le (pid counter : Int) : (pidAndCounter pid counter).length ≤ 19 := by
  simp [pidAndCounter]

/-- A command line whose one `%` is the rewritten `%f`: the child runs it with `<pid>_<counter>` in
place of the `%s`. -/
theorem childCmdline_pcnt {name u w : List Char} (hu : '%' ∉ u) (hw : '%' ∉ w) (hu0 : '\x00' ∉ u)
    (hw0 : '\x00' ∉ w) (hlen : u.length + w.length ≤ 1000) (pid counter : Int) :
    childCmdline ⟨name, u ++ '%' :: 's' :: w, true⟩ pid counter =
      some (u ++ pidAndCounter pid counter ++ w) := by
  have hc : cstr (u ++ '%' :: 's' :: w) = u ++ '%' :: 's' :: w :=
    cstr_of_not_mem (by simp [hu0, hw0])
  have hpc := length_pidAndCounter_le pid counter
  simp only [childCmdline, substPcntF, snprintfS, Bool.not_true, Bool.false_eq_true, ↓reduceIte]
  rw [hc, formatS_append_of_not_mem hu, formatS_pct_s, formatS_of_not_mem hw,
    cstr_of_not_mem (nul_not_mem_pidAndCounter pid counter)]
  simp only [Option.map_some, List.append_assoc]
  rw [List.take_of_length_le (by simp; omega)]

/-- A line `tag rest` whose first `%f` follows a `%% ` gives one entry, that `%f` rewritten to
`%s`. -/
theorem getCollection_pct_pct_pcnt_f {t u w : List Char} (ht : t ≠ []) (hthead : t.head? ≠ some '#')
    (htsep : ∀ x ∈ t, x ∉ " \t\n%\x00".toList) (hu : ∀ x ∈ u, x ∉ "\n%\x00".toList)
    (hw : ∀ x ∈ w, x ∉ "\n%\x00".toList) :
    getCollection (t ++ ' ' :: (u ++ "%% %f".toList ++ w)) [] =
      .ok ⟨1, [⟨t, u ++ "%% %s".toList ++ w, true⟩]⟩ := by
  obtain ⟨c, t, rfl⟩ := List.exists_cons_of_ne_nil ht
  have hc : c ≠ '#' ∧ c ≠ '\x00' :=
    ⟨fun h => hthead (by simp [h]), fun h => htsep c List.mem_cons_self (by simp [h])⟩
  have hsep : ∀ x ∈ c :: t, x ∉ " \t".toList := fun x hx h => htsep x hx (by simp at h ⊢; tauto)
  have hpt : '%' ∉ c :: t := fun h => htsep '%' h (by simp)
  have hpu : '%' ∉ u := fun h => hu '%' h (by simp)
  have hline : c :: t ++ ' ' :: (u ++ "%% %f".toList ++ w) =
      c :: t ++ ' ' :: ((u ++ "%% ".toList) ++ '%' :: 'f' :: w) := by simp
  -- the first `%f` of the line is the one after `%% `
  have hstr : strstr (c :: t ++ ' ' :: (u ++ "%% ".toList) ++ '%' :: 'f' :: w) "%f".toList =
      some (t.length + 2 + (u ++ "%% ".toList).length) := by
    have hhead : '%' ∉ c :: t ++ ' ' :: u := by simp_all
    rw [show c :: t ++ ' ' :: (u ++ "%% ".toList) ++ '%' :: 'f' :: w =
      (c :: t ++ ' ' :: u) ++ '%' :: '%' :: ' ' :: (['%', 'f'] ++ w) by simp,
      show "%f".toList = ['%', 'f'] from rfl, strstr_append_of_head_not_mem hhead,
      strstr_cons_of_not_prefix rfl, strstr_cons_of_not_prefix rfl, strstr_cons_of_not_prefix rfl,
      strstr_self_append]
    simp
    omega
  have hentry := collEntryOfLine_split_pcnt hc hsep (d := ' ') (by simp) hstr
  have hnl : '\n' ∉ c :: t ++ ' ' :: (u ++ "%% %f".toList ++ w) := by
    have hnt : '\n' ∉ c :: t := fun h => htsep '\n' h (by simp)
    have hnu : '\n' ∉ u := fun h => hu '\n' h (by simp)
    have hnw : '\n' ∉ w := fun h => hw '\n' h (by simp)
    simp_all
  have hcmd : u ++ "%% ".toList ++ '%' :: 's' :: w = u ++ "%% %s".toList ++ w := by simp
  -- one line, one entry
  unfold getCollection
  rw [List.splitOn_eq_singleton hnl, getCollectionLoop, hline, hentry, hcmd]
  rfl

/-- The child of such an entry prints the `%%` as `%` and the `%s` as `<pid>_<counter>`. -/
theorem childCmdline_pct_pct {name u w : List Char} (hu : ∀ x ∈ u, x ∉ "\n%\x00".toList)
    (hw : ∀ x ∈ w, x ∉ "\n%\x00".toList) (hlen : u.length + w.length ≤ 1000) (pid counter : Int) :
    childCmdline ⟨name, u ++ "%% %s".toList ++ w, true⟩ pid counter =
      some (u ++ "% ".toList ++ pidAndCounter pid counter ++ w) := by
  have hpu : '%' ∉ u := fun h => hu '%' h (by simp)
  have hpw : '%' ∉ w := fun h => hw '%' h (by simp)
  have hcstr : cstr (u ++ "%% %s".toList ++ w) = u ++ "%% %s".toList ++ w := by
    apply cstr_of_not_mem
    have hnu : '\x00' ∉ u := fun h => hu '\x00' h (by simp)
    have hnw : '\x00' ∉ w := fun h => hw '\x00' h (by simp)
    simp_all
  have hpc := length_pidAndCounter_le pid counter
  simp only [childCmdline, substPcntF, snprintfS, Bool.not_true, Bool.false_eq_true, ↓reduceIte]
  rw [hcstr, show u ++ "%% %s".toList ++ w = u ++ '%' :: '%' :: ' ' :: '%' :: 's' :: w by simp,
    formatS_append_of_not_mem hpu, formatS_pct_pct, formatS_cons_of_ne (by decide), formatS_pct_s,
    formatS_of_not_mem hpw, cstr_of_not_mem (nul_not_mem_pidAndCounter pid counter)]
  simp only [Option.map_some, List.append_assoc]
  rw [List.take_of_length_le (by simp; omega)]
  rfl

theorem get_collection_pcnt_f_percent (t u w : List Char) (pid counter : Int) (ht : t ≠ [])
    (hthead : t.head? ≠ some '#') (htsep : ∀ x ∈ t, x ∉ " \t\n%\x00".toList)
    (hu : ∀ x ∈ u, x ∉ "\n%\x00".toList) (hw : ∀ x ∈ w, x ∉ "\n%\x00".toList)
    (hlen : u.length + w.length ≤ 1000) :
    getCollection (t ++ ' ' :: (u ++ "%% %f".toList ++ w)) [] =
      .ok ⟨1, [⟨t, u ++ "%% %s".toList ++ w, true⟩]⟩ ∧
    childCmdline ⟨t, u ++ "%% %s".toList ++ w, true⟩ pid counter =
      some (u ++ "% ".toList ++ pidAndCounter pid counter ++ w) :=
  ⟨getCollection_pct_pct_pcnt_f ht hthead htsep hu hw, childCmdline_pct_pct hu hw hlen pid counter⟩

theorem get_collection_pcnt_f_percent_echo :
    getCollection "t1 echo 100%% %f".toList [] =
      .ok ⟨1, [⟨"t1".toList, "echo 100%% %s".toList, true⟩]⟩ ∧
    childCmdline ⟨"t1".toList, "echo 100%% %s".toList, true⟩ 42 1 = some "echo 100% 42_1".toList := by
  have h := get_collection_pcnt_f_percent "t1".toList "echo 100".toList [] 42 1 (by decide)
    (by decide) (by simp) (by simp) (by simp) (by decide)
  have e1 : "t1".toList ++ ' ' :: ("echo 100".toList ++ "%% %f".toList ++ []) =
      "t1 echo 100%% %f".toList := by decide
  have e2 : "echo 100".toList ++ "%% %s".toList ++ [] = "echo 100%% %s".toList := by decide
  have e3 : "echo 100".toList ++ "% ".toList ++ pidAndCounter 42 1 ++ [] = "echo 100% 42_1".toList := by
    decide
  rw [e1, e2, e3] at h
  exact h

end Ltp
