import Ltp.Pan.Scan

/-!
# The rts report of `ltp-pan` as `ltp-scanner` reads it

With `-O dir` `pan` buffers the output of each test in a file, and once the test has ended
`check_pids` writes its block: `write_test_start` (the keywords `tag`, `stime`, `cmdline`,
`contacts` and `analysis` between `<<<test_start>>>` and `<<<test_output>>>`), the output
(`copy_buffered_output`, with a newline added when it does not end with one), and `write_test_end`
(`initiation_status`, `duration`, `termination_type`, `termination_id`, `corefile`, `cutime`,
`cstime` between `<<<execution_status>>>` and `<<<test_end>>>`).

`pan` writes `contacts=""`.  The quoted keyword rule of `scan.l` wants at least one character
between the quotes, so the line is a plain keyword and `contacts` is bound to the two quotes.  More
generally every value the scanner stores is the non-empty text a keyword rule matched, or a line
number:

* `scanAct_filled`: the action of every rule the scanner fires keeps the bindings non-empty;
* `scanner_tables_filled`: so no table handed to `test_end`, for any input, binds a key to the empty
  string;
* `pan_report_contacts_quotes`: `contacts` is never bound to the empty string; the block of a test
  that printed `hi` scans to one table with `contacts` bound to `""`; and a test with no output
  makes `copy_buffered_output` read the byte before its buffer.
-/

namespace Ltp

open CText Lex

/-! ### The writers of `ltp-pan` -/

/-- `write_test_start` with `reporttype` `rts`:
`"%s\ntag=%s stime=%ld\ncmdline=\"%s\"\ncontacts=\"%s\"\nanalysis=%s\n%s\n"` of the marker, the
tag, the start time, the command line, `""`, `"exit"` and `<<<test_output>>>`. -/
def writeTestStart (name cmdline : List Char) (mystime : Int) : List Char :=
  testStartMark ++ "\ntag=".toList ++ cstr name ++ " stime=".toList ++ fmtInt mystime ++
    "\ncmdline=\"".toList ++ cstr cmdline ++ "\"\ncontacts=\"".toList ++ "\"\nanalysis=".toList ++
    "exit".toList ++ ['\n'] ++ testOutputMark ++ ['\n']

/-- `write_test_end` with `reporttype` `rts`: the initiation status, the duration
`exit_time - mystime`, the termination type and id, `corefile` from bit `0200` of the wait status,
and the child CPU times `(int)(tms2 - tms1)`. -/
def writeTestEnd (initStatus : List Char) (duration : Int) (termType : List Char) (statLoc : Nat)
    (termId cutime cstime : Int) : List Char :=
  execStatusMark ++ "\ninitiation_status=\"".toList ++ cstr initStatus ++ "\"\nduration=".toList ++
    fmtInt duration ++ " termination_type=".toList ++ cstr termType ++ " termination_id=".toList ++
    fmtInt termId ++ " corefile=".toList ++
    (if statLoc.testBit 7 then "yes".toList else "no".toList) ++ "\ncutime=".toList ++
    fmtInt cutime ++ " cstime=".toList ++ fmtInt cstime ++ ['\n'] ++ testEndMark ++ ['\n']

/-- `copy_buffered_output`: the text `slurp` read (`none` when it failed, and nothing is printed),
with a newline added when its last character is not one.  The test reads
`tag_output[strlen(tag_output) - 1]`, the byte before the buffer when the output is empty: `none`. -/
def copyBufferedOutput (tagOutput : Option (List Char)) : Option (List Char) :=
  match tagOutput with
  | none => some []
  | some buf =>
    match (cstr buf).getLast? with
    | none => none
    | some c => some (cstr buf ++ if c = '\n' then [] else ['\n'])

/-- What `check_pids` writes for a test that ended, in buffered mode (`-O dir`): the start, the
buffered output and the end of its block, the first and the last left out with `-q`.  `t` is the
time it ended, `status` the termination type (`exited`, `signaled`, ... or `driver_interrupt`),
`w` the exit status or signal. -/
def checkPidsReport (quietMode : Bool) (name cmdline : List Char) (mystime t : Int)
    (status : List Char) (statLoc : Nat) (w cutime cstime : Int) (tagOutput : Option (List Char)) :
    Option (List Char) := do
  let start := if quietMode then [] else writeTestStart name cmdline mystime
  let out ← copyBufferedOutput tagOutput
  let fin := if quietMode then [] else
    writeTestEnd "ok".toList (t - mystime) status statLoc w cutime cstime
  pure (start ++ out ++ fin)

/-! ### What the scanner stores -/

/-- The tables the scanner handed to `test_end`. -/
def testEndTables (st : ScanState) : List KeyTable :=
  st.events.filterMap fun
    | .testEnd keys => some keys
    | _ => none

/-- Every binding of a table holds a non-empty text. -/
def KeysFilled (keys : KeyTable) : Prop :=
  ∀ kvs ∈ keys, ∀ kv ∈ kvs, kv.2 ≠ []

/-- The table being built and every table handed to `test_end` are filled. -/
def ScanFilled (st : ScanState) : Prop :=
  KeysFilled st.keys ∧ ∀ keys ∈ testEndTables st, KeysFilled keys

theorem keysFilled_keysPut {keys : KeyTable} (h : KeysFilled keys) (k : List Char)
    {v : List Char} (hv : v ≠ []) : KeysFilled (keysPut keys k v) := by
  intro kvs hkvs kv hkv
  cases keys with
  | none => cases hkvs
  | some kvs0 =>
    simp only [keysPut, Option.map_some, Option.mem_def, Option.some.injEq] at hkvs
    subst hkvs
    split at hkv
    · exact h kvs0 rfl kv hkv
    · rcases List.mem_append.1 hkv with hkv | hkv
      · exact h kvs0 rfl kv hkv
      · rw [List.mem_singleton] at hkv
        subst hkv
        exact hv

theorem fmtInt_ne_nil (n : Int) : fmtInt n ≠ [] := by
  obtain ⟨c, t, h, -⟩ := fmtInt_head n
  rw [h]
  exact List.cons_ne_nil c t

@[simp] theorem checkMode_keys (st : ScanState) (text : List Char) (expected : List ScanMode) :
    (checkMode st text expected).keys = st.keys := by
  unfold checkMode
  split <;> rfl

@[simp] theorem checkMode_line (st : ScanState) (text : List Char) (expected : List ScanMode) :
    (checkMode st text expected).line = st.line := by
  unfold checkMode
  split <;> rfl

/-- `check_mode` only reports `PARSE ERROR`s. -/
theorem testEndTables_checkMode (st : ScanState) (text : List Char) (expected : List ScanMode) :
    testEndTables (checkMode st text expected) = testEndTables st := by
  unfold checkMode testEndTables
  split
  · rfl
  · simp

/-- `cont = strchr(yytext, '=')` on a key without `=`. -/
theorem splitKeyword_append {k : List Char} (v : List Char) (hk : ∀ c ∈ k, c ≠ '=') :
    splitKeyword (k ++ '=' :: v) = (k, v) := by
  have hk' : ∀ c ∈ k, (c != '=') = true := fun c hc => by simpa using hk c hc
  simp [splitKeyword, List.takeWhile_append_of_pos hk', List.dropWhile_append_of_pos hk']

theorem unquote_quoted (x : List Char) : unquote ('"' :: x ++ ['"']) = x := by
  simp [unquote]

/-- The key of a keyword token holds no `=`. -/
theorem key_no_eq (s : List Char) : ∀ c ∈ s.take (spanLen isKeyName s), c ≠ '=' := by
  rw [take_spanLen]
  intro c hc heq
  have := List.mem_takeWhile_imp hc
  subst heq
  simp [isKeyName] at this

/-- The text `[a-zA-Z_-]+=[^\t \n]+` matched: a key, `=`, and a value that is not empty. -/
theorem keyword_value_ne_nil {s : List Char} {n : Nat} (h : greedyLen keywordPieces s = some n) :
    (splitKeyword (s.take n)).2 ≠ [] := by
  obtain ⟨m, -, h1, rfl⟩ := greedyLen_many_eq_some h
  obtain ⟨c, s', m', hs', hc, h2, rfl⟩ := greedyLen_one_eq_some h1
  obtain ⟨m'', hv, h3, rfl⟩ := greedyLen_many_eq_some h2
  rw [greedyLen_nil, Option.some.injEq] at h3
  subst h3
  have hc' : c = '=' := by simpa using hc
  subst hc'
  rw [List.take_add, hs', Nat.add_zero, Nat.add_comm, List.take_succ_cons,
    splitKeyword_append _ (key_no_eq s)]
  exact take_spanLen_ne_nil hv

/-- The text `[a-zA-Z_-]+=\"[^\"\n]+\"` matched: a key, `=`, and a value that is not empty
between the quotes. -/
theorem quoted_value_ne_nil {s : List Char} {n : Nat} (h : greedyLen quotedPieces s = some n) :
    unquote (splitKeyword (s.take n)).2 ≠ [] := by
  obtain ⟨m, -, h1, rfl⟩ := greedyLen_many_eq_some h
  obtain ⟨c, s', m', hs', hc, h2, rfl⟩ := greedyLen_one_eq_some h1
  obtain ⟨d, s'', m'', hs'', hd, h3, rfl⟩ := greedyLen_one_eq_some h2
  obtain ⟨j, hj, h4, rfl⟩ := greedyLen_many_eq_some h3
  obtain ⟨e, s''', m''', hs''', he, h5, rfl⟩ := greedyLen_one_eq_some h4
  rw [greedyLen_nil, Option.some.injEq] at h5
  subst h5
  have hc' : c = '=' := by simpa using hc
  have hd' : d = '"' := by simpa using hd
  have he' : e = '"' := by simpa using he
  subst hc' hd' he'
  -- the text is the key, `=`, the opening quote, the run inside and the closing quote
  have hrun : s''.take (spanLen (fun c => c != '"' && c != '\n') s'' + (1 + 0)) =
      s''.take (spanLen (fun c => c != '"' && c != '\n') s'') ++ ['"'] := by
    rw [List.take_add, hs''', Nat.add_zero]
    rfl
  rw [List.take_add, hs', Nat.add_comm 1, List.take_succ_cons, Nat.add_comm 1, hs'',
    List.take_succ_cons, hrun, splitKeyword_append _ (key_no_eq s), ← List.cons_append,
    unquote_quoted]
  exact take_spanLen_ne_nil hj

/-- The keyword rule is the only rule of any start condition that returns its token. -/
theorem len_of_tok_keyword (sc : StartCond) :
    ∀ r ∈ scanRules sc, r.tok = .keyword → r.len = keywordRule.len := by
  cases sc <;> simp [scanRules, markerRules, markerRule, quotedRule, keywordRule, keySpaceRule,
    textLineRule, anyCharRule, newlineRule]

theorem len_of_tok_quoted (sc : StartCond) :
    ∀ r ∈ scanRules sc, r.tok = .keywordQuoted → r.len = quotedRule.len := by
  cases sc <;> simp [scanRules, markerRules, markerRule, quotedRule, keywordRule, keySpaceRule,
    textLineRule, anyCharRule, newlineRule]

theorem some_of_getD_pos {n : Nat} {o : Option Nat} (h : o.getD 0 = n) (hn : 0 < n) : o = some n := by
  cases o with
  | none => simp at h; omega
  | some m => simpa using h

/-- A fired keyword token is what the keyword pattern matched. -/
theorem keyword_of_longest {sc : StartCond} {b : Bool} {s : List Char} {n : Nat}
    (h : longest (scanRules sc) b s = some (n, .keyword)) : greedyLen keywordPieces s = some n := by
  obtain ⟨r, hr, hlen, htok, hpos⟩ := mem_of_longest h
  rw [len_of_tok_keyword sc r hr htok] at hlen
  exact some_of_getD_pos hlen hpos

theorem quoted_of_longest {sc : StartCond} {b : Bool} {s : List Char} {n : Nat}
    (h : longest (scanRules sc) b s = some (n, .keywordQuoted)) :
    greedyLen quotedPieces s = some n := by
  obtain ⟨r, hr, hlen, htok, hpos⟩ := mem_of_longest h
  rw [len_of_tok_quoted sc r hr htok] at hlen
  exact some_of_getD_pos hlen hpos

/-- One token: the action of the fired rule keeps every binding non-empty. -/
theorem scanAct_filled {st : ScanState} {s : List Char} {n : Nat} {r : ScanRule}
    (h : ScanFilled st) (hl : longest (scanRules st.sc) st.bol s = some (n, r)) :
    ScanFilled (scanAct st r (s.take n)) := by
  -- moving `yylineno` and the start of line leaves the tables alone
  set st1 : ScanState := { st with
    line := st.line + (s.take n).count '\n', bol := (s.take n).getLast? = some '\n' }
  have h1 : ScanFilled st1 := h
  -- a marker only checks the mode, which hands nothing to `test_end`
  have htables : ∀ modes, ∀ keys ∈ testEndTables (checkMode st1 (s.take n) modes), KeysFilled keys := by
    intro modes
    rw [testEndTables_checkMode]
    exact h1.2
  unfold scanAct
  cases r with
  | rtsKeywordStart =>
    refine ⟨by simp [ruleAct, KeysFilled], ?_⟩
    exact htables [.outside]
  | rtsKeywordEnd =>
    refine ⟨by simp [ruleAct, KeysFilled], ?_⟩
    simp only [ruleAct, testEndTables, List.filterMap_append, List.filterMap_cons,
      List.filterMap_nil, List.append_nil]
    rw [← testEndTables]
    exact htables [.rtskey]
  | testStart =>
    refine ⟨?_, ?_⟩
    · simp [ruleAct, KeysFilled, fmtInt_ne_nil]
    · exact htables [.outside]
  | testOutput =>
    refine ⟨?_, ?_⟩
    · simpa [ruleAct] using h1.1
    · exact htables [.tstkey]
  | execStatus =>
    refine ⟨?_, ?_⟩
    · simpa [ruleAct] using h1.1
    · exact htables [.tstkey, .output]
  | testEnd =>
    -- `test_end` receives the table with `_End_line` added
    refine ⟨by simp [ruleAct, KeysFilled], ?_⟩
    simp only [ruleAct, testEndTables, List.filterMap_append, List.filterMap_cons,
      List.filterMap_nil]
    intro keys hk
    rcases List.mem_append.1 hk with hk | hk
    · rw [← testEndTables] at hk
      exact htables [.tstkey] keys hk
    · rw [List.mem_singleton] at hk
      subst hk
      exact keysFilled_keysPut (by simpa using h1.1) _ (fmtInt_ne_nil _)
  | keywordQuoted =>
    exact ⟨keysFilled_keysPut h1.1 _ (quoted_value_ne_nil (quoted_of_longest hl)), h1.2⟩
  | keyword =>
    exact ⟨keysFilled_keysPut h1.1 _ (keyword_value_ne_nil (keyword_of_longest hl)), h1.2⟩
  | keySpace | textLine | cutsResult | cutsResultR | anyChar | newline => exact h1

/-- For every input, no table the scanner hands to `test_end` binds a key to the empty
string. -/
theorem scanner_tables_filled (s : List Char) :
    ∀ keys ∈ testEndTables (scanner s), KeysFilled keys :=
  (run_induction ScanFilled (fun _ _ _ _ h hl => scanAct_filled h hl) s.length scanInit s
    ⟨by simp [scanInit, KeysFilled], by simp [scanInit, testEndTables]⟩).2

theorem keysGet_ne_nil {keys : KeyTable} (h : KeysFilled keys) (k : List Char) :
    keysGet keys k ≠ some [] := by
  cases keys with
  | none => simp [keysGet]
  | some kvs =>
    intro hget
    simp only [keysGet, Option.bind_some] at hget
    obtain ⟨kv, hkv, hnil⟩ := Option.map_eq_some_iff.1 hget
    exact h kvs rfl kv (List.mem_of_find?_eq_some hkv) hnil

/-- `ltp-scanner` never binds `contacts` to the empty string: the block `pan` writes for a test
that printed `hi` scans to one table, with `contacts` bound to `""`, and a test with no output makes
`copy_buffered_output` read before its buffer. -/
theorem pan_report_contacts_quotes :
    (∀ s : List Char, ∀ keys ∈ testEndTables (scanner s), keysGet keys "contacts".toList ≠ some []) ∧
      (checkPidsReport false "t1".toList "echo hi".toList 100 100 "exited".toList 0 0 0 0
          (some "hi\n".toList)).map
          (fun rep => (testEndTables (scanner rep)).map (keysGet · "contacts".toList)) =
        some [some ['"', '"']] ∧
      checkPidsReport false "t1".toList "echo hi".toList 100 100 "exited".toList 0 0 0 0
          (some []) = none := by
  refine ⟨fun s keys hk => keysGet_ne_nil (scanner_tables_filled s keys hk) _, ?_, rfl⟩
  decide +kernel

end Ltp
