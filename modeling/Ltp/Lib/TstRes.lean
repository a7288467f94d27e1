import Ltp.Lib.HexDump

/-!
# Condensed results of the old test library (`tst_res.c`)

An old-library test reports with `tst_resm(ttype, fmt, ...)` and `tst_brkm(ttype, cleanup, fmt,
...)`.  `tst_res__` puts `"file:line: "` before the message of every type but `TPASS` and `TINFO`,
ORs the type into `T_exitval`, reads `TOUTPUT` on its first call (`check_env`), and then:

* `TWARN` and `TINFO` go straight to `tst_print` with test number 0;
* the numbered types `TPASS`, `TFAIL`, `TBROK`, `TCONF` get number `tst_count + 1`; with
  `TOUTPUT=NOPASS` they go through `tst_condense`, which keeps one result buffered, drops a result
  equal to the buffered one (same `TCID`, type and message) and otherwise prints the buffered one
  and buffers the new one.

`tst_print` lets only `TFAIL`, `TBROK` and `TWARN` through in NOPASS mode; `tst_old_flush` (called
by `tst_exit`, `tst_fork` and `tst_vfork`) prints what is buffered.  `tst_brkm` without a cleanup
function reports its result, adds `"Remaining cases broken"` (TBROK) or `"Remaining cases not
appropriate for configuration"` (TCONF), and calls `tst_exit`.

The model takes the text each format expands to as the message, and stdout as the list of lines
handed to stdio.  A line that does not fit `message[USERMESG]` makes `tst_print` complain and
`abort()`; an empty message fails the assertion of `EXPAND_VAR_ARGS`.  Both halt the process, and
after that nothing runs.

* `Condenser`: what NOPASS mode keeps of the globals, one step per result handed to `tst_res__`.
  `NopassRel` says the globals hold what the condenser has; every function keeps it
  (`nopassRel_tstResBody`, `tstCall_brkm_nopass`), and so does a whole sequence of calls
  (`flush_runCalls`).
* `condenser_stream`: the output of a stream of results cut into maximal runs (`ResRun`;
  `exists_resRuns` cuts every stream).  The line of a TFAIL or TBROK run carries the number of its
  first element but is printed when the run ends, after the TWARN lines that come before the next
  different numbered result.
* `tst_res_nopass_condensed`: the lines of every sequence of calls under `TOUTPUT=NOPASS`, once
  `tst_old_flush` or `tst_exit` has run; `tst_res_nopass_warn_before_fail`: a TFAIL followed by a
  TWARN prints the warning first.
-/

namespace Ltp

open CText

/-! ### Result types -/

/-- The result types of `tst_res_flags.h`, as `TTYPE_RESULT` leaves them. -/
inductive TType
  | pass
  | fail
  | brok
  | warn
  | info
  | conf
  deriving DecidableEq, Repr

/-- `TPASS` ... `TCONF`. -/
def TType.val : TType → Nat
  | .pass => 0
  | .fail => 1
  | .brok => 2
  | .warn => 4
  | .info => 16
  | .conf => 32

/-- `strttype`. -/
def TType.name : TType → List Char
  | .pass => ['T', 'P', 'A', 'S', 'S']
  | .fail => ['T', 'F', 'A', 'I', 'L']
  | .brok => ['T', 'B', 'R', 'O', 'K']
  | .warn => ['T', 'W', 'A', 'R', 'N']
  | .info => ['T', 'I', 'N', 'F', 'O']
  | .conf => ['T', 'C', 'O', 'N', 'F']

/-- `"\033[1;3Xm"`, the bold ANSI colours of `tst_ansi_color.h`. -/
def ansiColor (c : Char) : List Char :=
  ['\x1b', '[', '1', ';', '3', c, 'm']

/-- `ANSI_COLOR_RESET`. -/
def ansiColorReset : List Char :=
  ['\x1b', '[', '0', 'm']

/-- `tst_ttype2color`. -/
def TType.color : TType → List Char
  | .pass => ansiColor '2'
  | .fail => ansiColor '1'
  | .brok => ansiColor '1'
  | .conf => ansiColor '3'
  | .warn => ansiColor '5'
  | .info => ansiColor '4'

/-! ### The environment and the globals -/

/-- `T_mode`. -/
inductive TMode
  | verbose
  | nopass
  | discard
  deriving DecidableEq, Repr

/-- `TOUT_NOPASS_S`. -/
def toutNopassS : List Char := ['N', 'O', 'P', 'A', 'S', 'S']

/-- `TOUT_DISCARD_S`. -/
def toutDiscardS : List Char := ['D', 'I', 'S', 'C', 'A', 'R', 'D']

/-- The mode `check_env` sets from `getenv("TOUTPUT")`. -/
def modeOfEnv : Option (List Char) → TMode
  | none => .verbose
  | some v =>
    if cstr v = toutNopassS then .nopass else if cstr v = toutDiscardS then .discard else .verbose

/-- What the library reads from outside: `TCID`, `getenv("TOUTPUT")`,
`getenv("LTP_COLORIZE_OUTPUT")` and `isatty(STDOUT_FILENO)`. -/
structure TstResEnv where
  tcid : List Char
  toutput : Option (List Char)
  colorize : Option (List Char)
  stdoutTty : Bool

/-- `tst_color_enabled(STDOUT_FILENO)`.  A value of `LTP_COLORIZE_OUTPUT` other than `n`, `0`,
`y`, `1` leaves the static `color` at 0, and the function returns `color - 1 = -1`, which is
true. -/
def tstColorEnabled (env : TstResEnv) : Bool :=
  match env.colorize with
  | some v => !(cstr v == ['n'] || cstr v == ['0'])
  | none => env.stdoutTty

/-- The buffered result of `tst_condense`: `Last_tcid`, `Last_num`, `Last_type`, `Last_mesg`. -/
structure LastResult where
  tcid : List Char
  num : Int
  ttype : TType
  mesg : List Char
  deriving DecidableEq, Repr

/-- How the process ended: `exit(T_exitval)` or `abort()`. -/
inductive Halt
  | exit (code : Nat)
  | abort
  deriving DecidableEq, Repr

/-- The globals of `tst_res.c` and the lines written to stdout.  `Buffered` is
`buffered.isSome`, and `first_time` of `check_env` is `!envChecked`. -/
structure TstResState where
  mode : TMode
  envChecked : Bool
  exitval : Nat
  passedCnt : Nat
  count : Int
  buffered : Option LastResult
  stdout : List (List Char)
  halt : Option Halt
  deriving DecidableEq, Repr

/-- The globals at program start. -/
def tstResInit : TstResState :=
  ⟨.verbose, false, 0, 0, 0, none, [], none⟩

/-! ### `tst_print` -/

/-- `"%-*s"`: `s` left-justified in a field of at least `w` characters. -/
def fmtStrPad (w : Nat) (s : List Char) : List Char :=
  cstr s ++ List.replicate (w - (cstr s).length) ' '

/-- The start of a line: `"%-8s %4d  "` in VERBOSE mode, `"%-8s %4d       "` otherwise. -/
def printHead (mode : TMode) (tcid : List Char) (tnum : Int) : List Char :=
  fmtStrPad 8 tcid ++ ' ' :: fmtIntWidth 4 tnum ++
    List.replicate (if mode = .verbose then 2 else 7) ' '

/-- The line `tst_print` builds for a result without `TERRNO`, `TTERRNO`, `TRERRNO`, less its
`'\n'`. -/
def printLine (mode : TMode) (color : Bool) (tcid : List Char) (tnum : Int) (t : TType)
    (tmesg : List Char) : List Char :=
  printHead mode tcid tnum ++ (if color then t.color ++ t.name ++ ansiColorReset else t.name) ++
    [' ', ' ', ':', ' ', ' '] ++ cstr tmesg

/-- `printf("%s: %i: line too long\n", __func__, __LINE__)`. -/
def lineTooLong (lineno : Nat) : List Char :=
  "tst_print: ".toList ++ fmtInt lineno ++ ": line too long".toList

/-- `tst_print(tcid, tnum, ttype, tmesg)`: the type goes into `T_exitval`, the mode filters,
and a line that does not fit `message[USERMESG]` with its `'\n'` ends the process.  The checks of
lines 333 and 345 follow appends that a result without errno flags does not make. -/
def tstPrint (env : TstResEnv) (st : TstResState) (tcid : List Char) (tnum : Int) (t : TType)
    (tmesg : List Char) : TstResState :=
  if st.halt.isSome then st
  else
    let st := { st with exitval := st.exitval ||| t.val }
    if st.mode = .discard ∨ (st.mode = .nopass ∧ t ≠ .fail ∧ t ≠ .brok ∧ t ≠ .warn) then st
    else if usermesg ≤ (printHead st.mode tcid tnum).length then
      { st with stdout := st.stdout ++ [lineTooLong 310], halt := some .abort }
    else if usermesg ≤ (printLine st.mode (tstColorEnabled env) tcid tnum t tmesg).length + 1 then
      -- `size >= sizeof(message)` at line 322, or `size + 1 >= sizeof(message)` at line 357
      { st with
        stdout := st.stdout ++ [lineTooLong
          (if usermesg ≤ (printLine st.mode (tstColorEnabled env) tcid tnum t tmesg).length
            then 322 else 357)],
        halt := some .abort }
    else { st with stdout := st.stdout ++ [printLine st.mode (tstColorEnabled env) tcid tnum t tmesg] }

/-! ### `tst_res__`, `tst_condense`, `tst_old_flush`, `tst_exit`, `tst_brk__` -/

/-- `check_env`: the first call sets `T_mode` from `TOUTPUT`. -/
def checkEnv (env : TstResEnv) (st : TstResState) : TstResState :=
  if st.envChecked then st else { st with envChecked := true, mode := modeOfEnv env.toutput }

/-- `tst_condense(tnum, ttype, tmesg)`: a result equal to the buffered one is dropped; otherwise
the buffered one is printed and the new one buffered in its place. -/
def tstCondense (env : TstResEnv) (st : TstResState) (tnum : Int) (t : TType)
    (tmesg : List Char) : TstResState :=
  let next : LastResult := ⟨cstr env.tcid, tnum, t, cstr tmesg⟩
  match st.buffered with
  | some last =>
    if last.tcid = cstr env.tcid ∧ last.ttype = t ∧ last.mesg = cstr tmesg then st
    else { tstPrint env st last.tcid last.num last.ttype last.mesg with buffered := some next }
  | none => { st with buffered := some next }

/-- `"tst_res(): tst_count < 0 is not valid"`. -/
def tstCountWarn : List Char :=
  "tst_res(): tst_count < 0 is not valid".toList

/-- `tst_res__` once `tmesg` is formatted. -/
def tstResBody (env : TstResEnv) (st : TstResState) (t : TType) (tmesg : List Char) :
    TstResState :=
  let st := { st with
    exitval := st.exitval ||| t.val
    passedCnt := if t = .pass then st.passedCnt + 1 else st.passedCnt }
  let st := checkEnv env st
  if t = .warn ∨ t = .info then tstPrint env st env.tcid 0 t tmesg
  else
    let st := if st.count < 0 then tstPrint env st env.tcid 0 .warn tstCountWarn else st
    let st := match st.mode with
      | .discard => st
      | .nopass => tstCondense env st (st.count + 1) t tmesg
      | .verbose => tstPrint env st env.tcid (st.count + 1) t tmesg
    { st with count := st.count + 1 }

/-- The `"%s:%d: "` that `tst_res__` writes before the message of every type but `TPASS` and
`TINFO` when it has a file. -/
def resPrefix (file : Option (List Char)) (lineno : Int) (t : TType) : List Char :=
  match file with
  | some f => if t ≠ .pass ∧ t ≠ .info then cstr f ++ ':' :: fmtInt lineno ++ [':', ' '] else []
  | none => []

/-- The `tmesg` of `tst_res__(file, lineno, ttype, "%s", msg)`: the prefix, then as much of the
message as `vsnprintf` writes into the rest of `tmesg[USERMESG]`. -/
def resMesg (file : Option (List Char)) (lineno : Int) (t : TType) (msg : List Char) :
    List Char :=
  resPrefix file lineno t ++ (cstr msg).take (usermesg - 1 - (resPrefix file lineno t).length)

/-- `tst_res__(file, lineno, ttype, "%s", msg)`.  `EXPAND_VAR_ARGS` asserts that it wrote a
non-empty message after the prefix; a prefix that fills `tmesg` (which `sprintf` would already
overflow) fails it too. -/
def tstResInner (env : TstResEnv) (st : TstResState) (file : Option (List Char)) (lineno : Int)
    (t : TType) (msg : List Char) : TstResState :=
  if st.halt.isSome then st
  else if (cstr msg).take (usermesg - 1 - (resPrefix file lineno t).length) = [] then
    { st with halt := some .abort }
  else tstResBody env st t (resMesg file lineno t msg)

/-- `tst_old_flush`: print the buffered result in NOPASS mode. -/
def tstOldFlush (env : TstResEnv) (st : TstResState) : TstResState :=
  if st.halt.isSome then st
  else
    match st.buffered with
    | some last =>
      if st.mode = .nopass then
        { tstPrint env st last.tcid last.num last.ttype last.mesg with buffered := none }
      else st
    | none => st

/-- `v &= ~flag` for a flag bit. -/
def clearFlag (v flag : Nat) : Nat :=
  v - (v &&& flag)

/-- `tst_exit`: flush, drop `TINFO` from the exit value and `TCONF` when a test passed. -/
def tstExit (env : TstResEnv) (st : TstResState) : TstResState :=
  let st := tstOldFlush env st
  if st.halt.isSome then st
  else
    let v := clearFlag st.exitval TType.info.val
    let v := if v = TType.conf.val ∧ st.passedCnt ≠ 0 then clearFlag v TType.conf.val else v
    { st with halt := some (.exit v) }

/-- The types `tst_brk__` accepts. -/
def brkSupported (t : TType) : Bool :=
  t = .fail || t = .brok || t = .conf

/-- The type `tst_brk__` reports: its own, or `TBROK` for a type it does not accept. -/
def brkType (t : TType) : TType :=
  if brkSupported t then t else .brok

/-- `"tst_brk__: Invalid Type: %d. Using TBROK"`. -/
def brkInvalidMesg (t : TType) : List Char :=
  "tst_brk__: Invalid Type: ".toList ++ fmtInt t.val ++ ". Using TBROK".toList

/-- `"Remaining cases not appropriate for configuration"`. -/
def remainingConf : List Char :=
  "Remaining cases not appropriate for configuration".toList

/-- `"Remaining cases broken"`. -/
def remainingBroken : List Char :=
  "Remaining cases broken".toList

/-- The extra result `tst_brk__` reports after a `TCONF` or `TBROK` one. -/
def brkRemaining : TType → Option (TType × List Char)
  | .conf => some (.conf, remainingConf)
  | .brok => some (.brok, remainingBroken)
  | _ => none

/-- The complaint of `tst_brk__` about a type it does not accept. -/
def tstBrkComplain (env : TstResEnv) (st : TstResState) (t : TType) : TstResState :=
  if brkSupported t then st else tstPrint env st env.tcid 0 .warn (brkInvalidMesg t)

/-- The remaining-cases result of `tst_brk__`, reported when `tst_brk_entered` is 0. -/
def tstBrkRemaining (env : TstResEnv) (st : TstResState) (file : Option (List Char))
    (lineno : Int) (t : TType) : TstResState :=
  match brkRemaining t with
  | some (t', m) => tstResInner env st file lineno t' m
  | none => st

/-- `tst_brk__(file, lineno, ttype, NULL, "%s", msg)`: with no cleanup function
`tst_brk_entered` stays 0, so the remaining-cases result is reported and `tst_exit` runs. -/
def tstBrkInner (env : TstResEnv) (st : TstResState) (file : Option (List Char)) (lineno : Int)
    (t : TType) (msg : List Char) : TstResState :=
  if st.halt.isSome then st
  else if cstr msg = [] then { st with halt := some .abort }
  else
    let tmesg := (cstr msg).take (usermesg - 1)
    let st := tstResInner env (tstBrkComplain env st t) file lineno (brkType t) tmesg
    tstExit env (tstBrkRemaining env st file lineno t)

/-- A call of the old API with the file and line the macros pass, and the text its format expands
to; `tst_brkm` without a cleanup function. -/
inductive TstCall
  | resm (ttype : TType) (file : Option (List Char)) (lineno : Int) (msg : List Char)
  | brkm (ttype : TType) (file : Option (List Char)) (lineno : Int) (msg : List Char)
  deriving DecidableEq, Repr

/-- `tst_resm_` and `tst_brkm_` of a test of the old library (`tst_test == NULL`): they expand the
message into `tmesg[USERMESG]` and pass it on with `"%s"`.  Their own assertion fails exactly
when the one of `tst_res__` or `tst_brk__` does. -/
def tstCall (env : TstResEnv) (st : TstResState) : TstCall → TstResState
  | .resm t file lineno msg => tstResInner env st file lineno t ((cstr msg).take (usermesg - 1))
  | .brkm t file lineno msg => tstBrkInner env st file lineno t ((cstr msg).take (usermesg - 1))

/-- A sequence of calls from a given state. -/
def runCalls (env : TstResEnv) (st : TstResState) (calls : List TstCall) : TstResState :=
  calls.foldl (tstCall env) st

/-! ### NOPASS mode over a stream of results -/

/-- A result as `tst_res__` hands it on: its type and `tmesg`. -/
structure ResEvent where
  ttype : TType
  mesg : List Char
  deriving DecidableEq, Repr

/-- `TWARN` and `TINFO` results bypass the buffer. -/
def ResEvent.isDirect (e : ResEvent) : Bool :=
  e.ttype = .warn || e.ttype = .info

theorem ResEvent.isDirect_iff {e : ResEvent} : e.isDirect = true ↔ e.ttype = .warn ∨ e.ttype = .info := by
  simp [ResEvent.isDirect]

/-- A result that goes through the buffer is not a warning. -/
theorem ResEvent.ttype_ne_warn {e : ResEvent} (hd : e.isDirect = false) : e.ttype ≠ .warn := by
  intro hw
  simp [ResEvent.isDirect, hw] at hd

/-- The NOPASS line of a result numbered `tnum`. -/
def nopassLine (env : TstResEnv) (tnum : Int) (e : ResEvent) : List Char :=
  printLine .nopass (tstColorEnabled env) env.tcid tnum e.ttype e.mesg

/-- The line of a buffered result with its number: only `TFAIL` and `TBROK` get through. -/
def pendingLine (env : TstResEnv) : Option (ResEvent × Int) → List (List Char)
  | some (e, k) => if e.ttype = .fail ∨ e.ttype = .brok then [nopassLine env k e] else []
  | none => []

/-- What NOPASS mode keeps of the globals: the buffered result with its number, `tst_count`,
and the lines printed. -/
structure Condenser where
  pending : Option (ResEvent × Int)
  count : Int
  out : List (List Char)

/-- One result handed to `tst_res__` in NOPASS mode. -/
def Condenser.step (env : TstResEnv) (c : Condenser) (e : ResEvent) : Condenser :=
  if e.ttype = .warn then { c with out := c.out ++ [nopassLine env 0 e] }
  else if e.ttype = .info then c
  else if c.pending.map Prod.fst = some e then { c with count := c.count + 1 }
  else ⟨some (e, c.count + 1), c.count + 1, c.out ++ pendingLine env c.pending⟩

/-- A stream of results. -/
def Condenser.run (env : TstResEnv) (c : Condenser) (es : List ResEvent) : Condenser :=
  es.foldl (Condenser.step env) c

/-- The lines once `tst_old_flush` has printed the buffered result. -/
def Condenser.flush (env : TstResEnv) (c : Condenser) : List (List Char) :=
  c.out ++ pendingLine env c.pending

/-- The condenser of a process that has not reported yet. -/
def Condenser.init : Condenser :=
  ⟨none, 0, []⟩

/-- A run of results: a numbered result, and what follows its first element up to the next run,
repeats of it and `TWARN`/`TINFO` results. -/
structure ResRun where
  res : ResEvent
  rest : List ResEvent

/-- The results of a run, in order. -/
def ResRun.events (r : ResRun) : List ResEvent :=
  r.res :: r.rest

/-- A run holds one numbered result, repeated between direct ones. -/
def ResRun.WF (r : ResRun) : Prop :=
  r.res.isDirect = false ∧ ∀ e ∈ r.rest, e.isDirect = true ∨ e = r.res

/-- Runs that are maximal: each is well formed and the next one holds another result. -/
def RunsWF : List ResRun → Prop
  | [] => True
  | r :: rs => r.WF ∧ (∀ r' ∈ rs.head?, r'.res ≠ r.res) ∧ RunsWF rs

/-- The numbered results of a run. -/
def ResRun.numbered (r : ResRun) : Nat :=
  r.rest.countP (fun e => !e.isDirect) + 1

/-- The lines of the `TWARN` results among `es`, all numbered 0. -/
def warnLines (env : TstResEnv) (es : List ResEvent) : List (List Char) :=
  (es.filter fun e => e.ttype = .warn).map (nopassLine env 0)

/-- The NOPASS output of a sequence of runs whose first is numbered `tnum`: the `TWARN` lines
inside each run, then the run's own line with the number of its first element. -/
def condensedLines (env : TstResEnv) : Int → List ResRun → List (List Char)
  | _, [] => []
  | tnum, r :: rs =>
    warnLines env r.rest ++ pendingLine env (some (r.res, tnum)) ++
      condensedLines env (tnum + r.numbered) rs

section Condenser

variable {env : TstResEnv}

@[simp] theorem Condenser.run_nil (c : Condenser) : c.run env [] = c := rfl

@[simp] theorem Condenser.run_cons (c : Condenser) (e : ResEvent) (es : List ResEvent) :
    c.run env (e :: es) = (c.step env e).run env es := rfl

theorem Condenser.run_append (c : Condenser) (es es' : List ResEvent) :
    c.run env (es ++ es') = (c.run env es).run env es' :=
  List.foldl_append

@[simp] theorem warnLines_nil : warnLines env [] = [] := rfl

theorem warnLines_cons (e : ResEvent) (es : List ResEvent) :
    warnLines env (e :: es) =
      (if e.ttype = .warn then [nopassLine env 0 e] else []) ++ warnLines env es := by
  unfold warnLines
  by_cases h : e.ttype = .warn <;> simp [h]

/-- A direct result, or a repeat of the buffered one, adds its `TWARN` line and counts. -/
theorem Condenser.step_repeat (c : Condenser) {e : ResEvent}
    (he : e.isDirect = true ∨ c.pending.map Prod.fst = some e) :
    c.step env e = { c with
      count := c.count + (if e.isDirect then 0 else 1)
      out := c.out ++ warnLines env [e] } := by
  rw [warnLines_cons]
  unfold Condenser.step ResEvent.isDirect at *
  by_cases hw : e.ttype = .warn
  · simp [hw]
  · by_cases hi : e.ttype = .info
    · simp [hi]
    · have hp : c.pending.map Prod.fst = some e := by simpa [hw, hi] using he
      simp [hw, hi, hp, warnLines]

/-- A result that differs from the buffered one prints it and takes its place. -/
theorem Condenser.step_new (c : Condenser) {e : ResEvent} (hd : e.isDirect = false)
    (hne : c.pending.map Prod.fst ≠ some e) :
    c.step env e = ⟨some (e, c.count + 1), c.count + 1, c.out ++ pendingLine env c.pending⟩ := by
  unfold ResEvent.isDirect at hd
  have hw : e.ttype ≠ .warn := by
    intro h
    simp [h] at hd
  have hi : e.ttype ≠ .info := by
    intro h
    simp [h] at hd
  simp [Condenser.step, hw, hi, hne]

/-- Over direct results and repeats of the buffered one, only `TWARN` lines are added and the
repeats are counted. -/
theorem Condenser.run_repeats (c : Condenser) {es : List ResEvent}
    (hes : ∀ e ∈ es, e.isDirect = true ∨ c.pending.map Prod.fst = some e) :
    c.run env es = { c with
      count := c.count + es.countP (fun e => !e.isDirect)
      out := c.out ++ warnLines env es } := by
  induction es generalizing c with
  | nil => simp [warnLines]
  | cons e es ih =>
    have he := hes e List.mem_cons_self
    rw [Condenser.run_cons, c.step_repeat he, ih]
    · rw [List.countP_cons]
      -- a repeat is counted, a direct result is not
      cases hd : e.isDirect
      · simp [warnLines_cons e es, warnLines_cons e []]
        omega
      · simp [warnLines_cons e es, warnLines_cons e []]
    · intro e' he'
      exact hes e' (List.mem_cons_of_mem e he')

/-- The output of maximal runs after a buffered result that differs from the first of them. -/
theorem condenser_runs (c : Condenser) {runs : List ResRun} (hruns : RunsWF runs)
    (hfirst : ∀ r ∈ runs.head?, c.pending.map Prod.fst ≠ some r.res) :
    (c.run env (runs.flatMap ResRun.events)).flush env =
      c.out ++ pendingLine env c.pending ++ condensedLines env (c.count + 1) runs := by
  induction runs generalizing c with
  | nil => simp [Condenser.flush, condensedLines]
  | cons r rs ih =>
    obtain ⟨⟨hd, hrest⟩, hnext, hrs⟩ := hruns
    -- the first element of `r` prints what was buffered, the rest of `r` only adds TWARN lines
    have hnew := @Condenser.step_new env c r.res hd (hfirst r rfl)
    have hmid := @Condenser.run_repeats env (c.step env r.res) r.rest (by
      intro e he
      rw [hnew]
      rcases hrest e he with h | h
      · exact .inl h
      · exact .inr (by simp [h]))
    rw [List.flatMap_cons, ResRun.events, Condenser.run_append, Condenser.run_cons, hmid, hnew]
    rw [ih _ hrs (fun r' hr' => by simpa using (hnext r' hr').symm)]
    simp only [condensedLines, ResRun.numbered, List.append_assoc, Nat.cast_add, Nat.cast_one,
      Int.add_assoc]

/-- The NOPASS output of a stream of results cut into direct results and maximal runs. -/
theorem condenser_stream {pre : List ResEvent} {runs : List ResRun}
    (hpre : ∀ e ∈ pre, e.isDirect = true) (hruns : RunsWF runs) :
    (Condenser.init.run env (pre ++ runs.flatMap ResRun.events)).flush env =
      warnLines env pre ++ condensedLines env 1 runs := by
  have hcount : pre.countP (fun e => !e.isDirect) = 0 :=
    List.countP_eq_zero.2 (fun e he => by simp [hpre e he])
  rw [Condenser.run_append, Condenser.init.run_repeats (fun e he => .inl (hpre e he)),
    condenser_runs _ hruns (fun r _ => by simp [Condenser.init])]
  simp [Condenser.init, pendingLine, hcount]

end Condenser

/-! ### Calls as streams of results -/

/-- The complaint of `tst_brk__` about a type it does not accept, as a result: it goes to
`tst_print` as a `TWARN` with number 0, as a `TWARN` result does. -/
def brkComplaint (t : TType) : List ResEvent :=
  if brkSupported t then [] else [⟨.warn, brkInvalidMesg t⟩]

/-- The remaining-cases result of `tst_brk__`. -/
def brkRemainingEvents (file : Option (List Char)) (lineno : Int) (t : TType) : List ResEvent :=
  match brkRemaining t with
  | some (t', m) => [⟨t', resMesg file lineno t' m⟩]
  | none => []

/-- The results a call hands on. -/
def callEvents : TstCall → List ResEvent
  | .resm t file lineno msg => [⟨t, resMesg file lineno t ((cstr msg).take (usermesg - 1))⟩]
  | .brkm t file lineno msg =>
    brkComplaint t ++
      ⟨brkType t, resMesg file lineno (brkType t) ((cstr msg).take (usermesg - 1))⟩ ::
        brkRemainingEvents file lineno t

/-- `tst_brkm` ends the process. -/
def TstCall.exits : TstCall → Bool
  | .resm .. => false
  | .brkm .. => true

/-- The results of a sequence of calls, up to the first `tst_brkm`. -/
def callsEvents : List TstCall → List ResEvent
  | [] => []
  | c :: cs => callEvents c ++ if c.exits then [] else callsEvents cs

/-- A call whose assertions hold: its message is not empty, and there is room for it after the
place of the call. -/
def TstCall.Accepted : TstCall → Prop
  | .resm t file lineno msg => cstr msg ≠ [] ∧ (resPrefix file lineno t).length + 1 < usermesg
  | .brkm t file lineno msg =>
    cstr msg ≠ [] ∧ (resPrefix file lineno (brkType t)).length + 1 < usermesg

/-- A call that reaches `check_env` before it prints anything: all but a `tst_brkm` of a type
`tst_brk__` does not accept, which complains first. -/
def TstCall.readsEnvFirst : TstCall → Bool
  | .resm .. => true
  | .brkm t .. => brkSupported t

/-- A line `tst_print` prints with its `'\n'` inside `message[USERMESG]`. -/
def LineFits (l : List Char) : Prop :=
  l.length + 1 < usermesg

/-- The globals once `check_env` has read `TOUTPUT=NOPASS`, before any result. -/
def nopassStart : TstResState :=
  { tstResInit with mode := .nopass, envChecked := true }

/-- The globals of a running NOPASS process hold what the condenser has: `tst_count`, the
buffered result (numbered, with `TCID` as `strcpy` copies it) and the lines printed. -/
structure NopassRel (env : TstResEnv) (st : TstResState) (c : Condenser) : Prop where
  mode : st.mode = .nopass
  checked : st.envChecked = true
  running : st.halt = none
  count : st.count = c.count
  count_nonneg : 0 ≤ c.count
  buffered : st.buffered = c.pending.map fun p => ⟨cstr env.tcid, p.2, p.1.ttype, p.1.mesg⟩
  pending_numbered : ∀ p ∈ c.pending, p.1.isDirect = false
  stdout : st.stdout = c.out

section Simulation

variable {env : TstResEnv}

theorem cstr_cstr (s : List Char) : cstr (cstr s) = cstr s :=
  cstr_of_not_mem fun h => (mem_cstr h).2 rfl

theorem printLine_cstr (mode : TMode) (color : Bool) (tcid : List Char) (tnum : Int) (t : TType)
    (tmesg : List Char) :
    printLine mode color (cstr tcid) tnum t tmesg = printLine mode color tcid tnum t tmesg := by
  simp [printLine, printHead, fmtStrPad, cstr_cstr]

theorem printHead_length_le (mode : TMode) (color : Bool) (tcid : List Char) (tnum : Int)
    (t : TType) (tmesg : List Char) :
    (printHead mode tcid tnum).length ≤ (printLine mode color tcid tnum t tmesg).length := by
  simp only [printLine, List.length_append]
  omega

theorem nul_not_mem_resPrefix (file : Option (List Char)) (lineno : Int) (t : TType) :
    '\x00' ∉ resPrefix file lineno t := by
  intro h
  unfold resPrefix at h
  split at h
  · split at h
    · simp only [List.mem_append, List.mem_cons] at h
      rcases h with (h | h | h) | h | h
      · exact (mem_cstr h).2 rfl
      · exact absurd h (by decide)
      · rcases mem_fmtInt h with h' | h' <;> simp_all
      · exact absurd h (by decide)
      · exact absurd h (by decide)
    · simp at h
  · simp at h

theorem nul_not_mem_resMesg (file : Option (List Char)) (lineno : Int) (t : TType)
    (msg : List Char) : '\x00' ∉ resMesg file lineno t msg := by
  intro h
  rcases List.mem_append.1 h with h | h
  · exact nul_not_mem_resPrefix file lineno t h
  · exact (mem_cstr (List.mem_of_mem_take h)).2 rfl

/-- The message handed on, cut to `tmesg`, is what `tst_res__` cuts it to again. -/
theorem cstr_take_cstr (msg : List Char) (n : Nat) :
    (cstr ((cstr msg).take n)).take n = (cstr msg).take n := by
  rw [cstr_take, cstr_cstr, List.take_take, Nat.min_self]

/-- The part of the message `EXPAND_VAR_ARGS` writes is not empty. -/
theorem take_cstr_ne_nil {msg : List Char} {len : Nat} (hmsg : cstr msg ≠ [])
    (hlen : len + 1 < usermesg) :
    (cstr ((cstr msg).take (usermesg - 1))).take (usermesg - 1 - len) ≠ [] := by
  rw [cstr_take, cstr_cstr, List.take_take]
  intro h
  rcases List.take_eq_nil_iff.1 h with h | h
  · omega
  · exact hmsg h

/-- `tst_print` in NOPASS mode, for a line that fits: it prints `TFAIL`, `TBROK` and `TWARN`. -/
theorem tstPrint_nopass {st : TstResState} (hmode : st.mode = .nopass) (hrun : st.halt = none)
    {tcid : List Char} {tnum : Int} {t : TType} {tmesg : List Char}
    (hfit : (t = .fail ∨ t = .brok ∨ t = .warn) →
      LineFits (printLine .nopass (tstColorEnabled env) tcid tnum t tmesg)) :
    tstPrint env st tcid tnum t tmesg = { st with
      exitval := st.exitval ||| t.val
      stdout := st.stdout ++ if t = .fail ∨ t = .brok ∨ t = .warn then
        [printLine .nopass (tstColorEnabled env) tcid tnum t tmesg] else [] } := by
  unfold tstPrint
  simp only [hrun, Option.isSome_none, hmode, Bool.false_eq_true, if_false, reduceCtorEq, false_or,
    true_and]
  by_cases hp : t = .fail ∨ t = .brok ∨ t = .warn
  · have hf := hfit hp
    have hhead := printHead_length_le .nopass (tstColorEnabled env) tcid tnum t tmesg
    unfold LineFits at hf
    rw [if_neg (by tauto), if_neg (by omega), if_neg (by omega), if_pos hp]
  · rw [if_pos (by tauto), if_neg hp, List.append_nil]

theorem NopassRel.with_counts {st : TstResState} {c : Condenser} (h : NopassRel env st c)
    (x y : Nat) : NopassRel env { st with exitval := x, passedCnt := y } c :=
  ⟨h.mode, h.checked, h.running, h.count, h.count_nonneg, h.buffered, h.pending_numbered, h.stdout⟩

@[simp] theorem tstPrint_count (st : TstResState) (tcid : List Char) (tnum : Int) (t : TType)
    (tmesg : List Char) : (tstPrint env st tcid tnum t tmesg).count = st.count := by
  dsimp only [tstPrint]
  split_ifs <;> rfl

@[simp] theorem tstPrint_buffered (st : TstResState) (tcid : List Char) (tnum : Int) (t : TType)
    (tmesg : List Char) : (tstPrint env st tcid tnum t tmesg).buffered = st.buffered := by
  dsimp only [tstPrint]
  split_ifs <;> rfl

@[simp] theorem tstCondense_count (st : TstResState) (tnum : Int) (t : TType)
    (tmesg : List Char) : (tstCondense env st tnum t tmesg).count = st.count := by
  unfold tstCondense
  split
  · split_ifs <;> simp
  · rfl

theorem tstCondense_none {st : TstResState} (hb : st.buffered = none) (tnum : Int) (t : TType)
    (tmesg : List Char) :
    tstCondense env st tnum t tmesg =
      { st with buffered := some ⟨cstr env.tcid, tnum, t, cstr tmesg⟩ } := by
  simp [tstCondense, hb]

theorem tstCondense_same {st : TstResState} {last : LastResult} (hb : st.buffered = some last)
    {tnum : Int} {t : TType} {tmesg : List Char}
    (hsame : last.tcid = cstr env.tcid ∧ last.ttype = t ∧ last.mesg = cstr tmesg) :
    tstCondense env st tnum t tmesg = st := by
  simp only [tstCondense, hb, hsame, and_self, if_true]

theorem tstCondense_new {st : TstResState} {last : LastResult} (hb : st.buffered = some last)
    {tnum : Int} {t : TType} {tmesg : List Char}
    (hnew : ¬ (last.tcid = cstr env.tcid ∧ last.ttype = t ∧ last.mesg = cstr tmesg)) :
    tstCondense env st tnum t tmesg =
      { tstPrint env st last.tcid last.num last.ttype last.mesg with
        buffered := some ⟨cstr env.tcid, tnum, t, cstr tmesg⟩ } := by
  simp only [tstCondense, hb, hnew, if_false]

/-- `tst_res__` in a running NOPASS process: `check_env` has nothing to do and `tst_count` is
not negative. -/
theorem tstResBody_nopass {st : TstResState} {c : Condenser} (h : NopassRel env st c)
    (t : TType) (tmesg : List Char) :
    tstResBody env st t tmesg =
      if t = .warn ∨ t = .info then
        tstPrint env { st with
          exitval := st.exitval ||| t.val
          passedCnt := if t = .pass then st.passedCnt + 1 else st.passedCnt } env.tcid 0 t tmesg
      else { tstCondense env { st with
          exitval := st.exitval ||| t.val
          passedCnt := if t = .pass then st.passedCnt + 1 else st.passedCnt }
          (st.count + 1) t tmesg with count := st.count + 1 } := by
  have hcount : ¬ st.count < 0 := by
    rw [h.count]
    exact not_lt.2 h.count_nonneg
  simp only [tstResBody, checkEnv, h.checked, if_true, hcount, if_false, h.mode, tstCondense_count]

/-- A `TWARN` or `TINFO` result printed directly. -/
theorem nopassRel_tstPrint_direct {st : TstResState} {c : Condenser} (h : NopassRel env st c)
    {e : ResEvent} (hd : e.isDirect = true) (hfit : ∀ l ∈ (c.step env e).out, LineFits l) :
    NopassRel env (tstPrint env st env.tcid 0 e.ttype e.mesg) (c.step env e) := by
  have hwi : e.ttype = .warn ∨ e.ttype = .info := ResEvent.isDirect_iff.1 hd
  rw [@Condenser.step_repeat env c e (.inl hd)] at hfit ⊢
  rw [tstPrint_nopass h.mode h.running]
  · refine ⟨h.mode, h.checked, h.running, ?_, ?_, h.buffered, h.pending_numbered, ?_⟩
    · simp [h.count, hd]
    · simpa [hd] using h.count_nonneg
    · rcases hwi with hw | hi
      · simp [hw, h.stdout, warnLines, nopassLine]
      · simp [hi, h.stdout, warnLines]
  · intro hp
    have hw : e.ttype = .warn := by rcases hwi with hw | hi <;> simp_all
    exact hfit _ (by simp [hw, warnLines, nopassLine])

/-- A numbered result goes through `tst_condense` and is counted. -/
theorem nopassRel_tstCondense {st : TstResState} {c : Condenser} (h : NopassRel env st c)
    {e : ResEvent} (hd : e.isDirect = false) (hnul : '\x00' ∉ e.mesg)
    (hfit : ∀ l ∈ (c.step env e).out, LineFits l) :
    NopassRel env { tstCondense env st (st.count + 1) e.ttype e.mesg with count := st.count + 1 }
      (c.step env e) := by
  have hmesg : cstr e.mesg = e.mesg := cstr_of_not_mem hnul
  have hnonneg := h.count_nonneg
  rcases hp : c.pending with _ | ⟨p, k⟩
  · -- nothing buffered: the result is buffered
    have hb : st.buffered = none := by simp [h.buffered, hp]
    rw [c.step_new hd (by simp [hp]), tstCondense_none hb, hp]
    refine ⟨h.mode, h.checked, h.running, ?_, ?_, ?_, ?_, ?_⟩
    · show st.count + 1 = c.count + 1
      rw [h.count]
    · show 0 ≤ c.count + 1
      omega
    · simp [hmesg, h.count]
    · simp [hd]
    · simp [h.stdout, pendingLine]
  · have hb : st.buffered = some ⟨cstr env.tcid, k, p.ttype, p.mesg⟩ := by simp [h.buffered, hp]
    have hpd : p.isDirect = false := h.pending_numbered (p, k) hp
    by_cases hpe : p = e
    · -- a repeat of the buffered result is only counted
      subst hpe
      rw [c.step_repeat (.inr (by simp [hp])), tstCondense_same hb (by simp [hmesg])]
      have hw : p.ttype ≠ .warn := ResEvent.ttype_ne_warn hpd
      refine ⟨h.mode, h.checked, h.running, ?_, ?_, h.buffered, h.pending_numbered, ?_⟩
      · simp [h.count, hd]
      · simp only [hd]
        omega
      · simp [h.stdout, warnLines, hw]
    · -- another result prints the buffered one and takes its place
      have hne : ¬ (cstr env.tcid = cstr env.tcid ∧ p.ttype = e.ttype ∧ p.mesg = cstr e.mesg) :=
        fun ⟨_, ht, hm⟩ => hpe (by cases p; cases e; simp_all)
      have hpw : p.ttype ≠ .warn := ResEvent.ttype_ne_warn hpd
      rw [@Condenser.step_new env c e hd (by simp [hp, hpe]), hp] at hfit ⊢
      rw [tstCondense_new hb hne]
      rw [tstPrint_nopass h.mode h.running]
      · refine ⟨h.mode, h.checked, h.running, ?_, ?_, ?_, ?_, ?_⟩
        · simp [h.count]
        · show 0 ≤ c.count + 1
          omega
        · simp [hmesg, h.count]
        · simp [hd]
        · simp [h.stdout, pendingLine, hpw, nopassLine, printLine_cstr]
      · intro hft
        have hfb : p.ttype = .fail ∨ p.ttype = .brok := by simpa [hpw] using hft
        exact hfit _ (by simp [pendingLine, hfb, nopassLine, printLine_cstr])

theorem Condenser.out_prefix_step (c : Condenser) (e : ResEvent) :
    c.out <+: (c.step env e).out := by
  unfold Condenser.step
  split_ifs <;> simp

theorem Condenser.out_prefix_run (c : Condenser) (es : List ResEvent) :
    c.out <+: (c.run env es).out := by
  induction es generalizing c with
  | nil => exact List.prefix_refl _
  | cons e es ih => exact (c.out_prefix_step e).trans (ih _)

/-- A line printed so far is still there after more results and the flush. -/
theorem Condenser.mem_flush_run {c : Condenser} (es : List ResEvent) {l : List Char}
    (hl : l ∈ c.out) : l ∈ (c.run env es).flush env :=
  List.mem_append_left _ ((c.out_prefix_run es).subset hl)

/-- `tst_res__` once its message is formatted. -/
theorem nopassRel_tstResBody {st : TstResState} {c : Condenser} (h : NopassRel env st c)
    {e : ResEvent} (hnul : '\x00' ∉ e.mesg) (hfit : ∀ l ∈ (c.step env e).out, LineFits l) :
    NopassRel env (tstResBody env st e.ttype e.mesg) (c.step env e) := by
  rw [tstResBody_nopass h]
  by_cases hwi : e.ttype = .warn ∨ e.ttype = .info
  · rw [if_pos hwi]
    exact nopassRel_tstPrint_direct (h.with_counts _ _) (ResEvent.isDirect_iff.2 hwi) hfit
  · rw [if_neg hwi]
    exact nopassRel_tstCondense (h.with_counts _ _)
      (Bool.eq_false_iff.2 (mt ResEvent.isDirect_iff.1 hwi)) hnul hfit

theorem nopassRel_tstResInner {st : TstResState} {c : Condenser} (h : NopassRel env st c)
    {file : Option (List Char)} {lineno : Int} {t : TType} {msg : List Char}
    (hmsg : (cstr msg).take (usermesg - 1 - (resPrefix file lineno t).length) ≠ [])
    (hfit : ∀ l ∈ (c.step env ⟨t, resMesg file lineno t msg⟩).out, LineFits l) :
    NopassRel env (tstResInner env st file lineno t msg)
      (c.step env ⟨t, resMesg file lineno t msg⟩) := by
  rw [tstResInner, if_neg (by simp [h.running]), if_neg hmsg]
  exact nopassRel_tstResBody h (nul_not_mem_resMesg file lineno t msg) hfit

/-- `tst_old_flush` prints the buffered result and keeps the process running. -/
theorem tstOldFlush_nopass {st : TstResState} {c : Condenser} (h : NopassRel env st c)
    (hfit : ∀ l ∈ c.flush env, LineFits l) :
    (tstOldFlush env st).stdout = c.flush env ∧ (tstOldFlush env st).halt = none := by
  unfold tstOldFlush
  rw [if_neg (by simp [h.running]), h.buffered]
  rcases hp : c.pending with _ | ⟨p, k⟩
  · simp [Condenser.flush, hp, pendingLine, h.stdout, h.running]
  · have hpw : p.ttype ≠ .warn := ResEvent.ttype_ne_warn (h.pending_numbered (p, k) hp)
    simp only [Option.map_some, h.mode, if_true]
    rw [tstPrint_nopass h.mode h.running]
    · simp [Condenser.flush, hp, pendingLine, hpw, h.stdout, h.running, nopassLine, printLine_cstr]
    · intro hft
      have hfb : p.ttype = .fail ∨ p.ttype = .brok := by simpa [hpw] using hft
      exact hfit _ (by simp [Condenser.flush, hp, pendingLine, hfb, nopassLine, printLine_cstr])

theorem tstExit_stdout (st : TstResState) :
    (tstExit env st).stdout = (tstOldFlush env st).stdout := by
  dsimp only [tstExit]
  split <;> rfl

theorem tstExit_halted (st : TstResState) : (tstExit env st).halt.isSome := by
  dsimp only [tstExit]
  split
  · assumption
  · rfl

theorem tstOldFlush_halted {st : TstResState} (hs : st.halt.isSome) : tstOldFlush env st = st := by
  simp [tstOldFlush, hs]

theorem tstCall_halted {st : TstResState} (hs : st.halt.isSome) (call : TstCall) :
    tstCall env st call = st := by
  cases call <;> simp [tstCall, tstResInner, tstBrkInner, hs]

@[simp] theorem runCalls_nil (st : TstResState) : runCalls env st [] = st := rfl

@[simp] theorem runCalls_cons (st : TstResState) (call : TstCall) (calls : List TstCall) :
    runCalls env st (call :: calls) = runCalls env (tstCall env st call) calls := rfl

/-- Once the process has ended, nothing more runs. -/
theorem runCalls_halted {st : TstResState} (hs : st.halt.isSome) (calls : List TstCall) :
    runCalls env st calls = st := by
  induction calls with
  | nil => rfl
  | cons call calls ih => rw [runCalls_cons, tstCall_halted hs, ih]

theorem nopassRel_tstCall_resm {st : TstResState} {c : Condenser} (h : NopassRel env st c)
    {t : TType} {file : Option (List Char)} {lineno : Int} {msg : List Char}
    (hacc : (TstCall.resm t file lineno msg).Accepted)
    (hfit : ∀ l ∈ (c.run env (callEvents (.resm t file lineno msg))).out, LineFits l) :
    NopassRel env (tstCall env st (.resm t file lineno msg))
      (c.run env (callEvents (.resm t file lineno msg))) :=
  nopassRel_tstResInner h (take_cstr_ne_nil hacc.1 hacc.2) hfit

theorem nopassRel_tstBrkComplain {st : TstResState} {c : Condenser} (h : NopassRel env st c)
    (t : TType) (hfit : ∀ l ∈ (c.run env (brkComplaint t)).out, LineFits l) :
    NopassRel env (tstBrkComplain env st t) (c.run env (brkComplaint t)) := by
  unfold tstBrkComplain brkComplaint at *
  by_cases hs : brkSupported t
  · simpa [hs] using h
  · simp only [hs, Bool.false_eq_true, if_false, Condenser.run_cons, Condenser.run_nil] at hfit ⊢
    exact nopassRel_tstPrint_direct (e := ⟨.warn, brkInvalidMesg t⟩) h rfl hfit

theorem nopassRel_tstBrkRemaining {st : TstResState} {c : Condenser} (h : NopassRel env st c)
    {file : Option (List Char)} {lineno : Int} {t : TType}
    (hlen : (resPrefix file lineno (brkType t)).length + 1 < usermesg)
    (hfit : ∀ l ∈ (c.run env (brkRemainingEvents file lineno t)).out, LineFits l) :
    NopassRel env (tstBrkRemaining env st file lineno t)
      (c.run env (brkRemainingEvents file lineno t)) := by
  -- the remaining-cases result carries the type `tst_brk__` reports, so its prefix fits too
  have hne : ∀ m : List Char, cstr m ≠ [] →
      (cstr m).take (usermesg - 1 - (resPrefix file lineno (brkType t)).length) ≠ [] := by
    intro m hm hnil
    rcases List.take_eq_nil_iff.1 hnil with h0 | h0
    · omega
    · exact hm h0
  have hconf : cstr remainingConf ≠ [] := by
    unfold remainingConf cstr
    simp
  have hbroken : cstr remainingBroken ≠ [] := by
    unfold remainingBroken cstr
    simp
  cases t with
  | conf =>
    simp only [tstBrkRemaining, brkRemainingEvents, brkRemaining, Condenser.run_cons,
      Condenser.run_nil] at hfit ⊢
    exact nopassRel_tstResInner h (hne remainingConf hconf) hfit
  | brok =>
    simp only [tstBrkRemaining, brkRemainingEvents, brkRemaining, Condenser.run_cons,
      Condenser.run_nil] at hfit ⊢
    exact nopassRel_tstResInner h (hne remainingBroken hbroken) hfit
  | pass | fail | warn | info => simpa [tstBrkRemaining, brkRemainingEvents, brkRemaining] using h

/-- `tst_brkm`: its results, then `tst_exit`, which flushes and ends the process. -/
theorem tstCall_brkm_nopass {st : TstResState} {c : Condenser} (h : NopassRel env st c)
    {t : TType} {file : Option (List Char)} {lineno : Int} {msg : List Char}
    (hacc : (TstCall.brkm t file lineno msg).Accepted)
    (hfit : ∀ l ∈ (c.run env (callEvents (.brkm t file lineno msg))).flush env, LineFits l) :
    (tstCall env st (.brkm t file lineno msg)).halt.isSome ∧
      (tstCall env st (.brkm t file lineno msg)).stdout =
        (c.run env (callEvents (.brkm t file lineno msg))).flush env := by
  obtain ⟨hmsg, hlen⟩ := hacc
  have hmsg' : cstr ((cstr msg).take (usermesg - 1)) ≠ [] := by
    rw [cstr_take, cstr_cstr]
    intro hnil
    rcases List.take_eq_nil_iff.1 hnil with h0 | h0
    · exact absurd h0 (by decide)
    · exact hmsg h0
  have hcall : tstCall env st (.brkm t file lineno msg) =
      tstExit env (tstBrkRemaining env (tstResInner env (tstBrkComplain env st t) file lineno
        (brkType t) ((cstr msg).take (usermesg - 1))) file lineno t) := by
    simp only [tstCall, tstBrkInner, h.running, Option.isSome_none, Bool.false_eq_true, if_false,
      hmsg', cstr_take_cstr]
  -- the three stages of `tst_brk__`, each followed by the condenser
  set c1 := c.run env (brkComplaint t)
  set e2 : ResEvent :=
    ⟨brkType t, resMesg file lineno (brkType t) ((cstr msg).take (usermesg - 1))⟩
  have hev : c.run env (callEvents (.brkm t file lineno msg)) =
      (c1.step env e2).run env (brkRemainingEvents file lineno t) := by
    simp only [callEvents, Condenser.run_append, Condenser.run_cons, c1, e2]
  rw [hev] at hfit ⊢
  have h1 := nopassRel_tstBrkComplain h t fun l hl =>
    hfit l (Condenser.mem_flush_run _ ((@Condenser.out_prefix_step env c1 e2).subset hl))
  have h2 := @nopassRel_tstResInner env _ _ h1 file lineno _ _
    (take_cstr_ne_nil hmsg hlen) fun l hl => hfit l (Condenser.mem_flush_run _ hl)
  have h3 := nopassRel_tstBrkRemaining h2 hlen fun l hl => hfit l (List.mem_append_left _ hl)
  rw [hcall, tstExit_stdout]
  exact ⟨tstExit_halted _, (tstOldFlush_nopass h3 hfit).1⟩

/-- From a running NOPASS process, the calls and the flush print what the condenser prints. -/
theorem flush_runCalls {st : TstResState} {c : Condenser} (h : NopassRel env st c)
    {calls : List TstCall} (hacc : ∀ call ∈ calls, call.Accepted)
    (hfit : ∀ l ∈ (c.run env (callsEvents calls)).flush env, LineFits l) :
    (tstOldFlush env (runCalls env st calls)).stdout = (c.run env (callsEvents calls)).flush env := by
  induction calls generalizing st c with
  | nil => exact (tstOldFlush_nopass h hfit).1
  | cons call calls ih =>
    have hcall := hacc call List.mem_cons_self
    have hrest : ∀ call' ∈ calls, call'.Accepted := fun call' h' => hacc call' (List.mem_cons_of_mem _ h')
    cases call with
    | resm t file lineno msg =>
      simp only [callsEvents, TstCall.exits, Bool.false_eq_true, if_false,
        Condenser.run_append] at hfit ⊢
      have h1 := nopassRel_tstCall_resm h hcall fun l hl => hfit l (Condenser.mem_flush_run _ hl)
      exact ih h1 hrest hfit
    | brkm t file lineno msg =>
      -- `tst_brkm` ends the process: the calls after it do nothing
      simp only [callsEvents, TstCall.exits, if_true, List.append_nil] at hfit ⊢
      obtain ⟨hhalt, hout⟩ := tstCall_brkm_nopass h hcall hfit
      rw [runCalls_cons, runCalls_halted hhalt, tstOldFlush_halted hhalt, hout]

theorem nopassRel_start : NopassRel env nopassStart Condenser.init :=
  ⟨rfl, rfl, rfl, rfl, le_refl _, rfl, by simp [Condenser.init], rfl⟩

/-- The first result reads `TOUTPUT=NOPASS` before it does anything else. -/
theorem tstResInner_init (hmode : modeOfEnv env.toutput = .nopass) {file : Option (List Char)}
    {lineno : Int} {t : TType} {msg : List Char}
    (hmsg : (cstr msg).take (usermesg - 1 - (resPrefix file lineno t).length) ≠ []) :
    tstResInner env tstResInit file lineno t msg = tstResInner env nopassStart file lineno t msg := by
  simp only [tstResInner, tstResInit, nopassStart, Option.isSome_none, Bool.false_eq_true, if_false,
    hmsg, tstResBody, checkEnv, hmode, if_true]

theorem tstCall_init (hmode : modeOfEnv env.toutput = .nopass) {call : TstCall}
    (hacc : call.Accepted) (hfirst : call.readsEnvFirst = true) :
    tstCall env tstResInit call = tstCall env nopassStart call := by
  cases call with
  | resm t file lineno msg => exact tstResInner_init hmode (take_cstr_ne_nil hacc.1 hacc.2)
  | brkm t file lineno msg =>
    have hmsg' : cstr ((cstr msg).take (usermesg - 1)) ≠ [] := by
      rw [cstr_take, cstr_cstr]
      intro hnil
      rcases List.take_eq_nil_iff.1 hnil with h0 | h0
      · exact absurd h0 (by decide)
      · exact hacc.1 h0
    have hs : brkSupported t = true := hfirst
    have hinit : tstResInit.halt = none := rfl
    have hstart : nopassStart.halt = none := rfl
    simp only [tstCall, tstBrkInner, tstBrkComplain, hs, if_true, hinit, hstart,
      Option.isSome_none, Bool.false_eq_true, if_false, hmsg', cstr_take_cstr]
    rw [tstResInner_init hmode (take_cstr_ne_nil hacc.1 hacc.2)]

end Simulation

/-- Every stream of results is direct results followed by maximal runs. -/
theorem exists_resRuns (es : List ResEvent) :
    ∃ pre runs, es = pre ++ runs.flatMap ResRun.events ∧ (∀ e ∈ pre, e.isDirect = true) ∧
      RunsWF runs := by
  induction es with
  | nil => exact ⟨[], [], rfl, by simp, trivial⟩
  | cons e es ih =>
    obtain ⟨pre, runs, hes, hpre, hruns⟩ := ih
    by_cases hd : e.isDirect = true
    · refine ⟨e :: pre, runs, by simp [hes], ?_, hruns⟩
      intro x hx
      rcases List.mem_cons.1 hx with rfl | hx
      · exact hd
      · exact hpre x hx
    · -- `e` starts a run holding the direct results after it, merged with the first run of the
      -- rest when that one holds `e` too
      have hd' : e.isDirect = false := by simpa using hd
      cases runs with
      | nil =>
        refine ⟨[], [⟨e, pre⟩], by simp [hes, ResRun.events], by simp, ?_, by simp, trivial⟩
        exact ⟨hd', fun x hx => .inl (hpre x hx)⟩
      | cons r rs =>
        obtain ⟨⟨hrd, hrest⟩, hnext, hrs⟩ := hruns
        by_cases hr : r.res = e
        · refine ⟨[], ⟨e, pre ++ r.events⟩ :: rs, by simp [hes, ResRun.events], by simp, ⟨hd', ?_⟩,
            ?_, hrs⟩
          · intro x hx
            simp only [ResRun.events, List.mem_append, List.mem_cons] at hx
            rcases hx with hx | hx | hx
            · exact .inl (hpre x hx)
            · exact .inr (hx.trans hr)
            · rcases hrest x hx with h' | h'
              · exact .inl h'
              · exact .inr (h'.trans hr)
          · intro r' hr'
            rw [← hr]
            exact hnext r' hr'
        · refine ⟨[], ⟨e, pre⟩ :: r :: rs, by simp [hes, ResRun.events], by simp,
            ⟨⟨hd', fun x hx => .inl (hpre x hx)⟩, by simpa using hr, ⟨hrd, hrest⟩, hnext, hrs⟩⟩

/-- Under `TOUTPUT=NOPASS`, for every sequence of accepted calls whose first reads the
environment before printing, and every way of cutting its results into direct results and
maximal runs, stdout after `tst_old_flush` (and after `tst_exit`) holds the `TWARN` lines before
the first numbered result, then for each run the `TWARN` lines issued during it followed by the
run's line, numbered by its first element, when the run is `TFAIL` or `TBROK`. -/
theorem tst_res_nopass_condensed (env : TstResEnv) (calls : List TstCall) (pre : List ResEvent)
    (runs : List ResRun) (hmode : modeOfEnv env.toutput = .nopass)
    (hacc : ∀ call ∈ calls, call.Accepted)
    (hfirst : ∀ call ∈ calls.head?, call.readsEnvFirst = true)
    (hev : callsEvents calls = pre ++ runs.flatMap ResRun.events)
    (hpre : ∀ e ∈ pre, e.isDirect = true) (hruns : RunsWF runs)
    (hfit : ∀ l ∈ warnLines env pre ++ condensedLines env 1 runs, LineFits l) :
    (tstOldFlush env (runCalls env tstResInit calls)).stdout =
        warnLines env pre ++ condensedLines env 1 runs ∧
      (tstExit env (runCalls env tstResInit calls)).stdout =
        warnLines env pre ++ condensedLines env 1 runs := by
  have hspec : (Condenser.init.run env (callsEvents calls)).flush env =
      warnLines env pre ++ condensedLines env 1 runs := by
    rw [hev]
    exact condenser_stream hpre hruns
  rw [← hspec] at hfit ⊢
  have hflush : (tstOldFlush env (runCalls env tstResInit calls)).stdout =
      (Condenser.init.run env (callsEvents calls)).flush env := by
    cases calls with
    | nil => rfl
    | cons call calls =>
      -- the first call sets NOPASS mode before anything is printed
      rw [runCalls_cons, tstCall_init hmode (hacc call List.mem_cons_self) (hfirst call rfl),
        ← runCalls_cons]
      exact flush_runCalls nopassRel_start hacc hfit
  exact ⟨hflush, by rw [tstExit_stdout, hflush]⟩

/-- A test run with `TOUTPUT=NOPASS`, `TCID` `t01` and colours off. -/
def nopassEnv : TstResEnv :=
  ⟨['t', '0', '1'], some toutNopassS, some ['n'], false⟩

theorem tst_res_nopass_condensed_fail_warn :
    (tstOldFlush nopassEnv (runCalls nopassEnv tstResInit
        [.resm .fail (some ['t', '.', 'c']) 10 ['a'], .resm .warn (some ['t', '.', 'c']) 11 ['w']])).stdout =
        warnLines nopassEnv [] ++ condensedLines nopassEnv 1
          [⟨⟨.fail, ['t', '.', 'c', ':', '1', '0', ':', ' ', 'a']⟩,
            [⟨.warn, ['t', '.', 'c', ':', '1', '1', ':', ' ', 'w']⟩]⟩] ∧
      (tstExit nopassEnv (runCalls nopassEnv tstResInit
        [.resm .fail (some ['t', '.', 'c']) 10 ['a'], .resm .warn (some ['t', '.', 'c']) 11 ['w']])).stdout =
        warnLines nopassEnv [] ++ condensedLines nopassEnv 1
          [⟨⟨.fail, ['t', '.', 'c', ':', '1', '0', ':', ' ', 'a']⟩,
            [⟨.warn, ['t', '.', 'c', ':', '1', '1', ':', ' ', 'w']⟩]⟩] :=
  tst_res_nopass_condensed nopassEnv _ [] _ (by decide)
    (by simp [TstCall.Accepted, resPrefix, cstr, usermesg]; decide) (by simp [TstCall.readsEnvFirst])
    (by decide) (by simp)
    (by simp [RunsWF, ResRun.WF, ResEvent.isDirect])
    (by simp [LineFits]; decide)

/-- A `TFAIL` result, then a `TWARN` one: NOPASS prints the warning first, since the failure
waits in the buffer until the flush. -/
theorem tst_res_nopass_warn_before_fail :
    (tstOldFlush nopassEnv (runCalls nopassEnv tstResInit
        [.resm .fail (some ['t', '.', 'c']) 10 ['a'], .resm .warn (some ['t', '.', 'c']) 11 ['w']])).stdout =
      [nopassLine nopassEnv 0 ⟨.warn, ['t', '.', 'c', ':', '1', '1', ':', ' ', 'w']⟩,
        nopassLine nopassEnv 1 ⟨.fail, ['t', '.', 'c', ':', '1', '0', ':', ' ', 'a']⟩] ∧
      nopassLine nopassEnv 0 ⟨.warn, ['t', '.', 'c', ':', '1', '1', ':', ' ', 'w']⟩ ≠
        nopassLine nopassEnv 1 ⟨.fail, ['t', '.', 'c', ':', '1', '0', ':', ' ', 'a']⟩ := by
  decide

end Ltp
