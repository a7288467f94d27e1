import Ltp.Pan.Zoolib
import Ltp.Pan.Collection
import Ltp.Lib.TstRes
import Ltp.Library.Schedule

/-!
# The scheduler of ltp-pan (`ltp-pan.c`)

After its set-up, `main` loops: it starts children with `run_child` while fewer than
`keep_active` run and `starts` allows, handles a received signal, reaps one child with
`check_pids`, and ends once it has been told to stop and no child runs; it then waits for the
orphaned process groups, clears its own zoo line and exits.  Signals arrive through
`wait_handler`, whose static `lastsent` ratchets the signal pan passes on.

The state (`PanState`) is `main`'s locals and the globals they touch, where in `main` the code
is (`PanPc`), and the part of the kernel that answers pan: its unreaped children and the live
process groups of its descendants.  A step (`panStep`) is one of:

* a signal pan catches, which runs `wait_handler` between two of `main`'s steps;
* the last process of a group whose leader pan has reaped exits;
* `main`'s next step, with the kernel's answers to its calls (`Answers`): the child `run_child`
  started, what `wait()` reaped, whether the reaped child's group lives on, whether `/dev/kmsg`
  opens for `write_test_start`.  An answer the kernel cannot give (a pid in use, a process that is
  not pan's child) leaves the state as it is.

Pan ends at its final `exit(exit_stat)`, or at the `exit(1)` of `write_kmsg` when `/dev/kmsg` does
not open, which `quiet_mode` (`-q`) and `no_kmsg` (`-Q`) rule out.

Left out: the output files, the log lines, the `rts` headers and `Debug` printing, the times, the
`tms` accounting, `failcnt` and `tconfcnt`, and what the child does after `fork`.  The zoo is
`Zoolib`'s model of its bytes, on a stream whose locks and seeks succeed.
-/

namespace Ltp

/-! ### Signals -/

/-- Linux's numbers of the signals pan names. -/
def sighup : Int := 1
def sigint : Int := 2
def sigkill : Int := 9
def sigusr1 : Int := 10
def sigusr2 : Int := 12
def sigalrm : Int := 14
def sigterm : Int := 15

/-- The signals `main` installs `wait_handler` for. -/
inductive PanSignal
  | alrm
  | int
  | term
  | hup
  | usr1
  | usr2
  deriving DecidableEq, Repr

def PanSignal.num : PanSignal → Int
  | .alrm => sigalrm
  | .int => sigint
  | .term => sigterm
  | .hup => sighup
  | .usr1 => sigusr1
  | .usr2 => sigusr2

/-- The globals `rec_signal` and `send_signal`, and the static `lastsent` of `wait_handler`. -/
structure Ratchet where
  recSignal : Int
  sendSignal : Int
  lastsent : Int
  deriving DecidableEq, Repr

/-- `wait_handler(sig)`: `0` resets the ratchet; otherwise the signal is recorded, and unless it is
`SIGUSR2` the signal to pass on escalates from the one last sent. -/
def waitHandler (r : Ratchet) (sig : Int) : Ratchet :=
  if sig = 0 then { r with lastsent := 0 }
  else if sig = sigusr2 then { r with recSignal := sig }
  else
    let send :=
      if r.lastsent = 0 then sig
      else if r.lastsent = sigusr1 then sigint
      else if r.lastsent = sig then sigterm
      else if r.lastsent = sigterm then sighup
      else if r.lastsent = sighup then sigkill
      else r.sendSignal
    { recSignal := sig, sendSignal := send, lastsent := send }

/-! ### The state -/

/-- `struct tag_pgrp`: `pgrp` is `0` for a free slot and `cmd` is the entry last run there, `NULL`
(`none`) before any.  The start time and the output file name are left out. -/
structure TagPgrp where
  pgrp : Int32
  stopping : Bool
  cmd : Option CollEntry
  deriving DecidableEq, Repr

/-- A slot as `memset` leaves it. -/
def TagPgrp.empty : TagPgrp := ⟨0, false, none⟩

/-- How `wait()` reports a child: `WIFEXITED` with `WEXITSTATUS`, or `WIFSIGNALED` with
`WTERMSIG`.  `wait()` without `WUNTRACED` reports no stopped child. -/
inductive WaitStatus
  | exited (code : Nat)
  | signaled (sig : Nat)
  deriving DecidableEq, Repr

/-- The points of `main`'s loops: the test of the inner `while` with its break, the inner loop's
body, the `starts` and `PAN_STOP_FILE` tests after it, the `rec_signal` block, `check_pids`, the
`err` block, the `stop` and `go_idle` tests, the loop waiting for orphaned groups before and after
its `sleep(5)`, the final `zoo_clear`, and `exit`; and the `exit(1)` of `write_kmsg` when
`/dev/kmsg` does not open. -/
inductive PanPc
  | inner
  | launch
  | afterLaunch
  | signals
  | check
  | errs
  | tail
  | orphanWait
  | orphanSleep
  | finish
  | exited (status : Int)
  | kmsgExit
  deriving DecidableEq, Repr

/-- What the options and the collection fix before the loop.  `args` is `cat_args(argc, argv)`;
the names and command lines hold no newline, as those of a collection file cannot.  `testOutDir`
says whether `test_out_dir` is set in the loop: `-O` was given and `keep_active` is not `1`, for
which `main` drops it. -/
structure PanConfig where
  keepActive : Nat
  sequential : Bool
  forkInRoad : Bool
  trackExitStats : Bool
  hasBrakes : Bool
  timed : Bool
  quietMode : Bool
  noKmsg : Bool
  testOutDir : Bool
  startsOpt : Int
  coll : List CollEntry
  panPid : Int32
  panname : List Char
  args : List Char
  keepActive_pos : 0 < keepActive
  coll_ne : coll ≠ []
  panPid_pos : 0 < panPid.toInt
  panname_noNewline : '\n' ∉ panname
  args_noNewline : '\n' ∉ args
  coll_noNewline : ∀ e ∈ coll, '\n' ∉ e.name ∧ '\n' ∉ e.cmdline

/-- `coll->ary[c]`; `c` stays below `coll->cnt`, and the modulo only makes the index total. -/
def PanConfig.entry (cfg : PanConfig) (c : Nat) : CollEntry :=
  cfg.coll.get ⟨c % cfg.coll.length, Nat.mod_lt _ (List.length_pos_of_ne_nil cfg.coll_ne)⟩

/-- The default of `starts`: infinite (`-1`) when timed or asked for with `0`, the number of
commands in sequential mode, and at least `keep_active`. -/
def PanConfig.initStarts (cfg : PanConfig) : Int :=
  if cfg.timed ∧ cfg.startsOpt = -1 then -1
  else if cfg.startsOpt = -1 then (if cfg.sequential then (cfg.coll.length : Int) else 1)
  else if cfg.startsOpt = 0 then -1
  else if cfg.startsOpt < cfg.keepActive then cfg.keepActive
  else cfg.startsOpt

/-- `main`'s state, with `children` the pids of pan's children it has not reaped and `groups` the
process groups of its descendants that still have a process. -/
structure PanState where
  pc : PanPc
  running : List TagPgrp
  numActive : Int
  starts : Int
  c : Nat
  stop : Int
  goIdle : Int
  exitStat : Int
  err : Int
  forkInRoad : Bool
  orphans : List Int32
  zoo : Zoo
  sig : Ratchet
  children : List Int32
  groups : List Int32

/-! ### The zoo before the loop -/

/-- The `keep_active` entries main marks with `zoo_mark_cmdline(zoofile, c, panname, "")` and
clears again, an "active file cleanliness" thing; a failing call makes it `exit(1)`. -/
def setupMarks (panname : List Char) : Zoo → List Nat → Zoo × Int
  | z, [] => (z, 0)
  | z, c :: cs =>
    let r := zooMarkCmdline z (Int32.ofNat c) panname []
    if r.2 ≠ 0 then (r.1, 1) else setupMarks panname r.1 cs

def setupClears : Zoo → List Nat → Zoo × Int
  | z, [] => (z, 0)
  | z, c :: cs =>
    let r := zooClear z (Int32.ofNat c)
    if r.2 ≠ 0 then (r.1, 1) else setupClears r.1 cs

/-- The state at the loop: pan's own zoo line from `zoo_mark_args`, the slots zeroed, one orphan
record (the list's head), and no signal. -/
def panInit (cfg : PanConfig) (z₀ : Zoo) : PanState :=
  let a := zooMarkCmdline z₀ cfg.panPid cfg.panname cfg.args
  let m := setupMarks cfg.panname a.1 (List.range cfg.keepActive)
  let cl := setupClears m.1 (List.range cfg.keepActive)
  { pc := if a.2 ≠ 0 ∨ m.2 ≠ 0 ∨ cl.2 ≠ 0 then .exited 1 else .inner
    running := List.replicate cfg.keepActive TagPgrp.empty
    numActive := 0
    starts := cfg.initStarts
    c := 0
    stop := 0
    goIdle := 0
    exitStat := 0
    err := 0
    forkInRoad := cfg.forkInRoad
    orphans := [0]
    zoo := cl.1
    sig := ⟨0, 0, 0⟩
    children := []
    groups := [] }

/-! ### The slots and the orphan records -/

/-- The slot search and `running + i` of the inner loop: the first free slot takes `t`. -/
def fillSlot (t : TagPgrp) : List TagPgrp → List TagPgrp
  | [] => []
  | u :: us => if u.pgrp = 0 then t :: us else u :: fillSlot t us

/-- The slot search of `check_pids`: the first slot of `cpid` becomes free. -/
def clearSlot (cpid : Int32) : List TagPgrp → List TagPgrp
  | [] => []
  | u :: us => if u.pgrp = cpid then { u with pgrp := 0 } :: us else u :: clearSlot cpid us

/-- `check_orphans(orphans, sig)` on the `pgrp` fields of the orphan records: `kill(-pgrp, sig)`
fails with `ESRCH` exactly for a group with no process left, whose record is cleared with its
zoo line (a failing `zoo_clear` only prints `zoo_error`). -/
def checkOrphans (groups : List Int32) : List Int32 → Zoo → List Int32 × Zoo
  | [], z => ([], z)
  | g :: os, z =>
    if g ≠ 0 ∧ g ∉ groups then
      let r := checkOrphans groups os (zooClear z g).1
      (0 :: r.1, r.2)
    else
      let r := checkOrphans groups os z
      (g :: r.1, r.2)

/-- The search of `mark_orphan` for a free record. -/
def setFirstFree (cpid : Int32) : List Int32 → Option (List Int32)
  | [] => none
  | g :: os => if g = 0 then some (cpid :: os) else (setFirstFree cpid os).map (g :: ·)

/-- `mark_orphan(orphans, cpid)`: the first free record takes `cpid`, or a new record plugged in
just after the head does. -/
def markOrphan (os : List Int32) (cpid : Int32) : List Int32 :=
  match setFirstFree cpid os with
  | some os' => os'
  | none =>
    match os with
    | [] => [cpid]
    | head :: rest => head :: cpid :: rest

/-- `propagate_signal`: every occupied slot is sent `send_signal` and marked `stopping`, the
orphaned groups are checked with it, and both signal globals are reset. -/
def propagateSignal (s : PanState) : PanState :=
  let r := checkOrphans s.groups s.orphans s.zoo
  { s with
    running := s.running.map fun t => if t.pgrp = 0 then t else { t with stopping := true }
    orphans := r.1
    zoo := r.2
    sig := { s.sig with recSignal := 0, sendSignal := 0 } }

/-! ### The kernel's answers -/

/-- What the kernel answers `main`'s next step: `lrand48()`, the child `run_child` started
(`none`: the output file, the pipe, `fork` or the `exec` failed, the last reaped inside
run_child), what `wait()` reaped (`none`: it returned `-1`), whether `kill(-cpid, 0)` finds the
reaped child's group, whether `kill(-cpid, SIGTERM)` empties it, whether `PAN_STOP_FILE`
exists, and whether `fopen("/dev/kmsg", "r+")` succeeds. -/
structure Answers where
  draw : Nat
  start : Option Int32
  reap : Option (Int32 × WaitStatus)
  groupLives : Bool
  termEmpties : Bool
  stopFile : Bool
  kmsgOpens : Bool

/-- A pid `fork` can return: positive and used by neither pan, nor a child of pan's, nor a live
process group of its descendants. -/
def PanState.Fresh (cfg : PanConfig) (s : PanState) (p : Int32) : Prop :=
  0 < p.toInt ∧ p ≠ cfg.panPid ∧ p ∉ s.children ∧ p ∉ s.groups

instance (cfg : PanConfig) (s : PanState) (p : Int32) : Decidable (s.Fresh cfg p) :=
  inferInstanceAs (Decidable (_ ∧ _ ∧ _ ∧ _))

/-- Answers the kernel can give: a started child has a fresh pid, and `wait()` reaps a child. -/
def Answers.Valid (cfg : PanConfig) (s : PanState) (a : Answers) : Prop :=
  (∀ p ∈ a.start, s.Fresh cfg p) ∧ ∀ r ∈ a.reap, r.1 ∈ s.children

instance (cfg : PanConfig) (s : PanState) (a : Answers) : Decidable (a.Valid cfg s) :=
  -- each quantifier ranges over the answer's `Option`, never over all of `Int32`
  @instDecidableAnd _ _ (Option.decidableForallMem a.start) (Option.decidableForallMem a.reap)

/-! ### The steps of main -/

/-- `write_test_start(running, no_kmsg)`: whether it returns.  Unless `no_kmsg` it calls
`write_kmsg`, which calls `exit(1)` when `/dev/kmsg` does not open.  The `rts` header it prints
first is the report's `writeTestStart`, which the scheduler does not read. -/
def writeTestStartReturns (noKmsg kmsgOpens : Bool) : Bool :=
  noKmsg || kmsgOpens

/-- The body of the inner loop: pick the command, find a free slot (`Aborting: i ==
keep_active` when there is none), `run_child`, and count the start.  Before `fork`, `run_child`
calls `write_test_start` unless the output goes to `test_out_dir` or `quiet_mode` is set. -/
def launch (cfg : PanConfig) (a : Answers) (s : PanState) : PanState :=
  let c := if cfg.sequential then s.c else a.draw % cfg.coll.length
  if ¬ s.running.any (·.pgrp = 0) then
    { s with c := c, sig := waitHandler s.sig sigint, exitStat := s.exitStat + 1, pc := .afterLaunch }
  else if ¬ cfg.testOutDir ∧ ¬ cfg.quietMode ∧ ¬ writeTestStartReturns cfg.noKmsg a.kmsgOpens then
    { s with c := c, pc := .kmsgExit }
  else
    let colle := cfg.entry c
    let next := if cfg.sequential then (if cfg.coll.length ≤ c + 1 then 0 else c + 1) else c
    match a.start with
    | none =>
      { s with
        starts := if cfg.sequential ∧ 0 < s.starts then s.starts - 1 else s.starts
        c := next
        pc := .inner }
    | some cpid =>
      let mz := zooMarkCmdline s.zoo cpid colle.name colle.cmdline
      if mz.2 ≠ 0 then { s with zoo := mz.1, pc := .exited 1 }
      else
        { s with
          running := fillSlot ⟨cpid, false, some colle⟩ s.running
          zoo := mz.1
          numActive := s.numActive + 1
          starts := if 0 < s.starts then s.starts - 1 else s.starts
          c := next
          children := cpid :: s.children
          groups := cpid :: s.groups
          pc := .inner }

/-- `if (fork_in_road) ++go_idle; else ++stop;` -/
def PanState.idleOrStop (s : PanState) : PanState :=
  if s.forkInRoad then { s with goIdle := s.goIdle + 1 } else { s with stop := s.stop + 1 }

/-- `if (rec_signal)`: `SIGUSR2` idles or stops the scheduler; another signal (`SIGUSR1` turning
`fork_in_road` off) is propagated first. -/
def signalsStep (s : PanState) : PanState :=
  let s :=
    if s.sig.recSignal = 0 then s
    else if s.sig.recSignal = sigusr2 then
      { s with sig := { s.sig with recSignal := 0, sendSignal := 0 } }.idleOrStop
    else
      (propagateSignal (if s.sig.recSignal = sigusr1 then { s with forkInRoad := false } else s)).idleOrStop
  { s with pc := .check }

/-- What `check_pids` counts for a child that `wait()` reported with `st` before its slot is
found: a non-zero exit other than `TCONF`. -/
def exitRet : WaitStatus → Int
  | .exited w => if w ≠ 0 ∧ w ≠ TType.conf.val then 1 else 0
  | .signaled _ => 0

/-- The count once its slot `t` is found: an exit of `130` after pan's own signal is undone, and a
signal pan did not send counts. -/
def slotRet (t : TagPgrp) (st : WaitStatus) (ret : Int) : Int :=
  match st with
  | .exited w => if w = 130 ∧ t.stopping then ret - 1 else ret
  | .signaled _ => if t.stopping then ret else ret + 1

/-- `check_pids`: check the orphaned groups, reap a child, free its slot and zoo line, and when
its group lives on mark it `panorphan`, record it and send it `SIGTERM`.  With `test_out_dir` and
without `quiet_mode` it calls `write_test_start` for the reaped child before it frees the slot.
An `exit(1)` there ends pan with the child's slot and zoo line still set; the state kept for that
exit is the one `check_orphans` left, since nothing reads the counter it had decremented. -/
def checkPids (cfg : PanConfig) (a : Answers) (s : PanState) : PanState :=
  let r := checkOrphans s.groups s.orphans s.zoo
  let s₀ := { s with orphans := r.1, zoo := r.2 }
  match a.reap with
  | none => { s₀ with err := 0, pc := .errs }
  | some (cpid, st) =>
    let s := { s₀ with numActive := s₀.numActive - 1, children := s₀.children.erase cpid }
    match s.running.find? (·.pgrp = cpid) with
    | none => { s with err := exitRet st, pc := .errs }
    | some t =>
      if cfg.testOutDir ∧ ¬ cfg.quietMode ∧ ¬ writeTestStartReturns cfg.noKmsg a.kmsgOpens then
        { s₀ with pc := .kmsgExit }
      else
        let s := { s with running := clearSlot cpid s.running, err := slotRet t st (exitRet st) }
        let cz := zooClear s.zoo cpid
        if cz.2 ≠ 0 then { s with zoo := cz.1, pc := .exited 1 }
        else if a.groupLives then
          let mz := zooMarkCmdline cz.1 cpid "panorphan".toList ((t.cmd.map CollEntry.cmdline).getD [])
          if mz.2 ≠ 0 then { s with zoo := mz.1, pc := .exited 1 }
          else
            { s with
              zoo := mz.1
              orphans := markOrphan s.orphans cpid
              groups := if a.termEmpties then s.groups.erase cpid else s.groups
              pc := .errs }
        else { s with zoo := cz.1, groups := s.groups.erase cpid, pc := .errs }

/-- `if (err)`: idle under `fork_in_road`, count the error under `-e`, stop everything under
`-A`. -/
def errsStep (cfg : PanConfig) (s : PanState) : PanState :=
  if s.err = 0 then { s with pc := .tail }
  else
    { s with
      goIdle := if s.forkInRoad then s.goIdle + 1 else s.goIdle
      exitStat := if cfg.trackExitStats then s.exitStat + 1 else s.exitStat
      sig := if cfg.hasBrakes then waitHandler s.sig sigint else s.sig
      pc := .tail }

/-- One step of `main` at its point `s.pc`. -/
def mainStep (cfg : PanConfig) (a : Answers) (s : PanState) : PanState :=
  match s.pc with
  | .inner =>
    if s.numActive < cfg.keepActive ∧ s.starts ≠ 0 ∧
        ¬ (s.stop ≠ 0 ∨ s.sig.recSignal ≠ 0 ∨ s.goIdle ≠ 0) then { s with pc := .launch }
    else { s with pc := .afterLaunch }
  | .launch => launch cfg a s
  | .afterLaunch =>
    if s.starts = 0 ∨ (s.starts = -1 ∧ a.stopFile) then { s with stop := s.stop + 1, pc := .signals }
    else { s with pc := .signals }
  | .signals => signalsStep s
  | .check => checkPids cfg a s
  | .errs => errsStep cfg s
  | .tail =>
    if s.stop ≠ 0 ∧ s.numActive = 0 then { s with pc := .orphanWait }
    else if s.goIdle ≠ 0 ∧ s.numActive = 0 then
      { s with goIdle := 0, sig := waitHandler s.sig 0, pc := .inner }
    else { s with pc := .inner }
  | .orphanWait =>
    if s.orphans.any (· ≠ 0) then { s with pc := .orphanSleep } else { s with pc := .finish }
  | .orphanSleep =>
    -- after `sleep(5)`, force a signal through the ratchet unless one came
    let s := if s.sig.recSignal = 0 then { s with sig := waitHandler s.sig sigint } else s
    { propagateSignal s with pc := .orphanWait }
  | .finish =>
    let cz := zooClear s.zoo cfg.panPid
    let e := if cz.2 ≠ 0 then s.exitStat + 1 else s.exitStat
    { s with zoo := cz.1, exitStat := e, pc := .exited e }
  | .exited _ => s
  | .kmsgExit => s

/-- An event of a run of pan. -/
inductive PanInput
  | signal (sig : PanSignal)
  | groupEmpty (g : Int32)
  | step (a : Answers)

/-- One step of a run: a caught signal runs `wait_handler`, a group whose leader pan has reaped
empties, or `main` moves on with the kernel's answers. -/
def panStep (cfg : PanConfig) (s : PanState) : PanInput → PanState
  | .signal sig =>
    match s.pc with
    | .exited _ | .kmsgExit => s
    | _ => { s with sig := waitHandler s.sig sig.num }
  | .groupEmpty g =>
    if g ∈ s.groups ∧ g ∉ s.children then { s with groups := s.groups.erase g } else s
  | .step a => if a.Valid cfg s then mainStep cfg a s else s

theorem panStep_of_valid {cfg : PanConfig} {s : PanState} {a : Answers} (hv : a.Valid cfg s) :
    panStep cfg s (.step a) = mainStep cfg a s := by
  simp only [panStep, if_pos hv]

theorem panStep_of_not_valid {cfg : PanConfig} {s : PanState} {a : Answers} (hv : ¬ a.Valid cfg s) :
    panStep cfg s (.step a) = s := by
  simp only [panStep, if_neg hv]

end Ltp
