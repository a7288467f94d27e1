import Ltp.Library.CInt
import Ltp.Library.Schedule
import Ltp.Lib.Kvercmp

/-!
# The barrier of fuzzy sync (`tst_fuzzy_sync.h`)

Thread A loops on `tst_fzsync_run_a`, `tst_fzsync_start_race_a` and `tst_fzsync_end_race_a`, thread
B on the `_b` functions, and each of these meets the other thread in
`tst_fzsync_pair_wait(our_cntr, other_cntr, spins)`: a thread adds one to the other's counter
(`b_cntr` for A, `a_cntr` for B) and spins while its own counter is below the one it incremented.
When the increment returns `INT_MAX` it waits instead for its own counter to leave `(0, INT_MAX)`,
stores `0` into the other's counter and waits for its own to drop to `1` or less.

The state is the pair's shared words `a_cntr`, `b_cntr` and `exit` and where each thread is; a
step of the scheduler is one atomic load, store or increment of one thread (`step`).  What run_a
decides, how many extra wait pairs each iteration makes and in which order the two loads of
`our < other` are compiled belong to the environment (`FzEnv`).  A thread's position counts the
calls of `tst_fzsync_pair_wait` it has entered (made the increment of) and left (`callsEntered`,
`callsLeft`).  The invariant `WaitInv` says what the counter a thread increments holds, its calls
modulo `INT_MAX` or `INT_MAX` itself until the reset, and how far apart the two threads can be; it
holds in every reachable state, through any number of resets.  From it:

* no thread has left more calls than the other has entered;
* run_a and run_b return the same value in every iteration (`ProgInv`);
* the two threads never both spin with their loop conditions true;
* no increment overflows.
-/

namespace Ltp

open CInt

/-- The two threads of a pair: A runs the test's loop, B the function passed to
`tst_fzsync_pair_reset`. -/
inductive Thread
  | a
  | b
  deriving DecidableEq, Repr

def Thread.other : Thread → Thread
  | .a => .b
  | .b => .a

@[simp] theorem Thread.other_other (X : Thread) : X.other.other = X := by
  cases X <;> rfl

@[simp] theorem Thread.other_ne (X : Thread) : X.other ≠ X := by
  cases X <;> decide

@[simp] theorem Thread.ne_other (X : Thread) : X ≠ X.other := fun h => X.other_ne h.symm

theorem Thread.eq_or_eq_other (X Z : Thread) : Z = X ∨ Z = X.other := by
  cases X <;> cases Z <;> simp [Thread.other]

/-- The operand of `tst_atomic_load(our_cntr) < tst_atomic_load(other_cntr)` that is loaded first;
C leaves the order to the compiler. -/
inductive Operand
  | our
  | other
  deriving DecidableEq, Repr

/-- A point of `tst_fzsync_pair_wait`: before the increment (`inc`); in the loop `our < other`,
before or after its first load (`spin`, `spinLoaded`); once the increment returned `INT_MAX`, in the
loop `our > 0 && our < INT_MAX` before and after its first conjunct (`drain`, `drainLoaded`), at the
store of `0` (`reset`) and in the loop `our > 1` (`settle`). -/
inductive WaitPc
  | inc
  | spin
  | spinLoaded (v : Int)
  | drain
  | drainLoaded
  | reset
  | settle
  deriving DecidableEq, Repr

/-- A point of a thread's loop.  Iteration `i` makes the calls `j = 0, 1, …, 2 + extra i` of
`tst_fzsync_pair_wait`: that of run_a or run_b, then those of the start and of the end of the race
and of the extra `tst_fzsync_wait_a`/`tst_fzsync_wait_b` pairs, in the order of the thread's code.
`decide` is run_a's test of `exit` or run_b's load of it, `cleanup` and `join` are A's
`tst_fzsync_pair_cleanup`, and `done` is the end of the thread. -/
inductive Pc
  | top (i : Nat)
  | wait (i j : Nat) (w : WaitPc)
  | decide (i : Nat)
  | cleanup (i : Nat)
  | join (i : Nat)
  | done (i : Nat)
  deriving DecidableEq, Repr

/-- The shared words of `struct tst_fzsync_pair` and the two threads: `cntr X` is `X`'s `our_cntr`
(`cntr .a` is `a_cntr`), and `runs X` the values run_a or run_b has returned so far. -/
structure FzState where
  cntr : Thread → Int
  exit : Int
  pc : Thread → Pc
  runs : Thread → List Bool

/-- `tst_fzsync_pair_reset`: the counters and `exit` are zero and both threads start their loops. -/
def fzInit : FzState :=
  ⟨fun _ => 0, 0, fun _ => .top 0, fun _ => []⟩

/-- What the environment decides: `exits i` is what run_a computes in iteration `i` from the time
and the loop count, `extra i` the number of `tst_fzsync_wait_a`/`tst_fzsync_wait_b` pairs of
iteration `i`, and `order X k` the operand of `our < other` loaded first in the `k`-th call of
`X`. -/
structure FzEnv where
  exits : Nat → Bool
  extra : Nat → Nat
  order : Thread → Nat → Operand

/-- `tst_atomic_inc`: `__atomic_add_fetch` on an `int`, in two's complement. -/
def atomicInc (v : Int) : Int :=
  ofUnsigned 32 (toUnsigned 32 (v + 1))

/-- One atomic step of `tst_fzsync_pair_wait(&cntr X, &cntr X.other, spins)` in thread `X`, whose
code loads `ord` first in `our < other`: the counters after it and the point it moves to, `none`
when the call returns.  The `spins` counter is left out. -/
def pairWaitStep (ord : Operand) (X : Thread) (cntr : Thread → Int) :
    WaitPc → (Thread → Int) × Option WaitPc
  | .inc =>
    let v := atomicInc (cntr X.other)
    (Function.update cntr X.other v, some (if v = intMax then .drain else .spin))
  | .spin =>
    (cntr, some (.spinLoaded (match ord with | .our => cntr X | .other => cntr X.other)))
  | .spinLoaded v =>
    (cntr, match ord with
      | .our => if v < cntr X.other then some .spin else none
      | .other => if cntr X < v then some .spin else none)
  | .drain => (cntr, some (if 0 < cntr X then .drainLoaded else .reset))
  | .drainLoaded => (cntr, some (if cntr X < intMax then .drain else .reset))
  | .reset => (Function.update cntr X.other 0, some .settle)
  | .settle => (cntr, if 1 < cntr X then some .settle else none)

/-- The calls of `tst_fzsync_pair_wait` a thread makes before iteration `i`. -/
def callsBefore (extra : Nat → Nat) : Nat → Nat
  | 0 => 0
  | i + 1 => callsBefore extra i + (3 + extra i)

/-- Where a thread goes when its call `j` of iteration `i` returns. -/
def afterWait (env : FzEnv) (i j : Nat) : Pc :=
  if j = 0 then .decide i else if j < 2 + env.extra i then .wait i (j + 1) .inc else .top (i + 1)

/-- A step of thread `X` at `w` in its call `j` of iteration `i`. -/
def waitStep (env : FzEnv) (s : FzState) (X : Thread) (i j : Nat) (w : WaitPc) : FzState :=
  let r := pairWaitStep (env.order X (callsBefore env.extra i + j)) X s.cntr w
  { s with
    cntr := r.1
    pc := Function.update s.pc X (match r.2 with
      | some w' => .wait i j w'
      | none => afterWait env i j) }

/-- Thread `X` moves to `p`. -/
def FzState.goto (s : FzState) (X : Thread) (p : Pc) : FzState :=
  { s with pc := Function.update s.pc X p }

/-- Thread `X`'s run function returns `v` and the thread moves to `p`. -/
def FzState.ret (s : FzState) (X : Thread) (v : Bool) (p : Pc) : FzState :=
  { s with pc := Function.update s.pc X p, runs := Function.update s.runs X (s.runs X ++ [v]) }

/-- A step of thread A.  run_a stores `exit` before its wait; when it is set, run_a calls
`tst_fzsync_pair_cleanup`, which stores `1` into `exit` again and joins B, and returns `0`. -/
def stepA (env : FzEnv) (s : FzState) : FzState :=
  match s.pc .a with
  | .top i => { s.goto .a (.wait i 0 .inc) with exit := if env.exits i then 1 else 0 }
  | .wait i j w => waitStep env s .a i j w
  | .decide i => if env.exits i then s.goto .a (.cleanup i) else s.ret .a true (.wait i 1 .inc)
  | .cleanup i => { s.goto .a (.join i) with exit := 1 }
  | .join i =>
    match s.pc .b with
    | .done _ => s.ret .a false (.done i)
    | _ => s
  | .done _ => s

/-- A step of thread B.  run_b waits and returns `!tst_atomic_load(&pair->exit)`, and B's loop ends
when it returns `0`. -/
def stepB (env : FzEnv) (s : FzState) : FzState :=
  match s.pc .b with
  | .top i => s.goto .b (.wait i 0 .inc)
  | .wait i j w => waitStep env s .b i j w
  | .decide i => if s.exit ≠ 0 then s.ret .b false (.done i) else s.ret .b true (.wait i 1 .inc)
  | _ => s

/-- One atomic step of thread `X`. -/
def step (env : FzEnv) (s : FzState) : Thread → FzState
  | .a => stepA env s
  | .b => stepB env s

/-! ### Counting the calls -/

/-- How far a thread is in a call: outside one (before its increment included), in the loop
`our < other`, between an increment that returned `INT_MAX` and the store of `0`, at that store,
or in the loop `our > 1`. -/
inductive Phase
  | outside
  | normal
  | drain
  | reset
  | settle
  deriving DecidableEq, Repr

def WaitPc.phase : WaitPc → Phase
  | .inc => .outside
  | .spin | .spinLoaded _ => .normal
  | .drain | .drainLoaded => .drain
  | .reset => .reset
  | .settle => .settle

def Pc.phase : Pc → Phase
  | .wait _ _ w => w.phase
  | _ => .outside

/-- The phases in which the counter a thread increments holds `INT_MAX`. -/
def Phase.atMax : Phase → Bool
  | .drain | .reset => true
  | _ => false

/-- The calls of `tst_fzsync_pair_wait` a thread at `p` has returned from. -/
def callsLeft (env : FzEnv) : Pc → Nat
  | .top i => callsBefore env.extra i
  | .wait i j _ => callsBefore env.extra i + j
  | .decide i | .cleanup i | .join i | .done i => callsBefore env.extra i + 1

/-- The calls it has entered, that is made the increment of. -/
def callsEntered (env : FzEnv) (p : Pc) : Nat :=
  callsLeft env p + if p.phase = .outside then 0 else 1

/-- Whether the loop thread `X` is in goes round once more on the current counters. -/
def WaitPc.spins (w : WaitPc) (our other : Int) : Bool :=
  match w with
  | .spin | .spinLoaded _ => decide (our < other)
  | .drain | .drainLoaded => decide (0 < our ∧ our < intMax)
  | .settle => decide (1 < our)
  | .inc | .reset => false

/-- Whether a thread at `p` is in one of the loops of `tst_fzsync_pair_wait` and goes round. -/
def Pc.spins (p : Pc) (our other : Int) : Bool :=
  match p with
  | .wait _ _ w => w.spins our other
  | _ => false

/-- Thread `X` spins in `tst_fzsync_pair_wait` with its loop condition true. -/
def Spinning (s : FzState) (X : Thread) : Prop :=
  (s.pc X).spins (s.cntr X) (s.cntr X.other) = true

/-! ### The steps -/

theorem intMax_eq : intMax = 2147483647 := by
  norm_num [intMax]

/-- An increment below `INT_MAX` does not wrap. -/
theorem atomicInc_of_lt {v : Int} (h0 : 0 ≤ v) (h : v < intMax) : atomicInc v = v + 1 := by
  rw [intMax_eq] at h
  have hu : (toUnsigned 32 (v + 1) : Int) = v + 1 := toUnsigned_of_lt (by omega) (by omega)
  have hlt : toUnsigned 32 (v + 1) < 2 ^ (32 - 1) := by omega
  rw [atomicInc, ofUnsigned_of_lt hlt, hu]

/-- A thread writes only the counter of the other thread. -/
theorem pairWaitStep_fst_self (ord : Operand) (X : Thread) (cntr : Thread → Int) (w : WaitPc) :
    (pairWaitStep ord X cntr w).1 X = cntr X := by
  cases w <;> simp [pairWaitStep]

theorem step_wait {env : FzEnv} {s : FzState} {X : Thread} {i j : Nat} {w : WaitPc}
    (h : s.pc X = .wait i j w) : step env s X = waitStep env s X i j w := by
  cases X <;> simp [step, stepA, stepB, h]

/-- A step of `X` leaves the other thread where it is. -/
theorem step_pc_other (env : FzEnv) (s : FzState) (X : Thread) :
    (step env s X).pc X.other = s.pc X.other := by
  have hne := Thread.ne_other X
  cases X <;> simp only [step, stepA, stepB] <;> split <;> (try split) <;>
    simp_all [waitStep, FzState.goto, FzState.ret, Function.update_of_ne]

/-- A step of `X` leaves `X`'s own counter alone. -/
theorem step_cntr_self (env : FzEnv) (s : FzState) (X : Thread) :
    (step env s X).cntr X = s.cntr X := by
  cases X <;> simp only [step, stepA, stepB] <;> split <;> (try split) <;>
    simp [waitStep, FzState.goto, FzState.ret, pairWaitStep_fst_self]

@[simp] theorem callsLeft_afterWait {env : FzEnv} {i j : Nat} (hj : j ≤ 2 + env.extra i) :
    callsLeft env (afterWait env i j) = callsBefore env.extra i + j + 1 := by
  unfold afterWait
  split_ifs with h0 h1
  · simp [callsLeft, h0]
  · simp only [callsLeft]
    omega
  · have hj' : j = 2 + env.extra i := by omega
    simp only [callsLeft, callsBefore]
    omega

@[simp] theorem phase_afterWait (env : FzEnv) (i j : Nat) : (afterWait env i j).phase = .outside := by
  unfold afterWait
  split_ifs <;> rfl

theorem bound_afterWait {env : FzEnv} {i j i' j' : Nat} {w : WaitPc}
    (h : afterWait env i j = .wait i' j' w) : j' ≤ 2 + env.extra i' := by
  unfold afterWait at h
  split_ifs at h with h0 h1
  cases h
  omega

/-- Outside `tst_fzsync_pair_wait` a thread does not touch the counters, and it enters at most its
second call of an iteration. -/
theorem step_of_not_wait {env : FzEnv} {s : FzState} {X : Thread}
    (h : ∀ i j w, s.pc X ≠ .wait i j w) :
    (step env s X).cntr = s.cntr ∧ ((step env s X).pc X).phase = .outside ∧
      callsLeft env ((step env s X).pc X) = callsLeft env (s.pc X) ∧
      ∀ i j w, (step env s X).pc X = .wait i j w → j ≤ 1 := by
  cases X <;> cases hp : s.pc _ <;> simp only [hp, ne_eq, Pc.wait.injEq, not_and] at h <;>
    simp only [step, stepA, stepB, hp] <;> (try split) <;>
    simp_all [FzState.goto, FzState.ret, callsLeft, Pc.phase, WaitPc.phase]

/-! ### The invariant of the counters -/

@[simp] theorem WaitPc.phase_inc : WaitPc.inc.phase = .outside := rfl
@[simp] theorem WaitPc.phase_spin : WaitPc.spin.phase = .normal := rfl
@[simp] theorem WaitPc.phase_spinLoaded (v : Int) : (WaitPc.spinLoaded v).phase = .normal := rfl
@[simp] theorem WaitPc.phase_drain : WaitPc.drain.phase = .drain := rfl
@[simp] theorem WaitPc.phase_drainLoaded : WaitPc.drainLoaded.phase = .drain := rfl
@[simp] theorem WaitPc.phase_reset : WaitPc.reset.phase = .reset := rfl
@[simp] theorem WaitPc.phase_settle : WaitPc.settle.phase = .settle := rfl

@[simp] theorem Pc.phase_wait (i j : Nat) (w : WaitPc) : (Pc.wait i j w).phase = w.phase := rfl

@[simp] theorem callsLeft_wait (env : FzEnv) (i j : Nat) (w : WaitPc) :
    callsLeft env (.wait i j w) = callsBefore env.extra i + j := rfl

/-- Only the loop `our < other` has a first operand loaded. -/
theorem ne_spinLoaded_of_phase {p : Pc} (h : p.phase ≠ .normal) (i j : Nat) (v : Int) :
    p ≠ .wait i j (.spinLoaded v) := by
  rintro rfl
  exact h rfl

@[simp] theorem callsEntered_wait (env : FzEnv) (i j : Nat) (w : WaitPc) :
    callsEntered env (.wait i j w) =
      callsBefore env.extra i + j + if w.phase = .outside then 0 else 1 := rfl

theorem callsEntered_of_outside {env : FzEnv} {p : Pc} (h : p.phase = .outside) :
    callsEntered env p = callsLeft env p := by
  simp [callsEntered, h]

theorem callsEntered_of_inside {env : FzEnv} {p : Pc} (h : p.phase ≠ .outside) :
    callsEntered env p = callsLeft env p + 1 := by
  simp [callsEntered, h]

theorem callsEntered_le (env : FzEnv) (p : Pc) : callsEntered env p ≤ callsLeft env p + 1 := by
  unfold callsEntered
  split <;> omega

theorem callsLeft_le (env : FzEnv) (p : Pc) : callsLeft env p ≤ callsEntered env p := by
  unfold callsEntered
  omega

/-- What thread `X` at `p`, meeting the other thread at `q`, keeps of the counter `c` it
increments and of the distance between the two.  The counter holds `X`'s calls modulo `INT_MAX`,
or `INT_MAX` itself from the increment that returned it to the reset. -/
structure WaitView (env : FzEnv) (X : Thread) (p q : Pc) (c : Int) : Prop where
  bound : ∀ i j w, p = .wait i j w → j ≤ 2 + env.extra i
  count : c = if p.phase.atMax then intMax else (callsEntered env p : Int) % intMax
  normal : p.phase = .normal → (callsEntered env p : Int) % intMax ≠ 0
  wrap : p.phase.atMax ∨ p.phase = .settle → (callsEntered env p : Int) % intMax = 0
  barrier : callsLeft env p ≤ callsEntered env q
  -- until `X` resets, the other thread has not left the call at which `X` wrapped
  ahead : p.phase.atMax → callsEntered env q ≤ callsEntered env p ∧ callsLeft env q < callsEntered env p
  -- once `X` has drained, the other thread has entered the same call
  behind : p.phase = .reset ∨ p.phase = .settle → callsEntered env p ≤ callsEntered env q
  -- a first operand loaded in the loop `our < other` is what the exit test compares
  loadedOur : ∀ i j v, p = .wait i j (.spinLoaded v) →
    env.order X (callsBefore env.extra i + j) = .our → c ≤ v → callsEntered env p ≤ callsEntered env q
  loadedOther : ∀ i j v, p = .wait i j (.spinLoaded v) →
    env.order X (callsBefore env.extra i + j) = .other → v = c

/-- The invariant seen from `X`: its view of the state. -/
def WaitInv (env : FzEnv) (s : FzState) (X : Thread) : Prop :=
  WaitView env X (s.pc X) (s.pc X.other) (s.cntr X.other)

theorem waitInv_init (env : FzEnv) (X : Thread) : WaitInv env fzInit X := by
  constructor <;> simp [fzInit, callsEntered, callsLeft, callsBefore, Pc.phase, Phase.atMax]

section View

variable {env : FzEnv} {X : Thread} {p q : Pc} {c d : Int}

/-- In the loop `our < other`, a counter that has caught up means that the other thread has
entered the same call: either it is one call behind and its counter one below, or it holds
`INT_MAX` and is not behind at all. -/
theorem WaitView.normal_exit (hv : WaitView env X p q c) (hw : WaitView env X.other q p d)
    (hn : p.phase = .normal) (hc : c ≤ d) : callsEntered env p ≤ callsEntered env q := by
  by_cases hm : q.phase.atMax
  · exact (hw.ahead hm).1
  · have hcp := hv.count
    have hcq := hw.count
    have hnp := hv.normal hn
    have hb := hv.barrier
    have he := @callsEntered_of_inside env p (by simp [hn])
    rw [if_neg (by simp [hn, Phase.atMax])] at hcp
    rw [if_neg hm] at hcq
    rw [intMax_eq] at hcp hcq hnp
    omega

/-- Leaving the first loop of the wrap: the other thread's counter is `0` or `INT_MAX`, so it is in
the same call. -/
theorem WaitView.drain_exit (hv : WaitView env X p q c) (hw : WaitView env X.other q p d)
    (hd : p.phase = .drain) (hc : d ≤ 0 ∨ intMax ≤ d) : callsEntered env p ≤ callsEntered env q := by
  have hwp := hv.wrap (.inl (by simp [hd, Phase.atMax]))
  have hbp := hv.barrier
  have hbq := hw.barrier
  have hep := @callsEntered_of_inside env p (by simp [hd])
  have heq := callsEntered_le env q
  have hcq := hw.count
  rw [intMax_eq] at hwp hc
  by_cases hm : q.phase.atMax
  · have hwq := hw.wrap (.inl hm)
    rw [intMax_eq] at hwq
    omega
  · rw [if_neg hm, intMax_eq] at hcq
    omega

/-- How a step of a thread at `q` moving to `q'` changes its calls, `d` being the counter it spins
on: not at all, by an increment made outside a call, or by the return of its call, from the loop
`our < other` or, once `d ≤ 1`, from the loop `our > 1`. -/
def CallsStep (env : FzEnv) (q q' : Pc) (d : Int) : Prop :=
  (callsEntered env q' = callsEntered env q ∧ callsLeft env q' = callsLeft env q) ∨
  (q.phase = .outside ∧ callsEntered env q' = callsEntered env q + 1 ∧
    callsLeft env q' = callsLeft env q) ∨
  ((q.phase = .normal ∨ (q.phase = .settle ∧ d ≤ 1)) ∧ callsEntered env q' = callsEntered env q ∧
    callsLeft env q' = callsEntered env q)

/-- A step of the other thread keeps `X`'s view.  The one case with an argument: while `X` holds
`INT_MAX`, the other thread cannot return from the call at which `X` wrapped, since in that call it
is not in the loop `our < other` and its counter is `INT_MAX`, not at most `1`. -/
theorem WaitView.of_callsStep {q' : Pc} (hv : WaitView env X p q c) (hw : WaitView env X.other q p d)
    (hs : CallsStep env q q' c) : WaitView env X p q' c := by
  have hmono : callsEntered env q ≤ callsEntered env q' := by
    rcases hs with h | h | h <;> omega
  refine ⟨hv.bound, hv.count, hv.normal, hv.wrap, hv.barrier.trans hmono, ?_,
    fun h => (hv.behind h).trans hmono, fun i j v hp ho hc => (hv.loadedOur i j v hp ho hc).trans hmono,
    hv.loadedOther⟩
  intro hm
  obtain ⟨he, hl⟩ := hv.ahead hm
  rcases hs with ⟨h1, h2⟩ | ⟨hout, h1, h2⟩ | ⟨hph, h1, h2⟩
  · omega
  · have hq := @callsEntered_of_outside env q hout
    omega
  · have hwp := hv.wrap (.inl hm)
    rw [intMax_eq] at hwp
    rcases hph with hn | ⟨-, hd⟩
    · have hwq := hw.normal hn
      rw [intMax_eq] at hwq
      omega
    · have hc := hv.count
      rw [if_pos hm, intMax_eq] at hc
      omega

/-! The transitions of a thread's own view, one for each kind of step. -/

/-- A move that keeps the phase and the calls. -/
theorem WaitView.move {p' : Pc} (hv : WaitView env X p q c) (hph : p'.phase = p.phase)
    (hl : callsLeft env p' = callsLeft env p) (hb : ∀ i j w, p' = .wait i j w → j ≤ 2 + env.extra i)
    (hour : ∀ i j v, p' = .wait i j (.spinLoaded v) →
      env.order X (callsBefore env.extra i + j) = .our → c ≤ v → callsEntered env p ≤ callsEntered env q)
    (hother : ∀ i j v, p' = .wait i j (.spinLoaded v) →
      env.order X (callsBefore env.extra i + j) = .other → v = c) :
    WaitView env X p' q c := by
  have he : callsEntered env p' = callsEntered env p := by
    simp only [callsEntered, hph, hl]
  refine ⟨hb, ?_, ?_, ?_, ?_, ?_, ?_, ?_, hother⟩
  · rw [hph, he]
    exact hv.count
  · rw [hph, he]
    exact hv.normal
  · rw [hph, he]
    exact hv.wrap
  · rw [hl]
    exact hv.barrier
  · rw [hph, he]
    exact hv.ahead
  · rw [hph, he]
    exact hv.behind
  · intro i j v hp ho hcv
    rw [he]
    exact hour i j v hp ho hcv

/-- At the increment the counter holds the calls entered modulo `INT_MAX`, so it is below
`INT_MAX` and the increment does not wrap. -/
theorem WaitView.inc_bounds {i j : Nat} (hv : WaitView env X (.wait i j .inc) q c) :
    0 ≤ c ∧ c < intMax := by
  have hc := hv.count
  simp only [Pc.phase_wait, WaitPc.phase, Phase.atMax, Bool.false_eq_true, if_false] at hc
  rw [hc, intMax_eq]
  omega

/-- The increment: the counter goes up by one, and it reaches `INT_MAX` exactly at the calls whose
number is a multiple of `INT_MAX`. -/
theorem WaitView.enter {i j : Nat} (hv : WaitView env X (.wait i j .inc) q c)
    (hw : WaitView env X.other q (.wait i j .inc) d) :
    WaitView env X (.wait i j (if c + 1 = intMax then .drain else .spin)) q (c + 1) := by
  have hc := hv.count
  have hbq := hw.barrier
  have heq := callsEntered_le env q
  have hb := hv.bound i j .inc rfl
  simp only [callsEntered_wait, Pc.phase_wait, WaitPc.phase, Phase.atMax, Bool.false_eq_true,
    if_false, if_true] at hc hbq
  rw [intMax_eq] at hc
  by_cases hm : c + 1 = intMax
  · rw [if_pos hm]
    rw [intMax_eq] at hm
    refine ⟨fun _ _ _ h => (by cases h; exact hb), ?_, (by simp), ?_, hv.barrier, ?_, (by simp),
      fun _ _ _ h => (by cases h), fun _ _ _ h => (by cases h)⟩
    · simp [hm, intMax_eq, Phase.atMax]
    · intro _
      simp only [callsEntered_wait, WaitPc.phase, reduceCtorEq, if_false, intMax_eq]
      omega
    · intro _
      simp only [callsEntered_wait, WaitPc.phase, reduceCtorEq, if_false]
      omega
  · rw [if_neg hm]
    rw [intMax_eq] at hm
    refine ⟨fun _ _ _ h => (by cases h; exact hb), ?_, ?_, (by simp [Phase.atMax]), hv.barrier,
      (by simp [Phase.atMax]), (by simp), fun _ _ _ h => (by cases h), fun _ _ _ h => (by cases h)⟩
    · simp only [Pc.phase_wait, WaitPc.phase, Phase.atMax, Bool.false_eq_true, if_false,
        callsEntered_wait, reduceCtorEq, intMax_eq]
      omega
    · intro _
      simp only [callsEntered_wait, WaitPc.phase, reduceCtorEq, if_false, intMax_eq]
      omega

/-- Out of the first loop of the wrap, to the store of `0`. -/
theorem WaitView.to_reset {p' : Pc} (hv : WaitView env X p q c) (hd : p.phase = .drain)
    (hr : p'.phase = .reset) (hl : callsLeft env p' = callsLeft env p)
    (hb : ∀ i j w, p' = .wait i j w → j ≤ 2 + env.extra i)
    (hbeh : callsEntered env p ≤ callsEntered env q) : WaitView env X p' q c := by
  have he : callsEntered env p' = callsEntered env p := by
    simp [callsEntered, hd, hr, hl]
  have hmp : p.phase.atMax := by simp [hd, Phase.atMax]
  have hmp' : p'.phase.atMax := by simp [hr, Phase.atMax]
  refine ⟨hb, ?_, by simp [hr], fun _ => he ▸ hv.wrap (.inl hmp), hl ▸ hv.barrier,
    fun _ => he ▸ hv.ahead hmp, fun _ => he ▸ hbeh,
    fun i j v h => absurd h (ne_spinLoaded_of_phase (by simp [hr]) i j v),
    fun i j v h => absurd h (ne_spinLoaded_of_phase (by simp [hr]) i j v)⟩
  rw [if_pos hmp']
  simpa [hmp] using hv.count

/-- The store of `0`: the counter the thread increments starts again. -/
theorem WaitView.to_settle {p' : Pc} (hv : WaitView env X p q c) (hr : p.phase = .reset)
    (hs : p'.phase = .settle) (hl : callsLeft env p' = callsLeft env p)
    (hb : ∀ i j w, p' = .wait i j w → j ≤ 2 + env.extra i) : WaitView env X p' q 0 := by
  have he : callsEntered env p' = callsEntered env p := by
    simp [callsEntered, hr, hs, hl]
  have hwr := hv.wrap (.inl (by simp [hr, Phase.atMax]))
  refine ⟨hb, ?_, by simp [hs], fun _ => he ▸ hwr, hl ▸ hv.barrier, by simp [hs, Phase.atMax],
    fun _ => he ▸ hv.behind (.inl hr),
    fun i j v h => absurd h (ne_spinLoaded_of_phase (by simp [hs]) i j v),
    fun i j v h => absurd h (ne_spinLoaded_of_phase (by simp [hs]) i j v)⟩
  simp [hs, he, hwr, Phase.atMax]

/-- The return of a call, once the other thread has entered it. -/
theorem WaitView.leave {p' : Pc} (hv : WaitView env X p q c)
    (hp : p.phase = .normal ∨ p.phase = .settle) (ho : p'.phase = .outside)
    (hl : callsLeft env p' = callsEntered env p)
    (hb : ∀ i j w, p' = .wait i j w → j ≤ 2 + env.extra i)
    (hbar : callsEntered env p ≤ callsEntered env q) : WaitView env X p' q c := by
  have he : callsEntered env p' = callsEntered env p := by
    rw [callsEntered_of_outside ho, hl]
  have hmp : p.phase.atMax = false := by rcases hp with h | h <;> simp [h, Phase.atMax]
  refine ⟨hb, ?_, by simp [ho], by simp [ho, Phase.atMax], hl ▸ hbar, by simp [ho, Phase.atMax],
    by simp [ho],
    fun i j v h => absurd h (ne_spinLoaded_of_phase (by simp [ho]) i j v),
    fun i j v h => absurd h (ne_spinLoaded_of_phase (by simp [ho]) i j v)⟩
  have hc := hv.count
  rw [if_neg (by simp [hmp])] at hc
  rw [if_neg (by simp [ho, Phase.atMax]), he]
  exact hc

theorem CallsStep.within {i j : Nat} {w w' : WaitPc} (h : w'.phase = .outside ↔ w.phase = .outside) :
    CallsStep env (.wait i j w) (.wait i j w') d :=
  .inl ⟨by simp [h], rfl⟩

theorem CallsStep.inc {i j : Nat} {w' : WaitPc} (h : w'.phase ≠ .outside) :
    CallsStep env (.wait i j .inc) (.wait i j w') d :=
  .inr (.inl ⟨rfl, by simp [h], rfl⟩)

theorem CallsStep.leave {i j : Nat} {w : WaitPc} (hb : j ≤ 2 + env.extra i)
    (h : w.phase = .normal ∨ (w.phase = .settle ∧ d ≤ 1)) :
    CallsStep env (.wait i j w) (afterWait env i j) d := by
  have hin : w.phase ≠ .outside := by rcases h with h | ⟨h, -⟩ <;> simp [h]
  refine .inr (.inr ⟨by simpa using h, ?_, ?_⟩) <;>
    simp [callsEntered_of_outside (phase_afterWait env i j), callsLeft_afterWait hb, hin]

end View

theorem phase_of_not_wait {p : Pc} (h : ∀ i j w, p ≠ .wait i j w) : p.phase = .outside := by
  cases p with
  | wait i j w => exact absurd rfl (h i j w)
  | _ => rfl

section Steps

variable {env : FzEnv} {s : FzState} {X : Thread}

/-- A step of `X` keeps `X`'s view, and changes its calls as `CallsStep` says. -/
theorem waitInv_step_self (hX : WaitInv env s X) (hY : WaitInv env s X.other) :
    WaitInv env (step env s X) X ∧ CallsStep env (s.pc X) ((step env s X).pc X) (s.cntr X) := by
  unfold WaitInv at hX hY ⊢
  rw [step_pc_other]
  rw [Thread.other_other] at hY
  by_cases hw : ∃ i j w, s.pc X = .wait i j w
  · obtain ⟨i, j, w, hp⟩ := hw
    have hb := hX.bound i j w hp
    have hbw : ∀ w', ∀ i' j' w'', Pc.wait i j w' = .wait i' j' w'' → j' ≤ 2 + env.extra i' := by
      intro w' i' j' w'' h
      cases h
      exact hb
    rw [step_wait hp, hp]
    rw [hp] at hX hY
    cases w with
    | inc =>
      obtain ⟨hc0, hcM⟩ := hX.inc_bounds
      simp only [waitStep, pairWaitStep, atomicInc_of_lt hc0 hcM, Function.update_self]
      refine ⟨hX.enter hY, CallsStep.inc ?_⟩
      split <;> simp
    | spin =>
      cases ho : env.order X (callsBefore env.extra i + j) <;>
        simp only [waitStep, pairWaitStep, ho, Function.update_self] <;>
        refine ⟨hX.move rfl rfl (hbw _) ?_ ?_, CallsStep.within (by simp)⟩ <;>
        intro i' j' v' h ho' <;> cases h <;> rw [ho] at ho' <;> cases ho'
      exact fun hc => hX.normal_exit hY rfl hc
    | spinLoaded v =>
      have hleave : ∀ d, callsEntered env (.wait i j (.spinLoaded v)) ≤ callsEntered env (s.pc X.other) →
          WaitView env X (afterWait env i j) (s.pc X.other) (s.cntr X.other) ∧
            CallsStep env (.wait i j (.spinLoaded v)) (afterWait env i j) d := fun d hbar =>
        ⟨hX.leave (.inl rfl) (phase_afterWait env i j) (by simp [callsLeft_afterWait hb])
          (fun _ _ _ => bound_afterWait) hbar, CallsStep.leave hb (.inl rfl)⟩
      have hspin : WaitView env X (.wait i j .spin) (s.pc X.other) (s.cntr X.other) :=
        hX.move rfl rfl (hbw _) (fun _ _ _ h => by cases h) (fun _ _ _ h => by cases h)
      cases ho : env.order X (callsBefore env.extra i + j)
      · by_cases hlt : v < s.cntr X.other
        · simp only [waitStep, pairWaitStep, ho, hlt, if_true, Function.update_self]
          exact ⟨hspin, CallsStep.within (by simp)⟩
        · simp only [waitStep, pairWaitStep, ho, hlt, if_false, Function.update_self]
          exact hleave _ (hX.loadedOur i j v rfl ho (not_lt.1 hlt))
      · by_cases hlt : s.cntr X < v
        · simp only [waitStep, pairWaitStep, ho, hlt, if_true, Function.update_self]
          exact ⟨hspin, CallsStep.within (by simp)⟩
        · simp only [waitStep, pairWaitStep, ho, hlt, if_false, Function.update_self]
          have hv := hX.loadedOther i j v rfl ho
          exact hleave _ (hX.normal_exit hY rfl (by omega))
    | drain =>
      by_cases h0 : 0 < s.cntr X
      · simp only [waitStep, pairWaitStep, h0, if_true, Function.update_self]
        exact ⟨hX.move rfl rfl (hbw _) (fun _ _ _ h => by cases h) (fun _ _ _ h => by cases h),
          CallsStep.within (by simp)⟩
      · simp only [waitStep, pairWaitStep, h0, if_false, Function.update_self]
        exact ⟨hX.to_reset rfl rfl rfl (hbw _) (hX.drain_exit hY rfl (.inl (not_lt.1 h0))),
          CallsStep.within (by simp)⟩
    | drainLoaded =>
      by_cases hM : s.cntr X < intMax
      · simp only [waitStep, pairWaitStep, hM, if_true, Function.update_self]
        exact ⟨hX.move rfl rfl (hbw _) (fun _ _ _ h => by cases h) (fun _ _ _ h => by cases h),
          CallsStep.within (by simp)⟩
      · simp only [waitStep, pairWaitStep, hM, if_false, Function.update_self]
        exact ⟨hX.to_reset rfl rfl rfl (hbw _) (hX.drain_exit hY rfl (.inr (not_lt.1 hM))),
          CallsStep.within (by simp)⟩
    | reset =>
      simp only [waitStep, pairWaitStep, Function.update_self]
      exact ⟨hX.to_settle rfl rfl rfl (hbw _), CallsStep.within (by simp)⟩
    | settle =>
      by_cases h1 : 1 < s.cntr X
      · simp only [waitStep, pairWaitStep, h1, if_true, Function.update_self]
        exact ⟨hX, CallsStep.within (by simp)⟩
      · simp only [waitStep, pairWaitStep, h1, if_false, Function.update_self]
        exact ⟨hX.leave (.inr rfl) (phase_afterWait env i j) (by simp [callsLeft_afterWait hb])
          (fun _ _ _ => bound_afterWait) (hX.behind (.inr rfl)),
          CallsStep.leave hb (.inr ⟨rfl, by omega⟩)⟩
  · simp only [not_exists] at hw
    have hph0 := phase_of_not_wait hw
    obtain ⟨hc, hph, hl, hb⟩ := @step_of_not_wait env s X hw
    rw [hc]
    refine ⟨hX.move (hph.trans hph0.symm) hl (fun i j w h => (hb i j w h).trans (by omega))
      (fun i j v h => absurd h (ne_spinLoaded_of_phase (by simp [hph]) i j v))
      (fun i j v h => absurd h (ne_spinLoaded_of_phase (by simp [hph]) i j v)), .inl ⟨?_, hl⟩⟩
    rw [callsEntered_of_outside hph, callsEntered_of_outside hph0, hl]

/-- A step of the other thread keeps `X`'s view. -/
theorem waitInv_step_other (hX : WaitInv env s X) (hY : WaitInv env s X.other) :
    WaitInv env (step env s X.other) X := by
  have hs := (waitInv_step_self hY (by simpa using hX)).2
  unfold WaitInv at hX hY ⊢
  have hpc : (step env s X.other).pc X = s.pc X := by
    simpa using step_pc_other env s X.other
  rw [hpc, step_cntr_self]
  rw [Thread.other_other] at hY
  exact hX.of_callsStep hY hs

theorem waitInv_step (h : ∀ X, WaitInv env s X) (Z X : Thread) : WaitInv env (step env s Z) X := by
  rcases Thread.eq_or_eq_other X Z with rfl | rfl
  · exact (waitInv_step_self (h Z) (h Z.other)).1
  · exact waitInv_step_other (h X) (h X.other)

end Steps

theorem Pc.spins_eq_true {p : Pc} {our other : Int} :
    p.spins our other = true ↔ (p.phase = .normal ∧ our < other) ∨
      (p.phase = .drain ∧ 0 < our ∧ our < intMax) ∨ (p.phase = .settle ∧ 1 < our) := by
  cases p with
  | wait i j w => cases w <;> simp [Pc.spins, WaitPc.spins]
  | _ => simp [Pc.spins, Pc.phase]

/-- The two threads never both spin with their loop conditions true: the counters rule out every
pair of loops.  The one pair that needs the distance between the threads is a thread in
`our < other` against one in `our > 1`: the latter has reset, so the former is one call past
the wrap and its counter is `1`. -/
theorem WaitView.not_both_spin {env : FzEnv} {X : Thread} {p q : Pc} {c d : Int}
    (hv : WaitView env X p q c) (hw : WaitView env X.other q p d) :
    ¬ (p.spins d c = true ∧ q.spins c d = true) := by
  rintro ⟨hp, hq⟩
  rw [Pc.spins_eq_true] at hp hq
  -- the facts of both views, each guarded by its phase
  have hcp := hv.count
  have hcq := hw.count
  have hnp := hv.normal
  have hnq := hw.normal
  have hwp := hv.wrap
  have hwq := hw.wrap
  have hbp := hv.barrier
  have hbq := hw.barrier
  have hhp := hv.behind
  have hhq := hw.behind
  have hep := callsEntered_le env p
  have heq := callsEntered_le env q
  have hlp := callsLeft_le env p
  have hlq := callsLeft_le env q
  rw [intMax_eq] at hcp hcq hnp hnq hwp hwq hp hq
  rcases hp with ⟨hp, h1⟩ | ⟨hp, h1⟩ | ⟨hp, h1⟩ <;>
    rcases hq with ⟨hq, h2⟩ | ⟨hq, h2⟩ | ⟨hq, h2⟩ <;>
    simp only [hp, hq, Phase.atMax, Bool.false_eq_true, if_false, if_true, reduceCtorEq,
      or_false, or_true, forall_const] at hcp hcq hnp hnq hwp hwq hhp hhq <;>
    omega

/-- The invariant of the counters holds in every reachable state. -/
theorem waitInv_reachable {env : FzEnv} {s : FzState} (h : Sched.Reachable (step env) fzInit s) :
    ∀ X, WaitInv env s X :=
  h.invariant (P := fun s => ∀ X, WaitInv env s X) (waitInv_init env)
    (fun _ Z hs X => waitInv_step hs Z X)

/-- Each counter stays in `[0, INT_MAX]`. -/
theorem WaitView.count_bounds {env : FzEnv} {X : Thread} {p q : Pc} {c : Int}
    (hv : WaitView env X p q c) : 0 ≤ c ∧ c ≤ intMax := by
  have hc := hv.count
  rw [intMax_eq] at hc ⊢
  split at hc <;> omega

/-! ### What run_a and run_b return -/

/-- The iteration a thread at `p` is in. -/
def Pc.iter : Pc → Nat
  | .top i | .wait i _ _ | .decide i | .cleanup i | .join i | .done i => i

/-- Whether a thread at `p` has stopped looping: A from its call of `tst_fzsync_pair_cleanup` on,
B once run_b returned `0`. -/
def Pc.stopping : Pc → Bool
  | .cleanup _ | .join _ | .done _ => true
  | _ => false

/-- How many times the run function of a thread at `p` has returned. -/
def runsDone : Pc → Nat
  | .top i | .decide i | .cleanup i | .join i => i
  | .wait i 0 _ => i
  | .wait i (_ + 1) _ => i + 1
  | .done i => i + 1

/-- What `exit` holds while A is at `p`: `0` from the reset, then what run_a stored in the current
iteration. -/
def exitVal (env : FzEnv) : Pc → Int
  | .top _ => 0
  | .wait i _ _ | .decide i | .cleanup i | .join i | .done i => if env.exits i then 1 else 0

/-- What a thread's position `p` says of the values `r` its run function has returned: every
iteration before the current one went on, an iteration past its first wait or stopping is one
that run_a continued or ended, and `r` holds, in order, what run_a decided in the iterations
returned from. -/
structure RunView (env : FzEnv) (p : Pc) (r : List Bool) : Prop where
  past : ∀ k, k < p.iter → env.exits k = false
  cont : ∀ i j w, p = .wait i j w → 0 < j → env.exits i = false
  stop : p.stopping = true → env.exits p.iter = true
  runs : r = (List.range (runsDone p)).map (fun k => !env.exits k)

/-- The invariant of the whole program: both threads' `RunView`, what `exit` holds, and that A
has joined B before it ends. -/
structure ProgInv (env : FzEnv) (s : FzState) : Prop where
  view : ∀ X, RunView env (s.pc X) (s.runs X)
  exit : s.exit = exitVal env (s.pc .a)
  joined : ∀ i, s.pc .a = .done i → ∃ i', s.pc .b = .done i'

theorem progInv_init (env : FzEnv) : ProgInv env fzInit := by
  refine ⟨fun X => ⟨?_, ?_, ?_, ?_⟩, rfl, ?_⟩ <;> simp [fzInit, Pc.iter, Pc.stopping, runsDone]

/-- The calls before an iteration grow with it, by at least the three calls of each iteration
passed. -/
theorem callsBefore_mono (extra : Nat → Nat) : Monotone (callsBefore extra) :=
  monotone_nat_of_le_succ fun _ => Nat.le_add_right _ _

theorem callsBefore_add_le (extra : Nat → Nat) {i k : Nat} (h : i < k) :
    callsBefore extra i + (3 + extra i) ≤ callsBefore extra k :=
  callsBefore_mono extra (Nat.succ_le_of_lt h)

/-- The call number `callsBefore k + j` of a call of iteration `k` lies in iteration `i` only if
`k = i`. -/
theorem iter_eq_of_calls {extra : Nat → Nat} {i k j : Nat} (hj : j ≤ 2 + extra k)
    (h1 : callsBefore extra i ≤ callsBefore extra k + j)
    (h2 : callsBefore extra k + j ≤ callsBefore extra i + 2 + extra i) : k = i := by
  rcases Nat.lt_trichotomy k i with hlt | heq | hgt
  · have := callsBefore_add_le extra hlt
    omega
  · exact heq
  · have := callsBefore_add_le extra hgt
    omega

/-- A thread that has entered the first call of iteration `i` and not left the second is in
iteration `i` past its top, so `exit` holds what run_a stored in iteration `i`. -/
theorem exitVal_of_calls {env : FzEnv} {p : Pc} {i : Nat}
    (hb : ∀ i j w, p = .wait i j w → j ≤ 2 + env.extra i)
    (h1 : callsBefore env.extra i + 1 ≤ callsEntered env p)
    (h2 : callsLeft env p ≤ callsBefore env.extra i + 1) :
    exitVal env p = if env.exits i then 1 else 0 := by
  cases p with
  | top k =>
    simp only [callsEntered_of_outside (rfl : (Pc.top k).phase = .outside), callsLeft] at h1 h2
    have hk := @iter_eq_of_calls env.extra i k 0 (by omega) (by omega) (by omega)
    subst hk
    omega
  | wait k j w =>
    have he := callsEntered_le env (.wait k j w)
    simp only [callsLeft_wait] at h2 he
    rw [@iter_eq_of_calls env.extra i k j (hb k j w rfl) (by omega) (by omega)]
    rfl
  | decide k | cleanup k | join k | done k =>
    simp only [callsEntered, callsLeft, Pc.phase, if_true] at h1 h2
    rw [@iter_eq_of_calls env.extra i k 1 (by omega) (by omega) (by omega)]
    rfl

section Runs

variable {env : FzEnv} {p q : Pc} {r : List Bool}

/-- A move within the iteration that does not return from the run function. -/
theorem RunView.move (hv : RunView env p r) (hi : q.iter = p.iter) (hn : runsDone q = runsDone p)
    (hc : ∀ i j w, q = .wait i j w → 0 < j → env.exits i = false)
    (hs : q.stopping = true → env.exits p.iter = true) : RunView env q r :=
  ⟨hi ▸ hv.past, hc, hi ▸ hs, hn ▸ hv.runs⟩

/-- The return of the run function, with what run_a decided in this iteration. -/
theorem RunView.ret (hv : RunView env p r) (hi : q.iter = p.iter) (hn0 : runsDone p = p.iter)
    (hn : runsDone q = p.iter + 1) (hc : ∀ i j w, q = .wait i j w → 0 < j → env.exits i = false)
    (hs : q.stopping = true → env.exits p.iter = true) :
    RunView env q (r ++ [!env.exits p.iter]) := by
  refine ⟨hi ▸ hv.past, hc, hi ▸ hs, ?_⟩
  rw [hn, List.range_succ, List.map_append, hv.runs, hn0]
  rfl

theorem RunView.start {i : Nat} (hv : RunView env (.top i) r) : RunView env (.wait i 0 .inc) r :=
  hv.move rfl rfl (fun _ _ _ h hj => by cases h; omega) (fun h => by cases h)

theorem RunView.within {i j : Nat} {w w' : WaitPc} (hv : RunView env (.wait i j w) r) :
    RunView env (.wait i j w') r :=
  hv.move rfl (by cases j <;> rfl) (fun _ _ _ h hj => by cases h; exact hv.cont i j w rfl hj)
    (fun h => by cases h)

/-- The return of a call of `tst_fzsync_pair_wait`: to run's test of `exit` after the first
call, to the next call, or to the next iteration, which run_a has continued. -/
theorem RunView.afterWait {i j : Nat} {w : WaitPc} (hv : RunView env (.wait i j w) r) :
    RunView env (afterWait env i j) r := by
  unfold Ltp.afterWait
  split_ifs with h0 h1
  · subst h0
    exact hv.move rfl rfl (fun _ _ _ h => by cases h) (fun h => by cases h)
  · obtain ⟨j, rfl⟩ := Nat.exists_eq_succ_of_ne_zero h0
    exact hv.move rfl rfl (fun _ _ _ h _ => by cases h; exact hv.cont i (j + 1) w rfl (by omega))
      (fun h => by cases h)
  · obtain ⟨j, rfl⟩ := Nat.exists_eq_succ_of_ne_zero h0
    have hi := hv.cont i (j + 1) w rfl (by omega)
    refine ⟨fun k hk => ?_, fun _ _ _ h => (by cases h), fun h => (by cases h), hv.runs⟩
    rcases Nat.lt_succ_iff_lt_or_eq.1 hk with hk | rfl
    · exact hv.past k hk
    · exact hi

/-- Where a call's step leads a thread. -/
theorem waitStep_pc_self (s : FzState) (X : Thread) (i j : Nat) (w : WaitPc) :
    (∃ w', (waitStep env s X i j w).pc X = .wait i j w') ∨
      (waitStep env s X i j w).pc X = afterWait env i j := by
  simp only [waitStep, Function.update_self]
  split
  · exact .inl ⟨_, rfl⟩
  · exact .inr rfl

theorem RunView.waitStep {s : FzState} {X : Thread} {i j : Nat} {w : WaitPc}
    (hv : RunView env (.wait i j w) r) : RunView env ((waitStep env s X i j w).pc X) r := by
  rcases waitStep_pc_self s X i j w with ⟨w', h⟩ | h <;> rw [h]
  · exact hv.within
  · exact hv.afterWait

theorem exitVal_afterWait {i j : Nat} (hc : 0 < j → env.exits i = false) :
    exitVal env (afterWait env i j) = if env.exits i then 1 else 0 := by
  unfold afterWait
  by_cases h0 : j = 0
  · rw [if_pos h0]
    rfl
  · by_cases h1 : j < 2 + env.extra i
    · rw [if_neg h0, if_pos h1]
      rfl
    · rw [if_neg h0, if_neg h1]
      simp [exitVal, hc (Nat.pos_of_ne_zero h0)]

end Runs

@[simp] theorem FzState.goto_pc (s : FzState) (X : Thread) (p : Pc) :
    (s.goto X p).pc = Function.update s.pc X p := rfl

@[simp] theorem FzState.goto_runs (s : FzState) (X : Thread) (p : Pc) : (s.goto X p).runs = s.runs :=
  rfl

@[simp] theorem FzState.goto_exit (s : FzState) (X : Thread) (p : Pc) : (s.goto X p).exit = s.exit :=
  rfl

@[simp] theorem FzState.ret_pc (s : FzState) (X : Thread) (v : Bool) (p : Pc) :
    (s.ret X v p).pc = Function.update s.pc X p := rfl

@[simp] theorem FzState.ret_runs (s : FzState) (X : Thread) (v : Bool) (p : Pc) :
    (s.ret X v p).runs = Function.update s.runs X (s.runs X ++ [v]) := rfl

@[simp] theorem FzState.ret_exit (s : FzState) (X : Thread) (v : Bool) (p : Pc) :
    (s.ret X v p).exit = s.exit := rfl

@[simp] theorem waitStep_runs (env : FzEnv) (s : FzState) (X : Thread) (i j : Nat) (w : WaitPc) :
    (waitStep env s X i j w).runs = s.runs := rfl

@[simp] theorem waitStep_exit (env : FzEnv) (s : FzState) (X : Thread) (i j : Nat) (w : WaitPc) :
    (waitStep env s X i j w).exit = s.exit := rfl

theorem afterWait_ne_done (env : FzEnv) (i j k : Nat) : afterWait env i j ≠ .done k := by
  unfold afterWait
  split_ifs <;> simp

section Prog

variable {env : FzEnv} {s s' : FzState}

/-- When B tests `exit` after its first call of iteration `i`, A has entered that call and not left
the next one, so it is in iteration `i` past its store: `exit` holds what run_a decided there. -/
theorem exit_of_decide_b (hw : ∀ X, WaitInv env s X) (hp : ProgInv env s) {i : Nat}
    (hb : s.pc .b = .decide i) : s.exit = if env.exits i then 1 else 0 := by
  have hA := hw .a
  have hB := hw .b
  have h1 := hB.barrier
  have h2 := hA.barrier
  rw [hb] at h1
  simp only [Thread.other, hb, callsEntered, callsLeft, Pc.phase, if_true] at h2
  rw [hp.exit]
  exact exitVal_of_calls hA.bound h1 h2

theorem exitVal_waitStep {X : Thread} {i j : Nat} {w : WaitPc} {r : List Bool}
    (hv : RunView env (.wait i j w) r) :
    exitVal env ((waitStep env s X i j w).pc X) = exitVal env (.wait i j w) := by
  rcases waitStep_pc_self s X i j w with ⟨w', h⟩ | h <;> rw [h]
  · rfl
  · exact exitVal_afterWait (hv.cont i j w rfl)

theorem waitStep_ne_done (X : Thread) (i j : Nat) (w : WaitPc) (k : Nat) :
    (waitStep env s X i j w).pc X ≠ .done k := by
  rcases waitStep_pc_self s X i j w with ⟨w', h⟩ | h <;> rw [h]
  · simp
  · exact afterWait_ne_done env i j k

/-- A step of A keeps the invariant if it keeps A's view and `exit`: B is where it was. -/
theorem ProgInv.of_stepA (hp : ProgInv env s) (hpb : s'.pc .b = s.pc .b) (hrb : s'.runs .b = s.runs .b)
    (hva : RunView env (s'.pc .a) (s'.runs .a)) (he : s'.exit = exitVal env (s'.pc .a))
    (hj : ∀ i, s'.pc .a = .done i → ∃ i', s.pc .b = .done i') : ProgInv env s' := by
  refine ⟨fun X => ?_, he, fun i h => hpb ▸ hj i h⟩
  cases X with
  | a => exact hva
  | b => exact hpb ▸ hrb ▸ hp.view .b

/-- A step of B keeps the invariant if it keeps B's view: A and `exit` are where they were, and B
does not leave its end. -/
theorem ProgInv.of_stepB (hp : ProgInv env s) (hpa : s'.pc .a = s.pc .a) (hra : s'.runs .a = s.runs .a)
    (hex : s'.exit = s.exit) (hvb : RunView env (s'.pc .b) (s'.runs .b))
    (hj : ∀ i', s.pc .b = .done i' → s'.pc .b = .done i') : ProgInv env s' := by
  refine ⟨fun X => ?_, hex.trans (hpa ▸ hp.exit), fun i h => ?_⟩
  · cases X with
    | a => exact hpa ▸ hra ▸ hp.view .a
    | b => exact hvb
  · obtain ⟨i', h'⟩ := hp.joined i (hpa ▸ h)
    exact ⟨i', hj i' h'⟩

/-- A step of A.  The stores of `exit` are run_a's of its decision and cleanup's of `1` once A
has decided to stop. -/
theorem progInv_stepA (hp : ProgInv env s) : ProgInv env (step env s .a) := by
  have hv := hp.view .a
  have he := hp.exit
  simp only [step, stepA]
  cases hpa : s.pc .a with
  | top i =>
    rw [hpa] at hv
    refine hp.of_stepA (by simp) (by simp) ?_ ?_ ?_ <;> simp [exitVal]
    exact hv.start
  | wait i j w =>
    rw [hpa] at hv he
    refine hp.of_stepA (by simp [waitStep]) rfl ?_ ?_ (fun k h => absurd h (waitStep_ne_done .a i j w k))
    · exact hv.waitStep
    · rw [waitStep_exit, exitVal_waitStep hv, he]
  | decide i =>
    rw [hpa] at hv he
    dsimp only
    split
    · rename_i hx
      refine hp.of_stepA (by simp) (by simp) ?_ ?_ ?_ <;> simp [he, exitVal]
      exact hv.move rfl rfl (fun _ _ _ h => by cases h) (fun _ => hx)
    · rename_i hx
      have hr := hv.ret (q := .wait i 1 .inc) rfl rfl rfl
        (fun _ _ _ h _ => by cases h; simpa using hx) (fun h => by cases h)
      refine hp.of_stepA (by simp) (by simp) ?_ ?_ ?_ <;> simp [he, exitVal]
      simpa [Pc.iter, hx] using hr
  | cleanup i =>
    rw [hpa] at hv
    have hx : env.exits i = true := hv.stop rfl
    refine hp.of_stepA (by simp) (by simp) ?_ ?_ ?_ <;> simp [exitVal, hx]
    exact hv.move rfl rfl (fun _ _ _ h => by cases h) (fun _ => hx)
  | join i =>
    rw [hpa] at hv he
    dsimp only
    split
    · rename_i k hd
      have hx : env.exits i = true := hv.stop rfl
      have hr := hv.ret (q := .done i) rfl rfl rfl (fun _ _ _ h => by cases h) (fun _ => hx)
      refine hp.of_stepA (by simp) (by simp) ?_ ?_ (fun _ _ => ⟨k, hd⟩) <;> simp [he, exitVal]
      simpa [Pc.iter, hx] using hr
    · exact hp
  | done i => exact hp

/-- A step of B.  Its one read of shared state outside `tst_fzsync_pair_wait` is the load of
`exit`, which `exit_of_decide_b` pins to run_a's decision of the same iteration. -/
theorem progInv_stepB (hw : ∀ X, WaitInv env s X) (hp : ProgInv env s) : ProgInv env (step env s .b) := by
  have hv := hp.view .b
  simp only [step, stepB]
  cases hpb : s.pc .b with
  | top i =>
    rw [hpb] at hv
    refine hp.of_stepB (by simp) (by simp) rfl ?_ (fun _ h => by simp [hpb] at h)
    simpa using hv.start
  | wait i j w =>
    rw [hpb] at hv
    refine hp.of_stepB (by simp [waitStep]) rfl rfl ?_ (fun _ h => by simp [hpb] at h)
    simpa using hv.waitStep
  | decide i =>
    rw [hpb] at hv
    have hex := exit_of_decide_b hw hp hpb
    dsimp only
    split
    · rename_i hne
      have hx : env.exits i = true := by
        by_contra hx
        simp [hex, hx] at hne
      have hr := hv.ret (q := .done i) rfl rfl rfl (fun _ _ _ h => by cases h) (fun _ => hx)
      refine hp.of_stepB (by simp) (by simp) rfl ?_ (fun _ h => by simp [hpb] at h)
      simpa [Pc.iter, hx] using hr
    · rename_i hne
      have hx : env.exits i = false := by
        by_contra hx
        simp [hex, hx] at hne
      have hr := hv.ret (q := .wait i 1 .inc) rfl rfl rfl
        (fun _ _ _ h _ => by cases h; exact hx) (fun h => by cases h)
      refine hp.of_stepB (by simp) (by simp) rfl ?_ (fun _ h => by simp [hpb] at h)
      simpa [Pc.iter, hx] using hr
  | cleanup i | join i | done i => exact hp

end Prog

/-- The program invariant holds in every reachable state. -/
theorem progInv_reachable {env : FzEnv} {s : FzState} (h : Sched.Reachable (step env) fzInit s) :
    ProgInv env s :=
  h.invariant_of (fun _ hr => waitInv_reachable hr) (progInv_init env) fun _ X _ hw hp => by
    cases X with
    | a => exact progInv_stepA hp
    | b => exact progInv_stepB hw hp

/-! ### How far apart the two threads' iterations are -/

theorem iter_le_runsDone (p : Pc) : p.iter ≤ runsDone p := by
  cases p with
  | wait i j w => cases j <;> simp [runsDone, Pc.iter]
  | _ => simp [runsDone, Pc.iter]

theorem runsDone_le_iter (p : Pc) : runsDone p ≤ p.iter + 1 := by
  cases p with
  | wait i j w => cases j <;> simp [runsDone, Pc.iter]
  | _ => simp [runsDone, Pc.iter]

theorem callsBefore_iter_le (env : FzEnv) (p : Pc) :
    callsBefore env.extra p.iter ≤ callsLeft env p := by
  cases p <;> simp [callsLeft, Pc.iter]

/-- A run function returns only after the first call of its iteration. -/
theorem callsLeft_of_runsDone {env : FzEnv} {p : Pc} (h : runsDone p = p.iter + 1) :
    callsBefore env.extra p.iter + 1 ≤ callsLeft env p := by
  cases p with
  | wait i j w =>
    cases j with
    | zero => simp [runsDone, Pc.iter] at h
    | succ j => simp [callsLeft, Pc.iter]
  | top i | decide i | cleanup i | join i => simp [runsDone, Pc.iter] at h
  | done i => simp [callsLeft, Pc.iter]

/-- A thread has entered no call of a later iteration. -/
theorem callsEntered_le_iter {env : FzEnv} {p : Pc}
    (hb : ∀ i j w, p = .wait i j w → j ≤ 2 + env.extra i) :
    callsEntered env p ≤ callsBefore env.extra (p.iter + 1) := by
  have he := callsEntered_le env p
  cases p with
  | wait i j w =>
    have := hb i j w rfl
    simp only [callsLeft_wait] at he
    simp only [Pc.iter, callsBefore]
    omega
  | top i =>
    simp only [callsEntered_of_outside (rfl : (Pc.top i).phase = .outside), callsLeft, Pc.iter,
      callsBefore]
    omega
  | _ => simp only [callsLeft, Pc.iter, callsBefore] at he ⊢; omega

/-- Once a thread at `p` has left no more calls than one at `q` has entered, its run function has
returned at most once more than the other's. -/
theorem runsDone_le_of_calls {env : FzEnv} {p q : Pc}
    (hb : ∀ i j w, q = .wait i j w → j ≤ 2 + env.extra i)
    (h : callsLeft env p ≤ callsEntered env q) : runsDone p ≤ runsDone q + 1 := by
  have hp := runsDone_le_iter p
  have hq := iter_le_runsDone q
  by_cases hi : p.iter ≤ q.iter
  · omega
  · -- `p` is in a later iteration, so it has left only the calls before it, and `q` has entered
    -- all of the previous iteration's
    have h1 := callsBefore_iter_le env p
    have h2 := callsEntered_le_iter hb
    have h3 := callsBefore_mono env.extra (show q.iter + 1 ≤ p.iter by omega)
    have hnot : runsDone p ≠ p.iter + 1 := fun he => by
      have : callsBefore env.extra p.iter + 1 ≤ callsLeft env p := callsLeft_of_runsDone he
      omega
    have hpq : p.iter = q.iter + 1 := by
      by_contra hne
      have := callsBefore_add_le env.extra (show q.iter + 1 < p.iter by omega)
      omega
    omega

/-! ### What the barrier guarantees, in every reachable state -/

theorem prefix_map_range {α : Type*} (f : Nat → α) {m n : Nat} (h : m ≤ n) :
    (List.range m).map f <+: (List.range n).map f := by
  have hr : List.range m <+: List.range n := by
    simpa [Nat.min_eq_left h] using List.take_prefix m (List.range n)
  exact hr.map f

/-- Each thread's run function has returned the values of the iterations it has finished, so the
thread that has finished fewer has returned a prefix of the other's values. -/
theorem ProgInv.runs_agree {env : FzEnv} {s : FzState} (hp : ProgInv env s) :
    s.runs .a <+: s.runs .b ∨ s.runs .b <+: s.runs .a := by
  rw [(hp.view .a).runs, (hp.view .b).runs]
  rcases le_total (runsDone (s.pc .a)) (runsDone (s.pc .b)) with hle | hle
  · exact .inl (prefix_map_range _ hle)
  · exact .inr (prefix_map_range _ hle)

/-- The environment of the runs below: run_a stops in iteration 0, which makes no extra wait
pairs, and every call loads its own counter first. -/
def stopFirstEnv : FzEnv := ⟨fun i => i == 0, fun _ => 0, fun _ _ => .our⟩

/-- A steps twice and B once: B is about to increment its counter in its first call of
tst_fzsync_pair_wait. -/
def enterRun : FzState := Sched.run (step stopFirstEnv) fzInit [.a, .a, .b]

/-- Thirteen steps, after which A has joined B at the end of iteration 0. -/
def joinRun : FzState :=
  Sched.run (step stopFirstEnv) fzInit [.a, .a, .b, .b, .a, .a, .a, .a, .a, .b, .b, .b, .a]

section Guarantees

variable {env : FzEnv} {s : FzState}

/-- No thread returns from its `k`-th call of `tst_fzsync_pair_wait` before the other thread has
entered its `k`-th call. -/
theorem pairWait_barrier (h : Sched.Reachable (step env) fzInit s) (X : Thread) :
    callsLeft env (s.pc X) ≤ callsEntered env (s.pc X.other) :=
  (waitInv_reachable h X).barrier

theorem pairWait_barrier_run :
    callsLeft stopFirstEnv (enterRun.pc .b) ≤
      callsEntered stopFirstEnv (enterRun.pc Thread.b.other) :=
  pairWait_barrier (Sched.reachable_run _) .b

/-- run_a and run_b return the same value in every iteration: the values one thread's run
function has returned are a prefix of the other's. -/
theorem run_results_agree (h : Sched.Reachable (step env) fzInit s) :
    s.runs .a <+: s.runs .b ∨ s.runs .b <+: s.runs .a :=
  (progInv_reachable h).runs_agree

theorem run_results_agree_run :
    joinRun.runs .a <+: joinRun.runs .b ∨ joinRun.runs .b <+: joinRun.runs .a :=
  run_results_agree (Sched.reachable_run _)

/-- Neither thread's run function runs more than one iteration ahead of the other's. -/
theorem run_results_lockstep (h : Sched.Reachable (step env) fzInit s) (X : Thread) :
    (s.runs X).length ≤ (s.runs X.other).length + 1 := by
  have hp := progInv_reachable h
  have hw := waitInv_reachable h X.other
  rw [(hp.view X).runs, (hp.view X.other).runs, List.length_map, List.length_map,
    List.length_range, List.length_range]
  exact runsDone_le_of_calls hw.bound (pairWait_barrier h X)

theorem run_results_lockstep_run :
    (joinRun.runs .a).length ≤ (joinRun.runs Thread.a.other).length + 1 :=
  run_results_lockstep (Sched.reachable_run _) .a

/-- When A has ended, after `tst_fzsync_pair_cleanup` joined B, B has ended in the same
iteration and both run functions have returned the same values. -/
theorem run_results_eq_of_done (h : Sched.Reachable (step env) fzInit s) {i : Nat}
    (hd : s.pc .a = .done i) : s.pc .b = .done i ∧ s.runs .a = s.runs .b := by
  have hp := progInv_reachable h
  obtain ⟨i', hd'⟩ := hp.joined i hd
  have hva := hp.view .a
  have hvb := hp.view .b
  rw [hd] at hva
  rw [hd'] at hvb
  -- both iterations are the first one in which run_a decided to stop
  have hi : i' = i := by
    have hsa : env.exits i = true := hva.stop rfl
    have hsb : env.exits i' = true := hvb.stop rfl
    rcases Nat.lt_trichotomy i' i with hlt | heq | hgt
    · simp [hva.past i' hlt] at hsb
    · exact heq
    · simp [hvb.past i hgt] at hsa
  subst hi
  exact ⟨hd', hva.runs.trans hvb.runs.symm⟩

theorem run_results_eq_of_done_run :
    joinRun.pc .a = .done 0 ∧ joinRun.pc .b = .done 0 ∧ joinRun.runs .a = joinRun.runs .b :=
  ⟨by decide, run_results_eq_of_done (Sched.reachable_run _) (by decide)⟩

/-- The two threads never both spin in `tst_fzsync_pair_wait` with their loop conditions true. -/
theorem pairWait_not_both_spinning (h : Sched.Reachable (step env) fzInit s) :
    ¬ (Spinning s .a ∧ Spinning s .b) :=
  (waitInv_reachable h .a).not_both_spin (waitInv_reachable h .b)

theorem pairWait_not_both_spinning_run : ¬ (Spinning enterRun .a ∧ Spinning enterRun .b) :=
  pairWait_not_both_spinning (Sched.reachable_run _)

/-- Each counter stays in `[0, INT_MAX]`. -/
theorem pairWait_cntr_bounds (h : Sched.Reachable (step env) fzInit s) (X : Thread) :
    0 ≤ s.cntr X ∧ s.cntr X ≤ intMax := by
  simpa using (waitInv_reachable h X.other).count_bounds

theorem pairWait_cntr_bounds_run : 0 ≤ enterRun.cntr .b ∧ enterRun.cntr .b ≤ intMax :=
  pairWait_cntr_bounds (Sched.reachable_run _) .b

/-- No increment of `tst_fzsync_pair_wait` overflows: the counter is below `INT_MAX` before it,
so `tst_atomic_inc` adds one. -/
theorem pairWait_inc_no_overflow (h : Sched.Reachable (step env) fzInit s) {X : Thread} {i j : Nat}
    (hp : s.pc X = .wait i j .inc) :
    s.cntr X.other < intMax ∧ atomicInc (s.cntr X.other) = s.cntr X.other + 1 := by
  have hw := waitInv_reachable h X
  unfold WaitInv at hw
  rw [hp] at hw
  obtain ⟨h0, hM⟩ := hw.inc_bounds
  exact ⟨hM, atomicInc_of_lt h0 hM⟩

theorem pairWait_inc_no_overflow_run :
    enterRun.pc .b = .wait 0 0 .inc ∧ enterRun.cntr Thread.b.other < intMax ∧
      atomicInc (enterRun.cntr Thread.b.other) = enterRun.cntr Thread.b.other + 1 :=
  ⟨by decide, pairWait_inc_no_overflow (i := 0) (j := 0) (Sched.reachable_run _) (by decide)⟩

/-- Outside `tst_fzsync_pair_wait` the counter a thread increments holds the number of calls it
has returned from, modulo `INT_MAX`. -/
theorem pairWait_cntr_counts (h : Sched.Reachable (step env) fzInit s) {X : Thread}
    (ho : (s.pc X).phase = .outside) :
    s.cntr X.other = (callsLeft env (s.pc X) : Int) % intMax := by
  have hc := (waitInv_reachable h X).count
  rw [ho, callsEntered_of_outside ho] at hc
  simpa [Phase.atMax] using hc

theorem pairWait_cntr_counts_run :
    (enterRun.pc .b).phase = .outside ∧
      enterRun.cntr Thread.b.other = (callsLeft stopFirstEnv (enterRun.pc .b) : Int) % intMax :=
  ⟨by decide, pairWait_cntr_counts (Sched.reachable_run _) (by decide)⟩

/-- The safety of the pair barrier over every interleaving of the two threads' atomic steps and
every environment, through any number of wrap-arounds of the counters: no thread leaves its
`k`-th call of `tst_fzsync_pair_wait` before the other has entered its `k`-th, the two run
functions return the same value in every iteration, and the two threads never both spin. -/
theorem fzsync_pair_safety (h : Sched.Reachable (step env) fzInit s) :
    (∀ X, callsLeft env (s.pc X) ≤ callsEntered env (s.pc X.other)) ∧
      (s.runs .a <+: s.runs .b ∨ s.runs .b <+: s.runs .a) ∧ ¬ (Spinning s .a ∧ Spinning s .b) :=
  ⟨fun X => (waitInv_reachable h X).barrier, (progInv_reachable h).runs_agree,
    (waitInv_reachable h .a).not_both_spin (waitInv_reachable h .b)⟩

theorem fzsync_pair_safety_join :
    (∀ X, callsLeft stopFirstEnv (joinRun.pc X) ≤ callsEntered stopFirstEnv (joinRun.pc X.other)) ∧
      (joinRun.runs .a <+: joinRun.runs .b ∨ joinRun.runs .b <+: joinRun.runs .a) ∧
      ¬ (Spinning joinRun .a ∧ Spinning joinRun .b) :=
  fzsync_pair_safety (Sched.reachable_run _)

end Guarantees

end Ltp
