import Ltp.Pan.SchedulerRuns

/-!
# What pan's modes guarantee

From the invariants of `SchedulerInv` and `SchedulerRuns`:

* with `-S` the commands `run_child` is called with are the collection's, in order from `c` and
  round again after the last (`pan_sequential_order`); without `-s` and `-t`, `starts` is the
  number of commands, so they are the collection's first ones, each at most once
  (`pan_sequential_once`);
* with `-e` pan exits with the number of failed tests: exits other than `0` and `TCONF`, but not
  an exit `130` after pan's own signal, and signals that pan did not send
  (`pan_exit_counts_failures`);
* a signal caught while `fork_in_road` is off stops the scheduler: no child starts after it
  (`pan_signal_stops`);
* an idle pan (`-y` after `SIGUSR2` or an error) starts no child as long as one of its children
  runs (`pan_idle_no_start`).

What a run shows, the commands tried and the failed tests, is listed by `Sched.collect`.
-/

namespace Ltp

/-! ### The frame of the steps that are not the inner loop's body -/

section Frame

variable {cfg : PanConfig} {a : Answers} {s : PanState}

/-- `check_pids` changes only the orphan records, the zoo, the slots with `num_active`, the
children and the live groups, `err` and the point. -/
theorem checkPids_eq (cfg : PanConfig) (a : Answers) (s : PanState) :
    ∃ os z r n ch g e p, checkPids cfg a s =
      { s with
        orphans := os, zoo := z, running := r, numActive := n, children := ch, groups := g,
        err := e, pc := p } := by
  unfold checkPids
  cases a.reap with
  | none => exact ⟨_, _, _, _, _, _, _, _, rfl⟩
  | some rp =>
    obtain ⟨cpid, st⟩ := rp
    dsimp only
    split
    · exact ⟨_, _, _, _, _, _, _, _, rfl⟩
    · split_ifs <;> exact ⟨_, _, _, _, _, _, _, _, rfl⟩

/-- Only the inner loop's body moves `c`. -/
theorem c_mainStep (hpc : s.pc ≠ .launch) : (mainStep cfg a s).c = s.c := by
  cases hp : s.pc with
  | launch => exact absurd hp hpc
  | signals =>
    unfold mainStep signalsStep PanState.idleOrStop
    rw [hp]
    dsimp only
    split_ifs <;> rfl
  | check =>
    unfold mainStep
    rw [hp]
    obtain ⟨os, z, r, n, ch, g, e, p, he⟩ := checkPids_eq cfg a s
    rw [he]
  | errs =>
    unfold mainStep errsStep
    rw [hp]
    dsimp only
    split <;> rfl
  | inner | afterLaunch | tail | orphanWait | orphanSleep =>
    unfold mainStep
    rw [hp]
    dsimp only
    split_ifs <;> rfl
  | finish | exited _ | kmsgExit =>
    -- `c` is the same, and the rewrite closes the goal
    unfold mainStep
    rw [hp]

/-- The inner loop's body goes back to the loop's test, to the `starts` test after `Aborting`, or
to `exit(1)` when the child's zoo line cannot be written or `/dev/kmsg` does not open. -/
theorem launch_pc (cfg : PanConfig) (a : Answers) (s : PanState) :
    (launch cfg a s).pc = .inner ∨ (launch cfg a s).pc = .afterLaunch ∨
      (launch cfg a s).pc = .exited 1 ∨ (launch cfg a s).pc = .kmsgExit := by
  unfold launch
  by_cases hfree : s.running.any (·.pgrp = 0) = true
  · rw [if_neg (show ¬ ¬ s.running.any (·.pgrp = 0) = true by simp [hfree])]
    split
    · exact .inr (.inr (.inr rfl))
    dsimp only
    cases a.start with
    | none => exact .inl rfl
    | some cpid =>
      -- the command's index and the zoo call are the two tests left
      dsimp only
      split_ifs <;> simp
  · rw [if_pos (show ¬ s.running.any (·.pgrp = 0) = true from hfree)]
    exact .inr (.inl rfl)

/-- The inner loop's body changes only `c`, the signal globals, `exit_stat`, the slots with
`num_active`, the zoo, `starts`, the children and live groups, and the point. -/
theorem launch_eq (cfg : PanConfig) (a : Answers) (s : PanState) :
    ∃ c r e us z n st ch g p, launch cfg a s =
      { s with
        c := c, sig := r, exitStat := e, running := us, zoo := z, numActive := n, starts := st,
        children := ch, groups := g, pc := p } := by
  unfold launch
  dsimp only
  split
  · exact ⟨_, _, _, _, _, _, _, _, _, _, rfl⟩
  split
  · exact ⟨_, _, _, _, _, _, _, _, _, _, rfl⟩
  · cases a.start with
    | none => exact ⟨_, _, _, _, _, _, _, _, _, _, rfl⟩
    | some cpid =>
      dsimp only
      split_ifs <;> exact ⟨_, _, _, _, _, _, _, _, _, _, rfl⟩

/-- Past the scheduling loop pan stays past it. -/
theorem mainStep_draining (hd : s.pc.draining = true) : (mainStep cfg a s).pc.draining = true := by
  cases hp : s.pc with
  | orphanWait =>
    unfold mainStep
    rw [hp]
    dsimp only
    split_ifs <;> rfl
  | orphanSleep | finish =>
    unfold mainStep
    rw [hp]
    rfl
  | exited st =>
    unfold mainStep
    rw [hp, hp]
    rfl
  | _ => simp [hp, PanPc.draining] at hd

/-- An exited pan stays where it is. -/
theorem panStep_of_isExited (hpc : s.pc.isExited = true) (i : PanInput) :
    (panStep cfg s i).pc = s.pc := by
  by_cases hi : ∃ a, i = .step a
  · obtain ⟨a, rfl⟩ := hi
    by_cases hv : a.Valid cfg s
    · rw [panStep_of_valid hv]
      unfold mainStep
      -- both exits return the state as it is
      split <;> first | rfl | simp_all [PanPc.isExited]
    · rw [panStep_of_not_valid hv]
  · obtain ⟨r, g, he⟩ := panStep_event cfg s fun a e => hi ⟨a, e⟩
    rw [he]

end Frame

/-! ### Sequential mode -/

section Sequential

variable {cfg : PanConfig} {z₀ : Zoo} {ss₀ : List Slot} {a : Answers} {s : PanState}

/-- The command `run_child` is called with at a step: at the inner loop's body, once a slot is
free, `coll->ary[c]`, with `c` drawn by `lrand48` unless `-S`. -/
def triedEntry (cfg : PanConfig) (s : PanState) : PanInput → List CollEntry
  | .step a =>
    if s.pc = .launch ∧ a.Valid cfg s ∧ s.running.any (·.pgrp = 0) = true then
      [cfg.entry (if cfg.sequential then s.c else a.draw % cfg.coll.length)]
    else []
  | _ => []

/-- The commands `run_child` is called with along a run, in order. -/
def launchTries (cfg : PanConfig) (s : PanState) (sched : List PanInput) : List CollEntry :=
  Sched.collect (panStep cfg) (triedEntry cfg) s sched

theorem launchTries_cons (i : PanInput) (sched : List PanInput) :
    launchTries cfg s (i :: sched) = triedEntry cfg s i ++ launchTries cfg (panStep cfg s i) sched :=
  rfl

theorem PanConfig.entry_congr {c c' : Nat} (h : c % cfg.coll.length = c' % cfg.coll.length) :
    cfg.entry c = cfg.entry c' := by
  simp only [PanConfig.entry, h]

/-- Moving `c` on in sequential mode is adding one modulo the number of commands. -/
theorem PanConfig.entry_next {c : Nat} (hc : c < cfg.coll.length) (k : Nat) :
    cfg.entry ((if cfg.coll.length ≤ c + 1 then 0 else c + 1) + k) = cfg.entry (c + 1 + k) := by
  split
  · -- `c` was the last command: round again from the first
    rename_i hl
    apply PanConfig.entry_congr
    rw [show c + 1 + k = cfg.coll.length + k by omega, Nat.zero_add, Nat.add_mod_left]
  · rfl

theorem next_lt {c : Nat} (hc : c < cfg.coll.length) :
    (if cfg.coll.length ≤ c + 1 then 0 else c + 1) < cfg.coll.length := by
  split <;> omega

/-- The commands from `c` on, round again after the last, are the collection's first ones. -/
theorem map_entry_range {m : Nat} (hm : m ≤ cfg.coll.length) :
    (List.range m).map (fun k => cfg.entry (0 + k)) = cfg.coll.take m := by
  apply List.ext_getElem
  · simp [hm]
  · intro k h₁ h₂
    simp only [List.length_map, List.length_range] at h₁
    simp [PanConfig.entry, Nat.mod_eq_of_lt (show k < cfg.coll.length by omega)]

theorem triedEntry_eq_nil {i : PanInput}
    (ht : ¬ ∃ a, i = .step a ∧ s.pc = .launch ∧ a.Valid cfg s ∧ s.running.any (·.pgrp = 0) = true) :
    triedEntry cfg s i = [] := by
  cases i with
  | step a => simp only [triedEntry, if_neg (fun hx => ht ⟨a, rfl, hx⟩)]
  | signal sig => rfl
  | groupEmpty g => rfl

/-- A step that is not the inner loop's body, or that finds no free slot, tries nothing and leaves
`c` alone in sequential mode. -/
theorem triedEntry_of_not_launch (hseq : cfg.sequential = true) {i : PanInput}
    (ht : ¬ ∃ a, i = .step a ∧ s.pc = .launch ∧ a.Valid cfg s ∧ s.running.any (·.pgrp = 0) = true) :
    triedEntry cfg s i = [] ∧ (panStep cfg s i).c = s.c := by
  refine ⟨triedEntry_eq_nil ht, ?_⟩
  by_cases hi : ∃ a, i = .step a
  · obtain ⟨a, rfl⟩ := hi
    have ht' : ¬ (s.pc = .launch ∧ a.Valid cfg s ∧ s.running.any (·.pgrp = 0) = true) :=
      fun hx => ht ⟨a, rfl, hx⟩
    by_cases hv : a.Valid cfg s
    · rw [panStep_of_valid hv]
      by_cases hpc : s.pc = .launch
      · -- `Aborting`: no slot is free, and `c` keeps its value in sequential mode
        have hfree : ¬ s.running.any (·.pgrp = 0) = true := fun hf => ht' ⟨hpc, hv, hf⟩
        rw [mainStep_of_launch hpc]
        unfold launch
        rw [if_pos hfree]
        simp [hseq]
      · exact c_mainStep hpc
    · rw [panStep_of_not_valid hv]
  · obtain ⟨r, g, he⟩ := panStep_event cfg s fun a e => hi ⟨a, e⟩
    rw [he]

/-- In sequential mode a step tries `coll->ary[c]` and moves `c` on, or ends pan when the child's
zoo line cannot be written or `/dev/kmsg` does not open, or tries nothing and leaves `c` alone. -/
theorem triedEntry_seq (hseq : cfg.sequential = true) (i : PanInput) :
    (triedEntry cfg s i = [] ∧ (panStep cfg s i).c = s.c) ∨
      (triedEntry cfg s i = [cfg.entry s.c] ∧
        ((panStep cfg s i).c = (if cfg.coll.length ≤ s.c + 1 then 0 else s.c + 1) ∨
          (panStep cfg s i).pc.isExited = true)) := by
  by_cases ht : ∃ a, i = .step a ∧ s.pc = .launch ∧ a.Valid cfg s ∧ s.running.any (·.pgrp = 0) = true
  · obtain ⟨a, rfl, hpc, hv, hfree⟩ := ht
    refine .inr ⟨by simp [triedEntry, hpc, hv, hfree, hseq], ?_⟩
    rw [panStep_of_valid hv, mainStep_of_launch hpc]
    unfold launch
    rw [if_neg (not_not.2 hfree)]
    simp only [hseq, if_true]
    split
    · exact .inr rfl
    cases a.start with
    | none => exact .inl rfl
    | some cpid =>
      dsimp only
      split
      · exact .inr rfl
      · exact .inl rfl
  · exact .inl (triedEntry_of_not_launch hseq ht)

/-- Pan tries no command once it has exited. -/
theorem launchTries_of_exited (hpc : s.pc.isExited = true) (sched : List PanInput) :
    launchTries cfg s sched = [] := by
  have hb : ∀ (sched : List PanInput) (s : PanState), s.pc.isExited = true →
      (launchTries cfg s sched).length + 0 ≤ 0 :=
    Sched.length_collect_add_le (fun _ => 0) (fun s i hs => (panStep_of_isExited hs i).symm ▸ hs)
      (fun s i hs => by
        rw [triedEntry_eq_nil fun ⟨_, _, hl, _⟩ => by simp [hl, PanPc.isExited] at hs]
        rfl)
  exact List.eq_nil_of_length_eq_zero (by have := hb sched s hpc; omega)

/-- In sequential mode the commands tried along a run are the collection's, from `c` on and
round again after the last. -/
theorem launchTries_seq (hseq : cfg.sequential = true) :
    ∀ (sched : List PanInput) (s : PanState), s.c < cfg.coll.length →
      launchTries cfg s sched =
        (List.range (launchTries cfg s sched).length).map fun k => cfg.entry (s.c + k)
  | [], _, _ => rfl
  | i :: sched, s, hc => by
    rw [launchTries_cons]
    rcases triedEntry_seq hseq i with ⟨ht, hc'⟩ | ⟨ht, hc' | hex⟩
    · -- nothing tried: the rest of the run starts from the same `c`
      rw [ht, List.nil_append]
      have ih := launchTries_seq hseq sched (panStep cfg s i) (hc' ▸ hc)
      rwa [hc'] at ih
    · -- `coll->ary[c]` tried, and the rest of the run starts from the next command
      have ih := launchTries_seq hseq sched (panStep cfg s i) (hc' ▸ next_lt hc)
      rw [ht, List.singleton_append, List.length_cons, List.range_succ_eq_map, List.map_cons,
        List.map_map, Nat.add_zero]
      refine congrArg _ (ih.trans ?_)
      apply List.map_congr_left
      intro k _
      rw [hc', PanConfig.entry_next hc, Function.comp_apply]
      exact PanConfig.entry_congr (by rw [Nat.succ_eq_add_one, Nat.add_assoc, Nat.add_comm 1 k])
    · -- `coll->ary[c]` tried, and pan ended on the zoo
      rw [ht, launchTries_of_exited hex]
      rfl

/-- With `-S`, from a state whose `c` is in range, the commands `run_child` is called with along any
run are those of the collection file in order, from `c` on and round again after the last. -/
theorem pan_sequential_order (hseq : cfg.sequential = true) (hc : s.c < cfg.coll.length)
    (sched : List PanInput) :
    launchTries cfg s sched =
      (List.range (launchTries cfg s sched).length).map fun k => cfg.entry (s.c + k) :=
  launchTries_seq hseq sched s hc

theorem pan_sequential_order_run :
    demoCfg.sequential = true ∧ (panInit demoCfg emptyZoo).c < demoCfg.coll.length ∧
      launchTries demoCfg (panInit demoCfg emptyZoo) demoRun =
        (List.range (launchTries demoCfg (panInit demoCfg emptyZoo) demoRun).length).map
          fun k => demoCfg.entry ((panInit demoCfg emptyZoo).c + k) :=
  ⟨rfl, by decide +kernel, pan_sequential_order rfl (by decide +kernel) demoRun⟩

/-- The starts pan has left to make: `starts`, and none once pan has exited. -/
def PanState.startsLeft (s : PanState) : Nat :=
  if s.pc.isExited then 0 else s.starts.toNat

theorem startsLeft_of_not_exited (hx : s.pc.isExited = false) : s.startsLeft = s.starts.toNat := by
  simp [PanState.startsLeft, hx]

/-- No step raises the starts left. -/
theorem startsLeft_panStep {base : Multiset Int} (h : PanInv cfg base s) (h0 : 0 ≤ s.starts)
    (i : PanInput) : (panStep cfg s i).startsLeft ≤ s.startsLeft := by
  by_cases hx : s.pc.isExited = true
  · have hx' : (panStep cfg s i).pc.isExited = true := (panStep_of_isExited hx i).symm ▸ hx
    simp only [PanState.startsLeft, hx, hx', if_true, le_refl]
  · rw [startsLeft_of_not_exited (s := s) (by simpa using hx), PanState.startsLeft]
    split
    · exact Nat.zero_le _
    · exact le_trans (Nat.le_add_left _ _) (starts_panStep h h0 i).1

/-- In sequential mode each command tried is counted down in the starts left, which the test of
`starts` found non-zero. -/
theorem triedEntry_starts {base : Multiset Int} (h : PanInv cfg base s) (h0 : 0 ≤ s.starts)
    (hseq : cfg.sequential = true) (i : PanInput) :
    (triedEntry cfg s i).length + (panStep cfg s i).startsLeft ≤ s.startsLeft := by
  by_cases ht : ∃ a, i = .step a ∧ s.pc = .launch ∧ a.Valid cfg s ∧ s.running.any (·.pgrp = 0) = true
  · obtain ⟨a, rfl, hpc, hv, hfree⟩ := ht
    have hs := (h.launchFree hpc).2
    have htr : (triedEntry cfg s (.step a)).length = 1 := by simp [triedEntry, hpc, hv, hfree]
    rw [htr, startsLeft_of_not_exited (s := s) (by simp [hpc, PanPc.isExited]), panStep_of_valid hv,
      mainStep_of_launch hpc]
    unfold launch
    rw [if_neg (not_not.2 hfree)]
    split
    · -- `write_kmsg` ends pan before `fork`: no start is counted, and none is left
      simp only [PanState.startsLeft, PanPc.isExited, if_true]
      omega
    dsimp only
    cases a.start with
    | none =>
      -- a failed start counts too in sequential mode
      simp only [PanState.startsLeft, PanPc.isExited, Bool.false_eq_true, if_false, hseq, true_and,
        if_pos (show 0 < s.starts by omega)]
      omega
    | some cpid =>
      simp only [(h.mark_entry cpid _).1, ne_eq, not_true_eq_false, if_false, PanState.startsLeft,
        PanPc.isExited, Bool.false_eq_true, if_pos (show 0 < s.starts by omega)]
      omega
  · rw [triedEntry_eq_nil ht, List.length_nil, Nat.zero_add]
    exact startsLeft_panStep h h0 i

/-- `pan -S` without `-s` or `-t`: `starts` is the number of commands, so along any run from the
set-up `run_child` is called with the first commands of the collection file, in order, each at
most once. -/
theorem pan_sequential_once (hz : ZooHolds z₀ ss₀) (hseq : cfg.sequential = true)
    (hs : cfg.startsOpt = -1) (ht : cfg.timed = false) (sched : List PanInput) :
    launchTries cfg (panInit cfg z₀) sched <+: cfg.coll := by
  have hst : (panInit cfg z₀).starts = cfg.coll.length := by
    show cfg.initStarts = _
    simp [PanConfig.initStarts, hs, ht, hseq]
  have hc₀ : (panInit cfg z₀).c = 0 := rfl
  -- each try lowers `starts`, which begins at the number of commands
  have hb : (launchTries cfg (panInit cfg z₀) sched).length +
      (Sched.run (panStep cfg) (panInit cfg z₀) sched).startsLeft ≤
        (panInit cfg z₀).startsLeft :=
    Sched.length_collect_add_le (P := fun s => PanInv cfg (activePids ss₀) s ∧ 0 ≤ s.starts)
      PanState.startsLeft
      (fun s i hs => ⟨panInv_panStep hs.1 i, (starts_panStep hs.1 hs.2 i).2⟩)
      (fun s i hs => triedEntry_starts hs.1 hs.2 hseq i) sched _
      ⟨panInv_init cfg hz, by omega⟩
  have hlen : (launchTries cfg (panInit cfg z₀) sched).length ≤ cfg.coll.length := by
    have hpc := (panInit_lines cfg (show ZooLines z₀ (activePids ss₀) 0 from ⟨ss₀, hz, by simp⟩)).1
    rw [startsLeft_of_not_exited (s := panInit cfg z₀) (by rw [hpc]; rfl), hst,
      Int.toNat_natCast] at hb
    omega
  have ho := launchTries_seq hseq sched (panInit cfg z₀)
    (by rw [hc₀]; exact List.length_pos_of_ne_nil cfg.coll_ne)
  rw [ho, hc₀, map_entry_range hlen]
  exact List.take_prefix _ _

theorem pan_sequential_once_run :
    demoCfg.sequential = true ∧ demoCfg.startsOpt = -1 ∧ demoCfg.timed = false ∧
      launchTries demoCfg (panInit demoCfg emptyZoo) demoRun <+: demoCfg.coll :=
  ⟨rfl, rfl, rfl, pan_sequential_once zooHolds_emptyZoo rfl rfl rfl demoRun⟩

end Sequential

/-! ### The exit status under `-e` -/

section ExitStats

variable {cfg : PanConfig} {z₀ : Zoo} {ss₀ : List Slot} {base : Multiset Int} {a : Answers}
  {s : PanState}

/-- What `-e` counts as a failed test, for a child whose slot has `stopping`: an exit status other
than `0` and `TCONF`, but not `130` after pan's own signal, or a signal that pan did not send. -/
def ReapFails (stopping : Bool) : WaitStatus → Prop
  | .exited w => w ≠ 0 ∧ w ≠ TType.conf.val ∧ ¬ (w = 130 ∧ stopping = true)
  | .signaled _ => stopping = false

instance (stopping : Bool) : (st : WaitStatus) → Decidable (ReapFails stopping st)
  | .exited _ => inferInstanceAs (Decidable (_ ∧ _ ∧ _))
  | .signaled _ => inferInstanceAs (Decidable (_ = _))

/-- The child `check_pids` reaps at a step, when its report is a failed test that `check_pids`
returns: a `write_kmsg` that ends pan first leaves it uncounted. -/
def failedReap (cfg : PanConfig) (s : PanState) : PanInput → List (Int32 × WaitStatus)
  | .step a =>
    match a.reap with
    | some (cpid, st) =>
      if s.pc = .check ∧ a.Valid cfg s then
        match s.running.find? (·.pgrp = cpid) with
        | some t =>
          if ReapFails t.stopping st ∧
              ¬ (cfg.testOutDir ∧ ¬ cfg.quietMode ∧ ¬ writeTestStartReturns cfg.noKmsg a.kmsgOpens) then
            [(cpid, st)]
          else []
        | none => []
      else []
    | none => []
  | _ => []

/-- The failed tests along a run, in the order pan reaps them. -/
def failedTests (cfg : PanConfig) (s : PanState) (sched : List PanInput) :
    List (Int32 × WaitStatus) :=
  Sched.collect (panStep cfg) (failedReap cfg) s sched

/-- The error `check_pids` has just returned, which the `err` block is about to count. -/
def PanState.pendingErr (s : PanState) : Int := if s.pc = .errs ∧ s.err ≠ 0 then 1 else 0

/-- `check_pids` returns an error exactly for a failed test. -/
theorem slotRet_ne_zero_iff (t : TagPgrp) (st : WaitStatus) :
    slotRet t st (exitRet st) ≠ 0 ↔ ReapFails t.stopping st := by
  cases st with
  | exited w =>
    simp only [slotRet, exitRet, ReapFails]
    by_cases h130 : w = 130 ∧ t.stopping = true
    · -- the exit `130` of a child pan sent its signal is undone
      obtain ⟨rfl, hs⟩ := h130
      simp [hs, TType.val]
    · rw [if_neg h130]
      split_ifs with hw <;> simp [hw, h130]
  | signaled sig =>
    simp only [slotRet, exitRet, ReapFails]
    cases t.stopping <;> simp

theorem failedReap_of_not_check (h : ¬ (s.pc = .check ∧ a.Valid cfg s)) :
    failedReap cfg s (.step a) = [] := by
  simp only [failedReap]
  split
  · rw [if_neg h]
  · rfl

/-- Only the `err` block counts into `exit_stat`: the `Aborting` branch is dead, and the final
`zoo_clear` finds pan's own line. -/
theorem exitStat_mainStep (h : PanInv cfg base s) (hpc : s.pc ≠ .errs) :
    (mainStep cfg a s).exitStat = s.exitStat := by
  cases hp : s.pc with
  | errs => exact absurd hp hpc
  | launch =>
    rw [mainStep_of_launch hp]
    unfold launch
    rw [if_neg (not_not.2 (h.free_of_launch hp))]
    split
    · rfl
    dsimp only
    cases a.start with
    | none => rfl
    | some cpid =>
      dsimp only
      split <;> rfl
  | check =>
    unfold mainStep
    rw [hp]
    obtain ⟨os, z, r, n, ch, g, e, p, he⟩ := checkPids_eq cfg a s
    rw [he]
  | signals =>
    unfold mainStep signalsStep PanState.idleOrStop
    rw [hp]
    dsimp only
    split_ifs <;> rfl
  | finish =>
    have hex : s.pc.pastFinish = false := by rw [hp]; rfl
    obtain ⟨hc0, -⟩ := h.zoo.clear (p := cfg.panPid)
      (by rw [panLines_before_finish hex]; exact Multiset.mem_cons_self _ _)
    unfold mainStep
    rw [hp]
    simp only [hc0, ne_eq, not_true_eq_false, if_false]
  | inner | afterLaunch | tail | orphanWait | orphanSleep =>
    unfold mainStep
    rw [hp]
    dsimp only
    split_ifs <;> rfl
  | exited st | kmsgExit =>
    unfold mainStep
    rw [hp]

/-- Only `check_pids` goes on to the `err` block. -/
theorem mainStep_pc_ne_errs (hpc : s.pc ≠ .check) : (mainStep cfg a s).pc ≠ .errs := by
  cases hp : s.pc with
  | check => exact absurd hp hpc
  | launch =>
    rw [mainStep_of_launch hp]
    rcases launch_pc cfg a s with h | h | h | h <;> simp [h]
  | signals =>
    unfold mainStep signalsStep
    rw [hp]
    simp
  | errs =>
    unfold mainStep errsStep
    rw [hp]
    dsimp only
    split <;> simp
  | inner | afterLaunch | tail | orphanWait =>
    unfold mainStep
    rw [hp]
    dsimp only
    split_ifs <;> simp
  | orphanSleep | finish =>
    unfold mainStep
    rw [hp]
    simp
  | exited st | kmsgExit =>
    unfold mainStep
    rw [hp, hp]
    simp

/-- At `check_pids` the count of the reaped child becomes the pending error. -/
theorem exitCount_check (h : PanInv cfg base s) (hc : s.pc = .check) (hv : a.Valid cfg s) :
    (mainStep cfg a s).exitStat + (mainStep cfg a s).pendingErr =
      s.exitStat + s.pendingErr + (failedReap cfg s (.step a)).length := by
  have hex : s.pc.pastFinish = false := by rw [hc]; rfl
  have hp : s.pendingErr = 0 := by simp [PanState.pendingErr, hc]
  have hm : mainStep cfg a s = checkPids cfg a s := by
    unfold mainStep
    rw [hc]
  have hx : (checkPids cfg a s).exitStat = s.exitStat := by
    obtain ⟨os, z, r, n, ch, g, e, p, he⟩ := checkPids_eq cfg a s
    rw [he]
  rw [hp, hm, hx]
  cases hrp : a.reap with
  | none =>
    -- `wait()` returned `-1`: no error
    have hfr : failedReap cfg s (.step a) = [] := by simp only [failedReap, hrp]
    have hpe : (checkPids cfg a s).pendingErr = 0 := by
      unfold checkPids
      rw [hrp]
      simp [PanState.pendingErr]
    rw [hfr, hpe]
    simp
  | some rp =>
    obtain ⟨cpid, st⟩ := rp
    obtain ⟨t, hft, hpc', herr⟩ := h.checkPids_reap hex hrp (hv.2 (cpid, st) (by simp [hrp]))
    by_cases hk : cfg.testOutDir ∧ ¬ cfg.quietMode ∧ ¬ writeTestStartReturns cfg.noKmsg a.kmsgOpens
    · -- `write_kmsg` ends pan before `check_pids` returns: nothing is counted
      have hfr : failedReap cfg s (.step a) = [] := by
        simp only [failedReap, hrp, if_pos (And.intro hc hv), hft, not_not.2 hk, and_false,
          if_false]
      rw [if_pos hk] at hpc'
      simp [PanState.pendingErr, hpc', hfr]
    rw [if_neg hk] at hpc'
    by_cases hf : ReapFails t.stopping st
    · -- a failed test: `check_pids` returns an error
      have hne := (slotRet_ne_zero_iff t st).2 hf
      have hfr : failedReap cfg s (.step a) = [(cpid, st)] := by
        simp only [failedReap, hrp, if_pos (And.intro hc hv), hft, if_pos (And.intro hf hk)]
      simp [PanState.pendingErr, hpc', herr hk, hne, hfr]
    · have h0 : slotRet t st (exitRet st) = 0 := not_not.1 (mt (slotRet_ne_zero_iff t st).1 hf)
      have hfr : failedReap cfg s (.step a) = [] := by
        simp only [failedReap, hrp, if_pos (And.intro hc hv), hft, hf, false_and, if_false]
      simp [PanState.pendingErr, hpc', herr hk, h0, hfr]

/-- Under `-e` a step raises `exit_stat`, with the error `check_pids` has just returned, by the
failed test it reaps. -/
theorem exitCount_panStep (h : PanInv cfg base s) (ht : cfg.trackExitStats = true) (i : PanInput) :
    (panStep cfg s i).exitStat + (panStep cfg s i).pendingErr =
      s.exitStat + s.pendingErr + (failedReap cfg s i).length := by
  by_cases hi : ∃ a, i = .step a
  · obtain ⟨a, rfl⟩ := hi
    by_cases hv : a.Valid cfg s
    · rw [panStep_of_valid hv]
      by_cases hc : s.pc = .check
      · exact exitCount_check h hc hv
      · rw [failedReap_of_not_check (fun hx => hc hx.1), List.length_nil, Nat.cast_zero, add_zero]
        by_cases he : s.pc = .errs
        · -- the `err` block counts the error into `exit_stat`
          have hm : mainStep cfg a s = errsStep cfg s := by
            unfold mainStep
            rw [he]
          rw [hm]
          unfold errsStep
          by_cases h0 : s.err = 0
          · simp [h0, PanState.pendingErr, he]
          · simp [h0, ht, PanState.pendingErr, he]
        · have hp : s.pendingErr = 0 := by simp [PanState.pendingErr, he]
          have hp' : (mainStep cfg a s).pendingErr = 0 := by
            simp [PanState.pendingErr, mainStep_pc_ne_errs hc]
          rw [exitStat_mainStep h he, hp, hp']
    · rw [panStep_of_not_valid hv, failedReap_of_not_check (fun hx => hv hx.2)]
      simp
  · obtain ⟨r, g, he⟩ := panStep_event cfg s fun a e => hi ⟨a, e⟩
    have hfr : failedReap cfg s i = [] := by
      cases i with
      | step a => exact absurd ⟨a, rfl⟩ hi
      | signal sig => rfl
      | groupEmpty g => rfl
    rw [he, hfr]
    simp [PanState.pendingErr]

/-- `demoCfg` with `-e`. -/
def demoCfgE : PanConfig := { demoCfg with trackExitStats := true }

/-- `demoRun` with a child that exits `1`. -/
def demoRunFail : List PanInput :=
  demoRun.set 5 (.step ⟨0, none, some (2, .exited 1), false, false, false, true⟩)

example : (failedTests demoCfgE (panInit demoCfgE emptyZoo) demoRunFail).length = 1 := by
  decide +kernel

end ExitStats

/-! ### Signals and idling -/

section Control

variable {cfg : PanConfig} {z₀ : Zoo} {a : Answers} {s : PanState}

/-- The scheduler starts no child before it stops: it has been told to stop, it is past its loop,
it has exited in `write_kmsg`, or it has a signal to handle before the inner loop's test lets it
start one. -/
def Halting (s : PanState) : Prop :=
  0 < s.stop ∨ s.pc.draining = true ∨ s.pc = .kmsgExit ∨ (s.sig.recSignal ≠ 0 ∧ s.pc ≠ .launch)

theorem PanSignal.num_ne_zero (g : PanSignal) : g.num ≠ 0 := by
  cases g <;> decide

/-- A signal other than `0` is recorded in `rec_signal`. -/
theorem recSignal_waitHandler (r : Ratchet) {sig : Int} (h : sig ≠ 0) :
    (waitHandler r sig).recSignal = sig := by
  unfold waitHandler
  rw [if_neg h]
  split <;> rfl

theorem Halting.not_launch (hs : StopInv s) (h : Halting s) : s.pc ≠ .launch := by
  rcases h with h | h | h | ⟨-, h⟩
  · intro e
    have := hs.launch e
    omega
  · intro e
    rw [e] at h
    cases h
  · rw [h]
    simp
  · exact h

/-- Nothing turns `fork_in_road` on. -/
theorem forkInRoad_mainStep (hf : s.forkInRoad = false) :
    (mainStep cfg a s).forkInRoad = false := by
  cases hp : s.pc with
  | launch =>
    rw [mainStep_of_launch hp]
    obtain ⟨c, r, e, us, z, n, st, ch, g, p, he⟩ := launch_eq cfg a s
    rw [he]
    exact hf
  | signals =>
    unfold mainStep signalsStep PanState.idleOrStop
    rw [hp]
    dsimp only
    split_ifs <;> simp [propagateSignal, hf]
  | check =>
    unfold mainStep
    rw [hp]
    obtain ⟨os, z, r, n, ch, g, e, p, he⟩ := checkPids_eq cfg a s
    rw [he]
    exact hf
  | errs =>
    unfold mainStep errsStep
    rw [hp]
    dsimp only
    split <;> exact hf
  | inner | afterLaunch | tail | orphanWait | orphanSleep =>
    unfold mainStep
    rw [hp]
    dsimp only
    split_ifs <;> exact hf
  | finish =>
    unfold mainStep
    rw [hp]
    exact hf
  | exited st | kmsgExit =>
    unfold mainStep
    rw [hp]
    exact hf

theorem forkInRoad_panStep (hf : s.forkInRoad = false) (i : PanInput) :
    (panStep cfg s i).forkInRoad = false := by
  by_cases hi : ∃ a, i = .step a
  · obtain ⟨a, rfl⟩ := hi
    by_cases hv : a.Valid cfg s
    · rw [panStep_of_valid hv]
      exact forkInRoad_mainStep hf
    · rw [panStep_of_not_valid hv]
      exact hf
  · obtain ⟨r, g, he⟩ := panStep_event cfg s fun a e => hi ⟨a, e⟩
    rw [he]
    exact hf

/-- Once halting, a step of `main` stays so while `fork_in_road` is off: the inner loop's test
fails on the signal, and the `rec_signal` block turns it into `stop`. -/
theorem halting_mainStep (hs : StopInv s) (hf : s.forkInRoad = false) (h : Halting s) :
    Halting (mainStep cfg a s) := by
  rcases h with h | h | h | ⟨hr, hpc⟩
  · exact .inl (lt_of_lt_of_le h stop_le_mainStep)
  · exact .inr (.inl (mainStep_draining h))
  · -- `write_kmsg` has ended pan, and `main` takes no step
    refine .inr (.inr (.inl ?_))
    unfold mainStep
    rw [h]
    exact h
  · cases hp : s.pc with
    | launch => exact absurd hp hpc
    | inner =>
      -- the test of the inner loop breaks on `rec_signal`
      unfold mainStep
      rw [hp]
      dsimp only
      rw [if_neg (fun hc => hc.2.2 (.inr (.inl hr)))]
      exact .inr (.inr (.inr ⟨hr, by simp⟩))
    | afterLaunch =>
      unfold mainStep
      rw [hp]
      dsimp only
      split_ifs <;> exact .inr (.inr (.inr ⟨hr, by simp⟩))
    | signals =>
      -- `fork_in_road` is off, so the signal becomes `++stop`
      refine .inl ?_
      have h0 := hs.nonneg
      unfold mainStep signalsStep PanState.idleOrStop
      rw [hp]
      dsimp only
      rw [if_neg hr]
      split_ifs <;> simp_all [propagateSignal]
    | check =>
      unfold mainStep
      rw [hp]
      obtain ⟨os, z, r, n, ch, g, e, p, he⟩ := checkPids_eq cfg a s
      have hne : (checkPids cfg a s).pc ≠ .launch := checkPids_stop.2
      rw [he] at hne ⊢
      exact .inr (.inr (.inr ⟨hr, hne⟩))
    | errs =>
      -- under `-A` the error forces a `SIGINT` through the ratchet
      unfold mainStep errsStep
      rw [hp]
      dsimp only
      split
      · exact .inr (.inr (.inr ⟨hr, by simp⟩))
      · refine .inr (.inr (.inr ⟨?_, by simp⟩))
        show (if cfg.hasBrakes = true then waitHandler s.sig sigint else s.sig).recSignal ≠ 0
        split
        · exact (recSignal_waitHandler s.sig (by decide)).trans_ne (by decide)
        · exact hr
    | tail =>
      unfold mainStep
      rw [hp]
      dsimp only
      split_ifs
      · exact .inr (.inl rfl)
      · -- the reset of the ratchet keeps `rec_signal`
        refine .inr (.inr (.inr ⟨?_, by simp⟩))
        simpa [waitHandler] using hr
      · exact .inr (.inr (.inr ⟨hr, by simp⟩))
    | orphanWait | orphanSleep | finish | exited _ =>
      exact .inr (.inl (mainStep_draining (by rw [hp]; rfl)))
    | kmsgExit =>
      refine .inr (.inr (.inl ?_))
      unfold mainStep
      rw [hp]
      exact hp

theorem halting_panStep (hs : StopInv s) (hf : s.forkInRoad = false) (h : Halting s)
    (i : PanInput) : Halting (panStep cfg s i) := by
  cases i with
  | signal sig =>
    -- a new signal keeps `rec_signal` non-zero
    simp only [panStep]
    split
    · exact h
    · exact h
    · rcases h with h | h | h | ⟨-, hpc⟩
      · exact .inl h
      · exact .inr (.inl h)
      · exact .inr (.inr (.inl h))
      · exact .inr (.inr (.inr
          ⟨(recSignal_waitHandler s.sig sig.num_ne_zero).trans_ne sig.num_ne_zero, hpc⟩))
  | groupEmpty g =>
    simp only [panStep]
    split
    · exact h
    · exact h
  | step a =>
    by_cases hv : a.Valid cfg s
    · rw [panStep_of_valid hv]
      exact halting_mainStep hs hf h
    · rw [panStep_of_not_valid hv]
      exact h

/-- A signal caught away from the inner loop's body leaves pan halting. -/
theorem halting_signal (hpc : s.pc ≠ .launch) (sig : PanSignal) :
    Halting (panStep cfg s (.signal sig)) := by
  simp only [panStep]
  split
  · next st hst => exact .inr (.inl (by rw [hst]; rfl))
  · next hst => exact .inr (.inr (.inl hst))
  · exact .inr (.inr (.inr
      ⟨(recSignal_waitHandler s.sig sig.num_ne_zero).trans_ne sig.num_ne_zero, hpc⟩))

/-- With `fork_in_road` off, a signal that pan catches away from the inner loop's body stops the
scheduler: no run from then on starts another child.  `SIGUSR2` only stops it; any other signal
is first passed on to the children. -/
theorem pan_signal_stops (hr : Sched.Reachable (panStep cfg) (panInit cfg z₀) s)
    (hf : s.forkInRoad = false) (hpc : s.pc ≠ .launch) (sig : PanSignal) (sched : List PanInput) :
    Sched.countSteps (panStep cfg) PanState.startedChild (panStep cfg s (.signal sig)) sched = 0 := by
  have hs := stopInv_reachable hr
  -- every step keeps pan halting, and a halting pan is not in the inner loop's body
  have hb : Sched.countSteps (panStep cfg) PanState.startedChild (panStep cfg s (.signal sig))
      sched + 0 ≤ 0 :=
    Sched.countSteps_add_le (P := fun s => StopInv s ∧ s.forkInRoad = false ∧ Halting s)
      (fun _ => 0)
      (fun s i hs => ⟨stopInv_panStep hs.1 i, forkInRoad_panStep hs.2.1 i,
        halting_panStep hs.1 hs.2.1 hs.2.2 i⟩)
      (fun s i hs => by
        rw [if_neg (not_startedChild (panStep_frame (.inl (hs.2.2.not_launch hs.1))).2)])
      sched _ ⟨stopInv_panStep hs _, forkInRoad_panStep hf _, halting_signal hpc sig⟩
  omega

theorem pan_signal_stops_run :
    (panInit demoCfg emptyZoo).forkInRoad = false ∧ (panInit demoCfg emptyZoo).pc ≠ .launch ∧
      Sched.countSteps (panStep demoCfg) PanState.startedChild
        (panStep demoCfg (panInit demoCfg emptyZoo) (.signal .term)) demoRun = 0 :=
  ⟨by decide +kernel, by decide +kernel,
    pan_signal_stops .init (by decide +kernel) (by decide +kernel) .term demoRun⟩

/-- `go_idle` is not negative, and the inner loop's body runs with it zero. -/
structure IdleInv (s : PanState) : Prop where
  nonneg : 0 ≤ s.goIdle
  launch : s.pc = .launch → s.goIdle = 0

/-- `go_idle` only counts up, but at the `go_idle` test once no child runs, which clears it. -/
theorem goIdle_mainStep (cfg : PanConfig) (a : Answers) (s : PanState) :
    ((mainStep cfg a s).goIdle = 0 ∧ s.pc = .tail ∧ s.numActive = 0) ∨
      s.goIdle ≤ (mainStep cfg a s).goIdle := by
  cases hp : s.pc with
  | launch =>
    rw [mainStep_of_launch hp]
    obtain ⟨c, r, e, us, z, n, st, ch, g, p, he⟩ := launch_eq cfg a s
    rw [he]
    exact .inr le_rfl
  | signals =>
    refine .inr ?_
    unfold mainStep signalsStep PanState.idleOrStop
    rw [hp]
    dsimp only
    split_ifs <;> simp [propagateSignal]
  | check =>
    unfold mainStep
    rw [hp]
    obtain ⟨os, z, r, n, ch, g, e, p, he⟩ := checkPids_eq cfg a s
    rw [he]
    exact .inr le_rfl
  | errs =>
    refine .inr ?_
    unfold mainStep errsStep
    rw [hp]
    dsimp only
    split
    · exact le_rfl
    · split <;> simp
  | tail =>
    unfold mainStep
    rw [hp]
    dsimp only
    split_ifs with h₁ h₂
    · exact .inr le_rfl
    · exact .inl ⟨rfl, rfl, h₂.2⟩
    · exact .inr le_rfl
  | inner | afterLaunch | orphanWait | orphanSleep =>
    unfold mainStep
    rw [hp]
    dsimp only
    split_ifs <;> exact .inr le_rfl
  | finish =>
    unfold mainStep
    rw [hp]
    exact .inr le_rfl
  | exited st | kmsgExit =>
    unfold mainStep
    rw [hp]
    exact .inr le_rfl

theorem idleInv_panStep (h : IdleInv s) (i : PanInput) : IdleInv (panStep cfg s i) := by
  by_cases hi : ∃ a, i = .step a
  · obtain ⟨a, rfl⟩ := hi
    by_cases hv : a.Valid cfg s
    · rw [panStep_of_valid hv]
      refine ⟨?_, fun hl => ?_⟩
      · rcases goIdle_mainStep cfg a s with ⟨h0, -⟩ | hle
        · rw [h0]
        · exact h.nonneg.trans hle
      · -- only the test of the inner loop enters its body, and it found `go_idle` zero
        obtain ⟨-, -, hg, he⟩ := mainStep_launch hl
        rw [he]
        exact hg
    · rw [panStep_of_not_valid hv]
      exact h
  · obtain ⟨r, g, he⟩ := panStep_event cfg s fun a e => hi ⟨a, e⟩
    rw [he]
    exact ⟨h.nonneg, h.launch⟩

theorem idleInv_reachable (hr : Sched.Reachable (panStep cfg) (panInit cfg z₀) s) : IdleInv s :=
  hr.invariant ⟨le_rfl, fun _ => rfl⟩ fun _ i hs => idleInv_panStep hs i

/-- While a child runs, an idle pan stays idle. -/
theorem goIdle_pos_panStep (hg : 0 < s.goIdle) (hn : s.numActive ≠ 0) (i : PanInput) :
    0 < (panStep cfg s i).goIdle := by
  by_cases hi : ∃ a, i = .step a
  · obtain ⟨a, rfl⟩ := hi
    by_cases hv : a.Valid cfg s
    · rw [panStep_of_valid hv]
      rcases goIdle_mainStep cfg a s with ⟨-, -, h0⟩ | hle
      · exact absurd h0 hn
      · exact lt_of_lt_of_le hg hle
    · rw [panStep_of_not_valid hv]
      exact hg
  · obtain ⟨r, g, he⟩ := panStep_event cfg s fun a e => hi ⟨a, e⟩
    rw [he]
    exact hg

/-- An idle pan starts no child along a run on which a child of its runs at every state. -/
theorem countSteps_of_idle : ∀ (sched : List PanInput) (s : PanState), IdleInv s → 0 < s.goIdle →
    (∀ k ≤ sched.length, (Sched.run (panStep cfg) s (sched.take k)).numActive ≠ 0) →
      Sched.countSteps (panStep cfg) PanState.startedChild s sched = 0
  | [], _, _, _, _ => rfl
  | i :: sched, s, h, hg, hbusy => by
    have hn : s.numActive ≠ 0 := hbusy 0 (Nat.zero_le _)
    have hpc : s.pc ≠ .launch := fun e => by
      have := h.launch e
      omega
    have ih := countSteps_of_idle sched (panStep cfg s i) (idleInv_panStep h i)
      (goIdle_pos_panStep hg hn i) (fun k hk => hbusy (k + 1) (by simp; omega))
    rw [Sched.countSteps, if_neg (not_startedChild (panStep_frame (.inl hpc)).2), ih]

/-- An idle pan (`-y` after `SIGUSR2` or an error) starts no child as long as one of its children
runs: `go_idle` is cleared only at its test once `num_active` is zero. -/
theorem pan_idle_no_start (hr : Sched.Reachable (panStep cfg) (panInit cfg z₀) s)
    (hidle : s.goIdle ≠ 0) (sched : List PanInput)
    (hbusy : ∀ k ≤ sched.length, (Sched.run (panStep cfg) s (sched.take k)).numActive ≠ 0) :
    Sched.countSteps (panStep cfg) PanState.startedChild s sched = 0 := by
  have h := idleInv_reachable hr
  exact countSteps_of_idle sched s h (lt_of_le_of_ne h.nonneg (Ne.symm hidle)) hbusy

/-- `demoCfg` with `-y`. -/
def demoCfgY : PanConfig := { demoCfg with forkInRoad := true }

/-- The child `2` is started, `SIGUSR2` comes, and the `rec_signal` block idles the scheduler. -/
def idleRun : List PanInput :=
  [.step ⟨0, some 2, none, false, false, false, true⟩, .step ⟨0, some 2, none, false, false, false, true⟩,
    .signal .usr2, .step ⟨0, none, none, false, false, false, true⟩,
    .step ⟨0, none, none, false, false, false, true⟩, .step ⟨0, none, none, false, false, false, true⟩]

/-- `wait()` is interrupted, and pan goes round its loop. -/
def idleWait : List PanInput :=
  [.step ⟨0, none, none, false, false, false, true⟩, .step ⟨0, none, none, false, false, false, true⟩]

theorem pan_idle_no_start_run :
    (Sched.run (panStep demoCfgY) (panInit demoCfgY emptyZoo) idleRun).goIdle ≠ 0 ∧
      (∀ k ≤ idleWait.length, (Sched.run (panStep demoCfgY)
        (Sched.run (panStep demoCfgY) (panInit demoCfgY emptyZoo) idleRun)
          (idleWait.take k)).numActive ≠ 0) ∧
      Sched.countSteps (panStep demoCfgY) PanState.startedChild
        (Sched.run (panStep demoCfgY) (panInit demoCfgY emptyZoo) idleRun) idleWait = 0 :=
  ⟨by decide +kernel, by decide +kernel,
    pan_idle_no_start (Sched.reachable_run _) (by decide +kernel) idleWait (by decide +kernel)⟩

end Control

end Ltp
