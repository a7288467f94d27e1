import Ltp.Pan.SchedulerInv

/-!
# What every run of pan guarantees

From the invariant of `SchedulerInv`, on a zoo file of well-formed lines:

* `num_active` counts the occupied slots and never exceeds `keep_active`, and the slots hold pan's
  unreaped children, each in one slot;
* the zoo holds the lines it had before pan started, pan's own, one per running child and one per
  orphaned group;
* the inner loop always finds a free slot and `check_pids` always finds the line of the child it
  reaps, so neither the `Aborting` branch nor an `exit(1)` after a zoo call is ever taken;
* a finite `starts` bounds the number of children every run starts;
* pan exits with `exit_stat`, which is `0` without `-e`, or in `write_kmsg` when `/dev/kmsg` does
  not open, which `-q` and `-Q` rule out.

The count of started children is a potential argument: a step that starts one lowers `starts`,
which no step raises (`Sched.countSteps_add_le`).
-/

namespace Ltp

/-! ### What a step does to `starts` and to the children -/

section Frame

variable {cfg : PanConfig} {base : Multiset Int} {a : Answers} {s : PanState}

/-- `check_pids` leaves `starts` alone and only reaps children. -/
theorem checkPids_frame :
    (checkPids cfg a s).starts = s.starts ∧ (checkPids cfg a s).children.Sublist s.children := by
  unfold checkPids
  cases a.reap with
  | none => exact ⟨rfl, .refl _⟩
  | some rp =>
    obtain ⟨cpid, st⟩ := rp
    dsimp only
    split
    · exact ⟨rfl, List.erase_sublist⟩
    · split
      · exact ⟨rfl, .refl _⟩
      · split_ifs <;> exact ⟨rfl, List.erase_sublist⟩

theorem signalsStep_frame : (signalsStep s).starts = s.starts ∧ (signalsStep s).children = s.children := by
  unfold signalsStep PanState.idleOrStop
  split_ifs <;> exact ⟨rfl, rfl⟩

/-- Away from the inner loop's body, a step of `main` leaves `starts` alone and starts no child. -/
theorem mainStep_frame (hpc : s.pc ≠ .launch) :
    (mainStep cfg a s).starts = s.starts ∧ (mainStep cfg a s).children.Sublist s.children := by
  cases hp : s.pc with
  | launch => exact absurd hp hpc
  | signals =>
    unfold mainStep
    rw [hp]
    obtain ⟨h1, h2⟩ := signalsStep_frame (s := s)
    exact ⟨h1, h2 ▸ .refl _⟩
  | check =>
    unfold mainStep
    rw [hp]
    exact checkPids_frame
  | errs =>
    unfold mainStep errsStep
    rw [hp]
    dsimp only
    split <;> exact ⟨rfl, .refl _⟩
  | inner | afterLaunch | tail | orphanWait | orphanSleep | finish | exited _ | kmsgExit =>
    unfold mainStep
    rw [hp]
    dsimp only
    (try split_ifs) <;> exact ⟨rfl, .refl _⟩

/-- A step after which pan has one more unreaped child: `run_child` started one. -/
def PanState.startedChild (s s' : PanState) : Prop :=
  s.children.length < s'.children.length

instance : DecidableRel PanState.startedChild := fun s s' =>
  inferInstanceAs (Decidable (s.children.length < s'.children.length))

theorem not_startedChild {s' : PanState} (h : s'.children.Sublist s.children) :
    ¬ PanState.startedChild s s' := by
  unfold PanState.startedChild
  have := h.length_le
  omega

/-- The inner loop's body starts at most one child, and counts each start in `starts`, which its
test found non-zero. -/
theorem launch_starts (h : PanInv cfg base s) (hpc : s.pc = .launch) (h0 : 0 ≤ s.starts) :
    (if PanState.startedChild s (launch cfg a s) then 1 else 0) + (launch cfg a s).starts.toNat ≤
      s.starts.toNat ∧ 0 ≤ (launch cfg a s).starts := by
  have hs := (h.launchFree hpc).2
  unfold launch
  rw [if_neg (show ¬ ¬ s.running.any (·.pgrp = 0) = true by simp [h.free_of_launch hpc])]
  by_cases hk : ¬ cfg.testOutDir ∧ ¬ cfg.quietMode ∧ ¬ writeTestStartReturns cfg.noKmsg a.kmsgOpens
  · -- pan ends in `write_kmsg` before `fork`
    rw [if_pos hk]
    simp only [PanState.startedChild, lt_self_iff_false, if_false]
    omega
  rw [if_neg hk]
  dsimp only
  cases a.start with
  | none =>
    simp only [PanState.startedChild, lt_self_iff_false, if_false]
    split_ifs <;> omega
  | some cpid =>
    -- the started child joins the children and is counted down in `starts`
    simp only [(h.mark_entry cpid _).1, ne_eq, not_true_eq_false, if_false, PanState.startedChild,
      List.length_cons, Nat.lt_add_one, if_true, if_pos (show 0 < s.starts by omega)]
    omega

theorem mainStep_of_launch (hpc : s.pc = .launch) : mainStep cfg a s = launch cfg a s := by
  unfold mainStep
  rw [hpc]

/-- A caught signal or a group emptying is no step of `main`: it changes only the signal globals
and the live groups. -/
theorem panStep_event (cfg : PanConfig) (s : PanState) {i : PanInput} (hi : ∀ a, i ≠ .step a) :
    ∃ r g, panStep cfg s i = { s with sig := r, groups := g } := by
  cases i with
  | signal sig =>
    simp only [panStep]
    split
    · exact ⟨s.sig, s.groups, rfl⟩
    · exact ⟨s.sig, s.groups, rfl⟩
    · exact ⟨_, s.groups, rfl⟩
  | groupEmpty g =>
    simp only [panStep]
    split
    · exact ⟨s.sig, _, rfl⟩
    · exact ⟨s.sig, s.groups, rfl⟩
  | step a => exact absurd rfl (hi a)

/-- A step that is not the inner loop's body leaves `starts` alone and starts no child. -/
theorem panStep_frame {i : PanInput} (h : s.pc ≠ .launch ∨ ¬ ∃ a, i = .step a ∧ a.Valid cfg s) :
    (panStep cfg s i).starts = s.starts ∧ (panStep cfg s i).children.Sublist s.children := by
  by_cases hi : ∃ a, i = .step a
  · obtain ⟨a, rfl⟩ := hi
    by_cases hv : a.Valid cfg s
    · rw [panStep_of_valid hv]
      exact mainStep_frame (h.resolve_right (not_not.2 ⟨a, rfl, hv⟩))
    · rw [panStep_of_not_valid hv]
      exact ⟨rfl, .refl _⟩
  · obtain ⟨r, g, he⟩ := panStep_event cfg s fun a e => hi ⟨a, e⟩
    rw [he]
    exact ⟨rfl, .refl _⟩

/-- No step raises a finite `starts`, and a step that starts a child lowers it. -/
theorem starts_panStep (h : PanInv cfg base s) (h0 : 0 ≤ s.starts) (i : PanInput) :
    (if PanState.startedChild s (panStep cfg s i) then 1 else 0) + (panStep cfg s i).starts.toNat ≤
      s.starts.toNat ∧ 0 ≤ (panStep cfg s i).starts := by
  by_cases hl : s.pc = .launch ∧ ∃ a, i = .step a ∧ a.Valid cfg s
  · obtain ⟨hpc, a, rfl, hv⟩ := hl
    rw [panStep_of_valid hv, mainStep_of_launch hpc]
    exact launch_starts h hpc h0
  · have hf : (panStep cfg s i).starts = s.starts ∧ (panStep cfg s i).children.Sublist s.children :=
      panStep_frame (not_and_or.1 hl)
    rw [if_neg (not_startedChild hf.2), hf.1]
    omega

end Frame

/-! ### The guarantees -/

section Runs

variable {cfg : PanConfig} {z₀ : Zoo} {ss₀ : List Slot} {s : PanState}

/-- `num_active` counts occupied slots, of which there are `keep_active`. -/
theorem PanInv.numActive_le {base : Multiset Int} (h : PanInv cfg base s) :
    s.numActive ≤ cfg.keepActive := by
  rw [h.active, ← h.length]
  exact_mod_cast occupied_length_le s.running

/-- A configuration of one slot over one command, run in sequence, without `-e`. -/
def demoCfg : PanConfig where
  keepActive := 1
  sequential := true
  forkInRoad := false
  trackExitStats := false
  hasBrakes := false
  timed := false
  quietMode := false
  noKmsg := false
  testOutDir := false
  startsOpt := -1
  coll := [⟨"ls".toList, "ls".toList, false⟩]
  panPid := 1
  panname := "pan".toList
  args := []
  keepActive_pos := by decide
  coll_ne := by simp
  panPid_pos := by decide
  panname_noNewline := by decide
  args_noNewline := by simp
  coll_noNewline := by decide

/-- A run of `demoCfg` to its exit: the child `2` is started, exits `0` and is reaped, and pan
stops, finds no orphaned group, clears its line and exits. -/
def demoRun : List PanInput :=
  let go : Answers := ⟨0, none, none, false, false, false, true⟩
  [.step ⟨0, some 2, none, false, false, false, true⟩, .step ⟨0, some 2, none, false, false, false, true⟩,
    .step go, .step go, .step go, .step ⟨0, none, some (2, .exited 0), false, false, false, true⟩,
    .step go, .step go, .step go, .step go]

/-- The state of `demoCfg` after the first `n` inputs of `demoRun`. -/
def demoAt (n : Nat) : PanState :=
  Sched.run (panStep demoCfg) (panInit demoCfg emptyZoo) (demoRun.take n)

/-- The state of `demoCfg` at the end of `demoRun`. -/
def demoEnd : PanState :=
  Sched.run (panStep demoCfg) (panInit demoCfg emptyZoo) demoRun

/-- The empty zoo file holds no lines. -/
theorem zooHolds_emptyZoo : ZooHolds emptyZoo [] := ⟨rfl, by simp⟩

/-- `num_active` counts the occupied slots and stays within `keep_active`. -/
theorem pan_active_bounded (hz : ZooHolds z₀ ss₀)
    (hr : Sched.Reachable (panStep cfg) (panInit cfg z₀) s) :
    s.numActive = (occupied s.running).length ∧ s.numActive ≤ cfg.keepActive := by
  have h := panInv_reachable hz hr
  exact ⟨h.active, h.numActive_le⟩

theorem pan_active_bounded_run :
    (demoAt 2).numActive = (occupied (demoAt 2).running).length ∧
      (demoAt 2).numActive ≤ demoCfg.keepActive :=
  pan_active_bounded zooHolds_emptyZoo (Sched.reachable_run _)

/-- The occupied slots hold exactly pan's unreaped children, each in one slot. -/
theorem pan_children_slots (hz : ZooHolds z₀ ss₀)
    (hr : Sched.Reachable (panStep cfg) (panInit cfg z₀) s) :
    s.children.Perm (occupied s.running) ∧ (occupied s.running).Nodup := by
  have h := panInv_reachable hz hr
  exact ⟨h.children, h.children.nodup_iff.1 h.nodup⟩

theorem pan_children_slots_run :
    (demoAt 2).children.Perm (occupied (demoAt 2).running) ∧
      (occupied (demoAt 2).running).Nodup :=
  pan_children_slots zooHolds_emptyZoo (Sched.reachable_run _)

/-- The zoo is a file of well-formed lines whose active pids are those it had before pan started,
pan's own until it exits, one per running child and one per orphaned group. -/
theorem pan_zoo_lines (hz : ZooHolds z₀ ss₀) (hr : Sched.Reachable (panStep cfg) (panInit cfg z₀) s) :
    ZooLines s.zoo (activePids ss₀) (panLines cfg s) :=
  (panInv_reachable hz hr).zoo

theorem pan_zoo_lines_run :
    ZooLines (demoAt 2).zoo (activePids []) (panLines demoCfg (demoAt 2)) :=
  pan_zoo_lines zooHolds_emptyZoo (Sched.reachable_run _)

/-- `check_pids` reaps a child of pan's from its slot: `zoo_clear` finds the child's line, and
`check_pids` goes on to the `err` block with that child's count. -/
theorem PanInv.checkPids_reap {base : Multiset Int} (h : PanInv cfg base s)
    (hex : s.pc.pastFinish = false) {a : Answers} {cpid : Int32} {st : WaitStatus}
    (hrp : a.reap = some (cpid, st)) (hch : cpid ∈ s.children) :
    ∃ t, s.running.find? (·.pgrp = cpid) = some t ∧
      (checkPids cfg a s).pc =
        (if cfg.testOutDir ∧ ¬ cfg.quietMode ∧ ¬ writeTestStartReturns cfg.noKmsg a.kmsgOpens then .kmsgExit
        else .errs) ∧
      (¬ (cfg.testOutDir ∧ ¬ cfg.quietMode ∧ ¬ writeTestStartReturns cfg.noKmsg a.kmsgOpens) →
        (checkPids cfg a s).err = slotRet t st (exitRet st)) := by
  obtain ⟨-, hocc, -⟩ := h.reap_slots hch
  obtain ⟨t, hft, -⟩ := find_of_mem_occupied hocc
  obtain ⟨hc0, -⟩ := h.zoo_reap hex hch
  refine ⟨t, hft, ?_⟩
  unfold checkPids
  rw [hrp]
  dsimp only
  simp only [hft, hc0, ne_eq, not_true_eq_false, if_false]
  by_cases hk : cfg.testOutDir ∧ ¬ cfg.quietMode ∧ ¬ writeTestStartReturns cfg.noKmsg a.kmsgOpens
  · rw [if_pos hk, if_pos hk]
    exact ⟨rfl, fun hn => absurd hk hn⟩
  rw [if_neg hk, if_neg hk]
  -- `zoo_mark_cmdline` of the `panorphan` line returns `0` on a stream whose writes succeed
  split <;> exact ⟨rfl, fun _ => rfl⟩

/-- A finite `starts` bounds the children every run starts: `-s` runs at most that many tests. -/
theorem pan_starts_bound (hz : ZooHolds z₀ ss₀)
    (hr : Sched.Reachable (panStep cfg) (panInit cfg z₀) s) (h0 : 0 ≤ s.starts)
    (sched : List PanInput) :
    (Sched.countSteps (panStep cfg) PanState.startedChild s sched : Int) ≤ s.starts := by
  have hb : Sched.countSteps (panStep cfg) PanState.startedChild s sched +
      (Sched.run (panStep cfg) s sched).starts.toNat ≤ s.starts.toNat :=
    Sched.countSteps_add_le (P := fun s => PanInv cfg (activePids ss₀) s ∧ 0 ≤ s.starts)
      (fun s => s.starts.toNat) (fun s i hs => ⟨panInv_panStep hs.1 i, (starts_panStep hs.1 hs.2 i).2⟩)
      (fun s i hs => (starts_panStep hs.1 hs.2 i).1) sched s ⟨panInv_reachable hz hr, h0⟩
  omega

theorem pan_starts_bound_run :
    0 ≤ (panInit demoCfg emptyZoo).starts ∧
      (Sched.countSteps (panStep demoCfg) PanState.startedChild (panInit demoCfg emptyZoo) demoRun : Int) ≤
        (panInit demoCfg emptyZoo).starts :=
  ⟨by decide +kernel, pan_starts_bound zooHolds_emptyZoo .init
    (by decide +kernel) demoRun⟩

/-- The bookkeeping of pan's loop: the `keep_active` slots, of which `num_active` counts the
occupied ones, hold distinct pgrps; until its final `zoo_clear` the zoo holds, besides the lines
`base` of the file before pan started, pan's own line, one per occupied slot and one per orphaned
group; and `starts` is `-1` or a count that no step raises or takes below `0`. -/
structure PanBookkeeping (cfg : PanConfig) (base : Multiset Int) (s : PanState) : Prop where
  slots : s.running.length = cfg.keepActive
  active : s.numActive = (occupied s.running).length ∧ 0 ≤ s.numActive ∧ s.numActive ≤ cfg.keepActive
  distinct : (occupied s.running).Nodup
  zoo : s.pc.pastFinish = false →
    ZooLines s.zoo base ({cfg.panPid} + (occupied s.running : Multiset Int32) + orphanPids s.orphans)
  starts : s.starts = -1 ∨ 0 ≤ s.starts
  starts_step : ∀ i, 0 ≤ s.starts → 0 ≤ (panStep cfg s i).starts ∧ (panStep cfg s i).starts ≤ s.starts

theorem pan_bookkeeping (hz : ZooHolds z₀ ss₀)
    (hr : Sched.Reachable (panStep cfg) (panInit cfg z₀) s) :
    PanBookkeeping cfg (activePids ss₀) s := by
  have h := panInv_reachable hz hr
  refine ⟨h.length, ⟨h.active, by rw [h.active]; omega, h.numActive_le⟩,
    h.children.nodup_iff.1 h.nodup, fun hex => ?_, h.starts, fun i h0 => ?_⟩
  · -- before the final `zoo_clear` pan's own line is among the lines it answers for
    have hz' := h.zoo
    simp only [panLines, hex, Bool.false_eq_true, if_false] at hz'
    exact hz'
  · -- a finite `starts` only counts down, by one for each child started
    obtain ⟨hle, hnn⟩ := starts_panStep h h0 i
    have hdec : (panStep cfg s i).starts.toNat ≤ s.starts.toNat := le_trans (Nat.le_add_left _ _) hle
    exact ⟨hnn, by omega⟩

theorem pan_bookkeeping_demo : PanBookkeeping demoCfg (activePids []) (demoAt 2) :=
  pan_bookkeeping zooHolds_emptyZoo (Sched.reachable_run _)

/-! The `exit(1)` of `write_kmsg` needs both `quiet_mode` and `no_kmsg` off. -/

theorem noKmsg_of_writeTestStartReturns {k : Bool} (h : ¬ writeTestStartReturns cfg.noKmsg k) :
    cfg.noKmsg = false := by
  simp_all [writeTestStartReturns]

theorem launch_kmsgExit (h : (launch cfg a s).pc = .kmsgExit) :
    cfg.quietMode = false ∧ cfg.noKmsg = false := by
  unfold launch at h
  by_cases hfree : s.running.any (·.pgrp = 0) = true
  · rw [if_neg (show ¬ ¬ s.running.any (·.pgrp = 0) = true by simp [hfree])] at h
    by_cases hk : ¬ cfg.testOutDir ∧ ¬ cfg.quietMode ∧ ¬ writeTestStartReturns cfg.noKmsg a.kmsgOpens
    · exact ⟨by simpa using hk.2.1, noKmsg_of_writeTestStartReturns hk.2.2⟩
    · rw [if_neg hk] at h
      dsimp only at h
      split at h
      · cases h
      · split_ifs at h
  · rw [if_pos (show ¬ s.running.any (·.pgrp = 0) = true from hfree)] at h
    cases h

theorem checkPids_kmsgExit (h : (checkPids cfg a s).pc = .kmsgExit) :
    cfg.quietMode = false ∧ cfg.noKmsg = false := by
  unfold checkPids at h
  split at h
  · cases h
  · dsimp only at h
    split at h
    · cases h
    · split at h
      · rename_i hk
        exact ⟨by simpa using hk.2.1, noKmsg_of_writeTestStartReturns hk.2.2⟩
      · split_ifs at h

/-- A step of `main` reaches the `exit(1)` of `write_kmsg` only from it, or without `-q` and
`-Q`. -/
theorem mainStep_kmsgExit (h : (mainStep cfg a s).pc = .kmsgExit) :
    s.pc = .kmsgExit ∨ (cfg.quietMode = false ∧ cfg.noKmsg = false) := by
  cases hp : s.pc with
  | kmsgExit => exact .inl rfl
  | launch => exact .inr (launch_kmsgExit (mainStep_of_launch hp ▸ h))
  | check =>
    unfold mainStep at h
    rw [hp] at h
    exact .inr (checkPids_kmsgExit h)
  | signals =>
    unfold mainStep signalsStep at h
    rw [hp] at h
    cases h
  | errs =>
    unfold mainStep errsStep at h
    rw [hp] at h
    dsimp only at h
    split at h <;> cases h
  | inner | afterLaunch | tail | orphanWait =>
    unfold mainStep at h
    rw [hp] at h
    dsimp only at h
    split_ifs at h
  | orphanSleep | finish =>
    unfold mainStep at h
    rw [hp] at h
    cases h
  | exited _ =>
    simp only [mainStep, hp] at h
    cases h

theorem kmsgExit_reachable (hr : Sched.Reachable (panStep cfg) (panInit cfg z₀) s)
    (hpc : s.pc = .kmsgExit) : cfg.quietMode = false ∧ cfg.noKmsg = false := by
  have hinit : (panInit cfg z₀).pc ≠ .kmsgExit := by
    simp only [panInit]
    split_ifs <;> simp
  refine hr.invariant (P := fun s => s.pc = .kmsgExit → cfg.quietMode = false ∧ cfg.noKmsg = false)
    (fun e => absurd e hinit) (fun s i hs e => ?_) hpc
  by_cases hi : ∃ a, i = .step a ∧ a.Valid cfg s
  · obtain ⟨a, rfl, hv⟩ := hi
    rw [panStep_of_valid hv] at e
    exact (mainStep_kmsgExit e).elim hs id
  · -- any other step leaves the point as it was
    have hsame : (panStep cfg s i).pc = s.pc := by
      by_cases hs' : ∃ a, i = .step a
      · obtain ⟨a, rfl⟩ := hs'
        rw [panStep_of_not_valid fun hv => hi ⟨a, rfl, hv⟩]
      · obtain ⟨r, g, he⟩ := panStep_event cfg s fun a e => hs' ⟨a, e⟩
        rw [he]
    exact hs (hsame ▸ e)

end Runs

/-! ### `stop` is final -/

section Stop

variable {cfg : PanConfig} {z₀ : Zoo} {a : Answers} {s : PanState}

/-- The inner loop's body leaves `stop` alone, and goes on to the loop's test, to the `starts`
test after the abort, or to the exit. -/
theorem launch_stop : (launch cfg a s).stop = s.stop ∧ (launch cfg a s).pc ≠ .launch := by
  unfold launch
  by_cases hfree : s.running.any (·.pgrp = 0) = true
  · rw [if_neg (show ¬ ¬ s.running.any (·.pgrp = 0) = true by simp [hfree])]
    by_cases hk : ¬ cfg.testOutDir ∧ ¬ cfg.quietMode ∧ ¬ writeTestStartReturns cfg.noKmsg a.kmsgOpens
    · rw [if_pos hk]
      exact ⟨rfl, by simp⟩
    rw [if_neg hk]
    dsimp only
    cases a.start with
    | none => exact ⟨rfl, by simp⟩
    | some cpid =>
      dsimp only
      split <;> (try split) <;> exact ⟨rfl, by simp⟩
  · rw [if_pos (show ¬ s.running.any (·.pgrp = 0) = true from hfree)]
    exact ⟨rfl, by simp⟩

theorem checkPids_stop : (checkPids cfg a s).stop = s.stop ∧ (checkPids cfg a s).pc ≠ .launch := by
  unfold checkPids
  cases a.reap with
  | none => exact ⟨rfl, by simp⟩
  | some rp =>
    obtain ⟨cpid, st⟩ := rp
    dsimp only
    split
    · exact ⟨rfl, by simp⟩
    · split_ifs <;> exact ⟨rfl, by simp⟩

/-- `stop` only counts up: after `starts` ran out, at `PAN_STOP_FILE`, and at a caught signal. -/
theorem stop_le_mainStep : s.stop ≤ (mainStep cfg a s).stop := by
  cases hp : s.pc with
  | launch =>
    rw [mainStep_of_launch hp, launch_stop.1]
  | check =>
    unfold mainStep
    rw [hp, checkPids_stop.1]
  | afterLaunch =>
    unfold mainStep
    rw [hp]
    dsimp only
    split
    · exact Int.le_add_one le_rfl
    · exact le_rfl
  | signals =>
    unfold mainStep signalsStep PanState.idleOrStop
    rw [hp]
    dsimp only
    split_ifs <;> simp [propagateSignal]
  | errs =>
    unfold mainStep errsStep
    rw [hp]
    dsimp only
    split <;> exact le_rfl
  | inner | tail | orphanWait | orphanSleep =>
    unfold mainStep
    rw [hp]
    dsimp only
    split_ifs <;> exact le_rfl
  | finish | exited _ | kmsgExit =>
    -- `stop` is the same, and the rewrite closes the goal
    unfold mainStep
    rw [hp]

theorem stop_le_panStep (i : PanInput) : s.stop ≤ (panStep cfg s i).stop := by
  by_cases hi : ∃ a, i = .step a
  · obtain ⟨a, rfl⟩ := hi
    by_cases hv : a.Valid cfg s
    · rw [panStep_of_valid hv]
      exact stop_le_mainStep
    · rw [panStep_of_not_valid hv]
  · obtain ⟨r, g, he⟩ := panStep_event cfg s fun a e => hi ⟨a, e⟩
    rw [he]

/-- A step of `main` enters the inner loop's body only from its test, which found `stop` and
`go_idle` zero, and it changes nothing else. -/
theorem mainStep_launch (h : (mainStep cfg a s).pc = .launch) :
    s.pc = .inner ∧ s.stop = 0 ∧ s.goIdle = 0 ∧ mainStep cfg a s = { s with pc := .launch } := by
  cases hp : s.pc with
  | inner =>
    unfold mainStep at h ⊢
    rw [hp] at h ⊢
    dsimp only at h ⊢
    split at h
    · rename_i hin
      have hz := hin.2.2
      simp only [not_or, ne_eq, not_not] at hz
      exact ⟨rfl, hz.1, hz.2.2, if_pos hin⟩
    · cases h
  | launch => exact absurd (mainStep_of_launch hp ▸ h) launch_stop.2
  | check =>
    unfold mainStep at h
    rw [hp] at h
    exact absurd h checkPids_stop.2
  | signals =>
    unfold mainStep at h
    rw [hp] at h
    cases h
  | errs =>
    unfold mainStep errsStep at h
    rw [hp] at h
    dsimp only at h
    split at h <;> cases h
  | exited st =>
    unfold mainStep at h
    rw [hp] at h
    exact absurd (hp ▸ h) (by simp)
  | kmsgExit =>
    unfold mainStep at h
    rw [hp] at h
    exact absurd (hp ▸ h) (by simp)
  | afterLaunch | tail | orphanWait | orphanSleep | finish =>
    unfold mainStep at h
    rw [hp] at h
    dsimp only at h
    (try split_ifs at h) <;> cases h

/-- `stop` is not negative, and the inner loop's body runs with `stop` zero. -/
structure StopInv (s : PanState) : Prop where
  nonneg : 0 ≤ s.stop
  launch : s.pc = .launch → s.stop = 0

theorem stopInv_panStep (h : StopInv s) (i : PanInput) : StopInv (panStep cfg s i) := by
  by_cases hi : ∃ a, i = .step a
  · obtain ⟨a, rfl⟩ := hi
    by_cases hv : a.Valid cfg s
    · rw [panStep_of_valid hv]
      refine ⟨h.nonneg.trans stop_le_mainStep, fun hl => ?_⟩
      -- only the test of the inner loop enters its body, and it found `stop` zero
      obtain ⟨-, h0, -, he⟩ := mainStep_launch hl
      rw [he]
      exact h0
    · rw [panStep_of_not_valid hv]
      exact h
  · obtain ⟨r, g, he⟩ := panStep_event cfg s fun a e => hi ⟨a, e⟩
    rw [he]
    exact ⟨h.nonneg, h.launch⟩

theorem stopInv_reachable (hr : Sched.Reachable (panStep cfg) (panInit cfg z₀) s) : StopInv s :=
  hr.invariant ⟨le_rfl, fun _ => rfl⟩ fun _ i hs => stopInv_panStep hs i

/-- With `stop` set no step starts a child: pan is not in the inner loop's body. -/
theorem not_startedChild_of_stop (h : StopInv s) (hs : 0 < s.stop) (i : PanInput) :
    ¬ PanState.startedChild s (panStep cfg s i) := by
  have hpc : s.pc ≠ .launch := fun e => by
    have := h.launch e
    omega
  exact not_startedChild (panStep_frame (.inl hpc)).2

/-- Once `stop` is set, pan starts no child on any run: the inner loop's test fails from then on. -/
theorem pan_stop_final (hr : Sched.Reachable (panStep cfg) (panInit cfg z₀) s) (hs : s.stop ≠ 0)
    (sched : List PanInput) : Sched.countSteps (panStep cfg) PanState.startedChild s sched = 0 := by
  have h := stopInv_reachable hr
  -- no potential is needed: every step keeps `stop` positive and starts no child
  have hb : Sched.countSteps (panStep cfg) PanState.startedChild s sched + 0 ≤ 0 :=
    Sched.countSteps_add_le (P := fun s => StopInv s ∧ 0 < s.stop) (fun _ => 0)
      (fun s i hs => ⟨stopInv_panStep hs.1 i, lt_of_lt_of_le hs.2 (stop_le_panStep i)⟩)
      (fun s i hs => by rw [if_neg (not_startedChild_of_stop hs.1 hs.2 i)])
      sched s ⟨h, lt_of_le_of_ne h.nonneg (Ne.symm hs)⟩
  omega

theorem pan_stop_final_run :
    (demoAt 4).stop ≠ 0 ∧
      Sched.countSteps (panStep demoCfg) PanState.startedChild (demoAt 4) demoRun = 0 :=
  ⟨by decide +kernel, pan_stop_final (Sched.reachable_run _) (by decide +kernel) demoRun⟩

end Stop

/-! ### The signal ratchet of the orphan loop -/

section Ratchet

variable {cfg : PanConfig} {a : Answers} {s : PanState}

/-- A caught signal, as opposed to a step of `main` or a group emptying. -/
def PanInput.isSignal : PanInput → Bool
  | .signal _ => true
  | _ => false

/-- What the wake-up of the orphan loop at `s` passes on to the orphaned groups: `send_signal`
after the forced `SIGINT`, unless a signal came. -/
def wakeSignal (s : PanState) : Int :=
  (if s.sig.recSignal = 0 then waitHandler s.sig sigint else s.sig).sendSignal

/-- The signals the wake-ups along a run pass on, in order. -/
def wakeSignals (cfg : PanConfig) : PanState → List PanInput → List Int
  | _, [] => []
  | s, .step a :: sched =>
    (if s.pc = .orphanSleep ∧ a.Valid cfg s then [wakeSignal s] else []) ++
      wakeSignals cfg (panStep cfg s (.step a)) sched
  | s, i :: sched => wakeSignals cfg (panStep cfg s i) sched

/-- The signals forced wake-ups pass on, one after the other, after one that left `lastsent` at
`l`: each is `wait_handler(SIGINT)`'s choice from the one before. -/
def ratchetSends (l : Int) : Nat → List Int
  | 0 => []
  | n + 1 =>
    let x := (waitHandler ⟨0, 0, l⟩ sigint).sendSignal
    x :: ratchetSends x n

theorem length_ratchetSends (l : Int) (n : Nat) : (ratchetSends l n).length = n := by
  induction n generalizing l with
  | zero => rfl
  | succ n ih => simp [ratchetSends, ih]

theorem take_ratchetSends {m n : Nat} (h : m ≤ n) (l : Int) :
    (ratchetSends l n).take m = ratchetSends l m := by
  induction m generalizing n l with
  | zero => rfl
  | succ m ih =>
    obtain ⟨n, rfl⟩ : ∃ k, n = k + 1 := ⟨n - 1, by omega⟩
    simp only [ratchetSends, List.take_succ_cons, ih (n := n) (by omega)]

/-- A forced `SIGINT` moves the ratchet one place along `SIGINT`, `SIGTERM`, `SIGHUP`, `SIGKILL`
and `0`. -/
theorem ratchet_next (l : Int) :
    (waitHandler ⟨0, 0, l⟩ sigint).sendSignal ∈ [sigint, sigterm, sighup, sigkill, 0] := by
  -- the five places of the ratchet, and any other `lastsent`, after which the reset `0` is sent
  rcases em (l = 0 ∨ l = sigusr1 ∨ l = sigint ∨ l = sigterm ∨ l = sighup) with hl | hl
  · rcases hl with rfl | rfl | rfl | rfl | rfl <;> decide
  · simp only [not_or, sigusr1, sigint, sigterm, sighup] at hl
    simp [waitHandler, hl, sigint, sigusr2, sigusr1, sigterm, sighup, sigkill]

/-- Five forced wake-ups in a row pass `SIGKILL` on, wherever the ratchet stood. -/
theorem sigkill_mem_ratchetSends (l : Int) : sigkill ∈ ratchetSends l 5 := by
  have hx := ratchet_next l
  simp only [ratchetSends]
  generalize (waitHandler ⟨0, 0, l⟩ sigint).sendSignal = x at hx ⊢
  simp only [List.mem_cons, List.not_mem_nil, or_false] at hx
  rcases hx with rfl | rfl | rfl | rfl | rfl <;> decide

/-- A wake-up of the orphan loop passes its signal on and resets both globals, so the ratchet
keeps only `lastsent`. -/
theorem panStep_wake (hpc : s.pc = .orphanSleep) (hv : a.Valid cfg s) :
    (panStep cfg s (.step a)).pc = .orphanWait ∧
      (panStep cfg s (.step a)).sig =
        ⟨0, 0, (if s.sig.recSignal = 0 then waitHandler s.sig sigint else s.sig).lastsent⟩ := by
  rw [panStep_of_valid hv]
  unfold mainStep
  rw [hpc]
  dsimp only
  split <;> exact ⟨rfl, rfl⟩

/-- In the orphan loop and after it, a step other than a wake-up or a caught signal leaves the
ratchet alone. -/
theorem panStep_drain_frame {i : PanInput} (hd : s.pc.draining = true) (hns : i.isSignal = false)
    (hw : ∀ a, i = .step a → ¬ (s.pc = .orphanSleep ∧ a.Valid cfg s)) :
    (panStep cfg s i).pc.draining = true ∧ (panStep cfg s i).sig = s.sig := by
  cases i with
  | signal sig => cases hns
  | groupEmpty g =>
    simp only [panStep]
    split
    · exact ⟨hd, rfl⟩
    · exact ⟨hd, rfl⟩
  | step a =>
    by_cases hv : a.Valid cfg s
    · rw [panStep_of_valid hv]
      have hs : s.pc ≠ .orphanSleep := fun e => hw a rfl ⟨e, hv⟩
      -- the points after the scheduling loop, but the wake-up
      cases hp : s.pc with
      | orphanWait =>
        unfold mainStep
        rw [hp]
        dsimp only
        split <;> exact ⟨rfl, rfl⟩
      | finish =>
        unfold mainStep
        rw [hp]
        exact ⟨rfl, rfl⟩
      | exited st =>
        unfold mainStep
        rw [hp]
        exact ⟨hd, rfl⟩
      | orphanSleep => exact absurd hp hs
      | _ => simp [hp, PanPc.draining] at hd
    · rw [panStep_of_not_valid hv]
      exact ⟨hd, rfl⟩

/-- Once the orphan loop has woken up, with no signal caught its wake-ups pass on the ratchet's
sequence. -/
theorem wakeSignals_of_draining : ∀ (sched : List PanInput) (s : PanState) (l : Int),
    (∀ i ∈ sched, i.isSignal = false) → s.pc.draining = true → s.sig = ⟨0, 0, l⟩ →
      ∃ n, wakeSignals cfg s sched = ratchetSends l n
  | [], _, _, _, _, _ => ⟨0, rfl⟩
  | i :: sched, s, l, hns, hd, hsig => by
    have hns' : ∀ j ∈ sched, j.isSignal = false := fun j hj => hns j (List.mem_cons_of_mem _ hj)
    by_cases hw : ∃ a, i = .step a ∧ s.pc = .orphanSleep ∧ a.Valid cfg s
    · -- a wake-up: the forced `SIGINT` sends the next signal of the sequence
      obtain ⟨a, rfl, hpc, hv⟩ := hw
      obtain ⟨hpc', hsig'⟩ := panStep_wake hpc hv
      have hl : (panStep cfg s (.step a)).sig =
          ⟨0, 0, (waitHandler ⟨0, 0, l⟩ sigint).sendSignal⟩ := by
        rw [hsig', hsig]
        simp [waitHandler, sigint, sigusr2]
      obtain ⟨n, hn⟩ := wakeSignals_of_draining sched _ _ hns' (by rw [hpc']; rfl) hl
      refine ⟨n + 1, ?_⟩
      rw [wakeSignals, if_pos ⟨hpc, hv⟩, hn]
      simp [ratchetSends, wakeSignal, hsig]
    · have hf : (panStep cfg s i).pc.draining = true ∧ (panStep cfg s i).sig = s.sig :=
        panStep_drain_frame hd (hns i List.mem_cons_self) (fun a e hx => hw ⟨a, e, hx⟩)
      obtain ⟨n, hn⟩ := wakeSignals_of_draining sched _ l hns' hf.1 (hf.2.trans hsig)
      refine ⟨n, ?_⟩
      cases i with
      | signal sig => cases hns _ List.mem_cons_self
      | groupEmpty g => exact hn
      | step a =>
        rw [wakeSignals, if_neg (fun hx => hw ⟨a, rfl, hx⟩), List.nil_append]
        exact hn

/-- The first wake-up of a run, from wherever the ratchet stood, leaves it with only `lastsent`. -/
theorem wakeSignals_cons : ∀ (sched : List PanInput) (s : PanState) (x : Int) (rest : List Int),
    (∀ i ∈ sched, i.isSignal = false) → wakeSignals cfg s sched = x :: rest →
      ∃ s₁ sched₁ l, s₁.pc.draining = true ∧ s₁.sig = ⟨0, 0, l⟩ ∧
        (∀ i ∈ sched₁, i.isSignal = false) ∧ wakeSignals cfg s₁ sched₁ = rest
  | [], _, _, _, _, h => by simp [wakeSignals] at h
  | i :: sched, s, x, rest, hns, h => by
    have hns' : ∀ j ∈ sched, j.isSignal = false := fun j hj => hns j (List.mem_cons_of_mem _ hj)
    by_cases hw : ∃ a, i = .step a ∧ s.pc = .orphanSleep ∧ a.Valid cfg s
    · obtain ⟨a, rfl, hpc, hv⟩ := hw
      obtain ⟨hpc', hsig'⟩ := panStep_wake hpc hv
      rw [wakeSignals, if_pos ⟨hpc, hv⟩, List.singleton_append, List.cons.injEq] at h
      exact ⟨_, sched, _, by rw [hpc']; rfl, hsig', hns', h.2⟩
    · cases i with
      | signal sig => cases hns _ List.mem_cons_self
      | groupEmpty g => exact wakeSignals_cons sched _ x rest hns' h
      | step a =>
        rw [wakeSignals, if_neg (fun hx => hw ⟨a, rfl, hx⟩), List.nil_append] at h
        exact wakeSignals_cons sched _ x rest hns' h

/-- With no signal caught, the orphan loop sends `SIGKILL` to the orphaned groups within six
wake-ups, that is within thirty seconds of `sleep(5)`: the ratchet escalates each forced `SIGINT`. -/
theorem pan_orphans_killed (s : PanState) (sched : List PanInput)
    (hns : ∀ i ∈ sched, i.isSignal = false) (h6 : 6 ≤ (wakeSignals cfg s sched).length) :
    sigkill ∈ (wakeSignals cfg s sched).take 6 := by
  cases hw : wakeSignals cfg s sched with
  | nil => simp [hw] at h6
  | cons x rest =>
    obtain ⟨s₁, sched₁, l, hd, hsig, hns₁, hrest⟩ := wakeSignals_cons sched s x rest hns hw
    obtain ⟨n, hn⟩ := wakeSignals_of_draining sched₁ s₁ l hns₁ hd hsig
    rw [hw, List.length_cons, ← hrest, hn, length_ratchetSends] at h6
    rw [List.take_succ_cons, ← hrest, hn, take_ratchetSends (by omega)]
    exact List.mem_cons_of_mem _ (sigkill_mem_ratchetSends l)

/-- Pan in its orphan loop with one orphaned group, `5`, and no signal caught. -/
def orphanState : PanState :=
  ⟨.orphanSleep, [], 0, 0, 0, 1, 0, 0, 0, false, [5], emptyZoo, ⟨0, 0, 0⟩, [], [5]⟩

/-- Twelve scheduler steps that answer alike: no pid is started or reaped. -/
def orphanWakes : List PanInput :=
  List.replicate 12 (.step ⟨0, none, none, false, false, false, true⟩)

theorem pan_orphans_killed_run :
    (∀ i ∈ orphanWakes, i.isSignal = false) ∧
      6 ≤ (wakeSignals demoCfg orphanState orphanWakes).length ∧
      sigkill ∈ (wakeSignals demoCfg orphanState orphanWakes).take 6 :=
  ⟨by decide, by decide +kernel, pan_orphans_killed _ _ (by decide) (by decide +kernel)⟩

end Ratchet

end Ltp
