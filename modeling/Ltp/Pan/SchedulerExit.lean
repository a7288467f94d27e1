import Ltp.Pan.SchedulerModes

/-!
# Pan can always finish

From every state that a run of pan reaches on a well-formed zoo file, some run goes on to pan's
exit (`pan_can_exit`): pan has no deadlock.  The run is the one in which pan gets `SIGUSR1`, no
further child starts, the children exit with status `0` and their process groups empty.  It goes
through three phases, each with a variant that one of its steps lowers:

* before `stop` is set, `SIGUSR1` breaks the inner loop, and the `rec_signal` block turns it off
  `fork_in_road` and into `++stop` (`stopRank`);
* with `stop` set, each round of the loop reaps one child, until none runs and the loop ends
  (`drainRank`);
* in the orphan loop the groups empty, one by one; the loop then finds no orphaned group left,
  clears pan's zoo line and exits (`orphanRank`).
-/

namespace Ltp

variable {cfg : PanConfig} {base : Multiset Int} {z₀ : Zoo} {ss₀ : List Slot} {a : Answers}
  {s : PanState}

/-- The answers that wind pan down: no child starts, `wait()` reaps the first unreaped child with
exit status `0`, whose group is then empty, there is no `PAN_STOP_FILE`, and `/dev/kmsg` opens. -/
def windDown (s : PanState) : Answers :=
  ⟨0, none, s.children.head?.map fun p => (p, .exited 0), false, false, false, true⟩

theorem windDown_valid (cfg : PanConfig) (s : PanState) : (windDown s).Valid cfg s := by
  refine ⟨by simp [windDown], fun r hr => ?_⟩
  simp only [windDown, Option.mem_def, Option.map_eq_some_iff] at hr
  obtain ⟨p, hp, rfl⟩ := hr
  exact List.mem_of_mem_head? hp

theorem panStep_windDown (cfg : PanConfig) (s : PanState) :
    panStep cfg s (.step (windDown s)) = mainStep cfg (windDown s) s :=
  panStep_of_valid (windDown_valid cfg s)

/-- Once the slots are empty pan has no unreaped child. -/
theorem PanInv.children_eq_nil (h : PanInv cfg base s) (hd : s.pc.draining = true) :
    s.children = [] :=
  List.perm_nil.1 (h.drained hd ▸ h.children)

theorem PanInv.numActive_eq (h : PanInv cfg base s) : s.numActive = s.children.length := by
  rw [h.active, h.children.length_eq]

/-- Before pan exits a caught signal runs only `wait_handler`. -/
theorem panStep_signal (hex : s.pc.isExited = false) (g : PanSignal) :
    panStep cfg s (.signal g) = { s with sig := waitHandler s.sig g.num } := by
  simp only [panStep]
  split
  · next st hst => simp [hst, PanPc.isExited] at hex
  · next hst => simp [hst, PanPc.isExited] at hex
  · rfl

/-- `check_pids` goes on to the `err` block unless a write to the zoo file fails or `/dev/kmsg`
does not open. -/
theorem checkPids_pc (cfg : PanConfig) (a : Answers) (s : PanState) :
    (checkPids cfg a s).pc = .errs ∨ (checkPids cfg a s).pc = .exited 1 ∨
      (checkPids cfg a s).pc = .kmsgExit := by
  unfold checkPids
  cases a.reap with
  | none => exact .inl rfl
  | some rp =>
    dsimp only
    split
    · exact .inl rfl
    · split_ifs <;> simp

/-! ### The orphan loop -/

section Orphans

/-- The variant of the orphan loop: the live groups, then the way to `exit`. -/
def orphanRank (s : PanState) : Nat :=
  8 * s.groups.length +
    match s.pc with
    | .orphanWait => if s.orphans.any (· ≠ 0) then 4 else 2
    | .orphanSleep => 3
    | .finish => 1
    | _ => 0

/-- `check_orphans` with no live group clears every record. -/
theorem checkOrphans_nil (os : List Int32) (z : Zoo) : ∀ g ∈ (checkOrphans [] os z).1, g = 0 := by
  induction os generalizing z with
  | nil => simp [checkOrphans]
  | cons g os ih =>
    unfold checkOrphans
    split
    · simpa using ih _
    · rename_i hg
      have hg0 : g = 0 := by simpa using hg
      simpa [hg0] using ih z

/-- A group whose leader pan has reaped empties. -/
theorem panStep_groupEmpty {g : Int32} {gs : List Int32} (hg : s.groups = g :: gs)
    (hch : g ∉ s.children) :
    panStep cfg s (.groupEmpty g) = { s with groups := gs } := by
  simp only [panStep, hg, List.mem_cons, true_or, hch, not_false_eq_true, and_self, if_true,
    List.erase_cons_head]

/-- A step of the orphan loop: a group empties, or, with none left, the loop moves on to `exit`. -/
theorem orphanLoop_step (h : PanInv cfg base s) (hd : s.pc.draining = true)
    (hex : s.pc.isExited = false) :
    ∃ i, (panStep cfg s i).pc.isExited = true ∨
      ((panStep cfg s i).pc.draining = true ∧ orphanRank (panStep cfg s i) < orphanRank s) := by
  have hch := h.children_eq_nil hd
  cases hg : s.groups with
  | cons g gs =>
    -- the first live group empties
    refine ⟨.groupEmpty g, .inr ?_⟩
    rw [panStep_groupEmpty hg (by simp [hch])]
    refine ⟨hd, ?_⟩
    simp only [orphanRank, hg, List.length_cons]
    omega
  | nil =>
    refine ⟨.step (windDown s), ?_⟩
    rw [panStep_windDown]
    cases hp : s.pc with
    | orphanWait =>
      refine .inr ⟨?_, ?_⟩
      · exact mainStep_draining (by rw [hp]; rfl)
      · unfold mainStep
        rw [hp]
        dsimp only
        split_ifs with ho <;> simp only [orphanRank, hp, hg, ho, List.length_nil] <;> decide
    | orphanSleep =>
      -- with no live group `check_orphans` clears every record
      refine .inr ⟨mainStep_draining (by rw [hp]; rfl), ?_⟩
      have hclear : ∀ z, (checkOrphans [] s.orphans z).1.any (· ≠ 0) = false := fun z =>
        List.any_eq_false.2 fun g hg => by simpa using checkOrphans_nil s.orphans z g hg
      unfold mainStep
      rw [hp]
      dsimp only
      split <;> simp only [orphanRank, propagateSignal, hp, hg, List.length_nil, hclear] <;> decide
    | finish =>
      refine .inl ?_
      unfold mainStep
      rw [hp]
      rfl
    | exited st => simp [hp, PanPc.isExited] at hex
    | inner | launch | afterLaunch | signals | check | errs | tail | kmsgExit =>
      simp [hp, PanPc.draining] at hd

/-- From every reachable state in the orphan loop, or after `write_kmsg`'s exit, some run
exits. -/
theorem orphanLoop_exits (hz : ZooHolds z₀ ss₀) :
    ∀ s, Sched.Reachable (panStep cfg) (panInit cfg z₀) s ∧
        (s.pc.draining = true ∨ s.pc = .kmsgExit) →
      ∃ sched, (Sched.run (panStep cfg) s sched).pc.isExited = true := by
  refine Sched.exists_run_of_variant
    (P := fun s => Sched.Reachable (panStep cfg) (panInit cfg z₀) s ∧
      (s.pc.draining = true ∨ s.pc = .kmsgExit))
    (Q := fun s => s.pc.isExited = true) orphanRank fun s ⟨hr, hd⟩ hex => ?_
  -- `write_kmsg`'s exit is an exit: the orphan loop is what is left
  have hd : s.pc.draining = true := hd.resolve_right fun hk => hex (by rw [hk]; rfl)
  obtain ⟨i, hi | ⟨hd', hlt⟩⟩ :=
    orphanLoop_step (panInv_reachable hz hr) hd (Bool.eq_false_iff.2 hex)
  · exact ⟨i, .inl hi⟩
  · exact ⟨i, .inr ⟨⟨hr.next i, .inl hd'⟩, hlt⟩⟩

end Orphans

/-! ### The scheduling loop once `stop` is set -/

section Drain

/-- The variant of the loop once `stop` is set: six steps a round, and a child reaped in each. -/
def drainRank (s : PanState) : Nat :=
  match s.pc with
  | .inner => 6 * s.numActive.toNat + 9
  | .afterLaunch => 6 * s.numActive.toNat + 8
  | .signals => 6 * s.numActive.toNat + 7
  | .check => 6 * s.numActive.toNat + 6
  | .errs => if s.numActive.toNat = 0 then 5 else 6 * s.numActive.toNat + 11
  | .tail => if s.numActive.toNat = 0 then 4 else 6 * s.numActive.toNat + 10
  | _ => 0

/-- `check_pids` counts the child it reaps off `num_active`. -/
theorem numActive_checkPids (h : (checkPids cfg a s).pc ≠ .kmsgExit) :
    (checkPids cfg a s).numActive = if a.reap.isSome then s.numActive - 1 else s.numActive := by
  unfold checkPids at h ⊢
  revert h
  cases a.reap with
  | none => exact fun _ => rfl
  | some rp =>
    rw [Option.isSome_some, if_pos rfl]
    dsimp only
    split
    · exact fun _ => rfl
    · -- the `exit(1)` of `write_kmsg` keeps the count: it is not the branch taken
      intro h
      split_ifs at h ⊢ <;> first | rfl | exact absurd rfl h

theorem numActive_signalsStep : (signalsStep s).numActive = s.numActive := by
  unfold signalsStep PanState.idleOrStop
  split_ifs <;> rfl

/-- A round of the loop with `stop` set: it reaps a child at `check_pids`, and ends the loop at
the `stop` test once none runs. -/
theorem drainLoop_step (h : PanInv cfg base s) (hs : StopInv s) (hd : s.pc.draining = false)
    (hk : s.pc ≠ .kmsgExit) (h0 : 0 < s.stop) :
    ((mainStep cfg (windDown s) s).pc.draining = true ∨
        (mainStep cfg (windDown s) s).pc = .kmsgExit) ∨
      ((mainStep cfg (windDown s) s).pc.draining = false ∧
        drainRank (mainStep cfg (windDown s) s) < drainRank s) := by
  have hn := h.numActive_eq
  cases hp : s.pc with
  | launch =>
    have := hs.launch hp
    omega
  | inner =>
    -- the inner loop's test fails on `stop`
    refine .inr ⟨?_, ?_⟩ <;> unfold mainStep <;> rw [hp] <;> dsimp only <;>
      rw [if_neg (fun hc => hc.2.2 (.inl (by omega)))]
    · rfl
    · simp only [drainRank, hp]
      omega
  | afterLaunch =>
    refine .inr ⟨?_, ?_⟩ <;> unfold mainStep <;> rw [hp] <;> dsimp only <;> split_ifs
    all_goals simp only [drainRank, hp, PanPc.draining]
    all_goals omega
  | signals =>
    have hm : mainStep cfg (windDown s) s = signalsStep s := by
      unfold mainStep
      rw [hp]
    rw [hm]
    refine .inr ⟨rfl, ?_⟩
    simp only [drainRank, hp, numActive_signalsStep, show (signalsStep s).pc = .check from rfl]
    omega
  | check =>
    have hm : mainStep cfg (windDown s) s = checkPids cfg (windDown s) s := by
      unfold mainStep
      rw [hp]
    rw [hm]
    rcases checkPids_pc cfg (windDown s) s with hc | hc | hc
    · refine .inr ⟨by rw [hc]; rfl, ?_⟩
      simp only [drainRank, hp, hc, numActive_checkPids (by rw [hc]; decide)]
      cases hch : s.children with
      | nil =>
        -- `wait()` finds no child: `num_active` is zero already
        have hr : (windDown s).reap = none := by simp [windDown, hch]
        rw [hch, List.length_nil, Nat.cast_zero] at hn
        simp only [hr, Option.isSome_none, hn]
        decide
      | cons c cs =>
        have hr : (windDown s).reap = some (c, .exited 0) := by simp [windDown, hch]
        rw [hch, List.length_cons] at hn
        simp only [hr, Option.isSome_some, if_true, hn]
        split_ifs <;> omega
    · exact .inl (.inl (by rw [hc]; rfl))
    · exact .inl (.inr hc)
  | errs =>
    refine .inr ⟨?_, ?_⟩ <;> unfold mainStep errsStep <;> rw [hp] <;> dsimp only <;> split
    all_goals simp only [drainRank, hp, PanPc.draining]
    all_goals split_ifs <;> omega
  | tail =>
    unfold mainStep
    rw [hp]
    dsimp only
    split_ifs with h₁ h₂
    · exact .inl (.inl rfl)
    · exact absurd h₂.2 (fun e => h₁ ⟨by omega, e⟩)
    · -- a child runs: the next round begins
      refine .inr ⟨rfl, ?_⟩
      have hne : s.numActive ≠ 0 := fun e => h₁ ⟨by omega, e⟩
      simp only [drainRank, hp]
      split_ifs <;> omega
  | orphanWait | orphanSleep | finish | exited _ =>
    simp [hp, PanPc.draining] at hd
  | kmsgExit => exact absurd hp hk

/-- From every reachable state of the scheduling loop with `stop` set some run ends the loop, or
ends pan in `write_kmsg`. -/
theorem drainLoop_ends (hz : ZooHolds z₀ ss₀) :
    ∀ s, Sched.Reachable (panStep cfg) (panInit cfg z₀) s ∧ s.pc.draining = false ∧ 0 < s.stop →
      ∃ sched, Sched.Reachable (panStep cfg) (panInit cfg z₀) (Sched.run (panStep cfg) s sched) ∧
        ((Sched.run (panStep cfg) s sched).pc.draining = true ∨
          (Sched.run (panStep cfg) s sched).pc = .kmsgExit) := by
  refine Sched.exists_run_of_variant
    (P := fun s => Sched.Reachable (panStep cfg) (panInit cfg z₀) s ∧ s.pc.draining = false ∧
      0 < s.stop)
    (Q := fun s => Sched.Reachable (panStep cfg) (panInit cfg z₀) s ∧
      (s.pc.draining = true ∨ s.pc = .kmsgExit))
    drainRank fun s ⟨hr, hd, h0⟩ hq => ?_
  have hstop : 0 < (panStep cfg s (.step (windDown s))).stop :=
    lt_of_lt_of_le h0 (stop_le_panStep _)
  refine ⟨.step (windDown s), ?_⟩
  rcases drainLoop_step (panInv_reachable hz hr) (stopInv_reachable hr) hd
    (fun hk => hq ⟨hr, .inr hk⟩) h0 with hd' | ⟨hd', hlt⟩
  · exact .inl ⟨hr.next _, by rw [panStep_windDown]; exact hd'⟩
  · rw [panStep_windDown] at hstop ⊢
    exact .inr ⟨⟨panStep_windDown cfg s ▸ hr.next _, hd', hstop⟩, hlt⟩

end Drain

/-! ### The scheduling loop before `stop` is set -/

section Stop

/-- The variant of the loop before `stop` is set: the way round to the `rec_signal` block, and
whether `SIGUSR1` has still to come.  The signal lowers it by one at the three points before the
block; a step of `main` lowers it by at least one everywhere else. -/
def stopRank (s : PanState) : Nat :=
  let u := if s.sig.recSignal = sigusr1 then 0 else 1
  match s.pc with
  | .signals => u
  | .afterLaunch => 2 + u
  | .inner => 4 + u
  | .launch => 6
  | .tail => 7
  | .errs => 8
  | .check => 9
  | _ => 0

/-- A step of the loop before `stop` is set: `SIGUSR1` arrives, or `main` moves on to the
`rec_signal` block, where the signal sets `stop`. -/
theorem stopLoop_step (cfg : PanConfig) (hd : s.pc.draining = false) (hk : s.pc ≠ .kmsgExit)
    (h0 : s.stop = 0) :
    ∃ i, ((panStep cfg s i).pc.draining = true ∨ 0 < (panStep cfg s i).stop ∨
        (panStep cfg s i).pc = .kmsgExit) ∨
      ((panStep cfg s i).pc.draining = false ∧ stopRank (panStep cfg s i) < stopRank s) := by
  have hex : s.pc.isExited = false := by
    cases hp : s.pc <;> simp_all [PanPc.draining, PanPc.isExited]
  by_cases hsig : s.sig.recSignal ≠ sigusr1 ∧
      (s.pc = .inner ∨ s.pc = .afterLaunch ∨ s.pc = .signals)
  · -- `wait_handler` records `SIGUSR1` in `rec_signal`
    obtain ⟨hu, hpc⟩ := hsig
    have hr : (waitHandler s.sig PanSignal.usr1.num).recSignal = sigusr1 :=
      recSignal_waitHandler _ (PanSignal.num_ne_zero _)
    refine ⟨.signal .usr1, .inr ?_⟩
    rw [panStep_signal hex]
    refine ⟨hd, ?_⟩
    rcases hpc with hp | hp | hp <;> simp only [stopRank, hp, hr, hu, if_true, if_false] <;> omega
  · refine ⟨.step (windDown s), ?_⟩
    rw [panStep_windDown]
    cases hp : s.pc with
    | inner =>
      -- the signal fails the inner loop's test
      have hu : s.sig.recSignal = sigusr1 := by
        by_contra hu
        exact hsig ⟨hu, .inl hp⟩
      have hm : mainStep cfg (windDown s) s = { s with pc := .afterLaunch } := by
        unfold mainStep
        rw [hp]
        dsimp only
        rw [if_neg (fun hc => hc.2.2 (.inr (.inl (by rw [hu]; decide))))]
      rw [hm]
      refine .inr ⟨rfl, ?_⟩
      simp only [stopRank, hp, hu, if_true]
      omega
    | afterLaunch =>
      have hu : s.sig.recSignal = sigusr1 := by
        by_contra hu
        exact hsig ⟨hu, .inr (.inl hp)⟩
      unfold mainStep
      rw [hp]
      dsimp only
      split_ifs
      · exact .inl (.inr (.inl (show 0 < s.stop + 1 by omega)))
      · refine .inr ⟨rfl, ?_⟩
        simp only [stopRank, hp, hu, if_true]
        omega
    | signals =>
      -- the `rec_signal` block turns `fork_in_road` off and counts `++stop`
      have hu : s.sig.recSignal = sigusr1 := by
        by_contra hu
        exact hsig ⟨hu, .inr (.inr hp)⟩
      refine .inl (.inr (.inl ?_))
      unfold mainStep signalsStep PanState.idleOrStop
      rw [hp]
      dsimp only
      rw [if_neg (by rw [hu]; decide), if_neg (by rw [hu]; decide), if_pos hu]
      simp [propagateSignal, h0]
    | launch =>
      -- `windDown` starts no child, so the body goes back to the test or past the loop
      rw [mainStep_of_launch hp]
      rcases launch_pc cfg (windDown s) s with hl | hl | hl | hl
      · refine .inr ⟨by rw [hl]; rfl, ?_⟩
        simp only [stopRank, hp, hl]
        split <;> omega
      · refine .inr ⟨by rw [hl]; rfl, ?_⟩
        simp only [stopRank, hp, hl]
        split <;> omega
      · exact .inl (.inl (by rw [hl]; rfl))
      · exact .inl (.inr (.inr hl))
    | tail =>
      unfold mainStep
      rw [hp]
      dsimp only
      rw [if_neg (fun hc => hc.1 h0)]
      split_ifs <;> refine .inr ⟨rfl, ?_⟩ <;> simp only [stopRank, hp] <;> split <;> omega
    | errs =>
      unfold mainStep errsStep
      rw [hp]
      dsimp only
      split <;> exact .inr ⟨rfl, by simp only [stopRank, hp]; omega⟩
    | check =>
      have hm : mainStep cfg (windDown s) s = checkPids cfg (windDown s) s := by
        unfold mainStep
        rw [hp]
      rw [hm]
      rcases checkPids_pc cfg (windDown s) s with hc | hc | hc
      · refine .inr ⟨by rw [hc]; rfl, ?_⟩
        simp only [stopRank, hp, hc]
        omega
      · exact .inl (.inl (by rw [hc]; rfl))
      · exact .inl (.inr (.inr hc))
    | orphanWait | orphanSleep | finish | exited _ =>
      simp [hp, PanPc.draining] at hd
    | kmsgExit => exact absurd hp hk

/-- From every reachable state of the loop before `stop` is set some run sets `stop`, ends the
loop, or ends pan in `write_kmsg`. -/
theorem stopLoop_stops :
    ∀ s, Sched.Reachable (panStep cfg) (panInit cfg z₀) s ∧ s.pc.draining = false ∧ s.stop = 0 →
      ∃ sched, Sched.Reachable (panStep cfg) (panInit cfg z₀) (Sched.run (panStep cfg) s sched) ∧
        ((Sched.run (panStep cfg) s sched).pc.draining = true ∨
          0 < (Sched.run (panStep cfg) s sched).stop ∨
          (Sched.run (panStep cfg) s sched).pc = .kmsgExit) := by
  refine Sched.exists_run_of_variant
    (P := fun s => Sched.Reachable (panStep cfg) (panInit cfg z₀) s ∧ s.pc.draining = false ∧
      s.stop = 0)
    (Q := fun s => Sched.Reachable (panStep cfg) (panInit cfg z₀) s ∧
      (s.pc.draining = true ∨ 0 < s.stop ∨ s.pc = .kmsgExit))
    stopRank fun s ⟨hr, hd, h0⟩ hq => ?_
  obtain ⟨i, hi | ⟨hd', hlt⟩⟩ := stopLoop_step cfg hd (fun hk => hq ⟨hr, .inr (.inr hk)⟩) h0
  · exact ⟨i, .inl ⟨hr.next i, hi⟩⟩
  · -- `stop` is never negative, so a step that does not set it leaves it zero
    by_cases hpos : 0 < (panStep cfg s i).stop
    · exact ⟨i, .inl ⟨hr.next i, .inr (.inl hpos)⟩⟩
    · have := (stopInv_reachable (hr.next i)).nonneg
      exact ⟨i, .inr ⟨⟨hr.next i, hd', by omega⟩, hlt⟩⟩

end Stop

end Ltp
