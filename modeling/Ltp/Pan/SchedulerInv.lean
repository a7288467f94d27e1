import Ltp.Pan.Scheduler

/-!
# The bookkeeping of pan's scheduler

`main` keeps three records of its children that must agree: the counter `num_active`, the slots
of `running`, and the zoo file, which also holds pan's own line and one `panorphan` line for each
orphaned group.  `PanInv` says that they agree with each other and with the kernel: `num_active`
counts the occupied slots, their pgrps are pan's unreaped children, each once, and the active zoo
lines are those the zoo had before pan started, pan's own line until it exits, one per occupied
slot and one per orphan record.  It holds in every reachable state (`panInv_reachable`), and with
it:

* the abort of a full `running` and the `exit(1)`s after failed zoo calls are dead code;
* a finite `starts` never grows along any run;
* when pan exits, the active pids of the zoo are those it had before pan started (the lines
  themselves are `SchedulerZoo`'s).
-/

namespace Ltp

/-! ### The views the invariant is stated in -/

/-- The pgrps of the occupied slots, in slot order. -/
def occupied (running : List TagPgrp) : List Int32 :=
  (running.map TagPgrp.pgrp).filter (· ≠ 0)

/-- The pgrps the orphan records hold. -/
def orphanPids (os : List Int32) : Multiset Int32 :=
  (os.filter (· ≠ 0) : List Int32)

/-- Pan has exited: at its final `exit(exit_stat)`, or in `write_kmsg`. -/
def PanPc.isExited : PanPc → Bool
  | .exited _ | .kmsgExit => true
  | _ => false

/-- Pan is past its final `zoo_clear(zoofile, getpid())`, which takes its own zoo line. -/
def PanPc.pastFinish : PanPc → Bool
  | .exited _ => true
  | _ => false

/-- The points after the scheduling loop. -/
def PanPc.draining : PanPc → Bool
  | .orphanWait | .orphanSleep | .finish | .exited _ => true
  | _ => false

/-- The zoo lines pan answers for: its own until its final `zoo_clear`, one per occupied slot and
one per orphan record. -/
def panLines (cfg : PanConfig) (s : PanState) : Multiset Int32 :=
  (if s.pc.pastFinish then 0 else {cfg.panPid}) + (occupied s.running : Multiset Int32) +
    orphanPids s.orphans

/-- The zoo is a file of well-formed lines whose active pids are `base` and those of `L`. -/
def ZooLines (z : Zoo) (base : Multiset Int) (L : Multiset Int32) : Prop :=
  ∃ ss, ZooHolds z ss ∧ activePids ss = base + L.map Int32.toInt

/-! ### Slots -/

@[simp] theorem occupied_nil : occupied [] = [] := rfl

@[simp] theorem occupied_cons_of_eq {t : TagPgrp} (ts : List TagPgrp) (h : t.pgrp = 0) :
    occupied (t :: ts) = occupied ts := by
  simp [occupied, h]

@[simp] theorem occupied_cons_of_ne {t : TagPgrp} (ts : List TagPgrp) (h : t.pgrp ≠ 0) :
    occupied (t :: ts) = t.pgrp :: occupied ts := by
  simp [occupied, h]

theorem occupied_replicate_empty (n : Nat) : occupied (List.replicate n TagPgrp.empty) = [] := by
  induction n with
  | zero => rfl
  | succ n ih => rw [List.replicate_succ, occupied_cons_of_eq _ rfl, ih]

theorem occupied_length_le (us : List TagPgrp) : (occupied us).length ≤ us.length := by
  unfold occupied
  exact (List.length_filter_le _ _).trans (List.length_map _).le

/-- A slot list with fewer occupied slots than slots has a free one. -/
theorem any_free_of_lt : ∀ {us : List TagPgrp}, (occupied us).length < us.length →
    us.any (·.pgrp = 0) = true
  | [], h => by simp at h
  | u :: us, h => by
    by_cases hu : u.pgrp = 0
    · simp [hu]
    · rw [occupied_cons_of_ne _ hu, List.length_cons, List.length_cons] at h
      simp [hu, any_free_of_lt (show (occupied us).length < us.length by omega)]

theorem length_fillSlot (t : TagPgrp) : ∀ us : List TagPgrp, (fillSlot t us).length = us.length
  | [] => rfl
  | u :: us => by
    unfold fillSlot
    split
    · rfl
    · rw [List.length_cons, List.length_cons, length_fillSlot t us]

theorem mem_fillSlot {t x : TagPgrp} : ∀ {us : List TagPgrp}, x ∈ fillSlot t us → x = t ∨ x ∈ us
  | [], h => by simp [fillSlot] at h
  | u :: us, h => by
    unfold fillSlot at h
    split at h
    · rcases List.mem_cons.1 h with rfl | h
      · exact .inl rfl
      · exact .inr (List.mem_cons_of_mem _ h)
    · rcases List.mem_cons.1 h with rfl | h
      · exact .inr List.mem_cons_self
      · exact (mem_fillSlot h).imp_right (List.mem_cons_of_mem _)

/-- Filling the first free slot adds its pgrp to the occupied ones. -/
theorem occupied_fillSlot {t : TagPgrp} (ht : t.pgrp ≠ 0) :
    ∀ {us : List TagPgrp}, us.any (·.pgrp = 0) = true →
      (occupied (fillSlot t us)).Perm (t.pgrp :: occupied us)
  | [], h => by simp at h
  | u :: us, h => by
    by_cases hu : u.pgrp = 0
    · rw [fillSlot, if_pos hu, occupied_cons_of_ne _ ht, occupied_cons_of_eq _ hu]
    · have hus : us.any (·.pgrp = 0) = true := by simpa [hu] using h
      rw [fillSlot, if_neg hu, occupied_cons_of_ne _ hu, occupied_cons_of_ne _ hu]
      exact ((occupied_fillSlot ht hus).cons _).trans (List.Perm.swap _ _ _)

theorem length_clearSlot (cpid : Int32) : ∀ us : List TagPgrp, (clearSlot cpid us).length = us.length
  | [] => rfl
  | u :: us => by
    unfold clearSlot
    split
    · rfl
    · rw [List.length_cons, List.length_cons, length_clearSlot cpid us]

theorem mem_clearSlot {cpid : Int32} {x : TagPgrp} :
    ∀ {us : List TagPgrp}, x ∈ clearSlot cpid us → ∃ u ∈ us, x.cmd = u.cmd
  | [], h => by simp [clearSlot] at h
  | u :: us, h => by
    unfold clearSlot at h
    split at h
    · rcases List.mem_cons.1 h with rfl | h
      · exact ⟨u, List.mem_cons_self, rfl⟩
      · exact ⟨x, List.mem_cons_of_mem _ h, rfl⟩
    · rcases List.mem_cons.1 h with rfl | h
      · exact ⟨x, List.mem_cons_self, rfl⟩
      · obtain ⟨v, hv, he⟩ := mem_clearSlot h
        exact ⟨v, List.mem_cons_of_mem _ hv, he⟩

/-- Freeing the first slot of `cpid` takes `cpid` out of the occupied pgrps once. -/
theorem occupied_clearSlot {cpid : Int32} (hc : cpid ≠ 0) :
    ∀ us : List TagPgrp, occupied (clearSlot cpid us) = (occupied us).erase cpid
  | [] => rfl
  | u :: us => by
    by_cases hu : u.pgrp = cpid
    · rw [clearSlot, if_pos hu, occupied_cons_of_eq _ rfl, occupied_cons_of_ne _ (hu ▸ hc), hu,
        List.erase_cons_head]
    · rw [clearSlot, if_neg hu]
      by_cases h0 : u.pgrp = 0
      · rw [occupied_cons_of_eq _ h0, occupied_cons_of_eq _ h0, occupied_clearSlot hc us]
      · rw [occupied_cons_of_ne _ h0, occupied_cons_of_ne _ h0, occupied_clearSlot hc us,
          List.erase_cons_tail (by simpa using hu)]

/-- The slot `check_pids` finds for an occupied pgrp. -/
theorem find_of_mem_occupied {cpid : Int32} {us : List TagPgrp} (h : cpid ∈ occupied us) :
    ∃ t, us.find? (·.pgrp = cpid) = some t ∧ t ∈ us := by
  simp only [occupied, List.mem_filter, List.mem_map] at h
  obtain ⟨⟨t, ht, rfl⟩, -⟩ := h
  have hs : (us.find? (·.pgrp = t.pgrp)).isSome := List.find?_isSome.2 ⟨t, ht, by simp⟩
  obtain ⟨u, hu⟩ := Option.isSome_iff_exists.1 hs
  exact ⟨u, hu, List.mem_of_find?_eq_some hu⟩

/-- Marking the occupied slots `stopping` keeps their pgrps. -/
theorem occupied_map_stopping (us : List TagPgrp) :
    occupied (us.map fun t => if t.pgrp = 0 then t else { t with stopping := true }) =
      occupied us := by
  induction us with
  | nil => rfl
  | cons u us ih =>
    by_cases hu : u.pgrp = 0
    · rw [List.map_cons, if_pos hu, occupied_cons_of_eq _ hu, occupied_cons_of_eq _ hu, ih]
    · rw [List.map_cons, if_neg hu, occupied_cons_of_ne _ (by simpa using hu),
        occupied_cons_of_ne _ hu, ih]

/-! ### Orphan records -/

@[simp] theorem orphanPids_nil : orphanPids [] = 0 := rfl

@[simp] theorem orphanPids_cons_zero (os : List Int32) : orphanPids (0 :: os) = orphanPids os := by
  simp [orphanPids]

theorem orphanPids_cons_of_ne {g : Int32} (os : List Int32) (h : g ≠ 0) :
    orphanPids (g :: os) = g ::ₘ orphanPids os := by
  simp [orphanPids, h]

theorem orphanPids_eq_zero {os : List Int32} (h : os.any (· ≠ 0) = false) : orphanPids os = 0 := by
  simp only [List.any_eq_false, decide_eq_true_eq, not_not] at h
  simp only [orphanPids, Multiset.coe_eq_zero, List.filter_eq_nil_iff, decide_eq_true_eq,
    not_not]
  exact h

theorem orphanPids_setFirstFree {cpid : Int32} (hc : cpid ≠ 0) :
    ∀ {os os' : List Int32}, setFirstFree cpid os = some os' → orphanPids os' = cpid ::ₘ orphanPids os
  | [], _, h => by simp [setFirstFree] at h
  | g :: os, os', h => by
    unfold setFirstFree at h
    split at h
    · rename_i hg
      cases h
      rw [hg, orphanPids_cons_of_ne _ hc, orphanPids_cons_zero]
    · rename_i hg
      obtain ⟨os'', hs, rfl⟩ := Option.map_eq_some_iff.1 h
      rw [orphanPids_cons_of_ne _ hg, orphanPids_cons_of_ne _ hg, orphanPids_setFirstFree hc hs,
        Multiset.cons_swap]

/-- `mark_orphan` adds the pgrp to the records. -/
theorem orphanPids_markOrphan (os : List Int32) {cpid : Int32} (hc : cpid ≠ 0) :
    orphanPids (markOrphan os cpid) = cpid ::ₘ orphanPids os := by
  unfold markOrphan
  cases hs : setFirstFree cpid os with
  | some os' => exact orphanPids_setFirstFree hc hs
  | none =>
    -- no free record: a new one after the head
    cases os with
    | nil => simp [orphanPids_cons_of_ne _ hc]
    | cons head rest =>
      by_cases h0 : head = 0
      · rw [h0, orphanPids_cons_zero, orphanPids_cons_of_ne _ hc, orphanPids_cons_zero]
      · rw [orphanPids_cons_of_ne _ h0, orphanPids_cons_of_ne _ hc, orphanPids_cons_of_ne _ h0,
          Multiset.cons_swap]

/-! ### Zoo calls on the lines -/

section Lines

variable {z : Zoo} {base : Multiset Int} {L : Multiset Int32}

theorem ZooLines.congr {L' : Multiset Int32} (h : ZooLines z base L) (he : L = L') :
    ZooLines z base L' :=
  he ▸ h

/-- `zoo_clear` of a pid with a line succeeds and takes one of its lines. -/
theorem ZooLines.clear {p : Int32} (h : ZooLines z base L) (hp : p ∈ L) :
    (zooClear z p).2 = 0 ∧ ZooLines (zooClear z p).1 base (L.erase p) := by
  obtain ⟨ss, hz, hl⟩ := h
  have hmem : p.toInt ∈ activePids ss := by
    rw [hl]
    exact Multiset.mem_add.2 (.inr (Multiset.mem_map_of_mem _ hp))
  rw [zooClear_render hz]
  cases hcl : clearSlots p ss with
  | none => exact absurd (clearSlots_eq_none_iff.1 hcl) (not_not.2 hmem)
  | some ss' =>
    obtain ⟨hpids, hwf⟩ := clearSlots_eq_some hz.2 hcl
    refine ⟨rfl, ss', ⟨rfl, hwf⟩, ?_⟩
    rw [hpids, hl, Multiset.erase_add_right_pos _ (Multiset.mem_map_of_mem _ hp),
      Multiset.map_erase _ (fun a b h => Int32.toInt_inj.1 h)]

/-- `zoo_mark_cmdline` of a newline-free tag and command line succeeds and adds a line. -/
theorem ZooLines.mark {p : Int32} {tag cmdline : List Char} (h : ZooLines z base L)
    (hnt : '\n' ∉ tag) (hnc : '\n' ∉ cmdline) :
    (zooMarkCmdline z p tag cmdline).2 = 0 ∧
      ZooLines (zooMarkCmdline z p tag cmdline).1 base (p ::ₘ L) := by
  obtain ⟨ss, hz, hl⟩ := h
  rw [zooMarkCmdline_render hz hnt hnc]
  refine ⟨rfl, markSlots (.used p tag cmdline) ss, ⟨rfl, markSlots_wf (used_wf hnt hnc) hz.2⟩, ?_⟩
  rw [activePids_markSlots, hl, Multiset.map_cons, Multiset.add_cons]

/-- `check_orphans` clears the zoo line of each record it clears. -/
theorem ZooLines.checkOrphans (groups : List Int32) :
    ∀ (os : List Int32) {z : Zoo} {M : Multiset Int32}, ZooLines z base (M + orphanPids os) →
      ZooLines (Ltp.checkOrphans groups os z).2 base (M + orphanPids (Ltp.checkOrphans groups os z).1)
  | [], _, _, h => h
  | g :: os, z, M, h => by
    by_cases hg : g ≠ 0 ∧ g ∉ groups
    · -- the group is gone: its record and its line are cleared
      rw [orphanPids_cons_of_ne _ hg.1] at h
      obtain ⟨-, hz⟩ := h.clear (Multiset.mem_add.2 (.inr (Multiset.mem_cons_self _ _)))
      rw [Multiset.add_cons, Multiset.erase_cons_head] at hz
      simp only [Ltp.checkOrphans, if_pos hg, orphanPids_cons_zero]
      exact ZooLines.checkOrphans groups os hz
    · simp only [Ltp.checkOrphans, if_neg hg]
      by_cases h0 : g = 0
      · subst h0
        rw [orphanPids_cons_zero] at h ⊢
        exact ZooLines.checkOrphans groups os h
      · rw [orphanPids_cons_of_ne _ h0, Multiset.add_cons, ← Multiset.cons_add] at h ⊢
        exact ZooLines.checkOrphans groups os h

end Lines

/-! ### The set-up -/

section Setup

variable {base : Multiset Int}

theorem setupMarks_lines (panname : List Char) (hn : '\n' ∉ panname) :
    ∀ (cs : List Nat) {z : Zoo} {L : Multiset Int32}, ZooLines z base L →
      (setupMarks panname z cs).2 = 0 ∧
        ZooLines (setupMarks panname z cs).1 base ((cs.map Int32.ofNat : List Int32) + L)
  | [], _, _, h => ⟨rfl, by simpa [setupMarks] using h⟩
  | c :: cs, z, L, h => by
    obtain ⟨h0, hm⟩ := h.mark (p := Int32.ofNat c) hn (List.not_mem_nil)
    simp only [setupMarks, h0, ne_eq, not_true_eq_false, if_false]
    obtain ⟨hr, hl⟩ := setupMarks_lines panname hn cs hm
    refine ⟨hr, hl.congr ?_⟩
    rw [List.map_cons, ← Multiset.cons_coe, Multiset.cons_add, Multiset.add_cons]

theorem setupClears_lines :
    ∀ (cs : List Nat) {z : Zoo} {L : Multiset Int32},
      ZooLines z base ((cs.map Int32.ofNat : List Int32) + L) →
      (setupClears z cs).2 = 0 ∧ ZooLines (setupClears z cs).1 base L
  | [], _, _, h => ⟨rfl, by simpa [setupClears] using h⟩
  | c :: cs, z, L, h => by
    rw [List.map_cons, ← Multiset.cons_coe, Multiset.cons_add] at h
    obtain ⟨h0, hc⟩ := h.clear (Multiset.mem_cons_self _ _)
    rw [Multiset.erase_cons_head] at hc
    simp only [setupClears, h0, ne_eq, not_true_eq_false, if_false]
    exact setupClears_lines cs hc

/-- The set-up's zoo calls all succeed on a file of well-formed lines, and leave it with pan's own
line added. -/
theorem panInit_lines (cfg : PanConfig) {z₀ : Zoo} (hz : ZooLines z₀ base 0) :
    (panInit cfg z₀).pc = .inner ∧ ZooLines (panInit cfg z₀).zoo base {cfg.panPid} := by
  obtain ⟨ha, hza⟩ := hz.mark (p := cfg.panPid) cfg.panname_noNewline cfg.args_noNewline
  obtain ⟨hm, hzm⟩ := setupMarks_lines cfg.panname cfg.panname_noNewline
    (List.range cfg.keepActive) hza
  obtain ⟨hc, hzc⟩ := setupClears_lines (List.range cfg.keepActive) hzm
  exact ⟨by simp [panInit, ha, hm, hc], hzc⟩

end Setup

/-! ### The invariant -/

/-- What the scheduler keeps of its children: `num_active` counts the occupied slots, whose
pgrps are pan's unreaped children, each once; every slot's command comes from the collection; the
zoo holds the lines it started with (`base`) and those of `panLines`; `starts` is `-1` or counts
down; `c` indexes the collection; and the slots are empty once the loop has ended, and the orphans
gone before the final `zoo_clear`; the final `exit(exit_stat)` returns `exit_stat`, which stays `0`
without `-e`. -/
structure PanInv (cfg : PanConfig) (base : Multiset Int) (s : PanState) : Prop where
  length : s.running.length = cfg.keepActive
  active : s.numActive = (occupied s.running).length
  children : s.children.Perm (occupied s.running)
  nodup : s.children.Nodup
  cmds : ∀ t ∈ s.running, ∀ e ∈ t.cmd, e ∈ cfg.coll
  zoo : ZooLines s.zoo base (panLines cfg s)
  starts : s.starts = -1 ∨ 0 ≤ s.starts
  c : s.c < cfg.coll.length
  launchFree : s.pc = .launch → s.numActive < cfg.keepActive ∧ s.starts ≠ 0
  drained : s.pc.draining = true → occupied s.running = []
  cleared : s.pc = .finish ∨ s.pc.pastFinish = true → orphanPids s.orphans = 0
  status : ∀ st, s.pc = .exited st → st = s.exitStat
  quiet : cfg.trackExitStats = false → s.exitStat = 0

section Inv

variable {cfg : PanConfig} {base : Multiset Int} {s s' : PanState}

/-- The slots, the counter, the children, the zoo and the orphan records: what a step that only
moves `main` on leaves alone. -/
def PanState.ledger (s : PanState) : List TagPgrp × Int × List Int32 × Zoo × List Int32 :=
  (s.running, s.numActive, s.children, s.zoo, s.orphans)

/-- A step that leaves the ledger alone keeps the invariant, given what its new `starts`, `c`,
point and `exit_stat` need. -/
theorem PanInv.move (h : PanInv cfg base s) (hb : s'.ledger = s.ledger)
    (hex : s'.pc.pastFinish = s.pc.pastFinish)
    (hs : s'.starts = -1 ∨ 0 ≤ s'.starts) (hcc : s'.c < cfg.coll.length)
    (hl : s'.pc = .launch → s.numActive < cfg.keepActive ∧ s'.starts ≠ 0)
    (hd : s'.pc.draining = true → occupied s.running = [])
    (hf : s'.pc = .finish ∨ s'.pc.pastFinish = true → orphanPids s.orphans = 0)
    (hst : ∀ st, s'.pc = .exited st → st = s'.exitStat)
    (hq : cfg.trackExitStats = false → s'.exitStat = s.exitStat) :
    PanInv cfg base s' := by
  simp only [PanState.ledger, Prod.mk.injEq] at hb
  obtain ⟨hr, hn, hc, hz, ho⟩ := hb
  have hp : panLines cfg s' = panLines cfg s := by simp only [panLines, hr, ho, hex]
  refine ⟨?_, ?_, ?_, ?_, ?_, ?_, hs, hcc, ?_, ?_, ?_, hst, fun ht => (hq ht).trans (h.quiet ht)⟩
  · rw [hr]; exact h.length
  · rw [hn, hr]; exact h.active
  · rw [hc, hr]; exact h.children
  · rw [hc]; exact h.nodup
  · rw [hr]; exact h.cmds
  · rw [hz, hp]; exact h.zoo
  · rw [hn]; exact hl
  · rw [hr]; exact hd
  · rw [ho]; exact hf

/-- The part of the state the invariant reads. -/
def PanState.book (s : PanState) :
    PanPc × (List TagPgrp × Int × List Int32 × Zoo × List Int32) × Int × Nat × Int :=
  (s.pc, s.ledger, s.starts, s.c, s.exitStat)

/-- A step that changes only what the invariant does not read keeps it. -/
theorem PanInv.of_book (h : PanInv cfg base s) (hb : s'.book = s.book) : PanInv cfg base s' := by
  simp only [PanState.book, Prod.mk.injEq] at hb
  obtain ⟨hpc, hl, hs, hcc, he⟩ := hb
  exact h.move hl (by rw [hpc]) (hs ▸ h.starts) (hcc ▸ h.c)
    (fun e => hs ▸ h.launchFree (hpc ▸ e)) (fun e => h.drained (hpc ▸ e)) (fun e => h.cleared (hpc ▸ e))
    (fun st e => he ▸ h.status st (hpc ▸ e)) (fun _ => he)

theorem idleOrStop_book (s : PanState) : s.idleOrStop.book = s.book := by
  unfold PanState.idleOrStop
  split <;> rfl

theorem idleOrStop_pc (s : PanState) : s.idleOrStop.pc = s.pc :=
  congrArg Prod.fst (idleOrStop_book s)

theorem panLines_before_finish (h : s.pc.pastFinish = false) :
    panLines cfg s = cfg.panPid ::ₘ ((occupied s.running : Multiset Int32) + orphanPids s.orphans) := by
  simp only [panLines, h, Bool.false_eq_true, if_false, Multiset.singleton_add, Multiset.cons_add]

theorem panInv_init (cfg : PanConfig) {z₀ : Zoo} {ss₀ : List Slot} (hz : ZooHolds z₀ ss₀) :
    PanInv cfg (activePids ss₀) (panInit cfg z₀) := by
  have hz₀ : ZooLines z₀ (activePids ss₀) 0 := ⟨ss₀, hz, by simp⟩
  obtain ⟨hpc, hzoo⟩ := panInit_lines cfg hz₀
  have hocc : occupied (panInit cfg z₀).running = [] := occupied_replicate_empty _
  refine ⟨List.length_replicate, by simp [panInit, occupied_replicate_empty],
    by simp [panInit, occupied_replicate_empty], List.nodup_nil, ?_, ?_, ?_, ?_,
    fun e => absurd (hpc ▸ e) (by simp), ?_, ?_, fun _ e => absurd (hpc ▸ e) (by simp), fun _ => rfl⟩
  · intro t ht e he
    have ht' : t ∈ List.replicate cfg.keepActive TagPgrp.empty := ht
    rw [List.eq_of_mem_replicate ht'] at he
    cases he
  · refine hzoo.congr ?_
    have ho : (panInit cfg z₀).orphans = [0] := rfl
    rw [panLines, hpc, hocc, ho]
    simp [PanPc.pastFinish]
  · -- the default of `starts`
    have hk := cfg.keepActive_pos
    simp only [panInit, PanConfig.initStarts]
    split_ifs <;> omega
  · simpa [panInit] using List.length_pos_of_ne_nil cfg.coll_ne
  · simp [hpc, PanPc.draining]
  · simp [hpc, PanPc.pastFinish]

/-- The zoo after `check_orphans`: the records it cleared have lost their lines. -/
theorem PanInv.zoo_checkOrphans (h : PanInv cfg base s) (hex : s.pc.pastFinish = false) :
    ZooLines (checkOrphans s.groups s.orphans s.zoo).2 base
      (cfg.panPid ::ₘ ((occupied s.running : Multiset Int32) +
        orphanPids (checkOrphans s.groups s.orphans s.zoo).1)) :=
  (ZooLines.checkOrphans s.groups s.orphans (M := cfg.panPid ::ₘ (occupied s.running : Multiset Int32))
    (h.zoo.congr (by rw [panLines_before_finish hex, Multiset.cons_add]))).congr
    (by rw [Multiset.cons_add])

/-- `propagate_signal` keeps the invariant: it marks slots `stopping` and clears the records of
groups that are gone, with their zoo lines. -/
theorem PanInv.propagate (h : PanInv cfg base s) (hpc : s.pc ≠ .finish) (hex : s.pc.pastFinish = false) :
    PanInv cfg base (propagateSignal s) := by
  have hz := h.zoo_checkOrphans hex
  have hocc : occupied (propagateSignal s).running = occupied s.running := occupied_map_stopping _
  refine ⟨?_, ?_, ?_, h.nodup, ?_, ?_, h.starts, h.c, h.launchFree, ?_, ?_, h.status, h.quiet⟩
  · simpa [propagateSignal] using h.length
  · rw [hocc]; exact h.active
  · rw [hocc]; exact h.children
  · intro t ht e he
    obtain ⟨u, hu, rfl⟩ := List.mem_map.1 ht
    exact h.cmds u hu e (by split at he <;> exact he)
  · refine hz.congr ?_
    rw [panLines_before_finish (s := propagateSignal s) hex, hocc]
    rfl
  · rw [hocc]; exact h.drained
  · rintro (e | e)
    · exact absurd e hpc
    · exact absurd e (by simp [propagateSignal, hex])

/-- The inner loop's test let it in with `num_active < keep_active`, so a slot is free. -/
theorem PanInv.free_of_launch (h : PanInv cfg base s) (hpc : s.pc = .launch) :
    s.running.any (·.pgrp = 0) = true := by
  have hl := (h.launchFree hpc).1
  rw [h.active] at hl
  exact any_free_of_lt (by rw [h.length]; omega)

/-- `zoo_mark_cmdline` of a child started for a collection entry succeeds and adds its line. -/
theorem PanInv.mark_entry (h : PanInv cfg base s) (cpid : Int32) (c : Nat) :
    (zooMarkCmdline s.zoo cpid (cfg.entry c).name (cfg.entry c).cmdline).2 = 0 ∧
      ZooLines (zooMarkCmdline s.zoo cpid (cfg.entry c).name (cfg.entry c).cmdline).1 base
        (cpid ::ₘ panLines cfg s) :=
  have he := cfg.coll_noNewline _ (List.get_mem _ _)
  h.zoo.mark he.1 he.2

/-- The inner loop's body keeps the invariant.  Its test let it in with `num_active <
keep_active`, so a slot is free; a started child has a fresh pid, which fills that slot, joins
the children and gets its zoo line. -/
theorem panInv_launch {a : Answers} (h : PanInv cfg base s) (hv : a.Valid cfg s)
    (hpc : s.pc = .launch) : PanInv cfg base (launch cfg a s) := by
  have hfree := h.free_of_launch hpc
  have hlen := List.length_pos_of_ne_nil cfg.coll_ne
  have hex : s.pc.pastFinish = false := by rw [hpc]; rfl
  -- the command index stays below `coll->cnt`
  have hc : (if cfg.sequential then s.c else a.draw % cfg.coll.length) < cfg.coll.length := by
    split
    · exact h.c
    · exact Nat.mod_lt _ hlen
  have hnext : ∀ c < cfg.coll.length,
      (if cfg.sequential then (if cfg.coll.length ≤ c + 1 then 0 else c + 1) else c) < cfg.coll.length := by
    intro c hc
    split_ifs <;> omega
  have hst := h.starts
  unfold launch
  rw [if_neg (by simp [hfree])]
  by_cases hk : ¬ cfg.testOutDir ∧ ¬ cfg.quietMode ∧ ¬ writeTestStartReturns cfg.noKmsg a.kmsgOpens
  · -- `write_kmsg`'s `exit(1)` before `fork` leaves the ledger as it was
    rw [if_pos hk]
    exact h.move rfl (by rw [hex]; rfl) hst hc (fun e => (by cases e)) (by simp [PanPc.draining])
      (by simp [PanPc.pastFinish]) (fun _ e => (by cases e)) (fun _ => rfl)
  rw [if_neg hk]
  cases hs : a.start with
  | none =>
    refine h.move rfl (by rw [hex]; rfl) ?_ (hnext _ hc) (fun e => (by cases e))
      (by simp [PanPc.draining]) (by simp [PanPc.pastFinish]) (fun _ e => (by cases e)) (fun _ => rfl)
    dsimp only
    split_ifs <;> omega
  | some cpid =>
    have hf : s.Fresh cfg cpid := hv.1 cpid (by simp [hs])
    have hcpid : cpid ≠ 0 := fun e => by simpa [e] using hf.1
    have hmem : cfg.entry (if cfg.sequential then s.c else a.draw % cfg.coll.length) ∈ cfg.coll :=
      List.get_mem _ _
    obtain ⟨hm0, hzm⟩ := h.mark_entry cpid (if cfg.sequential then s.c else a.draw % cfg.coll.length)
    have hocc := occupied_fillSlot
      (t := ⟨cpid, false, some (cfg.entry (if cfg.sequential then s.c else a.draw % cfg.coll.length))⟩)
      hcpid hfree
    simp only [hm0, ne_eq, not_true_eq_false, if_false]
    refine ⟨?_, ?_, ?_, ?_, ?_, hzm.congr ?_, ?_, hnext _ hc, fun e => (by cases e),
      by simp [PanPc.draining], by simp [PanPc.pastFinish], fun _ e => (by cases e), h.quiet⟩
    · simp [length_fillSlot, h.length]
    · show s.numActive + 1 = ((occupied (fillSlot _ s.running)).length : Int)
      rw [hocc.length_eq, h.active, List.length_cons, Nat.cast_succ]
    · exact (h.children.cons cpid).trans hocc.symm
    · exact List.nodup_cons.2 ⟨hf.2.2.1, h.nodup⟩
    · intro t ht e he
      rcases mem_fillSlot ht with rfl | ht
      · cases he
        exact hmem
      · exact h.cmds t ht e he
    · rw [panLines_before_finish hex]
      simp only [panLines, PanPc.pastFinish, Bool.false_eq_true, if_false, Multiset.coe_eq_coe.2 hocc,
        ← Multiset.cons_coe, Multiset.singleton_add, Multiset.cons_add, Multiset.cons_swap]
    · dsimp only
      split_ifs <;> omega

/-- What reaping an occupied pgrp does to the slots: the counter drops by one, the children lose
it, and its slot is freed. -/
theorem PanInv.reap_slots {cpid : Int32} (h : PanInv cfg base s) (hch : cpid ∈ s.children) :
    cpid ≠ 0 ∧ cpid ∈ occupied s.running ∧
      s.numActive - 1 = ((occupied (clearSlot cpid s.running)).length : Int) ∧
      (s.children.erase cpid).Perm (occupied (clearSlot cpid s.running)) ∧
      ∀ t ∈ clearSlot cpid s.running, ∀ e ∈ t.cmd, e ∈ cfg.coll := by
  have hocc : cpid ∈ occupied s.running := h.children.mem_iff.1 hch
  have hcpid : cpid ≠ 0 := by
    simp only [occupied, List.mem_filter, decide_eq_true_eq] at hocc
    exact hocc.2
  refine ⟨hcpid, hocc, ?_, ?_, ?_⟩
  · rw [occupied_clearSlot hcpid, List.length_erase_of_mem hocc, h.active]
    have := List.length_pos_of_mem hocc
    omega
  · rw [occupied_clearSlot hcpid]
    exact h.children.erase cpid
  · intro t ht e he
    obtain ⟨u, hu, hcmd⟩ := mem_clearSlot ht
    exact h.cmds u hu e (hcmd ▸ he)

/-- `zoo_clear` after `check_orphans` finds the line of a reaped child of pan's and frees it with
its slot. -/
theorem PanInv.zoo_reap {cpid : Int32} (h : PanInv cfg base s) (hex : s.pc.pastFinish = false)
    (hch : cpid ∈ s.children) :
    (zooClear (checkOrphans s.groups s.orphans s.zoo).2 cpid).2 = 0 ∧
      ZooLines (zooClear (checkOrphans s.groups s.orphans s.zoo).2 cpid).1 base
        (cfg.panPid ::ₘ ((occupied (clearSlot cpid s.running) : Multiset Int32) +
          orphanPids (checkOrphans s.groups s.orphans s.zoo).1)) := by
  obtain ⟨hcpid, hocc, -⟩ := h.reap_slots hch
  have hm : cpid ∈ (occupied s.running : Multiset Int32) := Multiset.mem_coe.2 hocc
  obtain ⟨hc0, hzc⟩ := (h.zoo_checkOrphans hex).clear
    (Multiset.mem_cons_of_mem (Multiset.mem_add.2 (.inl hm)))
  -- the line of the reaped child is the one taken
  rw [Multiset.erase_cons_tail_of_mem (Multiset.mem_add.2 (.inl hm)),
    Multiset.erase_add_left_pos _ hm, Multiset.coe_erase, ← occupied_clearSlot hcpid] at hzc
  exact ⟨hc0, hzc⟩

/-- A slot's command line holds no newline: it is a collection entry's. -/
theorem PanInv.cmdline_noNewline {t : TagPgrp} (h : PanInv cfg base s) (ht : t ∈ s.running) :
    '\n' ∉ (t.cmd.map CollEntry.cmdline).getD [] := by
  cases hcmd : t.cmd with
  | none => simp
  | some e => simpa using (cfg.coll_noNewline e (h.cmds t ht e (by simp [hcmd]))).2

/-- `check_pids` keeps the invariant.  The child `wait()` reaped occupies a slot, so its zoo line
exists and `zoo_clear` finds it; a group that lives on moves its line to a `panorphan` one and
into an orphan record. -/
theorem panInv_checkPids {a : Answers} (h : PanInv cfg base s) (hv : a.Valid cfg s)
    (hpc : s.pc = .check) : PanInv cfg base (checkPids cfg a s) := by
  have hex : s.pc.pastFinish = false := by rw [hpc]; rfl
  -- the `err` block, or the `exit(1)` of `write_kmsg`, after the ledger only `check_orphans` moved
  have hsame : ∀ s' : PanState, (s'.pc = .errs ∨ s'.pc = .kmsgExit) → s'.running = s.running →
      s'.numActive = s.numActive → s'.children = s.children → s'.starts = s.starts → s'.c = s.c →
      s'.exitStat = s.exitStat →
      ZooLines s'.zoo base (cfg.panPid ::ₘ ((occupied s.running : Multiset Int32) +
        orphanPids s'.orphans)) → PanInv cfg base s' := by
    intro s' hp hr hn hc hs hcc he hz'
    have hpt : s'.pc.draining = false ∧ s'.pc.pastFinish = false ∧ s'.pc ≠ .launch ∧
        s'.pc ≠ .finish ∧ ∀ st, s'.pc ≠ .exited st := by
      rcases hp with hp | hp <;> simp [hp, PanPc.draining, PanPc.pastFinish]
    refine ⟨hr ▸ h.length, hn ▸ hr ▸ h.active, hc ▸ hr ▸ h.children, hc ▸ h.nodup, hr ▸ h.cmds,
      hz'.congr ?_, hs ▸ h.starts, hcc ▸ h.c, fun e => absurd e hpt.2.2.1,
      by simp [hpt.1], by simp [hpt.2.1, hpt.2.2.2.1], fun st e => absurd e (hpt.2.2.2.2 st),
      fun ht => he ▸ h.quiet ht⟩
    rw [panLines_before_finish hpt.2.1, hr]
  unfold checkPids
  cases hrp : a.reap with
  | none => exact hsame _ (.inl rfl) rfl rfl rfl rfl rfl rfl (h.zoo_checkOrphans hex)
  | some rp =>
    obtain ⟨cpid, st⟩ := rp
    have hch := hv.2 (cpid, st) (by simp [hrp])
    obtain ⟨hcpid, hocc, hact, hperm, hcmds⟩ := h.reap_slots hch
    obtain ⟨t, hft, htmem⟩ := find_of_mem_occupied hocc
    obtain ⟨hc0, hzc⟩ := h.zoo_reap hex hch
    simp only [hft, hc0, ne_eq, not_true_eq_false, if_false]
    have hnd := h.nodup.erase cpid
    split
    · exact hsame _ (.inr rfl) rfl rfl rfl rfl rfl rfl (h.zoo_checkOrphans hex)
    split
    · have hnt : '\n' ∉ "panorphan".toList := by simp
      obtain ⟨hm0, hzm⟩ := hzc.mark (p := cpid) hnt (h.cmdline_noNewline htmem)
      simp only [hm0, not_true_eq_false, if_false]
      refine ⟨by simp [length_clearSlot, h.length], hact, hperm, hnd, hcmds, hzm.congr ?_, h.starts,
        h.c, fun e => (by cases e), by simp [PanPc.draining], by simp [PanPc.pastFinish],
        fun _ e => (by cases e), h.quiet⟩
      simp only [panLines, PanPc.pastFinish, Bool.false_eq_true, if_false,
        orphanPids_markOrphan _ hcpid, Multiset.singleton_add, Multiset.cons_add, Multiset.add_cons]
    · refine ⟨by simp [length_clearSlot, h.length], hact, hperm, hnd, hcmds, hzc.congr ?_, h.starts,
        h.c, fun e => (by cases e), by simp [PanPc.draining], by simp [PanPc.pastFinish],
        fun _ e => (by cases e), h.quiet⟩
      simp only [panLines, PanPc.pastFinish, Bool.false_eq_true, if_false, Multiset.singleton_add,
        Multiset.cons_add]

/-- The final `zoo_clear(zoofile, getpid())` finds pan's own line, and leaves the zoo as it was
before pan started: the slots are empty and the orphan records clear by then. -/
theorem panInv_finish (h : PanInv cfg base s) (hpc : s.pc = .finish) :
    PanInv cfg base (mainStep cfg a s) := by
  have hex : s.pc.pastFinish = false := by rw [hpc]; rfl
  have hocc := h.drained (by rw [hpc]; rfl)
  have horph := h.cleared (.inl hpc)
  obtain ⟨hc0, hzc⟩ := h.zoo.clear (p := cfg.panPid)
    (by rw [panLines_before_finish hex]; exact Multiset.mem_cons_self _ _)
  rw [panLines_before_finish hex, Multiset.erase_cons_head] at hzc
  unfold mainStep
  rw [hpc]
  simp only [hc0, ne_eq, not_true_eq_false, if_false]
  refine ⟨h.length, h.active, h.children, h.nodup, h.cmds, hzc.congr ?_, h.starts, h.c,
    fun e => (by cases e), fun _ => hocc, fun _ => horph, fun _ e => (PanPc.exited.inj e).symm,
    h.quiet⟩
  simp [panLines, PanPc.pastFinish]

/-- The `rec_signal` block keeps the invariant: each of its branches changes at most the signal
globals, `stop`, `go_idle` and `fork_in_road`, or propagates the signal. -/
theorem panInv_signalsStep (h : PanInv cfg base s) (hpc : s.pc = .signals) :
    PanInv cfg base (signalsStep s) := by
  have hex : s.pc.pastFinish = false := by rw [hpc]; rfl
  suffices hX : ∀ X : PanState, PanInv cfg base X → X.pc = .signals →
      PanInv cfg base { X with pc := .check } by
    unfold signalsStep
    apply hX
    · split_ifs
      · exact h
      · exact h.of_book (by rw [idleOrStop_book]; rfl)
      · refine PanInv.of_book ?_ (idleOrStop_book _)
        have hf : PanInv cfg base { s with forkInRoad := false } := h.of_book rfl
        exact hf.propagate (by simp [hpc]) (by simp [hex])
      · exact PanInv.of_book (h.propagate (by simp [hpc]) hex) (idleOrStop_book _)
    · split_ifs <;> simp [idleOrStop_pc, propagateSignal, hpc]
  intro X hX hpcX
  exact hX.move rfl (by simp [hpcX, PanPc.pastFinish]) hX.starts hX.c
    (fun e => (by cases e)) (by simp [PanPc.draining]) (by simp [PanPc.pastFinish])
    (fun _ e => (by cases e)) (fun _ => rfl)

theorem PanInv.occupied_eq_nil (h : PanInv cfg base s) (h0 : s.numActive = 0) :
    occupied s.running = [] := by
  rw [h.active] at h0
  exact List.eq_nil_of_length_eq_zero (by omega)

/-- The orphan loop's wake-up: pass on what the ratchet holds, then wait again. -/
theorem PanInv.wake (h : PanInv cfg base s) (hpc : s.pc = .orphanSleep) :
    PanInv cfg base { propagateSignal s with pc := .orphanWait } := by
  have hp := h.propagate (by simp [hpc]) (by simp [hpc, PanPc.pastFinish])
  have hd : occupied (propagateSignal s).running = [] :=
    hp.drained (by simp [propagateSignal, hpc, PanPc.draining])
  exact hp.move rfl (by simp [propagateSignal, hpc, PanPc.pastFinish]) hp.starts hp.c
    (fun e => (by cases e)) (fun _ => hd) (by simp [PanPc.pastFinish]) (fun _ e => (by cases e))
    (fun _ => rfl)

/-- Each step of `main` keeps the invariant. -/
theorem panInv_mainStep {a : Answers} (h : PanInv cfg base s) (hv : a.Valid cfg s) :
    PanInv cfg base (mainStep cfg a s) := by
  -- a step of the tests that only moves on to another point
  have hgo : ∀ s' : PanState, s'.ledger = s.ledger → s'.starts = s.starts → s'.c = s.c →
      s'.pc.pastFinish = false → s.pc.pastFinish = false →
      (s'.pc = .launch → s.numActive < cfg.keepActive ∧ s.starts ≠ 0) →
      (s'.pc.draining = true → occupied s.running = []) →
      (s'.pc = .finish → orphanPids s.orphans = 0) →
      (cfg.trackExitStats = false → s'.exitStat = s.exitStat) → PanInv cfg base s' := by
    intro s' hb hs hcc he he₀ hl hd hf hq
    exact h.move hb (by rw [he, he₀]) (hs ▸ h.starts) (hcc ▸ h.c) (fun e => hs ▸ hl e) hd
      (fun e => hf (e.resolve_right (by simp [he]))) (fun _ e => by simp [e, PanPc.pastFinish] at he) hq
  have hfalse : ∀ p : PanPc, p.draining = false → p.draining = true → occupied s.running = [] :=
    fun p hp e => absurd (hp ▸ e) (by simp)
  cases hpc : s.pc with
  | launch =>
    unfold mainStep
    rw [hpc]
    dsimp only
    exact panInv_launch h hv hpc
  | check =>
    unfold mainStep
    rw [hpc]
    dsimp only
    exact panInv_checkPids h hv hpc
  | signals =>
    unfold mainStep
    rw [hpc]
    dsimp only
    exact panInv_signalsStep h hpc
  | finish => exact panInv_finish h hpc
  | exited st =>
    unfold mainStep
    rw [hpc]
    dsimp only
    exact h
  | kmsgExit =>
    unfold mainStep
    rw [hpc]
    exact h
  | inner =>
    unfold mainStep
    rw [hpc]
    dsimp only
    split
    · rename_i hin
      exact hgo _ rfl rfl rfl rfl (by rw [hpc]; rfl) (fun _ => ⟨hin.1, hin.2.1⟩) (hfalse _ rfl)
        (fun e => (by cases e)) (fun _ => rfl)
    · exact hgo _ rfl rfl rfl rfl (by rw [hpc]; rfl) (fun e => (by cases e)) (hfalse _ rfl)
        (fun e => (by cases e)) (fun _ => rfl)
  | afterLaunch =>
    unfold mainStep
    rw [hpc]
    dsimp only
    split <;>
      exact hgo _ rfl rfl rfl rfl (by rw [hpc]; rfl) (fun e => (by cases e)) (hfalse _ rfl)
        (fun e => (by cases e)) (fun _ => rfl)
  | errs =>
    unfold mainStep errsStep
    rw [hpc]
    dsimp only
    split
    · exact hgo _ rfl rfl rfl rfl (by rw [hpc]; rfl) (fun e => (by cases e)) (hfalse _ rfl)
        (fun e => (by cases e)) (fun _ => rfl)
    · -- `-e` alone counts the error in `exit_stat`
      exact hgo _ rfl rfl rfl rfl (by rw [hpc]; rfl) (fun e => (by cases e)) (hfalse _ rfl)
        (fun e => (by cases e)) (fun ht => by simp [ht])
  | tail =>
    unfold mainStep
    rw [hpc]
    dsimp only
    split_ifs with h1 h2
    · -- the loop ends only once no child runs
      exact hgo _ rfl rfl rfl rfl (by rw [hpc]; rfl) (fun e => (by cases e))
        (fun _ => h.occupied_eq_nil h1.2) (fun e => (by cases e)) (fun _ => rfl)
    · exact hgo _ rfl rfl rfl rfl (by rw [hpc]; rfl) (fun e => (by cases e)) (hfalse _ rfl)
        (fun e => (by cases e)) (fun _ => rfl)
    · exact hgo _ rfl rfl rfl rfl (by rw [hpc]; rfl) (fun e => (by cases e)) (hfalse _ rfl)
        (fun e => (by cases e)) (fun _ => rfl)
  | orphanWait =>
    unfold mainStep
    rw [hpc]
    dsimp only
    have hd := h.drained (by rw [hpc]; rfl)
    split
    · exact hgo _ rfl rfl rfl rfl (by rw [hpc]; rfl) (fun e => (by cases e)) (fun _ => hd)
        (fun e => (by cases e)) (fun _ => rfl)
    · -- the wait ends once every record is clear
      rename_i hany
      exact hgo _ rfl rfl rfl rfl (by rw [hpc]; rfl) (fun e => (by cases e)) (fun _ => hd)
        (fun _ => orphanPids_eq_zero (by simpa using hany)) (fun _ => rfl)
  | orphanSleep =>
    unfold mainStep
    rw [hpc]
    dsimp only
    -- the forced SIGINT only moves the ratchet
    split
    · exact (h.of_book (by simp [PanState.book, PanState.ledger, hpc])).wake rfl
    · exact h.wake hpc

/-- Every step of a run keeps the invariant. -/
theorem panInv_panStep (h : PanInv cfg base s) (i : PanInput) : PanInv cfg base (panStep cfg s i) := by
  cases i with
  | signal sig =>
    simp only [panStep]
    split
    · exact h
    · exact h
    · exact h.of_book rfl
  | groupEmpty g =>
    simp only [panStep]
    split
    · exact h.of_book rfl
    · exact h
  | step a =>
    simp only [panStep]
    split
    · rename_i hv
      exact panInv_mainStep h hv
    · exact h

end Inv

/-- The bookkeeping invariant holds in every state a run of pan reaches from its set-up on a zoo
file of well-formed lines. -/
theorem panInv_reachable {cfg : PanConfig} {z₀ : Zoo} {ss₀ : List Slot} {s : PanState}
    (hz : ZooHolds z₀ ss₀) (h : Sched.Reachable (panStep cfg) (panInit cfg z₀) s) :
    PanInv cfg (activePids ss₀) s :=
  h.invariant (panInv_init cfg hz) fun _ i hs => panInv_panStep hs i

end Ltp
