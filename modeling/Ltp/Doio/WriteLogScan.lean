import Ltp.Doio.WriteLog

/-!
# `wlog_scan_backward` reads back the log

The scan reads the log from its end in chunks of `32 * BSIZE` bytes and walks each chunk backwards
by the 2-byte lengths after the records.  What it is for is `wlogScanSpec`: `func` called on the
records newest first, up to a `WLOG_STOP_SCAN` or `nrecs` records.  The inner loop is proved
against it on a chunk that holds the end of the log (`wlogScanRecords_spec`, ending in
`RecordsEnd`), the outer loop on the whole log from the invariant `ChunkInv`
(`wlogScanChunks_spec`), and together they give the round trip of a run of appends and overlays
(`wlogScanBackward_run`, `wlogScanBackward_round_trip`).

This needs the trailers to read back through `char`, and `func` to stop the scan only in the last
chunk.  A record of 128 to 255 bytes makes the scan undefined where `char` is signed
(`wlogScanBackward_signed_trailer`), and a path of `WLOG_MAX_PATH` bytes comes back empty.
-/

namespace Ltp

open Bytes CMem

variable {σ : Type}

/-- What `wlog_scan_backward` is for, on the records of the log newest first: `func` is called on
each in turn, up to and including the first call that returns `WLOG_STOP_SCAN`, and on no more
than `nrecs` records when `nrecs` is not zero; the data of `func` at the end, and the records
passed to it after `calls`. -/
def wlogScanSpec (nrecs : Int) (func : σ → WlogRec → σ × Int) :
    List WlogRec → σ → Nat → List WlogRec → σ × List WlogRec
  | [], data, _, calls => (data, calls)
  | r :: rs, data, recnum, calls =>
    if (func data r).2 = wlogStopScan ∨ (nrecs ≠ 0 ∧ nrecs ≤ recnum + 1) then
      ((func data r).1, calls ++ [r])
    else wlogScanSpec nrecs func rs (func data r).1 (recnum + 1) (calls ++ [r])

theorem wlogScanSpec_cons (nrecs : Int) (func : σ → WlogRec → σ × Int) (r : WlogRec)
    (rs : List WlogRec) (data : σ) (recnum : Nat) (calls : List WlogRec) :
    wlogScanSpec nrecs func (r :: rs) data recnum calls =
      if (func data r).2 = wlogStopScan ∨ (nrecs ≠ 0 ∧ nrecs ≤ recnum + 1) then
        ((func data r).1, calls ++ [r])
      else wlogScanSpec nrecs func rs (func data r).1 (recnum + 1) (calls ++ [r]) := rfl

/-- When `func` never stops the scan, the spec calls it on the first `nrecs - recnum` records, or on
all of them when `nrecs` is zero. -/
theorem wlogScanSpec_of_noStop {nrecs : Int} {func : σ → WlogRec → σ × Int}
    (hstop : ∀ d r, (func d r).2 ≠ wlogStopScan) (hn : 0 ≤ nrecs) :
    ∀ (rs : List WlogRec) (data : σ) (recnum : Nat) (calls : List WlogRec),
      (nrecs = 0 ∨ (recnum : Int) < nrecs) →
      (wlogScanSpec nrecs func rs data recnum calls).2 =
        calls ++ rs.take (if nrecs = 0 then rs.length else (nrecs - recnum).toNat) := by
  intro rs
  induction rs with
  | nil => intro data recnum calls _; simp [wlogScanSpec]
  | cons r rs ih =>
    intro data recnum calls hrn
    rw [wlogScanSpec_cons]
    by_cases hdone : nrecs ≠ 0 ∧ nrecs ≤ recnum + 1
    · -- the last call that `nrecs` allows
      rw [if_pos (.inr hdone)]
      have hk : (nrecs - recnum).toNat = 1 := by omega
      simp [hdone.1, hk]
    · rw [if_neg (by rintro (h | h) <;> [exact hstop _ _ h; exact hdone h])]
      rw [ih _ _ _ (by omega)]
      by_cases hz : nrecs = 0
      · simp [hz]
      · have hk : (nrecs - recnum).toNat = (nrecs - (recnum + 1 : Nat)).toNat + 1 := by omega
        simp [hz, hk]

/-- A packed record as the scan reads it back: its trailer gives its length through `char`, it
fits in `albuf` and in half of `buf`, and unpack reads nothing past it. -/
structure BodyOk (B : Nat) (signedChar : Bool) (b : List UInt8) : Prop where
  trailer : charValue signedChar (UInt8.ofNat (b.length / 256)) * 256 +
    charValue signedChar (UInt8.ofNat (b.length % 256)) = b.length
  le_max : b.length ≤ wlogRecMaxSize
  fits : 2 * (b.length + 2) ≤ B
  unpack : ∀ m : Nat → UInt8, (∀ i < b.length, m i = listMem b i) →
    wlogRecUnpack m = wlogRecUnpack (listMem b)

section Step

variable (B : Nat) (sc : Bool) (nrecs : Int) (func : σ → WlogRec → σ × Int)

/-- The inner loop stops at a piece too short for the length or for the record, and keeps it. -/
theorem wlogScanRecords_drain {fuel : Nat} {s : WlogScan σ} {cp : Nat}
    (h : cp - s.bufstart < 2 ∨ ((cp - s.bufstart : Nat) : Int) <
      charValue sc (s.buf (cp - 2)) * 256 + charValue sc (s.buf (cp - 1)) + 2) :
    wlogScanRecords B sc nrecs func (fuel + 1) s cp = wlogKeepLeftover B s (cp - s.bufstart) := by
  rw [wlogScanRecords]
  rcases h with h | h
  · rw [if_pos h]
  · by_cases h2 : cp - s.bufstart < 2
    · rw [if_pos h2]
    · simp only [if_neg h2, if_pos h]

/-- The inner loop at a whole record of `L` bytes: it unpacks it from `albuf` and calls `func`. -/
theorem wlogScanRecords_record {fuel : Nat} {s : WlogScan σ} {cp L : Nat}
    (h2 : 2 ≤ cp - s.bufstart)
    (hrec : charValue sc (s.buf (cp - 2)) * 256 + charValue sc (s.buf (cp - 1)) = L)
    (hfit : L + 2 ≤ cp - s.bufstart) (hmax : L ≤ wlogRecMaxSize) :
    wlogScanRecords B sc nrecs func (fuel + 1) s cp =
      let wrec := wlogRecUnpack (memcpy s.albuf 0 (shift s.buf (cp - (L + 2))) L)
      let s' := { s with
        albuf := memcpy s.albuf 0 (shift s.buf (cp - (L + 2))) L
        data := (func s.data wrec).1
        calls := s.calls ++ [wrec] }
      if (func s.data wrec).2 = wlogStopScan then some s'
      else if nrecs ≠ 0 ∧ nrecs ≤ s.recnum + 1 then some { s' with recnum := s.recnum + 1 }
      else wlogScanRecords B sc nrecs func fuel { s' with recnum := s.recnum + 1 } (cp - (L + 2)) := by
  have hnot : ¬ cp - s.bufstart < 2 := by omega
  have hfit' : ¬ ((cp - s.bufstart : Nat) : Int) < (L : Int) + 2 := by omega
  have hub : ¬ ((L : Int) < 0 ∨ (wlogRecMaxSize : Int) < L) := by omega
  rw [wlogScanRecords, if_neg hnot, hrec, if_neg hfit', if_neg hub, Int.toNat_natCast]

/-- Keeping a leftover that does not overlap the piece it comes from. -/
theorem wlogKeepLeftover_eq {s : WlogScan σ} {n : Nat} (h : n = 0 ∨ s.bufstart + 2 * n ≤ B) :
    wlogKeepLeftover B s n =
      some { s with leftover := n, buf := memcpy s.buf (B - n) (shift s.buf s.bufstart) n } := by
  rw [wlogKeepLeftover, if_neg (by omega)]

/-- The inner loop copies a negative number of bytes when the length it reads is negative. -/
theorem wlogScanRecords_negative {fuel : Nat} {s : WlogScan σ} {cp : Nat}
    (h2 : 2 ≤ cp - s.bufstart)
    (hneg : charValue sc (s.buf (cp - 2)) * 256 + charValue sc (s.buf (cp - 1)) < 0) :
    wlogScanRecords B sc nrecs func (fuel + 1) s cp = none := by
  rw [wlogScanRecords, if_neg (by omega), if_neg (by omega), if_pos (.inl hneg)]

end Step

/-- The records of the bodies `ds`, newest first, as unpack reads them. -/
def wlogBodyRecs (ds : List (List UInt8)) : List WlogRec :=
  (ds.map fun b => wlogRecUnpack (listMem b)).reverse

@[simp] theorem wlogBodyRecs_nil : wlogBodyRecs [] = [] := rfl

@[simp] theorem wlogBodyRecs_concat (ds : List (List UInt8)) (b : List UInt8) :
    wlogBodyRecs (ds ++ [b]) = wlogRecUnpack (listMem b) :: wlogBodyRecs ds := by
  simp [wlogBodyRecs]

theorem prefix_wlogFrames {ds ds' : List (List UInt8)} (h : ds' <+: ds) :
    wlogFrames ds' <+: wlogFrames ds := by
  obtain ⟨t, rfl⟩ := h
  rw [wlogFrames_append]
  exact List.prefix_append _ _

/-- A piece at the end of the log of `ds ++ [b]` lies within the last frame, or ends with it. -/
theorem wlogFrames_concat_suffix {ds : List (List UInt8)} {b junk reg : List UInt8}
    (h : wlogFrames (ds ++ [b]) = junk ++ reg) :
    (reg.length < b.length + 2 ∧ ∃ pre, pre ++ reg = b ++ wlogTrailer b.length) ∨
      ∃ reg1, reg = reg1 ++ (b ++ wlogTrailer b.length) ∧ wlogFrames ds = junk ++ reg1 := by
  simp only [wlogFrames_append, wlogFrames_cons, wlogFrames_nil, List.append_nil] at h
  rcases List.append_eq_append_iff.1 h with ⟨a', hj, hy⟩ | ⟨c', hx, hr⟩
  · by_cases ha : a' = []
    · subst ha
      exact .inr ⟨[], by simpa using hy.symm, by simpa using hj.symm⟩
    · have hlen := congrArg List.length hy
      have hpos := List.length_pos_iff.2 ha
      simp only [List.length_append, wlogTrailer, List.length_cons, List.length_nil] at hlen
      exact .inl ⟨by omega, a', hy.symm⟩
  · exact .inr ⟨c', hr, hx⟩

/-- The two bytes before `cp` are the trailer when the piece in `buf` ends with one. -/
theorem trailer_read {s : WlogScan σ} {pre reg c : List UInt8} {L : Nat}
    (hbuf : ∀ i < reg.length, s.buf (s.bufstart + i) = listMem reg i)
    (h : pre ++ reg = c ++ wlogTrailer L) (h2 : 2 ≤ reg.length) :
    s.buf (s.bufstart + reg.length - 2) = UInt8.ofNat (L / 256) ∧
      s.buf (s.bufstart + reg.length - 1) = UInt8.ofNat (L % 256) := by
  have hlen := congrArg List.length h
  simp only [List.length_append, wlogTrailer, List.length_cons, List.length_nil] at hlen
  -- byte `j` of `reg` is byte `pre.length + j` of `c ++ trailer`
  have hat : ∀ j < reg.length, s.buf (s.bufstart + j) = listMem (c ++ wlogTrailer L) (pre.length + j) := by
    intro j hj
    rw [hbuf j hj, ← h, listMem_append_right j rfl]
  constructor
  · rw [show s.bufstart + reg.length - 2 = s.bufstart + (reg.length - 2) by omega,
      hat _ (by omega), show pre.length + (reg.length - 2) = c.length + 0 by omega,
      listMem_append_right 0 rfl]
    rfl
  · rw [show s.bufstart + reg.length - 1 = s.bufstart + (reg.length - 1) by omega,
      hat _ (by omega), show pre.length + (reg.length - 1) = c.length + 1 by omega,
      listMem_append_right 1 rfl]
    rfl

/-- How the inner loop ends, from `s` with the end of the log of `ds` in `buf` and `junk` the
part of it not read yet: it stopped, with the calls that the spec makes, because `func` asked to
or `nrecs` records were done; or it kept a leftover `rem`, the end of the log of the bodies `ds'`
whose records are still to come. -/
inductive RecordsEnd (B : Nat) (nrecs : Int) (func : σ → WlogRec → σ × Int) (s : WlogScan σ)
    (ds : List (List UInt8)) (junk : List UInt8) : WlogScan σ → Prop
  | stopped {s' : WlogScan σ}
      (spec : wlogScanSpec nrecs func (wlogBodyRecs ds) s.data s.recnum s.calls = (s'.data, s'.calls))
      (why : (∃ d r, (func d r).2 = wlogStopScan) ∨ (nrecs ≠ 0 ∧ nrecs ≤ s'.recnum))
      (offset : s'.offset = s.offset) : RecordsEnd B nrecs func s ds junk s'
  | drained {s' : WlogScan σ} (ds' : List (List UInt8)) (rem : List UInt8)
      (pre : ds' <+: ds) (frames : wlogFrames ds' = junk ++ rem)
      (spec : wlogScanSpec nrecs func (wlogBodyRecs ds) s.data s.recnum s.calls =
        wlogScanSpec nrecs func (wlogBodyRecs ds') s'.data s'.recnum s'.calls)
      (leftover : s'.leftover = rem.length)
      (kept : ∀ i < rem.length, s'.buf (B - rem.length + i) = listMem rem i)
      (small : 2 * rem.length ≤ B) (last : ds' = [] ∨ junk ≠ [])
      (recnum : nrecs = 0 ∨ (s'.recnum : Int) < nrecs)
      (bufstart : s'.bufstart = s.bufstart) (offset : s'.offset = s.offset) :
      RecordsEnd B nrecs func s ds junk s'

/-- An end reached after one more record, from a state that agrees on `bufstart` and `offset`. -/
theorem RecordsEnd.lift {B : Nat} {nrecs : Int} {func : σ → WlogRec → σ × Int}
    {s s₁ s' : WlogScan σ} {ds ds₁ : List (List UInt8)} {junk : List UInt8}
    (h : RecordsEnd B nrecs func s₁ ds₁ junk s') (hpre : ds₁ <+: ds)
    (hspec : wlogScanSpec nrecs func (wlogBodyRecs ds) s.data s.recnum s.calls =
      wlogScanSpec nrecs func (wlogBodyRecs ds₁) s₁.data s₁.recnum s₁.calls)
    (hb : s₁.bufstart = s.bufstart) (ho : s₁.offset = s.offset) :
    RecordsEnd B nrecs func s ds junk s' := by
  cases h with
  | stopped spec why offset => exact .stopped (hspec.trans spec) why (offset.trans ho)
  | drained ds' rem pre frames spec leftover kept small last recnum bufstart offset =>
    exact .drained ds' rem (pre.trans hpre) frames (hspec.trans spec) leftover kept small last
      recnum (bufstart.trans hb) (offset.trans ho)

section Inner

variable {B : Nat} {sc : Bool} {nrecs : Int} (func : σ → WlogRec → σ × Int)

/-- The inner loop of `wlog_scan_backward` on a piece of the log in `buf`: it passes to `func` the
records whose frames lie whole in the piece, newest first, as the spec does, and then keeps the
rest of the piece, unless it stops. -/
theorem wlogScanRecords_spec : ∀ (fuel : Nat) (ds : List (List UInt8)) (s : WlogScan σ)
    (junk reg : List UInt8), (∀ b ∈ ds, BodyOk B sc b) → wlogFrames ds = junk ++ reg →
    (∀ i < reg.length, s.buf (s.bufstart + i) = listMem reg i) → (s.bufstart = 0 ∨ junk = []) →
    reg.length < fuel → (nrecs = 0 ∨ (s.recnum : Int) < nrecs) →
    ∃ s', wlogScanRecords B sc nrecs func fuel s (s.bufstart + reg.length) = some s' ∧
      RecordsEnd B nrecs func s ds junk s' := by
  intro fuel
  induction fuel with
  | zero => intro _ _ _ _ _ _ _ _ hfuel; omega
  | succ fuel ih =>
    intro ds s junk reg hds hF hbuf hstart hfuel hrn
    -- the piece ends with the frame of the last body, or lies within it
    rcases List.eq_nil_or_concat' ds with rfl | ⟨ds₁, b, rfl⟩
    · have hreg : reg = [] := by
        have := congrArg List.length hF
        simp only [wlogFrames_nil, List.length_nil, List.length_append] at this
        exact List.eq_nil_of_length_eq_zero (by omega)
      subst hreg
      refine ⟨_, (wlogScanRecords_drain B sc nrecs func (.inl (by simp))).trans
        (wlogKeepLeftover_eq B (.inl (by simp))), ?_⟩
      exact .drained [] [] (List.prefix_refl _) (by simpa using hF) rfl (by simp) (by simp)
        (by simp) (.inl rfl) hrn rfl rfl
    have hb := hds b (by simp)
    rcases wlogFrames_concat_suffix hF with ⟨hshort, pre, hpre⟩ | ⟨reg₁, hreg, hF₁⟩
    · -- a piece shorter than the last frame: kept for the next chunk
      have hjunk : junk ≠ [] := by
        rintro rfl
        have := congrArg List.length hF
        simp [wlogTrailer] at this
        omega
      have hdrain : reg.length < 2 ∨ ((reg.length : Nat) : Int) <
          charValue sc (s.buf (s.bufstart + reg.length - 2)) * 256 +
            charValue sc (s.buf (s.bufstart + reg.length - 1)) + 2 := by
        by_cases h2 : reg.length < 2
        · exact .inl h2
        · obtain ⟨h0, h1⟩ := trailer_read hbuf hpre (by omega)
          rw [h0, h1, hb.trailer]
          exact .inr (by omega)
      have hsmall : 2 * reg.length ≤ B := by have := hb.fits; omega
      have hstart' : s.bufstart = 0 := hstart.resolve_right hjunk
      refine ⟨_, (wlogScanRecords_drain B sc nrecs func (by simpa using hdrain)).trans
        (wlogKeepLeftover_eq B (.inr (by simpa [hstart'] using hsmall))), ?_⟩
      refine .drained _ reg (List.prefix_refl _) hF rfl (by simp) ?_ hsmall (.inr hjunk) hrn rfl rfl
      intro i hi
      simp only [Nat.add_sub_cancel_left]
      rw [memcpy_add _ _ _ hi, shift_apply, hbuf i hi]
    · -- a whole frame at the end of the piece: its record goes to `func`
      have hlen : reg.length = reg₁.length + b.length + 2 := by
        simp [hreg, wlogTrailer]; omega
      obtain ⟨h0, h1⟩ := trailer_read hbuf
        (show [] ++ reg = (reg₁ ++ b) ++ wlogTrailer b.length by simp [hreg]) (by omega)
      have hrec : charValue sc (s.buf (s.bufstart + reg.length - 2)) * 256 +
          charValue sc (s.buf (s.bufstart + reg.length - 1)) = b.length := by
        rw [h0, h1, hb.trailer]
      have hcp : s.bufstart + reg.length - (b.length + 2) = s.bufstart + reg₁.length := by omega
      have hunpack : wlogRecUnpack (memcpy s.albuf 0 (shift s.buf (s.bufstart + reg₁.length))
          b.length) = wlogRecUnpack (listMem b) := by
        refine hb.unpack _ fun i hi => ?_
        rw [memcpy_inside (Nat.zero_le i) (by omega), Nat.sub_zero, shift_apply, Nat.add_assoc,
          hbuf _ (by omega), hreg,
          listMem_append_right i rfl, listMem_append_left (by simpa using hi)]
      rw [wlogScanRecords_record B sc nrecs func (by omega) (by simpa using hrec) (by omega)
        hb.le_max, hcp]
      simp only [hunpack]
      have hspec := wlogScanSpec_cons nrecs func (wlogRecUnpack (listMem b)) (wlogBodyRecs ds₁)
        s.data s.recnum s.calls
      by_cases hstop : (func s.data (wlogRecUnpack (listMem b))).2 = wlogStopScan
      · rw [if_pos hstop]
        refine ⟨_, rfl, .stopped ?_ (.inl ⟨_, _, hstop⟩) rfl⟩
        rw [wlogBodyRecs_concat, hspec, if_pos (.inl hstop)]
      by_cases hdone : nrecs ≠ 0 ∧ nrecs ≤ s.recnum + 1
      · rw [if_neg hstop, if_pos hdone]
        refine ⟨_, rfl, .stopped ?_ (.inr ?_) rfl⟩
        · rw [wlogBodyRecs_concat, hspec, if_pos (.inr hdone)]
        · simpa using hdone
      rw [if_neg hstop, if_neg hdone]
      obtain ⟨s', hrun, hend⟩ := ih ds₁
        { s with
          albuf := memcpy s.albuf 0 (shift s.buf (s.bufstart + reg₁.length)) b.length
          data := (func s.data (wlogRecUnpack (listMem b))).1
          calls := s.calls ++ [wlogRecUnpack (listMem b)]
          recnum := s.recnum + 1 }
        junk reg₁ (fun b' hb' => hds b' (by simp [hb'])) hF₁
        (fun i hi => by rw [hbuf i (by omega), hreg, listMem_append_left hi])
        hstart (by omega) (by push_cast; omega)
      refine ⟨s', hrun, hend.lift (List.prefix_append _ _) ?_ rfl rfl⟩
      rw [wlogBodyRecs_concat, hspec, if_neg (by rintro (h | h) <;> contradiction)]

end Inner

@[simp] theorem wlogReadChunk_data (B : Nat) (log : List UInt8) (s : WlogScan σ) :
    (wlogReadChunk B log s).data = s.data := by
  unfold wlogReadChunk; split <;> rfl

@[simp] theorem wlogReadChunk_recnum (B : Nat) (log : List UInt8) (s : WlogScan σ) :
    (wlogReadChunk B log s).recnum = s.recnum := by
  unfold wlogReadChunk; split <;> rfl

@[simp] theorem wlogReadChunk_calls (B : Nat) (log : List UInt8) (s : WlogScan σ) :
    (wlogReadChunk B log s).calls = s.calls := by
  unfold wlogReadChunk; split <;> rfl

/-- The state at the head of the outer loop, with the bodies `ds` still to be read: the log begins
with their frames, whose bytes from `offset` on are kept at the end of `buf`. -/
structure ChunkInv (B : Nat) (sc : Bool) (nrecs : Int) (log : List UInt8) (s : WlogScan σ)
    (ds : List (List UInt8)) : Prop where
  bodies : ∀ b ∈ ds, BodyOk B sc b
  begins : wlogFrames ds <+: log
  total : s.offset + s.leftover = (wlogFrames ds).length
  kept : ∀ i < s.leftover, s.buf (B - s.leftover + i) = listMem (wlogFrames ds) (s.offset + i)
  small : 2 * s.leftover ≤ B
  start : s.bufstart = 0 ∨ s.offset = 0
  nonempty : ds = [] ∨ 0 < s.offset
  recnum : nrecs = 0 ∨ (s.recnum : Int) < nrecs

section Outer

variable {B : Nat} {sc : Bool} {nrecs : Int} {func : σ → WlogRec → σ × Int}

/-- A chunk read at the head of the outer loop, where the log begins with `F`, whose bytes from
`offset` on are kept at the end of `buf`: `buf` then holds, from `bufstart` to its end, the end of
`F` after the part `junk` still to be read, and the chunk is the last one when `F` fits in `buf`. -/
theorem wlogReadChunk_region {log F : List UInt8} {s : WlogScan σ} (hbeg : F <+: log)
    (htot : s.offset + s.leftover = F.length)
    (hkept : ∀ i < s.leftover, s.buf (B - s.leftover + i) = listMem F (s.offset + i))
    (hstart : s.bufstart = 0 ∨ s.offset = 0) (hB : s.leftover < B) (hpos : 0 < s.offset) :
    ∃ junk reg, F = junk ++ reg ∧ (wlogReadChunk B log s).bufstart + reg.length = B ∧
      (∀ i < reg.length,
        (wlogReadChunk B log s).buf ((wlogReadChunk B log s).bufstart + i) = listMem reg i) ∧
      ((wlogReadChunk B log s).bufstart = 0 ∨ junk = []) ∧
      (wlogReadChunk B log s).offset = junk.length ∧ junk.length < s.offset ∧
      (F.length < B → junk = []) := by
  have hlog := hbeg.length_le
  by_cases hlast : s.offset + s.leftover < B
  · -- the last chunk: the rest of the log, from its start, before the leftover
    refine ⟨[], F, rfl, ?_, ?_, .inr rfl, ?_, hpos, fun _ => rfl⟩
    · simp [wlogReadChunk, hlast]
      omega
    · intro i hi
      simp only [wlogReadChunk, if_pos hlast]
      by_cases hi' : i < s.offset
      · rw [memcpy_add _ _ _ (by omega), shift_apply, Nat.zero_add,
          listMem_of_prefix hbeg (by omega)]
      · rw [memcpy_outside (by omega), show B - (s.offset + s.leftover) + i =
          B - s.leftover + (i - s.offset) by omega, hkept _ (by omega)]
        congr 1
        omega
    · simp [wlogReadChunk, hlast]
  · -- a full chunk, before the leftover moved to the end of `buf`
    have hstart : s.bufstart = 0 := hstart.resolve_right (by omega)
    have hoff : (wlogReadChunk B log s).offset = s.offset - (B - s.leftover) := by
      simp [wlogReadChunk, hlast]
    have hbs : (wlogReadChunk B log s).bufstart = 0 := by
      simp [wlogReadChunk, hlast, hstart]
    refine ⟨F.take (s.offset - (B - s.leftover)), F.drop (s.offset - (B - s.leftover)),
      (List.take_append_drop _ _).symm, ?_, ?_, .inl hbs, ?_, ?_, fun h => by omega⟩
    · simp [hbs]
      omega
    · intro i hi
      simp only [List.length_drop] at hi
      simp only [wlogReadChunk, if_neg hlast, hstart, Nat.zero_add, listMem_drop]
      by_cases hi' : i < B - s.leftover
      · rw [memcpy_inside (Nat.zero_le i) (by omega), Nat.sub_zero, shift_apply,
          listMem_of_prefix hbeg (by omega)]
      · rw [memcpy_outside (by omega)]
        rw [show i = B - s.leftover + (i - (B - s.leftover)) by omega, hkept _ (by omega)]
        congr 1
        omega
    · simp [hoff]
      omega
    · simp
      omega

theorem wlogScanChunks_done {log : List UInt8} {fuel : Nat} {s : WlogScan σ}
    (h : ¬ ((nrecs = 0 ∨ (s.recnum : Int) < nrecs) ∧ 0 < s.offset)) :
    wlogScanChunks B sc log nrecs func (fuel + 1) s = some s := by
  rw [wlogScanChunks, if_neg h]

/-- The outer loop of `wlog_scan_backward`, from a state with the bodies `ds` still to be read,
makes the calls of the spec, provided `func` never stops the scan or the log fits in one
chunk. -/
theorem wlogScanChunks_spec {log : List UInt8} : ∀ (fuel : Nat) (s : WlogScan σ)
    (ds : List (List UInt8)), ChunkInv B sc nrecs log s ds → s.offset < fuel →
    ((∀ d r, (func d r).2 ≠ wlogStopScan) ∨ (wlogFrames ds).length < B) →
    ∃ s', wlogScanChunks B sc log nrecs func fuel s = some s' ∧
      (s'.data, s'.calls) = wlogScanSpec nrecs func (wlogBodyRecs ds) s.data s.recnum s.calls := by
  intro fuel
  induction fuel with
  | zero => intro _ _ _ hfuel; omega
  | succ fuel ih =>
    intro s ds hinv hfuel hstop
    by_cases hgo : (nrecs = 0 ∨ (s.recnum : Int) < nrecs) ∧ 0 < s.offset
    swap
    · -- the loop is over: no offset left, so no body either
      have hoff : s.offset = 0 := by
        have := hinv.recnum
        omega
      have hds : ds = [] := hinv.nonempty.resolve_right (by omega)
      subst hds
      exact ⟨s, wlogScanChunks_done hgo, rfl⟩
    -- some body fits in half of `buf`, so `buf` is longer than the leftover
    have hB : s.leftover < B := by
      have hds : ds ≠ [] := by
        rintro rfl
        have := hinv.total
        simp only [wlogFrames_nil, List.length_nil] at this
        omega
      obtain ⟨b, hb⟩ := List.exists_mem_of_ne_nil ds hds
      have := (hinv.bodies b hb).fits
      have := hinv.small
      omega
    obtain ⟨junk, reg, hF, hcp, hbuf, hstart, hoff, hlt, hone⟩ :=
      wlogReadChunk_region hinv.begins hinv.total hinv.kept hinv.start hB hgo.2
    obtain ⟨s', hrun, hend⟩ := wlogScanRecords_spec func (B + 1) ds (wlogReadChunk B log s) junk
      reg hinv.bodies hF hbuf hstart (by omega) (by simpa using hinv.recnum)
    rw [hcp] at hrun
    obtain ⟨fuel, rfl⟩ : ∃ f, fuel = f + 1 := ⟨fuel - 1, by omega⟩
    rw [wlogScanChunks, if_pos hgo, hrun, Option.bind_some]
    cases hend with
    | stopped spec why offset =>
      -- stopped by `nrecs`, or by `func` in the last chunk: the loop is over
      have hdone : ¬ ((nrecs = 0 ∨ (s'.recnum : Int) < nrecs) ∧ 0 < s'.offset) := by
        rcases why with ⟨d, r, hr⟩ | hn
        · have hj : junk = [] := hone (hstop.resolve_left fun h => h d r hr)
          simp [offset, hoff, hj]
        · omega
      exact ⟨s', wlogScanChunks_done hdone, by simpa using spec.symm⟩
    | drained ds' rem pre frames spec leftover kept small last recnum bufstart offset =>
      -- the leftover of this chunk is the end of the log of the bodies still to come
      have hinv' : ChunkInv B sc nrecs log s' ds' := by
        refine ⟨fun b hb => hinv.bodies b (pre.subset hb), ?_, ?_, ?_, by rw [leftover]; exact small,
          ?_, ?_, recnum⟩
        · exact (prefix_wlogFrames pre).trans hinv.begins
        · rw [offset, hoff, leftover, frames, List.length_append]
        · intro i hi
          rw [leftover] at hi ⊢
          rw [kept i hi, frames, offset, hoff, listMem_append_right i rfl]
        · rw [bufstart, offset, hoff]
          exact hstart.imp id fun h => by simp [h]
        · rw [offset, hoff]
          exact last.imp id fun h => List.length_pos_iff.2 h
      obtain ⟨s'', hrun', hres⟩ := ih s' ds' hinv' (by rw [offset, hoff]; omega)
        (hstop.imp id fun h => lt_of_le_of_lt (prefix_wlogFrames pre).length_le h)
      exact ⟨s'', hrun', hres.trans (by simpa using spec.symm)⟩

end Outer

/-- The state `wlog_scan_backward` starts from: at the end of the file, with nothing kept. -/
theorem chunkInv_start {sc : Bool} {nrecs : Int} {ds : List (List UInt8)}
    (hds : ∀ b ∈ ds, BodyOk wlogBufSize sc b) (hn : 0 ≤ nrecs) (data : σ) :
    ChunkInv wlogBufSize sc nrecs (wlogFrames ds)
      ⟨fun _ => 0, fun _ => 0, 0, 0, (wlogFrames ds).length, 0, data, []⟩ ds := by
  refine ⟨hds, List.prefix_refl _, rfl, fun i hi => absurd hi (Nat.not_lt_zero _), by simp,
    .inl rfl, ?_, ?_⟩
  · -- each frame holds at least its trailer
    rcases ds with _ | ⟨b, bs⟩
    · exact .inl rfl
    · right
      simp [wlogTrailer]
  · show nrecs = 0 ∨ ((0 : Nat) : Int) < nrecs
    omega

/-- `wlog_scan_backward` on a log of frames makes the calls of the spec, on the records newest
first, when `func` never stops the scan or the log fits in one chunk. -/
theorem wlogScanBackward_frames {sc : Bool} {ds : List (List UInt8)}
    (hds : ∀ b ∈ ds, BodyOk wlogBufSize sc b) {nrecs : Int} (hn : 0 ≤ nrecs)
    (func : σ → WlogRec → σ × Int) (data : σ)
    (hstop : (∀ d r, (func d r).2 ≠ wlogStopScan) ∨ (wlogFrames ds).length < wlogBufSize)
    {fuel : Nat} (hfuel : (wlogFrames ds).length < fuel) :
    wlogScanBackward sc (wlogFrames ds) nrecs func data fuel =
      some (wlogScanSpec nrecs func (wlogBodyRecs ds) data 0 []) := by
  obtain ⟨s', hrun, hres⟩ := wlogScanChunks_spec fuel _ ds (chunkInv_start hds hn data) hfuel hstop
  rw [wlogScanBackward, hrun, Option.map_some, hres]

theorem charValue_ofNat {sc : Bool} {v : Nat} (hv : v < 256) (h : sc = false ∨ v < 128) :
    charValue sc (UInt8.ofNat v) = v := by
  have hval : (UInt8.ofNat v).toNat = v := by simp [Nat.mod_eq_of_lt hv]
  have hpos : ¬ (sc = true ∧ 128 ≤ v) := by
    rintro ⟨hs, hle⟩
    rcases h with h | h
    · simp [hs] at h
    · omega
  rw [charValue, hval, if_neg hpos]

/-- A packed record is at most 233 bytes long. -/
theorem length_wlogRecPack_le {r : WlogRec} (hr : r.Packable) :
    (wlogRecPack r true).length ≤ 233 := by
  have h1 := (wlogRecDisk r).wPathlen.isLt
  have h2 := (wlogRecDisk r).wHostlen.isLt
  have h3 := (wlogRecDisk r).wPatternlen.isLt
  rw [length_wlogRecPack hr]
  simp only [wlogRecDiskSize] at *
  omega

/-- The scan reads back a packed record whose trailer reads back through `char`. -/
theorem bodyOk_wlogRecPack {sc : Bool} {r : WlogRec} (hr : r.Packable)
    (htr : sc = false ∨ (wlogRecPack r true).length < 128) :
    BodyOk wlogBufSize sc (wlogRecPack r true) := by
  have hle := length_wlogRecPack_le hr
  refine ⟨?_, by simp [wlogRecMaxSize, wlogMaxPath, wlogMaxPattern, wlogMaxHost]; omega,
    by simp [wlogBufSize, bsize]; omega, fun m hm => ?_⟩
  · rw [Nat.div_eq_of_lt (by omega), Nat.mod_eq_of_lt (by omega),
      charValue_ofNat (by norm_num) (.inr (by norm_num)), charValue_ofNat (by omega) htr]
    simp
  · rw [wlogRecUnpack_pack hr hm, wlogRecUnpack_pack hr fun _ _ => rfl]

theorem wlogBodyRecs_pack {rs : List WlogRec} (hrs : ∀ r ∈ rs, r.Packable) :
    wlogBodyRecs (rs.map fun r => wlogRecPack r true) = (rs.map wlogRecImage).reverse := by
  rw [wlogBodyRecs, List.map_map]
  congr 1
  exact List.map_congr_left fun r hr => wlogRecUnpack_pack (hrs r hr) fun _ _ => rfl

/-- The scan of the log of a run of appends and overlays, as the callers make them, calls `func`
on the images of the records in the log, newest first, as the spec does, when the trailers read
back through `char` and `func` never stops the scan or the log fits in one chunk. -/
theorem wlogScanBackward_run {sc : Bool} {ops : List WlogOp} (hops : WlogOpsOk [] ops)
    (hrecs : ∀ r ∈ wlogLive ops, r.Packable ∧ (sc = false ∨ (wlogRecPack r true).length < 128))
    {nrecs : Int} (hn : 0 ≤ nrecs) (func : σ → WlogRec → σ × Int) (data : σ)
    (hstop : (∀ d r, (func d r).2 ≠ wlogStopScan) ∨ (wlogRun ops).1.length < wlogBufSize)
    {fuel : Nat} (hfuel : (wlogRun ops).1.length < fuel) :
    wlogScanBackward sc (wlogRun ops).1 nrecs func data fuel =
      some (wlogScanSpec nrecs func ((wlogLive ops).map wlogRecImage).reverse data 0 []) := by
  rw [wlogRun_eq hops] at hstop hfuel ⊢
  have hds : ∀ b ∈ (wlogLive ops).map fun r => wlogRecPack r true, BodyOk wlogBufSize sc b := by
    intro b hb
    obtain ⟨r, hr, rfl⟩ := List.mem_map.1 hb
    exact bodyOk_wlogRecPack (hrecs r hr).1 (hrecs r hr).2
  rw [wlogLogOf, wlogScanBackward_frames hds hn func data hstop hfuel,
    wlogBodyRecs_pack fun r hr => (hrecs r hr).1]

/-- The round trip the log is for, on records in range whose trailers read back: when `func` never
stops the scan, it is called on the images of the records in the log, newest first, `nrecs` of
them or all when `nrecs` is zero, and each image agrees with the record last written there. -/
theorem wlogScanBackward_round_trip {sc : Bool} {ops : List WlogOp} (hops : WlogOpsOk [] ops)
    (hvalid : ∀ r ∈ wlogLive ops, r.Valid ∧ (sc = false ∨ (wlogRecPack r true).length < 128))
    {nrecs : Int} (hn : 0 ≤ nrecs) (func : σ → WlogRec → σ × Int)
    (hstop : ∀ d r, (func d r).2 ≠ wlogStopScan) (data : σ) {fuel : Nat}
    (hfuel : (wlogRun ops).1.length < fuel) :
    (∃ data', wlogScanBackward sc (wlogRun ops).1 nrecs func data fuel =
      some (data', ((wlogLive ops).reverse.take
        (if nrecs = 0 then (wlogLive ops).length else nrecs.toNat)).map wlogRecImage)) ∧
    ∀ r ∈ wlogLive ops, r.Agrees (wlogRecImage r) := by
  refine ⟨?_, fun r hr => (hvalid r hr).1.agrees⟩
  rw [wlogScanBackward_run hops (fun r hr => ⟨(hvalid r hr).1.packable, (hvalid r hr).2⟩) hn func
    data (.inl hstop) hfuel]
  have hcalls := wlogScanSpec_of_noStop hstop hn ((wlogLive ops).map wlogRecImage).reverse data 0 []
    (by omega)
  refine ⟨_, congrArg some (Prod.ext rfl ?_)⟩
  rw [hcalls, List.nil_append, ← List.map_reverse, ← List.map_take]
  simp

/-- The record doio writes for a write of 4096 bytes at offset 0 of the file `f` by pid 1, with
`w_done` as given. -/
def writeRec (done : Int) : WlogRec :=
  ⟨1, 0, 4096, 0, done, 0, List.replicate 9 0, 0, 102 :: List.replicate 128 0, 1,
    List.replicate 65 0, 0⟩

/-- How doio logs a write: the record is appended before the write with `w_done` 0, and written
again in place with `w_done` 1 once the write has been made. -/
def doneOps : List WlogOp := [.append (writeRec 0), .overlay 0 (writeRec 1)]

theorem wlogScanBackward_round_trip_done :
    (∃ data', wlogScanBackward false (wlogRun doneOps).1 0 (fun (n : Nat) _ => (n + 1, 1)) 0 256 =
      some (data', ((wlogLive doneOps).reverse.take
        (if (0 : Int) = 0 then (wlogLive doneOps).length else (0 : Int).toNat)).map wlogRecImage)) ∧
    ∀ r ∈ wlogLive doneOps, r.Agrees (wlogRecImage r) := by
  have hops : WlogOpsOk [] doneOps := ⟨trivial, ⟨by decide, rfl, rfl, rfl, rfl, rfl, rfl⟩, trivial⟩
  have hvalid : ∀ r ∈ wlogLive doneOps,
      r.Valid ∧ (false = false ∨ (wlogRecPack r true).length < 128) := by
    intro r hr
    have hr' : r = writeRec 1 := by simpa [doneOps, wlogLive, wlogLiveStep] using hr
    subst hr'
    -- the one record left is the overlay, whose fields are all in range
    refine ⟨?_, .inl rfl⟩
    constructor <;> simp [writeRec, wlogMaxPath, wlogMaxHost, wlogMaxPattern]
  exact wlogScanBackward_round_trip hops hvalid le_rfl _ (fun _ _ => by simp [wlogStopScan]) 0
    (by decide)

/-! ## Where the scan does not read back the log -/

/-- A record whose path is `WLOG_MAX_PATH` bytes long comes back from the scan with no path: the
length does not fit in the 7 bits of `w_pathlen`, and is stored as `0`. -/
theorem wlog_scan_backward_max_path (sc : Bool) (r : WlogRec) (hpath : r.wPathlen = wlogMaxPath)
    (hhost : 0 ≤ r.wHostlen ∧ r.wHostlen ≤ wlogMaxHost) (hhs : r.wHost.length = wlogMaxHost + 1)
    (hqs : r.wPattern.length = wlogMaxPattern + 1) (nrecs : Int) (hn : 0 ≤ nrecs)
    (func : σ → WlogRec → σ × Int) (data : σ) (fuel : Nat)
    (hfuel : (wlogRun [.append r]).1.length < fuel) :
    ∃ data' r', wlogScanBackward sc (wlogRun [.append r]).1 nrecs func data fuel =
      some (data', [r']) ∧ r'.wPathlen = 0 := by
  have hp0 : (wlogRecDisk r).wPathlen.val = 0 := by
    simp [wlogRecDisk, uintField, hpath, wlogMaxPath]
  have hh : ((wlogRecDisk r).wHostlen.val : Int) = r.wHostlen :=
    lenField_val (by norm_num) hhost.1 (by have := hhost.2; simp [wlogMaxHost] at *; omega)
  have hq := (wlogRecDisk r).wPatternlen.isLt
  have hP : r.Packable := ⟨by simp [hp0], by simp [hhs, wlogMaxHost] at *; omega,
    by simp [hqs, wlogMaxPattern] at *; omega⟩
  have hL : (wlogRecPack r true).length < 128 := by
    rw [length_wlogRecPack hP, hp0]
    simp [wlogRecDiskSize, wlogMaxHost] at *
    omega
  have hlive : wlogLive [.append r] = [r] := rfl
  have hops : WlogOpsOk [] [.append r] := ⟨trivial, trivial⟩
  have hsmall : (wlogRun [.append r]).1.length < wlogBufSize := by
    rw [wlogRun_eq hops, hlive]
    simp [wlogLogOf, wlogTrailer, wlogBufSize, bsize]
    omega
  have hrun : wlogScanBackward sc (wlogRun [.append r]).1 nrecs func data fuel =
      some (wlogScanSpec nrecs func ((wlogLive [.append r]).map wlogRecImage).reverse data 0 []) :=
    wlogScanBackward_run hops (by simp [hlive, hP, hL]) hn func data (.inr hsmall) hfuel
  -- one record: one call, whatever `func` returns
  refine ⟨(func data (wlogRecImage r)).1, wlogRecImage r, hrun.trans ?_,
    by simp [wlogRecImage, wlogRecOfDisk, hp0]⟩
  simp only [hlive, List.map_cons, List.map_nil, List.reverse_singleton, wlogScanSpec_cons]
  split <;> rfl

theorem wlog_scan_backward_max_path_at :
    ∃ data' r', wlogScanBackward true (wlogRun [.append ⟨1, 0, 0, 0, 0, 0, List.replicate 9 0, 0,
        List.replicate 129 0, 128, List.replicate 65 0, 0⟩]).1 0 (fun (d : Unit) _ => (d, 1)) () 64 =
      some (data', [r']) ∧ r'.wPathlen = 0 :=
  wlog_scan_backward_max_path true _ rfl (by decide) rfl rfl 0 le_rfl _ () 64 (by decide)

/-- With a signed `char`, a newest record of 128 to 255 bytes has a trailer that reads back as a
negative length, and the scan then copies a negative number of bytes into `albuf`: undefined. -/
theorem wlogScanBackward_signed_trailer {ds : List (List UInt8)} {b : List UInt8}
    (hb : 128 ≤ b.length) (hb' : b.length < 256) {nrecs : Int} (hn : 0 ≤ nrecs)
    (func : σ → WlogRec → σ × Int) (data : σ) (fuel : Nat) :
    wlogScanBackward true (wlogFrames (ds ++ [b])) nrecs func data fuel = none := by
  cases fuel with
  | zero => rfl
  | succ fuel =>
    set F := wlogFrames (ds ++ [b]) with hFdef
    have hFlen : b.length + 2 ≤ F.length := by simp [hFdef, wlogTrailer]
    set s₀ : WlogScan σ := ⟨fun _ => 0, fun _ => 0, 0, 0, F.length, 0, data, []⟩
    have hgo : (nrecs = 0 ∨ (s₀.recnum : Int) < nrecs) ∧ 0 < s₀.offset := ⟨by simp [s₀]; omega,
      by simp [s₀]; omega⟩
    obtain ⟨junk, reg, hF, hcp, hbuf, hstart, -, -, hone⟩ := wlogReadChunk_region (B := wlogBufSize)
      (List.prefix_refl F) (by simp [s₀]) (fun i hi => absurd hi (by simp [s₀]))
      (.inl rfl) (by simp [s₀, wlogBufSize, bsize]) hgo.2
    -- the chunk ends with the trailer of `b`, which reads back negative
    have hT : junk ++ reg = (wlogFrames ds ++ b) ++ wlogTrailer b.length := by
      rw [← hF, hFdef]
      simp
    have h2 : 2 ≤ reg.length := by
      rcases hstart with h | rfl
      · have hB : wlogBufSize = 16384 := rfl
        omega
      · have := congrArg List.length hF
        simp only [List.nil_append] at this
        omega
    obtain ⟨h0, h1⟩ := trailer_read hbuf hT h2
    have hneg : wlogScanRecords wlogBufSize true nrecs func (wlogBufSize + 1)
        (wlogReadChunk wlogBufSize F s₀) ((wlogReadChunk wlogBufSize F s₀).bufstart + reg.length) =
        none := by
      refine wlogScanRecords_negative _ _ _ _ (by omega) ?_
      rw [h0, h1, Nat.div_eq_of_lt hb', Nat.mod_eq_of_lt hb',
        charValue_ofNat (by norm_num) (.inr (by norm_num))]
      simp [charValue, Nat.mod_eq_of_lt hb', hb]
      omega
    rw [hcp] at hneg
    show Option.map _ (wlogScanChunks wlogBufSize true F nrecs func (fuel + 1) s₀) = none
    rw [wlogScanChunks, if_pos hgo, hneg]
    rfl

/-- On x86, where `char` is signed, the scan of a log whose newest record packs to 128 bytes or
more (a path of 100 bytes will do) is undefined. -/
theorem wlogScanBackward_run_signed {ops : List WlogOp} (hops : WlogOpsOk [] ops)
    {rs : List WlogRec} {r : WlogRec} (hlive : wlogLive ops = rs ++ [r]) (hr : r.Packable)
    (hL : 128 ≤ (wlogRecPack r true).length) {nrecs : Int} (hn : 0 ≤ nrecs)
    (func : σ → WlogRec → σ × Int) (data : σ) (fuel : Nat) :
    wlogScanBackward true (wlogRun ops).1 nrecs func data fuel = none := by
  have hle := length_wlogRecPack_le hr
  rw [wlogRun_eq hops, wlogLogOf, hlive, List.map_append, List.map_singleton]
  exact wlogScanBackward_signed_trailer hL (by omega) hn func data fuel

end Ltp
