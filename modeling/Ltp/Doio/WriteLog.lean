import Ltp.Library.Bytes
import Ltp.Library.Memory

/-!
# The write log of doio (`write_log.c`)

A log record is packed by `wlog_rec_pack` into a fixed part, the bit-fields of
`struct wlog_rec_disk`, followed by the path, the host and the pattern; an append adds a 2-byte
trailer with the record's length, which `wlog_scan_backward` reads to walk the log from its end in
chunks of `32 * BSIZE` bytes, carrying a partial record over to the next chunk.  The model keeps the
bytes: the log is the file's bytes, `buf` and `albuf` are memories, and the loops of the scan are
`wlogScanRecords` and `wlogScanChunks`, with `none` where the C code has undefined behaviour.  The
bit-fields are laid out as gcc does on x86-64; whether `char` is signed is a parameter.
-/

namespace Ltp

open Bytes CMem

/-- `WLOG_MAX_PATH`, `WLOG_MAX_PATTERN` and `WLOG_MAX_HOST`. -/
def wlogMaxPath : Nat := 128
def wlogMaxPattern : Nat := 64
def wlogMaxHost : Nat := 8

/-- `WLOG_STOP_SCAN`. -/
def wlogStopScan : Int := 0

/-- `BSIZE`, that is `DEV_BSIZE` of Linux. -/
def bsize : Nat := 512

/-- `sizeof(buf)` in `wlog_scan_backward`. -/
def wlogBufSize : Nat := bsize * 32

/-- `sizeof(struct wlog_rec_disk)`: seven 32-bit words. -/
def wlogRecDiskSize : Nat := 28

/-- `WLOG_REC_MAX_SIZE`, with `sizeof(struct wlog_rec)` = 248. -/
def wlogRecMaxSize : Nat := 248 + wlogMaxPath + wlogMaxPattern + wlogMaxHost + 2

/-- `struct wlog_rec`; the arrays `w_host`, `w_path` and `w_pattern` as their bytes. -/
structure WlogRec where
  wPid : Int
  wOffset : Int
  wNbytes : Int
  wOflags : Int
  wDone : Int
  wAsync : Int
  wHost : List UInt8
  wHostlen : Int
  wPath : List UInt8
  wPathlen : Int
  wPattern : List UInt8
  wPatternlen : Int
  deriving DecidableEq, Repr

/-- The bit-fields of `struct wlog_rec_disk` that pack and unpack use (`w_extra0` and `w_extra2`
are never set nor read). -/
structure WlogRecDisk where
  wOffset : Fin (2 ^ 32)
  wNbytes : Fin (2 ^ 32)
  wOflags : Fin (2 ^ 32)
  wPid : Fin (2 ^ 17)
  wPathlen : Fin (2 ^ 7)
  wPatternlen : Fin (2 ^ 6)
  wHostlen : Fin (2 ^ 4)
  wDone : Fin (2 ^ 1)
  wAsync : Fin (2 ^ 1)
  deriving DecidableEq, Repr

/-- An int cast to `uint` and stored in a bit-field of `k` bits. -/
def uintField (k : Nat) (v : Int) : Fin (2 ^ k) :=
  ⟨(v % 2 ^ 32).toNat % 2 ^ k, Nat.mod_lt _ (Nat.two_pow_pos k)⟩

/-- A 32-bit `uint` read into an int: the values from `2 ^ 31` on wrap around, as with gcc. -/
def intOfUint (u : Nat) : Int :=
  if u < 2 ^ 31 then u else (u : Int) - 2 ^ 32

/-- The fixed part that `wlog_rec_pack` fills in. -/
def wlogRecDisk (r : WlogRec) : WlogRecDisk where
  wOffset := uintField 32 r.wOffset
  wNbytes := uintField 32 r.wNbytes
  wOflags := uintField 32 r.wOflags
  wPid := uintField 17 r.wPid
  wPathlen := uintField 7 (if r.wPathlen > 0 then r.wPathlen else 0)
  wPatternlen := uintField 6 (if r.wPatternlen > 0 then r.wPatternlen else 0)
  wHostlen := uintField 4 (if r.wHostlen > 0 then r.wHostlen else 0)
  wDone := uintField 1 r.wDone
  wAsync := uintField 1 r.wAsync

/-- The seven 32-bit words of `struct wlog_rec_disk` as gcc lays it out on x86-64: `w_offset`,
`w_extra0`, `w_nbytes` and `w_oflags`, then `w_pid`, `w_pathlen` and `w_patternlen`, then
`w_hostlen`, `w_done` and `w_async` (which no longer fit in the word before), and `w_extra2`. -/
def diskWords (d : WlogRecDisk) : List Nat :=
  [d.wOffset, 0, d.wNbytes, d.wOflags, d.wPid + 2 ^ 17 * (d.wPathlen + 2 ^ 7 * d.wPatternlen),
    d.wHostlen + 2 ^ 4 * (d.wDone + 2 ^ 1 * d.wAsync), 0]

/-- The bytes of `struct wlog_rec_disk`. -/
def diskImage (d : WlogRecDisk) : List UInt8 :=
  (diskWords d).flatMap (leBytes 4)

/-- The bit-fields of a `struct wlog_rec_disk` at address `0` of memory `m`. -/
def diskAt (m : Nat → UInt8) : WlogRecDisk :=
  let w (k : Nat) := leValueAt m (4 * k) 4
  { wOffset := bitField (w 0) 0 32
    wNbytes := bitField (w 2) 0 32
    wOflags := bitField (w 3) 0 32
    wPid := bitField (w 4) 0 17
    wPathlen := bitField (w 4) 17 7
    wPatternlen := bitField (w 4) 24 6
    wHostlen := bitField (w 5) 0 4
    wDone := bitField (w 5) 4 1
    wAsync := bitField (w 5) 5 1 }

/-- `wlog_rec_pack(wrec, buf, flag)`: the bytes it writes, whose count it returns; the path, host
and pattern only when `flag` holds. -/
def wlogRecPack (r : WlogRec) (flag : Bool) : List UInt8 :=
  let d := wlogRecDisk r
  if flag then
    diskImage d ++ r.wPath.take d.wPathlen ++ r.wHost.take d.wHostlen ++
      r.wPattern.take d.wPatternlen
  else diskImage d

/-- An array of `size` bytes after `memset` to zero and a `memcpy` of its first `n` bytes from
`src`. -/
def copiedArray (src : Nat → UInt8) (n size : Nat) : List UInt8 :=
  (List.range size).map fun i => if i < n then src i else 0

/-- The `struct wlog_rec` that `wlog_rec_unpack` fills in from the bit-fields `d` and the bytes of
the path, the host and the pattern. -/
def wlogRecOfDisk (d : WlogRecDisk) (path host pattern : Nat → UInt8) : WlogRec where
  wPid := d.wPid.val
  wOffset := intOfUint d.wOffset.val
  wNbytes := intOfUint d.wNbytes.val
  wOflags := intOfUint d.wOflags.val
  wDone := d.wDone.val
  wAsync := d.wAsync.val
  wHost := copiedArray host d.wHostlen (wlogMaxHost + 1)
  wHostlen := d.wHostlen.val
  wPath := copiedArray path d.wPathlen (wlogMaxPath + 1)
  wPathlen := d.wPathlen.val
  wPattern := copiedArray pattern d.wPatternlen (wlogMaxPattern + 1)
  wPatternlen := d.wPatternlen.val

/-- `wlog_rec_unpack(wrec, buf)` on the memory `m` of `buf`. -/
def wlogRecUnpack (m : Nat → UInt8) : WlogRec :=
  let d := diskAt m
  wlogRecOfDisk d (shift m wlogRecDiskSize) (shift m (wlogRecDiskSize + d.wPathlen))
    (shift m (wlogRecDiskSize + d.wPathlen + d.wHostlen))

/-- The 2-byte length that an append puts after a record of `reclen` bytes. -/
def wlogTrailer (reclen : Nat) : List UInt8 :=
  [UInt8.ofNat (reclen / 256), UInt8.ofNat (reclen % 256)]

/-- `wlog_record_write(wfile, wrec, offset)` on the bytes of the log: the log after it and the
offset it returns.  A negative offset appends the whole record and its length; any other writes
the fixed part over the record there. -/
def wlogRecordWrite (log : List UInt8) (r : WlogRec) (offset : Int) : List UInt8 × Int :=
  let wbuf := wlogRecPack r (decide (offset < 0))
  if offset < 0 then (log ++ wbuf ++ wlogTrailer wbuf.length, log.length)
  else (writeAt log offset.toNat wbuf, offset)

/-- A call on the log: an append of a record, or an overlay at the offset the `k`-th append
returned. -/
inductive WlogOp where
  | append (r : WlogRec)
  | overlay (k : Nat) (r : WlogRec)

/-- One call, on the log and the offsets the appends returned so far. -/
def wlogStep (st : List UInt8 × List Int) : WlogOp → List UInt8 × List Int
  | .append r =>
    let (log, offset) := wlogRecordWrite st.1 r (-1)
    (log, st.2 ++ [offset])
  | .overlay k r => ((wlogRecordWrite st.1 r (st.2.getD k (-1))).1, st.2)

/-- The log and the offsets after a run of calls on an empty log. -/
def wlogRun (ops : List WlogOp) : List UInt8 × List Int :=
  ops.foldl wlogStep ([], [])

/-- The value of a byte read through `char`, signed on x86. -/
def charValue (signedChar : Bool) (b : UInt8) : Int :=
  if signedChar ∧ 128 ≤ b.toNat then (b.toNat : Int) - 256 else b.toNat

/-- The variables of `wlog_scan_backward`: `buf`, `albuf`, `bufstart`, `leftover`, `offset` and
`recnum` (the pointers as indices into `buf`), the data that `func` works on, and the records passed
to `func` so far. -/
structure WlogScan (σ : Type) where
  buf : Nat → UInt8
  albuf : Nat → UInt8
  bufstart : Nat
  leftover : Nat
  offset : Nat
  recnum : Nat
  data : σ
  calls : List WlogRec

variable {σ : Type}

/-- `leftover = cp - bufstart; memcpy(bufend - leftover, bufstart, leftover)`, undefined where the
two ranges overlap. -/
def wlogKeepLeftover (B : Nat) (s : WlogScan σ) (leftover : Nat) : Option (WlogScan σ) :=
  if 0 < leftover ∧ B - leftover < s.bufstart + leftover then none
  else some { s with leftover, buf := memcpy s.buf (B - leftover) (shift s.buf s.bufstart) leftover }

/-- The inner loop of `wlog_scan_backward`, from `cp` down to `bufstart` in a buffer of `B` bytes. -/
def wlogScanRecords (B : Nat) (signedChar : Bool) (nrecs : Int) (func : σ → WlogRec → σ × Int) :
    Nat → WlogScan σ → Nat → Option (WlogScan σ)
  | 0, _, _ => none
  | fuel + 1, s, cp =>
    if cp - s.bufstart < 2 then wlogKeepLeftover B s (cp - s.bufstart)
    else
      let reclen := charValue signedChar (s.buf (cp - 2)) * 256 +
        charValue signedChar (s.buf (cp - 1))
      if ((cp - s.bufstart : Nat) : Int) < reclen + 2 then wlogKeepLeftover B s (cp - s.bufstart)
      -- `memcpy(albuf, cp, reclen)` with a negative size, or past `albuf`
      else if reclen < 0 ∨ (wlogRecMaxSize : Int) < reclen then none
      else
        let cp := cp - (reclen.toNat + 2)
        let albuf := memcpy s.albuf 0 (shift s.buf cp) reclen.toNat
        let wrec := wlogRecUnpack albuf
        let (data, rval) := func s.data wrec
        let s := { s with albuf, data, calls := s.calls ++ [wrec] }
        if rval = wlogStopScan then some s
        else if nrecs ≠ 0 ∧ nrecs ≤ s.recnum + 1 then some { s with recnum := s.recnum + 1 }
        else wlogScanRecords B signedChar nrecs func fuel { s with recnum := s.recnum + 1 } cp

/-- The top of the body of the outer loop of `wlog_scan_backward`: `bufstart` and `offset` for the
next chunk, and the bytes before the leftover read into `buf`. -/
def wlogReadChunk (B : Nat) (log : List UInt8) (s : WlogScan σ) : WlogScan σ :=
  let s := if s.offset + s.leftover < B then
      { s with bufstart := B - (s.offset + s.leftover), offset := 0 }
    else { s with offset := s.offset - (B - s.leftover) }
  -- `read(fd, bufstart, bufend - bufstart - leftover)` at `offset`
  let n := min (B - s.bufstart - s.leftover) (log.length - s.offset)
  { s with buf := memcpy s.buf s.bufstart (shift (listMem log) s.offset) n, leftover := 0 }

/-- The outer loop of `wlog_scan_backward`: each turn reads a chunk and runs the inner loop from the
end of `buf`. -/
def wlogScanChunks (B : Nat) (signedChar : Bool) (log : List UInt8) (nrecs : Int)
    (func : σ → WlogRec → σ × Int) : Nat → WlogScan σ → Option (WlogScan σ)
  | 0, _ => none
  | fuel + 1, s =>
    if (nrecs = 0 ∨ (s.recnum : Int) < nrecs) ∧ 0 < s.offset then
      (wlogScanRecords B signedChar nrecs func (B + 1) (wlogReadChunk B log s) B).bind
        (wlogScanChunks B signedChar log nrecs func fuel)
    else some s

/-- `wlog_scan_backward(wfile, nrecs, func, data)` on the bytes of the log, with at most `fuel` turns
of its outer loop: the data of `func` at the end, and the records passed to `func` in order. -/
def wlogScanBackward (signedChar : Bool) (log : List UInt8) (nrecs : Int)
    (func : σ → WlogRec → σ × Int) (data : σ) (fuel : Nat) : Option (σ × List WlogRec) :=
  (wlogScanChunks wlogBufSize signedChar log nrecs func fuel
    ⟨fun _ => 0, fun _ => 0, 0, 0, log.length, 0, data, []⟩).map fun s => (s.data, s.calls)

/-! ## Pack and unpack -/

theorem diskWords_lt (d : WlogRecDisk) : ∀ w ∈ diskWords d, w < 2 ^ 32 := by
  obtain ⟨o, n, f, pid, path, pat, host, done, async⟩ := d
  simp only [diskWords, List.mem_cons, List.not_mem_nil, or_false]
  have := o.isLt; have := n.isLt; have := f.isLt; have := pid.isLt; have := path.isLt
  have := pat.isLt; have := host.isLt; have := done.isLt; have := async.isLt
  rintro w (rfl | rfl | rfl | rfl | rfl | rfl | rfl) <;> norm_num at * <;> omega

@[simp] theorem length_diskImage (d : WlogRecDisk) : (diskImage d).length = wlogRecDiskSize := by
  simp [diskImage, diskWords, wlogRecDiskSize]

/-- Word `k` of the fixed part reads back. -/
theorem leValueAt_diskImage (d : WlogRecDisk) (rest : List UInt8) {k : Nat} (hk : k < 7) :
    leValueAt (listMem (diskImage d ++ rest)) (4 * k) 4 = (diskWords d)[k] := by
  have h := leValueAt_flatMap_leBytes 4 [] rest (diskWords d) (k := k) hk
  have hlt := diskWords_lt d _ (List.getElem_mem (l := diskWords d) hk)
  rw [Nat.mod_eq_of_lt (by simpa using hlt)] at h
  simpa [diskImage] using h

theorem diskAt_diskImage (d : WlogRecDisk) (rest : List UInt8) :
    diskAt (listMem (diskImage d ++ rest)) = d := by
  obtain ⟨o, n, f, pid, path, pat, host, done, async⟩ := d
  simp only [diskAt, leValueAt_diskImage _ _ (show 0 < 7 by decide),
    leValueAt_diskImage _ _ (show 2 < 7 by decide), leValueAt_diskImage _ _ (show 3 < 7 by decide),
    leValueAt_diskImage _ _ (show 4 < 7 by decide), leValueAt_diskImage _ _ (show 5 < 7 by decide)]
  simp only [diskWords, List.getElem_cons_succ, List.getElem_cons_zero, bitField]
  -- each field read back from its word; the packed words split field by field
  congr 1 <;> apply Fin.ext
  · exact bitsAt_of_lt o.isLt
  · exact bitsAt_of_lt n.isLt
  · exact bitsAt_of_lt f.isLt
  · exact bitsAt_add_mul_low _ pid.isLt
  · exact (bitsAt_add_mul_high _ 0 7 pid.isLt).trans (bitsAt_add_mul_low _ path.isLt)
  · exact (bitsAt_add_mul_high _ 7 6 pid.isLt).trans
      ((bitsAt_add_mul_high _ 0 6 path.isLt).trans (bitsAt_of_lt pat.isLt))
  · exact bitsAt_add_mul_low _ host.isLt
  · exact (bitsAt_add_mul_high _ 0 1 host.isLt).trans (bitsAt_add_mul_low _ done.isLt)
  · exact (bitsAt_add_mul_high _ 1 1 host.isLt).trans
      ((bitsAt_add_mul_high _ 0 1 done.isLt).trans (bitsAt_of_lt async.isLt))
/-- The fixed part is read from its first 28 bytes only. -/
theorem diskAt_congr {m m' : Nat → UInt8} (h : ∀ i < wlogRecDiskSize, m i = m' i) :
    diskAt m = diskAt m' := by
  have hw : ∀ k < 7, leValueAt m (4 * k) 4 = leValueAt m' (4 * k) 4 := fun k hk =>
    leValueAt_congr fun i hi => h _ (by simp [wlogRecDiskSize]; omega)
  simp only [diskAt, hw 0 (by norm_num), hw 2 (by norm_num), hw 3 (by norm_num),
    hw 4 (by norm_num), hw 5 (by norm_num)]

theorem copiedArray_congr {src src' : Nat → UInt8} {n : Nat} (size : Nat)
    (h : ∀ i < n, src i = src' i) : copiedArray src n size = copiedArray src' n size := by
  simp only [copiedArray]
  exact List.map_congr_left fun i _ => by split_ifs with hi <;> simp [h i, hi]

/-- The arrays of a record hold the bytes that its stored lengths take. -/
structure WlogRec.Packable (r : WlogRec) : Prop where
  path : (wlogRecDisk r).wPathlen.val ≤ r.wPath.length
  host : (wlogRecDisk r).wHostlen.val ≤ r.wHost.length
  pattern : (wlogRecDisk r).wPatternlen.val ≤ r.wPattern.length

/-- What `wlog_rec_unpack` gives back of a record that `wlog_rec_pack` wrote: the fixed part
through its bit-fields, and the arrays cut to the stored lengths. -/
def wlogRecImage (r : WlogRec) : WlogRec :=
  wlogRecOfDisk (wlogRecDisk r) (listMem r.wPath) (listMem r.wHost) (listMem r.wPattern)

theorem wlogRecPack_true (r : WlogRec) :
    wlogRecPack r true = diskImage (wlogRecDisk r) ++ r.wPath.take (wlogRecDisk r).wPathlen ++
      r.wHost.take (wlogRecDisk r).wHostlen ++ r.wPattern.take (wlogRecDisk r).wPatternlen := rfl

theorem length_wlogRecPack {r : WlogRec} (hr : r.Packable) :
    (wlogRecPack r true).length = wlogRecDiskSize + (wlogRecDisk r).wPathlen +
      (wlogRecDisk r).wHostlen + (wlogRecDisk r).wPatternlen := by
  simp [wlogRecPack_true, hr.path, hr.host, hr.pattern, Nat.add_assoc]

/-- Unpacking any memory that holds a packed record gives its image. -/
theorem wlogRecUnpack_pack {r : WlogRec} (hr : r.Packable) {m : Nat → UInt8}
    (hm : ∀ i < (wlogRecPack r true).length, m i = listMem (wlogRecPack r true) i) :
    wlogRecUnpack m = wlogRecImage r := by
  have hlen := length_wlogRecPack hr
  have hP := hr.path
  have hH := hr.host
  have hQ := hr.pattern
  set d := wlogRecDisk r with hd
  have hdisk : diskAt m = d := by
    have hsame : diskAt m = diskAt (listMem (wlogRecPack r true)) :=
      diskAt_congr fun i hi => hm i (by omega)
    rw [hsame, wlogRecPack_true, List.append_assoc, List.append_assoc, diskAt_diskImage]
  -- the variable part, read after the 28 bytes of the fixed part
  have hvar : ∀ i, wlogRecDiskSize + i < (wlogRecPack r true).length →
      m (wlogRecDiskSize + i) = listMem (r.wPath.take d.wPathlen ++ r.wHost.take d.wHostlen ++
        r.wPattern.take d.wPatternlen) i := by
    intro i hi
    rw [hm _ hi, wlogRecPack_true, List.append_assoc, List.append_assoc,
      listMem_append_right _ (length_diskImage d), ← List.append_assoc]
  have hpath : ∀ i < d.wPathlen.val, shift m wlogRecDiskSize i = listMem r.wPath i := by
    intro i hi
    rw [shift_apply, hvar i (by omega), List.append_assoc,
      listMem_append_left (by simp [hP, hi]), listMem_take hi]
  have hhost : ∀ i < d.wHostlen.val,
      shift m (wlogRecDiskSize + d.wPathlen) i = listMem r.wHost i := by
    intro i hi
    have hp : (r.wPath.take d.wPathlen).length = d.wPathlen := by simp [hP]
    rw [shift_apply, Nat.add_assoc, hvar _ (by omega), List.append_assoc,
      listMem_append_right _ hp, listMem_append_left (by simp [hH, hi]), listMem_take hi]
  have hpat : ∀ i < d.wPatternlen.val,
      shift m (wlogRecDiskSize + d.wPathlen + d.wHostlen) i = listMem r.wPattern i := by
    intro i hi
    have hph : (r.wPath.take d.wPathlen ++ r.wHost.take d.wHostlen).length =
        d.wPathlen + d.wHostlen := by simp [hP, hH]
    rw [shift_apply, Nat.add_assoc, Nat.add_assoc, hvar _ (by omega), ← Nat.add_assoc,
      listMem_append_right _ hph, listMem_take hi]
  simp only [wlogRecUnpack, hdisk, wlogRecImage, wlogRecOfDisk]
  rw [copiedArray_congr _ hpath, copiedArray_congr _ hhost, copiedArray_congr _ hpat]
/-! ## Records in range come back as they were -/

theorem uintField_val {k : Nat} {v : Int} (hk : k ≤ 32) (h0 : 0 ≤ v) (hv : v < 2 ^ k) :
    ((uintField k v).val : Int) = v := by
  have hk' : (2 : Int) ^ k ≤ 2 ^ 32 := pow_le_pow_right₀ (by norm_num) hk
  have hmod : v % 2 ^ 32 = v := Int.emod_eq_of_lt h0 (by omega)
  have hnat : v.toNat < 2 ^ k := by
    have : ((2 ^ k : Nat) : Int) = 2 ^ k := by push_cast; rfl
    omega
  simp only [uintField]
  rw [hmod, Nat.mod_eq_of_lt hnat, Int.toNat_of_nonneg h0]

theorem intOfUint_uintField {v : Int} (h1 : -2 ^ 31 ≤ v) (h2 : v < 2 ^ 31) :
    intOfUint (uintField 32 v).val = v := by
  simp only [intOfUint, uintField]
  split_ifs with h <;> omega

/-- A length that fits its bit-field is stored as it is. -/
theorem lenField_val {k : Nat} {v : Int} (hk : k ≤ 32) (h0 : 0 ≤ v) (hv : v < 2 ^ k) :
    ((uintField k (if v > 0 then v else 0)).val : Int) = v := by
  split_ifs with hpos
  · exact uintField_val hk h0 hv
  · rw [uintField_val hk le_rfl (by positivity)]
    omega

theorem take_copiedArray {l : List UInt8} {n size : Nat} (hn : n ≤ size) (hl : n ≤ l.length) :
    (copiedArray (listMem l) n size).take n = l.take n := by
  apply List.ext_getElem (by simp [copiedArray]; omega)
  intro i h1 h2
  simp at h1 h2
  simp [copiedArray, listMem, h1.1, List.getD_eq_getElem?_getD, List.getElem?_eq_getElem (by omega : i < l.length)]
/-- The ranges a log record is meant to have, with the C sizes of its arrays: each length below
the size of its bit-field, `w_done` and `w_async` flags, `w_pid` in 17 bits, and the int fields
32 bits wide. -/
structure WlogRec.Valid (r : WlogRec) : Prop where
  path_size : r.wPath.length = wlogMaxPath + 1
  host_size : r.wHost.length = wlogMaxHost + 1
  pattern_size : r.wPattern.length = wlogMaxPattern + 1
  pathlen : 0 ≤ r.wPathlen ∧ r.wPathlen < wlogMaxPath
  hostlen : 0 ≤ r.wHostlen ∧ r.wHostlen ≤ wlogMaxHost
  patternlen : 0 ≤ r.wPatternlen ∧ r.wPatternlen < wlogMaxPattern
  pid : 0 ≤ r.wPid ∧ r.wPid < 2 ^ 17
  done : 0 ≤ r.wDone ∧ r.wDone < 2
  async : 0 ≤ r.wAsync ∧ r.wAsync < 2
  offset : -2 ^ 31 ≤ r.wOffset ∧ r.wOffset < 2 ^ 31
  nbytes : -2 ^ 31 ≤ r.wNbytes ∧ r.wNbytes < 2 ^ 31
  oflags : -2 ^ 31 ≤ r.wOflags ∧ r.wOflags < 2 ^ 31

/-- `r'` has the numbers of `r`, and the bytes that the lengths of `r` cover. -/
structure WlogRec.Agrees (r r' : WlogRec) : Prop where
  pid : r'.wPid = r.wPid
  offset : r'.wOffset = r.wOffset
  nbytes : r'.wNbytes = r.wNbytes
  oflags : r'.wOflags = r.wOflags
  done : r'.wDone = r.wDone
  async : r'.wAsync = r.wAsync
  pathlen : r'.wPathlen = r.wPathlen
  hostlen : r'.wHostlen = r.wHostlen
  patternlen : r'.wPatternlen = r.wPatternlen
  path : r'.wPath.take r.wPathlen.toNat = r.wPath.take r.wPathlen.toNat
  host : r'.wHost.take r.wHostlen.toNat = r.wHost.take r.wHostlen.toNat
  pattern : r'.wPattern.take r.wPatternlen.toNat = r.wPattern.take r.wPatternlen.toNat

namespace WlogRec.Valid

variable {r : WlogRec}

theorem pathlen_eq (hr : r.Valid) : ((wlogRecDisk r).wPathlen.val : Int) = r.wPathlen :=
  lenField_val (by norm_num) hr.pathlen.1 (by simpa [wlogMaxPath] using hr.pathlen.2)

theorem hostlen_eq (hr : r.Valid) : ((wlogRecDisk r).wHostlen.val : Int) = r.wHostlen :=
  lenField_val (by norm_num) hr.hostlen.1 (by have := hr.hostlen.2; simp [wlogMaxHost] at *; omega)

theorem patternlen_eq (hr : r.Valid) : ((wlogRecDisk r).wPatternlen.val : Int) = r.wPatternlen :=
  lenField_val (by norm_num) hr.patternlen.1 (by simpa [wlogMaxPattern] using hr.patternlen.2)

theorem packable (hr : r.Valid) : r.Packable := by
  have hp := hr.pathlen_eq
  have hh := hr.hostlen_eq
  have hq := hr.patternlen_eq
  have := hr.pathlen.2
  have := hr.hostlen.2
  have := hr.patternlen.2
  refine ⟨?_, ?_, ?_⟩
  · rw [hr.path_size]; simp [wlogMaxPath] at *; omega
  · rw [hr.host_size]; simp [wlogMaxHost] at *; omega
  · rw [hr.pattern_size]; simp [wlogMaxPattern] at *; omega

/-- A record in range comes back from unpack as it was packed. -/
theorem agrees (hr : r.Valid) : r.Agrees (wlogRecImage r) := by
  have hp := hr.pathlen_eq
  have hh := hr.hostlen_eq
  have hq := hr.patternlen_eq
  have hP := hr.packable
  refine ⟨?_, ?_, ?_, ?_, ?_, ?_, hp, hh, hq, ?_, ?_, ?_⟩
  · exact uintField_val (by norm_num) hr.pid.1 hr.pid.2
  · exact intOfUint_uintField hr.offset.1 hr.offset.2
  · exact intOfUint_uintField hr.nbytes.1 hr.nbytes.2
  · exact intOfUint_uintField hr.oflags.1 hr.oflags.2
  · exact uintField_val (by norm_num) hr.done.1 (by simpa using hr.done.2)
  · exact uintField_val (by norm_num) hr.async.1 (by simpa using hr.async.2)
  · have hn : r.wPathlen.toNat = (wlogRecDisk r).wPathlen.val := by omega
    simp only [wlogRecImage, wlogRecOfDisk, hn]
    have := (wlogRecDisk r).wPathlen.isLt
    exact take_copiedArray (by simp [wlogMaxPath] at *; omega) hP.path
  · have hn : r.wHostlen.toNat = (wlogRecDisk r).wHostlen.val := by omega
    have := hr.hostlen.2
    simp only [wlogRecImage, wlogRecOfDisk, hn]
    exact take_copiedArray (by simp [wlogMaxHost] at *; omega) hP.host
  · have hn : r.wPatternlen.toNat = (wlogRecDisk r).wPatternlen.val := by omega
    simp only [wlogRecImage, wlogRecOfDisk, hn]
    have := (wlogRecDisk r).wPatternlen.isLt
    exact take_copiedArray (by simp [wlogMaxPattern] at *; omega) hP.pattern

end WlogRec.Valid
/-! ## The log of a run of appends and overlays -/

/-- The bytes of packed records, each with its trailer, as the appends write them. -/
def wlogFrames (bs : List (List UInt8)) : List UInt8 :=
  bs.flatMap fun b => b ++ wlogTrailer b.length

/-- The bytes an append writes for a record. -/
def wlogFrameLen (r : WlogRec) : Nat := (wlogRecPack r true).length + 2

/-- The offsets at which the records of a log begin. -/
def wlogOffsets (rs : List WlogRec) : List Int :=
  (List.range rs.length).map fun j => (((rs.take j).map wlogFrameLen).sum : Int)

/-- The log that holds the records `rs`, and the offsets of the records. -/
def wlogLogOf (rs : List WlogRec) : List UInt8 × List Int :=
  (wlogFrames (rs.map fun r => wlogRecPack r true), wlogOffsets rs)

/-- The records of the log after a call: an append adds one, an overlay replaces the `k`-th. -/
def wlogLiveStep (rs : List WlogRec) : WlogOp → List WlogRec
  | .append r => rs ++ [r]
  | .overlay k r => rs.set k r

/-- The records of the log after a run of calls on an empty log. -/
def wlogLive (ops : List WlogOp) : List WlogRec :=
  ops.foldl wlogLiveStep []

/-- `r'` differs from `r` only in the fixed fields. -/
def WlogRec.SameVar (r r' : WlogRec) : Prop :=
  r'.wHost = r.wHost ∧ r'.wHostlen = r.wHostlen ∧ r'.wPath = r.wPath ∧
    r'.wPathlen = r.wPathlen ∧ r'.wPattern = r.wPattern ∧ r'.wPatternlen = r.wPatternlen

/-- A call as the callers make it after the records `rs`: an overlay at the offset of an earlier
append, with a record that differs from it only in the fixed fields. -/
def WlogOpOk (rs : List WlogRec) : WlogOp → Prop
  | .append _ => True
  | .overlay k r => ∃ hk : k < rs.length, rs[k].SameVar r

/-- Every call of a run is as the callers make it. -/
def WlogOpsOk : List WlogRec → List WlogOp → Prop
  | _, [] => True
  | rs, op :: ops => WlogOpOk rs op ∧ WlogOpsOk (wlogLiveStep rs op) ops

@[simp] theorem wlogFrames_nil : wlogFrames [] = [] := rfl

@[simp] theorem wlogFrames_cons (b : List UInt8) (bs : List (List UInt8)) :
    wlogFrames (b :: bs) = b ++ wlogTrailer b.length ++ wlogFrames bs := by
  simp [wlogFrames]

@[simp] theorem wlogFrames_append (bs cs : List (List UInt8)) :
    wlogFrames (bs ++ cs) = wlogFrames bs ++ wlogFrames cs := by
  simp [wlogFrames]

theorem length_wlogFrames (rs : List WlogRec) :
    (wlogFrames (rs.map fun r => wlogRecPack r true)).length = (rs.map wlogFrameLen).sum := by
  induction rs with
  | nil => rfl
  | cons r rs ih =>
    simp [ih, wlogFrameLen, wlogTrailer]
    omega

/-- A record and one that differs from it only in the fixed fields pack to the same variable
part. -/
theorem wlogRecPack_sameVar {r r' : WlogRec} (h : r.SameVar r') :
    ∃ V, wlogRecPack r true = diskImage (wlogRecDisk r) ++ V ∧
      wlogRecPack r' true = diskImage (wlogRecDisk r') ++ V := by
  obtain ⟨hh, hhl, hp, hpl, hq, hql⟩ := h
  refine ⟨_, by rw [wlogRecPack_true, List.append_assoc, List.append_assoc], ?_⟩
  simp [wlogRecPack_true, hh, hhl, hp, hpl, hq, hql, wlogRecDisk]

theorem wlogFrameLen_sameVar {r r' : WlogRec} (h : r.SameVar r') :
    wlogFrameLen r' = wlogFrameLen r := by
  obtain ⟨V, hV, hV'⟩ := wlogRecPack_sameVar h
  simp [wlogFrameLen, hV, hV']

theorem wlogOffsets_append (rs : List WlogRec) (r : WlogRec) :
    wlogOffsets (rs ++ [r]) = wlogOffsets rs ++ [((rs.map wlogFrameLen).sum : Int)] := by
  rw [wlogOffsets, List.length_append, List.length_singleton, List.range_succ, List.map_append,
    wlogOffsets]
  congr 1
  · apply List.map_congr_left
    intro j hj
    rw [List.mem_range] at hj
    rw [List.take_append_of_le_length hj.le]
  · simp

/-- Replacing a record by one of the same length moves no other record. -/
theorem wlogOffsets_set {rs : List WlogRec} {k : Nat} {r : WlogRec} (hk : k < rs.length)
    (h : wlogFrameLen r = wlogFrameLen rs[k]) : wlogOffsets (rs.set k r) = wlogOffsets rs := by
  have hmap : (rs.set k r).map wlogFrameLen = rs.map wlogFrameLen := by
    rw [List.map_set, h, ← List.getElem_map wlogFrameLen (h := by simpa using hk),
      List.set_getElem_self]
  simp only [wlogOffsets, List.length_set, List.map_take, hmap]

theorem getD_wlogOffsets {rs : List WlogRec} {k : Nat} (hk : k < rs.length) :
    (wlogOffsets rs).getD k (-1) =
      ((wlogFrames ((rs.take k).map fun r => wlogRecPack r true)).length : Int) := by
  rw [length_wlogFrames]
  simp [wlogOffsets, hk]

/-- The log split around its `k`-th record. -/
theorem wlogFrames_set {rs : List WlogRec} {k : Nat} (hk : k < rs.length) (r : WlogRec) :
    wlogFrames ((rs.set k r).map fun r => wlogRecPack r true) =
      wlogFrames ((rs.take k).map fun r => wlogRecPack r true) ++
        (wlogRecPack r true ++ wlogTrailer (wlogRecPack r true).length) ++
          wlogFrames ((rs.drop (k + 1)).map fun r => wlogRecPack r true) := by
  rw [List.set_eq_take_cons_drop _ hk]
  simp

/-- One call keeps the log the image of its records. -/
theorem wlogStep_logOf {rs : List WlogRec} {op : WlogOp} (h : WlogOpOk rs op) :
    wlogStep (wlogLogOf rs) op = wlogLogOf (wlogLiveStep rs op) := by
  cases op with
  | append r =>
    have hw : wlogRecordWrite (wlogFrames (rs.map fun r => wlogRecPack r true)) r (-1) =
        (wlogFrames ((rs ++ [r]).map fun r => wlogRecPack r true), ((rs.map wlogFrameLen).sum : Int)) := by
      simp [wlogRecordWrite, length_wlogFrames]
    simp only [wlogStep, wlogLogOf, wlogLiveStep, hw, wlogOffsets_append]
  | overlay k r' =>
    obtain ⟨hk, hsv⟩ := h
    obtain ⟨V, hV, hV'⟩ := wlogRecPack_sameVar hsv
    -- the log before and after: the fixed part of the `k`-th record at its offset, then the rest
    have hrs := wlogFrames_set hk rs[k]
    rw [List.set_getElem_self hk, hV] at hrs
    have hr' := wlogFrames_set hk r'
    rw [hV'] at hr'
    simp only [List.length_append, length_diskImage, List.append_assoc] at hrs hr'
    have hw : wlogRecordWrite (wlogFrames (rs.map fun r => wlogRecPack r true)) r'
        ((wlogFrames ((rs.take k).map fun r => wlogRecPack r true)).length : Int) =
        (wlogFrames ((rs.set k r').map fun r => wlogRecPack r true),
          ((wlogFrames ((rs.take k).map fun r => wlogRecPack r true)).length : Int)) := by
      simp only [wlogRecordWrite, Nat.cast_nonneg, not_lt.2, decide_false, if_false]
      rw [hrs, hr', Int.toNat_natCast, writeAt_mid (by simp [wlogRecPack])]
      rfl
    simp only [wlogStep, wlogLogOf, wlogLiveStep, getD_wlogOffsets hk, hw,
      wlogOffsets_set hk (wlogFrameLen_sameVar hsv)]

/-- A run of calls as the callers make them leaves the log the image of its records. -/
theorem foldl_wlogStep {rs : List WlogRec} {ops : List WlogOp} (h : WlogOpsOk rs ops) :
    ops.foldl wlogStep (wlogLogOf rs) = wlogLogOf (ops.foldl wlogLiveStep rs) := by
  induction ops generalizing rs with
  | nil => rfl
  | cons op ops ih =>
    obtain ⟨hop, hops⟩ := h
    simp only [List.foldl_cons, wlogStep_logOf hop, ih hops]

theorem wlogRun_eq {ops : List WlogOp} (h : WlogOpsOk [] ops) :
    wlogRun ops = wlogLogOf (wlogLive ops) :=
  foldl_wlogStep h

end Ltp
