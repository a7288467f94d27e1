import Ltp.Lib.RandomRange

/-!
# Requests of `iogen` (`form_iorequest`)

`form_iorequest` draws a system call, a write pattern, a file and open flags, then an offset and a
length aligned on the file's i/o unit `mult`, placed after the previous request on that file
(sequential mode), before it (reverse mode) or anywhere (random mode), and records them in the file's
`f_lastoffset` and `f_lastlength`.  Every choice is a `random_range` call on the `lrand48()`
stream, here `randomRangeAt` on a stream `rng : Nat → Nat`.  iogen's own `int` arithmetic is exact
on the files considered (below `2^30` bytes), so it is written on `Int`; a remainder by zero is
undefined and gives `none`.

* `chooseOffsetLength_ok`: on a file as `parse_cmdline` admits it and as every earlier request left
  it, the sequential and reverse modes either give up, printing why, or choose a request inside the
  file, aligned, of a length between `max(Mintrans, mult)` and `Maxtrans`; the random mode does so
  when `Mintrans ≥ 1` and some multiple of `mult` lies between `Mintrans` and `Maxtrans`.
* `formIorequest_ok`, `iogenRun_ok`: hence along any number of calls each call returns `-1` leaving
  the files as they were, or `0` with such a request, and every file keeps its last request inside
  it.
* `form_iorequest_random_length`: in random mode the length comes from `random_range(Mintrans,
  Maxtrans, mult, NULL)`, whose failure is not checked, so a range without a multiple of `mult`
  gives a request of length `-1` and a return of `0`.
-/

namespace Ltp

open CInt CText

/-- `Offset_Mode`: where a request goes relative to the previous one on its file. -/
inductive OffsetMode
  | random
  | sequential
  | reverse
  deriving DecidableEq, Repr

/-- The fields of a `struct file_info` that `form_iorequest` reads and writes; `fRegular` is
`f_type == S_IFREG`. -/
structure FileInfo where
  fLength : Int
  fIou : Int
  fRiou : Int
  fRegular : Bool
  fLastoffset : Int
  fLastlength : Int
  deriving DecidableEq, Repr

/-- An entry of a `struct strmap` table: its value and its flags. -/
structure Strmap where
  mValue : Nat
  mFlags : Nat
  deriving DecidableEq, Repr

/-- `SY_ASYNC`. -/
def syAsync : Nat := 1

/-- `SY_WRITE`. -/
def syWrite : Nat := 2

/-- `FLG_RAW`. -/
def flgRaw : Nat := 1

/-- `Byte_Patterns`. -/
def bytePatterns : List Char :=
  "ABCDEFGHIJKLMNOPQRSTUVWXYZ".toList

/-- The globals of `iogen` that `form_iorequest` reads. -/
structure Iogen where
  syscallList : List Strmap
  flagList : List Strmap
  aioStratList : List Strmap
  mintrans : Int
  maxtrans : Int
  oOpt : Bool
  offsetMode : OffsetMode
  tagName : List Char

/-- The fields of a doio request that `form_iorequest` fills in for the read and write system
calls: type, file (the index of its entry in `File_List`), offset, byte count, pattern and
asynchronous strategy. -/
structure IoReq where
  rType : Nat
  rFile : Nat
  rOffset : Int
  rNbytes : Int
  rPattern : Char
  rAioStrat : Nat
  deriving DecidableEq, Repr

/-- What one call of `form_iorequest` leaves: its return value, the request, the files, the position
in the `lrand48()` stream and what it printed. -/
structure FormResult where
  ret : Int
  req : IoReq
  files : List FileInfo
  pos : Nat
  stderr : List Char

/-- The message printed when a `random_range` call with `&errp` fails. -/
def rangeFailedMessage (tagName : List Char) (min max mult : Int) : List Char :=
  "iogen".toList ++ cstr tagName ++ ":  random_range(".toList ++ fmtInt min ++ ", ".toList ++
    fmtInt max ++ ", ".toList ++ fmtInt mult ++ ") failed\n".toList

/-- `List[random_range(0, n - 1, 1, NULL)]` for a table of `n` entries: the index, the entry and the
stream position after the draw.  An index outside the table is undefined behaviour. -/
def drawFrom {α : Type} (rng : Nat → Nat) (l : List α) (k : Nat) : Option (Nat × α × Nat) := do
  let (r, k) ← randomRangeAt rng 0 ((l.length : Int) - 1) 1 k
  if 0 ≤ r.ret then
    let x ← l[r.ret.toNat]?
    return (r.ret.toNat, x, k)
  else none

/-- `if (offset && (offset % mult)) offset += mult - (offset % mult);` -/
def roundUpOffset (offset mult : Int) : Option Int :=
  if offset = 0 then some offset
  else do
    let r ← srem 32 offset mult
    return if r ≠ 0 then offset + (mult - r) else offset

/-- `if (offset && (offset % mult)) offset -= offset % mult;` -/
def roundDownOffset (offset mult : Int) : Option Int :=
  if offset = 0 then some offset
  else do
    let r ← srem 32 offset mult
    return if r ≠ 0 then offset - r else offset

/-- The first offset of sequential mode: inside the last request with `-O` (`o_opt`), else just
after it. -/
def sequentialStart (g : Iogen) (f : FileInfo) (rng : Nat → Nat) (k : Nat) : Option (Int × Nat) :=
  let laststart := f.fLastoffset
  let lastend := f.fLastoffset + f.fLastlength - 1
  if g.oOpt ∧ lastend > laststart then
    (randomRangeAt rng laststart lastend 1 k).map fun (r, k) => (r.ret, k)
  else some (lastend + 1, k)

/-- Sequential mode: after the last request on the file, rounded up to `mult`, from the start of the
file when no request of the least length fits. -/
def sequentialOffsetLength (g : Iogen) (f : FileInfo) (mult : Int) (rng : Nat → Nat) (k : Nat) :
    Option (Except (List Char) (Int × Int) × Nat) := do
  let minlength := if g.mintrans > mult then g.mintrans else mult
  let (offset, k) ← sequentialStart g f rng k
  let offset ← roundUpOffset offset mult
  let offset := if minlength > f.fLength - offset then 0 else offset
  let maxlength := if f.fLength - offset > g.maxtrans then g.maxtrans else f.fLength - offset
  let (r, k) ← randomRangeAt rng minlength maxlength mult k
  if r.errp ≠ none then return (.error (rangeFailedMessage g.tagName minlength maxlength mult), k)
  return (.ok (offset, r.ret), k)

/-- The offset of reverse mode before rounding: `length` bytes before `laststart`, moved into the
last request with `-O`. -/
def reverseStart (g : Iogen) (laststart lastend length : Int) (rng : Nat → Nat) (k : Nat) :
    Option (Int × Nat) :=
  if g.oOpt ∧ lastend > laststart then
    (randomRangeAt rng 1 (lastend - laststart) 1 k).map fun (r, k) => (laststart - length + r.ret, k)
  else some (laststart - length, k)

/-- Reverse mode: a request ending where the last one started, rounded down to `mult`, from the end
of the file when no request of the least length fits. -/
def reverseOffsetLength (g : Iogen) (f : FileInfo) (mult : Int) (rng : Nat → Nat) (k : Nat) :
    Option (Except (List Char) (Int × Int) × Nat) := do
  let minlength := if g.mintrans > mult then g.mintrans else mult
  let maxlength := if f.fLastoffset > g.maxtrans then g.maxtrans else f.fLastoffset
  let (laststart, lastend, maxlength) :=
    if minlength > maxlength then (f.fLength, f.fLength, g.maxtrans)
    else (f.fLastoffset, f.fLastoffset + f.fLastlength - 1, maxlength)
  let (r, k) ← randomRangeAt rng minlength maxlength mult k
  if r.errp ≠ none then return (.error (rangeFailedMessage g.tagName minlength maxlength mult), k)
  let length := r.ret
  let (offset, k) ← reverseStart g laststart lastend length rng k
  let offset ← roundDownOffset offset mult
  return (.ok (offset, length), k)

/-- Random mode: a length between `Mintrans` and `Maxtrans`, drawn with a NULL `errp`, then an
offset anywhere it fits (near the last request with `-O`). -/
def randomOffsetLength (g : Iogen) (f : FileInfo) (mult : Int) (rng : Nat → Nat) (k : Nat) :
    Option (Except (List Char) (Int × Int) × Nat) := do
  let laststart := f.fLastoffset
  let lastend := f.fLastoffset + f.fLastlength - 1
  -- a failure of this draw is not seen: the length is then `-1`
  let (r, k) ← randomRangeAt rng g.mintrans g.maxtrans mult k
  let length := r.ret
  let (minoffset, maxoffset) :=
    if g.oOpt ∧ lastend > laststart then
      (if laststart - length + 1 < 0 then 0 else laststart - length + 1,
        if lastend + length > f.fLength then f.fLength - length else lastend)
    else (0, f.fLength - length)
  let minoffset := if minoffset < 0 then 0 else minoffset
  let (r, k) ← randomRangeAt rng minoffset maxoffset mult k
  if r.errp ≠ none then return (.error (rangeFailedMessage g.tagName minoffset maxoffset mult), k)
  return (.ok (r.ret, length), k)

/-- The choice of offset and length on file `f` with alignment `mult`: `.ok` with them, or `.error`
with what is printed before `form_iorequest` returns `-1`. -/
def chooseOffsetLength (g : Iogen) (f : FileInfo) (mult : Int) (rng : Nat → Nat) (k : Nat) :
    Option (Except (List Char) (Int × Int) × Nat) :=
  match g.offsetMode with
  | .sequential => sequentialOffsetLength g f mult rng k
  | .reverse => reverseOffsetLength g f mult rng k
  | .random => randomOffsetLength g f mult rng k

/-- The write pattern: a letter of `Byte_Patterns` for a call that writes, `0` otherwise. -/
def drawPattern (sc : Strmap) (rng : Nat → Nat) (k : Nat) : Option (Char × Nat) :=
  if sc.mFlags &&& syWrite ≠ 0 then (drawFrom rng bytePatterns k).map fun (_, c, k) => (c, k)
  else some ('\x00', k)

/-- The completion strategy of an asynchronous call (its value), `0` for `NULL` otherwise. -/
def drawAioStrat (g : Iogen) (sc : Strmap) (rng : Nat → Nat) (k : Nat) : Option (Nat × Nat) :=
  if sc.mFlags &&& syAsync ≠ 0 then (drawFrom rng g.aioStratList k).map fun (_, a, k) => (a.mValue, k)
  else some (0, k)

/-- `form_iorequest(req)` on the files `files` of `File_List`, drawing from `rng` at position `k`. -/
def formIorequest (g : Iogen) (files : List FileInfo) (req : IoReq) (rng : Nat → Nat) (k : Nat) :
    Option FormResult := do
  let (_, sc, k) ← drawFrom rng g.syscallList k
  let req := { req with rType := sc.mValue }
  let (pattern, k) ← drawPattern sc rng k
  let (i, f, k) ← drawFrom rng files k
  let (_, flags, k) ← drawFrom rng g.flagList k
  -- raw i/o on a regular file is aligned on the raw i/o unit
  let mult := if f.fRegular ∧ flags.mFlags &&& flgRaw ≠ 0 then f.fRiou else f.fIou
  let (c, k) ← chooseOffsetLength g f mult rng k
  match c with
  | .error msg => return ⟨-1, req, files, k, msg⟩
  | .ok (offset, length) =>
    let files := files.set i { f with fLastoffset := offset, fLastlength := length }
    let (aio, k) ← drawAioStrat g sc rng k
    let req :=
      { req with rFile := i, rOffset := offset, rNbytes := length, rPattern := pattern, rAioStrat := aio }
    return ⟨0, req, files, k, []⟩

/-- `n` calls of `form_iorequest` in a row, each on the files and stream position the last left:
the results, or `none` on undefined behaviour. -/
def iogenRun (g : Iogen) (files : List FileInfo) (req : IoReq) (rng : Nat → Nat) (k : Nat) :
    Nat → Option (List FormResult)
  | 0 => some []
  | n + 1 => do
    let res ← formIorequest g files req rng k
    let rest ← iogenRun g res.files res.req rng res.pos n
    return res :: rest

/-! ### Files and requests that keep the invariant -/

/-- A file as `parse_cmdline` admits it (at least `Maxtrans` bytes, below `2^30`, i/o units between
`1` and `Maxtrans`) and as every request so far left it (its last request inside it).  Random mode
draws its length unchecked, so there it also needs `Mintrans ≥ 1` and, for each i/o unit, a
multiple of it between `Mintrans` and `Maxtrans`. -/
structure FileOk (g : Iogen) (f : FileInfo) : Prop where
  maxtrans_le : g.maxtrans ≤ f.fLength
  length_lt : f.fLength < 2 ^ 30
  iou_pos : 1 ≤ f.fIou
  iou_le : f.fIou ≤ g.maxtrans
  riou_pos : 1 ≤ f.fRiou
  riou_le : f.fRiou ≤ g.maxtrans
  lastoffset_nonneg : 0 ≤ f.fLastoffset
  lastlength_nonneg : 0 ≤ f.fLastlength
  last_le : f.fLastoffset + f.fLastlength ≤ f.fLength
  random_ok : g.offsetMode = .random → 1 ≤ g.mintrans ∧
    (∃ v, g.mintrans ≤ v ∧ v ≤ g.maxtrans ∧ v % f.fIou = 0) ∧
    (∃ v, g.mintrans ≤ v ∧ v ≤ g.maxtrans ∧ v % f.fRiou = 0)

/-- A request inside the file, aligned on `mult`, of a length between `max(Mintrans, mult)` and
`Maxtrans`. -/
def ReqOk (g : Iogen) (f : FileInfo) (mult offset length : Int) : Prop :=
  0 ≤ offset ∧ offset + length ≤ f.fLength ∧ offset % mult = 0 ∧ length % mult = 0 ∧
    max g.mintrans mult ≤ length ∧ length ≤ g.maxtrans

/-- What a choice of offset and length may come to: giving up with a message, or a good request. -/
def ChoiceOk (g : Iogen) (f : FileInfo) (mult : Int) : Except (List Char) (Int × Int) → Prop
  | .error _ => True
  | .ok (offset, length) => ReqOk g f mult offset length

section Draws

variable {rng : Nat → Nat} {a b m x : Int}

theorem rangeLaw_one {res : RangeResult} (h : RangeLaw a b 1 res) :
    res.errp = none ∧ min a b ≤ res.ret ∧ res.ret ≤ max a b := by
  rcases h with ⟨he, h1, h2, -⟩ | ⟨-, hno⟩
  · exact ⟨he, h1, h2⟩
  · exact absurd (Int.emod_one _) (hno (min a b) le_rfl min_le_max)

theorem roundUpOffset_eq (hx : 0 ≤ x) (hx' : x < 2 ^ 30) (hm : 1 ≤ m) :
    roundUpOffset x m = some (if x % m ≠ 0 then x + (m - x % m) else x) := by
  unfold roundUpOffset
  by_cases h0 : x = 0
  · subst h0
    simp
  · rw [if_neg h0, srem_of_pos (by omega) (inRange_of_lt (by norm_num) (by omega) (by omega)),
      Int.tmod_eq_emod_of_nonneg hx]
    rfl

theorem roundDownOffset_eq (hx : 0 ≤ x) (hx' : x < 2 ^ 30) (hm : 1 ≤ m) :
    roundDownOffset x m = some (x - x % m) := by
  unfold roundDownOffset
  by_cases h0 : x = 0
  · subst h0
    simp
  · rw [if_neg h0, srem_of_pos (by omega) (inRange_of_lt (by norm_num) (by omega) (by omega)),
      Int.tmod_eq_emod_of_nonneg hx]
    by_cases hr : x % m = 0
    · simp [hr]
    · simp [hr]

theorem drawFrom_ok {α : Type} (hrng : ∀ i, rng i < 2 ^ 31) {l : List α} (hl : l ≠ [])
    (hlen : l.length < 2 ^ 30) (k : Nat) :
    ∃ i y k', drawFrom rng l k = some (i, y, k') ∧ l[i]? = some y := by
  have hpos : 0 < l.length := List.length_pos_iff.2 hl
  obtain ⟨res, k', hres, hlaw⟩ := randomRangeAt_nonneg rng hrng k (a := 0)
    (b := (l.length : Int) - 1) le_rfl (by omega) (by norm_num) (by omega) le_rfl (by norm_num)
  obtain ⟨-, h1, h2⟩ := rangeLaw_one hlaw
  rw [min_eq_left (by omega)] at h1
  rw [max_eq_right (by omega)] at h2
  have hi : res.ret.toNat < l.length := by omega
  have hy : l[res.ret.toNat]? = some l[res.ret.toNat] := List.getElem?_eq_getElem hi
  refine ⟨res.ret.toNat, l[res.ret.toNat], k', ?_, hy⟩
  simp only [drawFrom, hres, Option.bind_eq_bind, Option.bind_some, if_pos h1, hy]
  rfl

/-- A positive multiple of `m` is at least `m`. -/
theorem le_of_emod_eq_zero (hx : 0 < x) (h : x % m = 0) : m ≤ x :=
  Int.le_of_dvd hx (Int.dvd_of_emod_eq_zero h)

end Draws

/-! ### The three modes -/

section Modes

variable {g : Iogen} {f : FileInfo} {mult : Int} {rng : Nat → Nat}

theorem sequentialOffsetLength_ok (hf : FileOk g f) (hmin : g.mintrans ≤ g.maxtrans) (hm1 : 1 ≤ mult)
    (hm2 : mult ≤ g.maxtrans) (hrng : ∀ i, rng i < 2 ^ 31) (k : Nat) :
    ∃ c k', sequentialOffsetLength g f mult rng k = some (c, k') ∧ ChoiceOk g f mult c := by
  have hL := hf.length_lt
  have hlo := hf.lastoffset_nonneg
  have hll := hf.lastlength_nonneg
  have hlast := hf.last_le
  have hMx := hf.maxtrans_le
  -- the start: inside the last request with `-O`, else just after it
  obtain ⟨o0, k1, h0, ho0, ho0'⟩ : ∃ o0 k1, sequentialStart g f rng k = some (o0, k1) ∧
      0 ≤ o0 ∧ o0 ≤ f.fLength := by
    simp only [sequentialStart]
    split_ifs with h
    · obtain ⟨res, k1, hres, hlaw⟩ := randomRangeAt_nonneg rng hrng k
        (b := f.fLastoffset + f.fLastlength - 1) hlo (by omega) (by omega) (by omega) le_rfl
        (by norm_num)
      obtain ⟨-, h1, h2⟩ := rangeLaw_one hlaw
      rw [min_eq_left (by omega)] at h1
      rw [max_eq_right (by omega)] at h2
      exact ⟨res.ret, k1, by rw [hres]; rfl, by omega, by omega⟩
    · exact ⟨_, k, rfl, by omega, by omega⟩
  have h1 := roundUpOffset_eq ho0 (by omega) hm1
  simp only [sequentialOffsetLength, h0, h1, Option.bind_eq_bind, Option.bind_some]
  -- the least length, the offset rounded up to `mult`, back to `0` when the least length does not
  -- fit, and the most length that fits
  have hminl : (if g.mintrans > mult then g.mintrans else mult) = max g.mintrans mult := by
    split_ifs with h
    · exact (max_eq_left h.le).symm
    · exact (max_eq_right (not_lt.1 h)).symm
  have ho1 : 0 ≤ (if o0 % mult ≠ 0 then o0 + (mult - o0 % mult) else o0) ∧
      (if o0 % mult ≠ 0 then o0 + (mult - o0 % mult) else o0) < 2 ^ 31 ∧
      (if o0 % mult ≠ 0 then o0 + (mult - o0 % mult) else o0) % mult = 0 := by
    have := Int.emod_nonneg o0 (by omega : mult ≠ 0)
    have := Int.emod_lt_of_pos o0 (by omega : 0 < mult)
    refine ⟨?_, ?_, roundUp_emod⟩ <;> split_ifs <;> omega
  rw [hminl]
  generalize (if o0 % mult ≠ 0 then o0 + (mult - o0 % mult) else o0) = o1 at ho1 ⊢
  obtain ⟨ho1a, ho1b, ho1m⟩ := ho1
  have ho2 : 0 ≤ (if max g.mintrans mult > f.fLength - o1 then 0 else o1) ∧
      max g.mintrans mult ≤ f.fLength - (if max g.mintrans mult > f.fLength - o1 then 0 else o1) ∧
      (if max g.mintrans mult > f.fLength - o1 then 0 else o1) % mult = 0 := by
    split_ifs with h
    · exact ⟨le_rfl, by simp only [sub_zero]; omega, Int.zero_emod _⟩
    · exact ⟨ho1a, by omega, ho1m⟩
  generalize (if max g.mintrans mult > f.fLength - o1 then 0 else o1) = o2 at ho2 ⊢
  obtain ⟨ho2a, ho2b, ho2m⟩ := ho2
  have hmaxl : max g.mintrans mult ≤
        (if f.fLength - o2 > g.maxtrans then g.maxtrans else f.fLength - o2) ∧
      (if f.fLength - o2 > g.maxtrans then g.maxtrans else f.fLength - o2) ≤ g.maxtrans ∧
      (if f.fLength - o2 > g.maxtrans then g.maxtrans else f.fLength - o2) ≤ f.fLength - o2 := by
    split_ifs with h <;> omega
  generalize (if f.fLength - o2 > g.maxtrans then g.maxtrans else f.fLength - o2) = maxlength
    at hmaxl ⊢
  obtain ⟨hl1, hl2, hl3⟩ := hmaxl
  -- the length, a multiple of `mult` between the two, or a failure that is reported
  obtain ⟨res, k2, hres, hlaw⟩ := randomRangeAt_nonneg rng hrng k1 (a := max g.mintrans mult)
    (b := maxlength) (by omega) (by omega) (by omega) (by omega) hm1 (by omega)
  rw [hres, Option.bind_some]
  rcases hlaw with ⟨he, hr1, hr2, hrm⟩ | ⟨rfl, -⟩
  · rw [min_eq_left hl1] at hr1
    rw [max_eq_right hl1] at hr2
    refine ⟨.ok (o2, res.ret), k2, by simp [he], ?_⟩
    exact ⟨ho2a, by omega, ho2m, hrm, hr1, by omega⟩
  · exact ⟨.error (rangeFailedMessage g.tagName (max g.mintrans mult) maxlength mult), k2,
      by simp, trivial⟩

theorem reverseStart_ok {ls le length : Int} (hrng : ∀ i, rng i < 2 ^ 31) (k : Nat)
    (hlen0 : 0 ≤ length) (hlen1 : length ≤ ls) (hls : ls ≤ f.fLength) (hL : f.fLength < 2 ^ 30)
    (hle : le > ls → le < f.fLength) :
    ∃ o k', reverseStart g ls le length rng k = some (o, k') ∧ 0 ≤ o ∧ o + length ≤ f.fLength := by
  unfold reverseStart
  split_ifs with h
  · -- moved into the last request by between `1` and its length less one
    obtain ⟨res, k', hres, hlaw⟩ := randomRangeAt_nonneg rng hrng k (a := 1) (b := le - ls)
      (by norm_num) (by omega) (by norm_num) (by omega) le_rfl (by norm_num)
    obtain ⟨-, h1, h2⟩ := rangeLaw_one hlaw
    rw [min_eq_left (by omega)] at h1
    rw [max_eq_right (by omega)] at h2
    exact ⟨ls - length + res.ret, k', by rw [hres]; rfl, by omega, by omega⟩
  · exact ⟨ls - length, k, rfl, by omega, by omega⟩

theorem reverseOffsetLength_ok (hf : FileOk g f) (hmin : g.mintrans ≤ g.maxtrans) (hm1 : 1 ≤ mult)
    (hm2 : mult ≤ g.maxtrans) (hrng : ∀ i, rng i < 2 ^ 31) (k : Nat) :
    ∃ c k', reverseOffsetLength g f mult rng k = some (c, k') ∧ ChoiceOk g f mult c := by
  have hL := hf.length_lt
  have hlo := hf.lastoffset_nonneg
  have hll := hf.lastlength_nonneg
  have hlast := hf.last_le
  have hMx := hf.maxtrans_le
  have hminl : (if g.mintrans > mult then g.mintrans else mult) = max g.mintrans mult := by
    split_ifs with h
    · exact (max_eq_left h.le).symm
    · exact (max_eq_right (not_lt.1 h)).symm
  simp only [reverseOffsetLength, hminl]
  -- the room before the last request, or the whole file again when it is too small
  have hroom : ∀ m0 : Int, m0 ≤ f.fLastoffset → m0 ≤ g.maxtrans →
      let t := if max g.mintrans mult > m0 then (f.fLength, f.fLength, g.maxtrans)
        else (f.fLastoffset, f.fLastoffset + f.fLastlength - 1, m0)
      max g.mintrans mult ≤ t.2.2 ∧ t.2.2 ≤ g.maxtrans ∧ t.2.2 ≤ t.1 ∧ t.1 ≤ f.fLength ∧
        (t.2.1 > t.1 → t.2.1 < f.fLength) := by
    intro m0 hm0 hm0'
    have hmx : max g.mintrans mult ≤ g.maxtrans := max_le hmin hm2
    split_ifs with h <;> dsimp only
    · exact ⟨hmx, le_rfl, hMx, le_rfl, fun h' => absurd h' (lt_irrefl _)⟩
    · exact ⟨by omega, hm0', hm0, by omega, fun _ => by omega⟩
  have hm0 := hroom (if f.fLastoffset > g.maxtrans then g.maxtrans else f.fLastoffset)
    (by split_ifs <;> omega) (by split_ifs <;> omega)
  generalize (if max g.mintrans mult > (if f.fLastoffset > g.maxtrans then g.maxtrans
      else f.fLastoffset) then (f.fLength, f.fLength, g.maxtrans)
    else (f.fLastoffset, f.fLastoffset + f.fLastlength - 1,
      if f.fLastoffset > g.maxtrans then g.maxtrans else f.fLastoffset)) = t at hm0 ⊢
  obtain ⟨ls, le, ml⟩ := t
  dsimp only at hm0 ⊢
  obtain ⟨hml1, hml2, hml3, hls, hle⟩ := hm0
  -- the length, a multiple of `mult` that fits before `laststart`
  obtain ⟨res, k2, hres, hlaw⟩ := randomRangeAt_nonneg rng hrng k (a := max g.mintrans mult)
    (b := ml) (by omega) (by omega) (by omega) (by omega) hm1 (by omega)
  simp only [hres, Option.bind_eq_bind, Option.bind_some]
  rcases hlaw with ⟨he, hr1, hr2, hrm⟩ | ⟨rfl, -⟩
  · rw [min_eq_left hml1] at hr1
    rw [max_eq_right hml1] at hr2
    obtain ⟨o0, k3, h0, ho0, ho0'⟩ := reverseStart_ok (g := g) hrng k2
      (show 0 ≤ res.ret by omega) (show res.ret ≤ ls by omega) hls hL hle
    have hmod := Int.emod_nonneg o0 (by omega : mult ≠ 0)
    have hmod' := Int.emod_lt_of_pos o0 (by omega : 0 < mult)
    refine ⟨.ok (o0 - o0 % mult, res.ret), k3, ?_, ?_⟩
    · simp [he, h0, roundDownOffset_eq ho0 (by omega) hm1]
    · have hdown := roundDown_nonneg (by omega : 0 < mult) ho0
      exact ⟨hdown, by omega, roundDown_emod, hrm, hr1, by omega⟩
  · exact ⟨.error (rangeFailedMessage g.tagName (max g.mintrans mult) ml mult), k2, by simp, trivial⟩

theorem randomOffsetLength_ok (hf : FileOk g f) (hmin : g.mintrans ≤ g.maxtrans) (hm1 : 1 ≤ mult)
    (hm2 : mult ≤ g.maxtrans) (hpos : 1 ≤ g.mintrans)
    (hmult : ∃ v, g.mintrans ≤ v ∧ v ≤ g.maxtrans ∧ v % mult = 0)
    (hrng : ∀ i, rng i < 2 ^ 31) (k : Nat) :
    ∃ c k', randomOffsetLength g f mult rng k = some (c, k') ∧ ChoiceOk g f mult c := by
  have hL := hf.length_lt
  have hlo := hf.lastoffset_nonneg
  have hll := hf.lastlength_nonneg
  have hlast := hf.last_le
  have hMx := hf.maxtrans_le
  -- the length: with a multiple of `mult` in range, the unchecked draw cannot fail
  obtain ⟨res, k1, hres, hlaw⟩ := randomRangeAt_nonneg rng hrng k (a := g.mintrans)
    (b := g.maxtrans) (by omega) (by omega) (by omega) (by omega) hm1 (by omega)
  obtain ⟨-, hl1, hl2, hlm⟩ : res.errp = none ∧ g.mintrans ≤ res.ret ∧ res.ret ≤ g.maxtrans ∧
      res.ret % mult = 0 := by
    rcases hlaw with ⟨he, h1, h2, h3⟩ | ⟨-, hno⟩
    · rw [min_eq_left hmin] at h1
      rw [max_eq_right hmin] at h2
      exact ⟨he, h1, h2, h3⟩
    · obtain ⟨v, hv1, hv2, hv3⟩ := hmult
      exact absurd hv3 (hno v (by rw [min_eq_left hmin]; exact hv1) (by rw [max_eq_right hmin]; exact hv2))
  have hlm' : mult ≤ res.ret := le_of_emod_eq_zero (by omega) hlm
  simp only [randomOffsetLength, hres, Option.bind_eq_bind, Option.bind_some]
  -- both ends of the offset range lie between `0` and the last offset that fits
  have hends : ∀ t : Int × Int, (t = if g.oOpt ∧ f.fLastoffset + f.fLastlength - 1 > f.fLastoffset then
        (if f.fLastoffset - res.ret + 1 < 0 then 0 else f.fLastoffset - res.ret + 1,
          if f.fLastoffset + f.fLastlength - 1 + res.ret > f.fLength then f.fLength - res.ret
          else f.fLastoffset + f.fLastlength - 1)
      else (0, f.fLength - res.ret)) →
      0 ≤ (if t.1 < 0 then 0 else t.1) ∧ (if t.1 < 0 then 0 else t.1) ≤ f.fLength - res.ret ∧
        0 ≤ t.2 ∧ t.2 ≤ f.fLength - res.ret := by
    rintro t rfl
    split_ifs <;> dsimp only at * <;> omega
  generalize ht : (if g.oOpt ∧ f.fLastoffset + f.fLastlength - 1 > f.fLastoffset then
      (if f.fLastoffset - res.ret + 1 < 0 then 0 else f.fLastoffset - res.ret + 1,
        if f.fLastoffset + f.fLastlength - 1 + res.ret > f.fLength then f.fLength - res.ret
        else f.fLastoffset + f.fLastlength - 1)
    else (0, f.fLength - res.ret)) = t
  obtain ⟨hmn0, hmn1, hmx0, hmx1⟩ := hends t ht.symm
  obtain ⟨mn, mx⟩ := t
  dsimp only at hmn0 hmn1 hmx0 hmx1 ⊢
  generalize (if mn < 0 then 0 else mn) = mn' at hmn0 hmn1 ⊢
  -- the offset, a multiple of `mult` between the two ends, or a failure that is reported
  obtain ⟨res', k2, hres', hlaw'⟩ := randomRangeAt_nonneg rng hrng k1 (a := mn') (b := mx)
    hmn0 hmx0 (by omega) (by omega) hm1 (by omega)
  simp only [hres', Option.bind_some]
  rcases hlaw' with ⟨he, h1, h2, h3⟩ | ⟨rfl, -⟩
  · have hlo' := le_min hmn0 hmx0
    have hhi' := max_le hmn1 hmx1
    refine ⟨.ok (res'.ret, res.ret), k2, by simp [he], ?_⟩
    exact ⟨by omega, by omega, h3, hlm, max_le hl1 hlm', hl2⟩
  · exact ⟨.error (rangeFailedMessage g.tagName mn' mx mult), k2, by simp, trivial⟩

/-- Every mode gives up with a message or chooses a good request; random mode needs a positive
`Mintrans` and a multiple of `mult` up to `Maxtrans`. -/
theorem chooseOffsetLength_ok (hf : FileOk g f) (hmin : g.mintrans ≤ g.maxtrans) (hm1 : 1 ≤ mult)
    (hm2 : mult ≤ g.maxtrans)
    (hrand : g.offsetMode = .random →
      1 ≤ g.mintrans ∧ ∃ v, g.mintrans ≤ v ∧ v ≤ g.maxtrans ∧ v % mult = 0)
    (hrng : ∀ i, rng i < 2 ^ 31) (k : Nat) :
    ∃ c k', chooseOffsetLength g f mult rng k = some (c, k') ∧ ChoiceOk g f mult c := by
  unfold chooseOffsetLength
  cases hmode : g.offsetMode with
  | sequential => exact sequentialOffsetLength_ok hf hmin hm1 hm2 hrng k
  | reverse => exact reverseOffsetLength_ok hf hmin hm1 hm2 hrng k
  | random =>
    obtain ⟨hpos, hmult⟩ := hrand hmode
    exact randomOffsetLength_ok hf hmin hm1 hm2 hpos hmult hrng k

end Modes

/-! ### Calls and runs -/

/-- The tables `form_iorequest` draws from are non-empty and below `2^30` entries, and
`Mintrans ≤ Maxtrans`. -/
structure ConfigOk (g : Iogen) : Prop where
  syscalls : g.syscallList ≠ [] ∧ g.syscallList.length < 2 ^ 30
  flags : g.flagList ≠ [] ∧ g.flagList.length < 2 ^ 30
  aio : g.aioStratList ≠ [] ∧ g.aioStratList.length < 2 ^ 30
  mintrans_le : g.mintrans ≤ g.maxtrans

/-- `File_List` as `parse_cmdline` leaves it and every call keeps it. -/
def FilesOk (g : Iogen) (files : List FileInfo) : Prop :=
  files ≠ [] ∧ files.length < 2 ^ 30 ∧ ∀ f ∈ files, FileOk g f

/-- One call either returns `-1`, leaving the files as they were, or returns `0` with a request
that `ReqOk` accepts for its file, and records it as that file's last request. -/
def CallOk (g : Iogen) (files : List FileInfo) (res : FormResult) : Prop :=
  (res.ret = -1 ∧ res.files = files) ∨
    (res.ret = 0 ∧ ∃ f mult, files[res.req.rFile]? = some f ∧ (mult = f.fIou ∨ mult = f.fRiou) ∧
      ReqOk g f mult res.req.rOffset res.req.rNbytes ∧
      res.files = files.set res.req.rFile
        { f with fLastoffset := res.req.rOffset, fLastlength := res.req.rNbytes })

/-- What a run of calls comes to, each call against the files the previous one left. -/
def RunOk (g : Iogen) : List FileInfo → List FormResult → Prop
  | _, [] => True
  | files, res :: rest => CallOk g files res ∧ RunOk g res.files rest

section Calls

variable {g : Iogen} {files : List FileInfo} {rng : Nat → Nat}

/-- Recording a good request keeps the file good. -/
theorem FileOk.record {f : FileInfo} {mult offset length : Int} (hf : FileOk g f) (hm : 1 ≤ mult)
    (h : ReqOk g f mult offset length) :
    FileOk g { f with fLastoffset := offset, fLastlength := length } := by
  obtain ⟨h0, h1, -, -, h4, -⟩ := h
  have := le_max_right g.mintrans mult
  exact
    { hf with
      lastoffset_nonneg := h0
      lastlength_nonneg := by dsimp only; omega
      last_le := h1 }

theorem filesOk_set {i : Nat} {f : FileInfo} (hfiles : FilesOk g files) (hf : FileOk g f) :
    FilesOk g (files.set i f) := by
  obtain ⟨hne, hlen, hall⟩ := hfiles
  refine ⟨by simpa using hne, by simpa using hlen, fun f' hf' => ?_⟩
  rcases List.mem_or_eq_of_mem_set hf' with h | rfl
  · exact hall f' h
  · exact hf

theorem drawPattern_ok (sc : Strmap) (hrng : ∀ i, rng i < 2 ^ 31) (k : Nat) :
    ∃ c k', drawPattern sc rng k = some (c, k') := by
  unfold drawPattern
  split_ifs
  · obtain ⟨_, c, k', h, -⟩ := drawFrom_ok hrng (l := bytePatterns) (by decide) (by decide) k
    exact ⟨c, k', by rw [h]; rfl⟩
  · exact ⟨_, k, rfl⟩

theorem drawAioStrat_ok (hg : ConfigOk g) (sc : Strmap) (hrng : ∀ i, rng i < 2 ^ 31) (k : Nat) :
    ∃ a k', drawAioStrat g sc rng k = some (a, k') := by
  unfold drawAioStrat
  split_ifs
  · obtain ⟨_, a, k', h, -⟩ := drawFrom_ok hrng hg.aio.1 hg.aio.2 k
    exact ⟨a.mValue, k', by rw [h]; rfl⟩
  · exact ⟨_, k, rfl⟩

/-- `form_iorequest` in terms of its draws: the system call, the pattern, the file, the flags, and
the choice of offset and length. -/
theorem formIorequest_eq {req : IoReq} {k i₀ k₁ k₂ i k₃ i₁ k₄ k₅ : Nat} {sc flags : Strmap}
    {pattern : Char} {f : FileInfo} {c : Except (List Char) (Int × Int)}
    (h₁ : drawFrom rng g.syscallList k = some (i₀, sc, k₁))
    (h₂ : drawPattern sc rng k₁ = some (pattern, k₂))
    (h₃ : drawFrom rng files k₂ = some (i, f, k₃))
    (h₄ : drawFrom rng g.flagList k₃ = some (i₁, flags, k₄))
    (h₅ : chooseOffsetLength g f
      (if f.fRegular ∧ flags.mFlags &&& flgRaw ≠ 0 then f.fRiou else f.fIou) rng k₄ = some (c, k₅)) :
    formIorequest g files req rng k = match c with
      | .error msg => some ⟨-1, { req with rType := sc.mValue }, files, k₅, msg⟩
      | .ok (offset, length) => (drawAioStrat g sc rng k₅).map fun (aio, k) =>
        ⟨0,
          { req with
            rType := sc.mValue
            rFile := i
            rOffset := offset
            rNbytes := length
            rPattern := pattern
            rAioStrat := aio },
          files.set i { f with fLastoffset := offset, fLastlength := length }, k, []⟩ := by
  simp only [formIorequest, h₁, h₂, h₃, h₄, h₅, Option.bind_eq_bind, Option.bind_some]
  cases c with
  | error msg => rfl
  | ok p => cases drawAioStrat g sc rng k₅ <;> rfl

/-- The step: one call of `form_iorequest` on good files. -/
theorem formIorequest_ok (hg : ConfigOk g) (hfiles : FilesOk g files)
    (hrng : ∀ i, rng i < 2 ^ 31) (req : IoReq) (k : Nat) :
    ∃ res, formIorequest g files req rng k = some res ∧ CallOk g files res ∧
      FilesOk g res.files := by
  obtain ⟨_, sc, k1, h1, -⟩ := drawFrom_ok hrng hg.syscalls.1 hg.syscalls.2 k
  obtain ⟨pattern, k2, h2⟩ := drawPattern_ok sc hrng k1
  obtain ⟨i, f, k3, h3, hfi⟩ := drawFrom_ok hrng hfiles.1 hfiles.2.1 k2
  obtain ⟨_, flags, k4, h4, -⟩ := drawFrom_ok hrng hg.flags.1 hg.flags.2 k3
  have hf : FileOk g f := hfiles.2.2 f (List.mem_of_getElem? hfi)
  -- the alignment is one of the file's two i/o units
  obtain ⟨mult, hmult, hm⟩ : ∃ mult, (if f.fRegular ∧ flags.mFlags &&& flgRaw ≠ 0 then f.fRiou
      else f.fIou) = mult ∧ (mult = f.fIou ∨ mult = f.fRiou) := by
    split_ifs
    · exact ⟨_, rfl, .inr rfl⟩
    · exact ⟨_, rfl, .inl rfl⟩
  have hm1 : 1 ≤ mult := by rcases hm with rfl | rfl <;> [exact hf.iou_pos; exact hf.riou_pos]
  have hm2 : mult ≤ g.maxtrans := by rcases hm with rfl | rfl <;> [exact hf.iou_le; exact hf.riou_le]
  have hrand : g.offsetMode = .random →
      1 ≤ g.mintrans ∧ ∃ v, g.mintrans ≤ v ∧ v ≤ g.maxtrans ∧ v % mult = 0 := by
    intro hmode
    obtain ⟨hpos, hiou, hriou⟩ := hf.random_ok hmode
    rcases hm with rfl | rfl
    · exact ⟨hpos, hiou⟩
    · exact ⟨hpos, hriou⟩
  obtain ⟨c, k5, h5, hc⟩ := chooseOffsetLength_ok hf hg.mintrans_le hm1 hm2 hrand hrng k4
  simp only [formIorequest, h1, h2, h3, h4, hmult, h5, Option.bind_eq_bind, Option.bind_some]
  cases c with
  | error msg =>
    exact ⟨_, rfl, .inl ⟨rfl, rfl⟩, hfiles⟩
  | ok p =>
    obtain ⟨offset, length⟩ := p
    obtain ⟨aio, k6, h6⟩ := drawAioStrat_ok hg sc hrng k5
    simp only [h6, Option.bind_some]
    refine ⟨_, rfl, .inr ⟨rfl, f, mult, hfi, hm, hc, rfl⟩, filesOk_set hfiles (hf.record hm1 hc)⟩

/-- The run: any number of calls in a row, from good files. -/
theorem iogenRun_ok (hg : ConfigOk g) (hrng : ∀ i, rng i < 2 ^ 31) :
    ∀ (n : Nat) (files : List FileInfo) (req : IoReq) (k : Nat), FilesOk g files →
      ∃ results, iogenRun g files req rng k n = some results ∧ results.length = n ∧
        RunOk g files results
  | 0, _, _, _, _ => ⟨[], rfl, rfl, trivial⟩
  | n + 1, files, req, k, hfiles => by
    obtain ⟨res, hres, hcall, hfiles'⟩ := formIorequest_ok hg hfiles hrng req k
    obtain ⟨rest, hrest, hlen, hrun⟩ := iogenRun_ok hg hrng n res.files res.req res.pos hfiles'
    refine ⟨res :: rest, ?_, by simp [hlen], hcall, hrun⟩
    simp [iogenRun, hres, hrest]

end Calls

/-! ### Random mode does not check its length -/

/-- With `Mintrans = 5`, `Maxtrans = 7` and a file of 8 bytes whose i/o unit is 4, random mode
draws its length from a range without a multiple of 4: `random_range` returns `-1`, which is taken
as the length, and `form_iorequest` returns `0`, whatever the `lrand48()` stream. -/
theorem form_iorequest_random_length (rng : Nat → Nat) (hrng : ∀ i, rng i < 2 ^ 31) (req : IoReq) :
    ∃ res, formIorequest ⟨[⟨1, 0⟩], [⟨0, 0⟩], [⟨0, 0⟩], 5, 7, false, .random, []⟩
        [⟨8, 4, 4, false, 4, 0⟩] req rng 0 = some res ∧ res.ret = 0 ∧ res.req.rNbytes = -1 := by
  obtain ⟨_, sc, k1, h1, hsc⟩ := drawFrom_ok hrng (l := [(⟨1, 0⟩ : Strmap)]) (by simp) (by simp) 0
  obtain ⟨pattern, k2, h2⟩ := drawPattern_ok sc hrng k1
  obtain ⟨_, f, k3, h3, hf⟩ := drawFrom_ok hrng (l := [(⟨8, 4, 4, false, 4, 0⟩ : FileInfo)])
    (by simp) (by simp) k2
  obtain ⟨_, flags, k4, h4, hflags⟩ := drawFrom_ok hrng (l := [(⟨0, 0⟩ : Strmap)]) (by simp)
    (by simp) k3
  obtain rfl := List.mem_singleton.1 (List.mem_of_getElem? hsc)
  obtain rfl := List.mem_singleton.1 (List.mem_of_getElem? hf)
  obtain rfl := List.mem_singleton.1 (List.mem_of_getElem? hflags)
  -- no multiple of 4 lies between 5 and 7: the length draw fails and draws nothing
  obtain ⟨lres, k5, h5, hlaw⟩ := randomRangeAt_nonneg rng hrng k4 (a := 5) (b := 7)
    (by norm_num) (by norm_num) (by norm_num) (by norm_num) (show (1 : Int) ≤ 4 by norm_num) (by norm_num)
  have hlen : lres.ret = -1 := by
    rcases hlaw with ⟨-, h1, h2, h3⟩ | ⟨rfl, -⟩
    · simp only [min_def, max_def] at h1 h2
      norm_num at h1 h2
      omega
    · rfl
  -- the offset is then drawn between `0` and `8 - (-1)`, where `0` is a multiple of 4
  obtain ⟨ores, k6, h6, hlaw'⟩ := randomRangeAt_nonneg rng hrng k5 (a := 0) (b := 9)
    le_rfl (by norm_num) (by norm_num) (by norm_num) (show (1 : Int) ≤ 4 by norm_num) (by norm_num)
  have herr : ores.errp = none := by
    rcases hlaw' with ⟨he, -⟩ | ⟨-, hno⟩
    · exact he
    · exact absurd rfl (hno 0 (by simp) (by simp))
  have hchoice : chooseOffsetLength ⟨[⟨1, 0⟩], [⟨0, 0⟩], [⟨0, 0⟩], 5, 7, false, .random, []⟩
      ⟨8, 4, 4, false, 4, 0⟩ 4 rng k4 = some (.ok (ores.ret, -1), k6) := by
    have h6' : randomRangeAt rng 0 (8 - lres.ret) 4 k5 = some (ores, k6) := by
      rw [hlen]; exact h6
    simp only [chooseOffsetLength, randomOffsetLength, h5, Option.bind_eq_bind, Option.bind_some,
      Bool.false_eq_true, false_and, if_false, lt_irrefl, h6']
    rw [if_neg (by simp [herr]), hlen]
    rfl
  have hmult : (if (⟨8, 4, 4, false, 4, 0⟩ : FileInfo).fRegular ∧
      (⟨0, 0⟩ : Strmap).mFlags &&& flgRaw ≠ 0 then (4 : Int) else 4) = 4 := ite_self 4
  have h5' : chooseOffsetLength ⟨[⟨1, 0⟩], [⟨0, 0⟩], [⟨0, 0⟩], 5, 7, false, .random, []⟩
      ⟨8, 4, 4, false, 4, 0⟩ (if (⟨8, 4, 4, false, 4, 0⟩ : FileInfo).fRegular ∧
        (⟨0, 0⟩ : Strmap).mFlags &&& flgRaw ≠ 0 then (⟨8, 4, 4, false, 4, 0⟩ : FileInfo).fRiou
        else (⟨8, 4, 4, false, 4, 0⟩ : FileInfo).fIou) rng k4 = some (.ok (ores.ret, -1), k6) := by
    rw [hmult]
    exact hchoice
  rw [formIorequest_eq (g := ⟨[⟨1, 0⟩], [⟨0, 0⟩], [⟨0, 0⟩], 5, 7, false, .random, []⟩) h1 h2 h3 h4 h5']
  have haio : drawAioStrat ⟨[⟨1, 0⟩], [⟨0, 0⟩], [⟨0, 0⟩], 5, 7, false, .random, []⟩ ⟨1, 0⟩ rng k6 =
      some (0, k6) := by
    rw [drawAioStrat, if_neg (by decide)]
  simp only [haio, Option.map_some]
  exact ⟨_, rfl, rfl, rfl⟩

theorem form_iorequest_random_length_zero :
    (∀ i, (fun _ => 0 : Nat → Nat) i < 2 ^ 31) ∧
      ∃ res, formIorequest ⟨[⟨1, 0⟩], [⟨0, 0⟩], [⟨0, 0⟩], 5, 7, false, .random, []⟩
        [⟨8, 4, 4, false, 4, 0⟩] ⟨0, 0, 0, 0, 'A', 0⟩ (fun _ => 0) 0 = some res ∧ res.ret = 0 ∧
        res.req.rNbytes = -1 :=
  ⟨fun _ => by norm_num, form_iorequest_random_length _ (fun _ => by norm_num) _⟩

end Ltp
