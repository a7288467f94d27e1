import Ltp.Lib.RandomBit

/-!
# Random I/O methods (`tlibio.c`)

A method mask of `tlibio.c` holds I/O-type bits, wait-method bits and `LIO_RANDOM`.  The
one-letter options of `Lio_info1`, read by `lio_parse_io_arg1` (growfiles' `-I`, pipeio's `-i`),
give such masks; `'r'` and `'R'` set `LIO_RANDOM`, and `lio_read_buffer` and `lio_write_buffer`
then replace the mask by `lio_random_methods(mask)`, which clears the random bit and picks one
I/O type and one wait method with `random_bit`.  The constants are the Linux ones of
`tlibio.h` (without uClibc).

`lio_random_methods` clears only `LIO_IO_TYPES | LIO_WAIT_TYPES | LIO_RANDOM` and picks among
`LIO_IO_TYPES` and `LIO_WAIT_TYPES`, while `'R'` sets the wider `LIO_IO_ATYPES` and
`LIO_WAIT_ATYPES`: the I/O types and wait methods outside the narrow masks pass through
(`lioRandomMethods_eq`), so `'R'` keeps several of each (`lio_random_methods_wide_types`).

`int` is a `BitVec 32` and `long` a `BitVec 64`; C converts between them by sign extension and
truncation (gcc's choice for the conversion to `int`).
-/

namespace Ltp

open Bits

/-! ## The method bits -/

def lioIoSync : BitVec 32 := 0o1
def lioIoAsync : BitVec 32 := 0o2
def lioIoSlistio : BitVec 32 := 0o4
def lioIoAlistio : BitVec 32 := 0o10
def lioIoSyncv : BitVec 32 := 0o20
def lioIoSyncp : BitVec 32 := 0o40
def lioIoTypes : BitVec 32 := 0o61
def lioIoAtypes : BitVec 32 := 0o77
def lioWaitRecall : BitVec 32 := 0o40000
def lioWaitSigpause : BitVec 32 := 0o100000
def lioWaitSigactive : BitVec 32 := 0o200000
def lioWaitAtypes : BitVec 32 := 0o1760000
def lioWaitTypes : BitVec 32 := 0o20000
def lioRandom : BitVec 32 := 0o10000000

/-- The tokens and bits of `Lio_info1` (the descriptions only feed `lio_help1`). -/
def lioInfo1 : List (List Char × BitVec 32) :=
  [("s".toList, lioIoSync),
   ("p".toList, lioIoAsync ||| lioWaitSigactive),
   ("b".toList, lioIoAsync ||| lioWaitSigpause),
   ("a".toList, lioIoAsync ||| lioWaitRecall),
   ("r".toList, lioRandom ||| lioIoTypes ||| lioWaitTypes),
   ("R".toList, lioRandom ||| lioIoAtypes ||| lioWaitAtypes),
   ("l".toList, lioIoSlistio ||| lioWaitRecall),
   ("L".toList, lioIoAlistio ||| lioWaitRecall),
   ("X".toList, lioIoAlistio ||| lioWaitSigpause),
   ("v".toList, lioIoSyncv),
   ("P".toList, lioIoSyncp)]

/-- `lio_parse_io_arg1(string)`: the bits of the entry whose token is the whole string, or `-1`. -/
def lioParseIoArg1 (string : List Char) : BitVec 32 :=
  match lioInfo1.find? (fun e => e.1 == string) with
  | some e => 0 ||| e.2
  | none => -1

/-- `lio_random_methods(curr_mask)`, with `r1` and `r2` the values `lrand48()` gives the two
`random_bit` calls (a call on a zero mask draws none). -/
def lioRandomMethods (currMask : BitVec 64) (r1 r2 : Nat) : Option (BitVec 32) := do
  -- `int mask = curr_mask & ~(LIO_IO_TYPES | LIO_WAIT_TYPES | LIO_RANDOM);`
  let mask : BitVec 32 :=
    (currMask &&& (~~~(lioIoTypes ||| lioWaitTypes ||| lioRandom)).signExtend 64).setWidth 32
  let io ← randomBit (currMask &&& lioIoTypes.signExtend 64) r1
  let mask := (mask.signExtend 64 ||| io).setWidth 32
  let wait ← randomBit (currMask &&& lioWaitTypes.signExtend 64) r2
  let mask := (mask.signExtend 64 ||| wait).setWidth 32
  return mask

/-! ## What the selection does -/

/-- `random_bit` of any mask: `0` for a zero mask, else one of its bits. -/
theorem randomBit_result (mask : BitVec 64) {r : Nat} (hr : r < 2 ^ 31) :
    ∃ b, randomBit mask r = some b ∧
      ((mask = 0 ∧ b = 0) ∨ ∃ p < 64, mask.getLsbD p = true ∧ b = 1#64 <<< p) := by
  by_cases hm : mask = 0
  · subst hm
    exact ⟨0, by simp [randomBit], .inl ⟨rfl, rfl⟩⟩
  · obtain ⟨p, hp, hset, -, hbit⟩ := randomBit_spec hm hr
    exact ⟨_, hbit, .inr ⟨p, hp, hset, rfl⟩⟩

/-- `lio_random_methods` keeps `curr_mask` outside `LIO_IO_TYPES | LIO_WAIT_TYPES | LIO_RANDOM`,
narrowed to `int`, and adds the two bits `random_bit` picks. -/
theorem lioRandomMethods_eq (currMask : BitVec 64) {r1 r2 : Nat} {io wait : BitVec 64}
    (hio : randomBit (currMask &&& lioIoTypes.signExtend 64) r1 = some io)
    (hwait : randomBit (currMask &&& lioWaitTypes.signExtend 64) r2 = some wait) :
    lioRandomMethods currMask r1 r2 =
      some ((currMask &&& (~~~(lioIoTypes ||| lioWaitTypes ||| lioRandom)).signExtend 64 |||
        io ||| wait).setWidth 32) := by
  simp only [lioRandomMethods, hio, hwait, Option.bind_eq_bind, Option.bind_some]
  rw [BitVec.setWidth_or, setWidth_signExtend _ (by norm_num), BitVec.setWidth_or,
    setWidth_signExtend _ (by norm_num), BitVec.setWidth_or, BitVec.setWidth_or]
  rfl

/-- For the option `'R'`, whatever `lrand48()` returns, the result keeps two I/O types
(`LIO_IO_ASYNC`, `LIO_IO_SLISTIO`) and two wait methods (`LIO_WAIT_RECALL`, `LIO_WAIT_SIGPAUSE`)
besides the ones picked. -/
theorem lio_random_methods_wide_types (r1 r2 : Nat) (h1 : r1 < 2 ^ 31) (h2 : r2 < 2 ^ 31) :
    ∃ m, lioRandomMethods ((lioParseIoArg1 "R".toList).signExtend 64) r1 r2 = some m ∧
      m &&& (lioIoAsync ||| lioIoSlistio) = lioIoAsync ||| lioIoSlistio ∧
      m &&& (lioWaitRecall ||| lioWaitSigpause) = lioWaitRecall ||| lioWaitSigpause := by
  obtain ⟨io, hio, -⟩ := randomBit_result ((lioParseIoArg1 "R".toList).signExtend 64 &&&
    lioIoTypes.signExtend 64) h1
  obtain ⟨wait, hwait, -⟩ := randomBit_result ((lioParseIoArg1 "R".toList).signExtend 64 &&&
    lioWaitTypes.signExtend 64) h2
  refine ⟨_, lioRandomMethods_eq _ hio hwait, ?_, ?_⟩
  · rw [BitVec.setWidth_or, BitVec.setWidth_or, BitVec.or_assoc]
    apply or_and_of_and_eq
    decide
  · rw [BitVec.setWidth_or, BitVec.setWidth_or, BitVec.or_assoc]
    apply or_and_of_and_eq
    decide

theorem lio_random_methods_wide_types_zero :
    ∃ m, lioRandomMethods ((lioParseIoArg1 "R".toList).signExtend 64) 0 0 = some m ∧
      m &&& (lioIoAsync ||| lioIoSlistio) = lioIoAsync ||| lioIoSlistio ∧
      m &&& (lioWaitRecall ||| lioWaitSigpause) = lioWaitRecall ||| lioWaitSigpause :=
  lio_random_methods_wide_types 0 0 (by norm_num) (by norm_num)

end Ltp
