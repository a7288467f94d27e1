import Ltp.Library.CText
import Ltp.Library.Bytes

/-!
# The hex dump of `tst_resm_hexd_` (`tst_res.c`)

`tst_resm_hexd_(file, lineno, ttype, buf, size, arg_fmt, ...)` formats its message into
`tmesg[USERMESG]` and hands the result function lines of the bytes of `buf` as two hex digits
each, separated by spaces.  When the bytes fit behind the message (at most 16 of them, and
`strlen + 3 * size < USERMESG`) they are appended to it and the message goes out as one line;
otherwise the message goes out alone, and the bytes follow 16 to a line.  One pointer `pmesg` into
`tmesg` writes both: a space goes before a byte unless `pmesg` is at the start of `tmesg`, and
`sprintf` writes the two digits and a `'\0'`.

The buffer is `tmesg` as `EXPAND_VAR_ARGS` leaves it: the message, a `'\0'`, and whatever the rest
of the array holds.  Every store is checked against its `USERMESG` bytes, `none` being a store
past the end.

* `hexdLoop_segment`, `hexdLoop_rows`: a run of bytes up to the next flush extends the line by a
  space and two digits a byte; from the start of a line the rest of the bytes go out in rows of
  16 (`hexRows`).
* `tst_resm_hexd_layout`: for every message of length `0 < strlen < USERMESG` and every buffer, the
  call stores nothing past `tmesg[USERMESG - 1]` and hands over exactly `hexdLayout`.
-/

namespace Ltp

open CText Bytes

/-- `USERMESG`. -/
def usermesg : Nat := 2048

/-- `"%02x"` of a byte. -/
def fmtHex02 (b : UInt8) : List Char :=
  [Nat.digitChar (b.toNat / 16), Nat.digitChar (b.toNat % 16)]

/-- A store of `s` into the buffer at offset `p`; `none` when it runs past the end. -/
def storeAt (buf : List Char) (p : Nat) (s : List Char) : Option (List Char) :=
  if p + s.length ≤ buf.length then some (writeAt buf p s) else none

/-- The loop of `tst_resm_hexd_` over the bytes from index `i`, with `pmesg` as an offset into
`tmesg`, and the texts handed to the result function so far. -/
def hexdLoop (size : Nat) : List UInt8 → Nat → List Char → Nat → List (List Char) →
    Option (List (List Char))
  | [], _, _, _, out => some out
  | b :: bs, i, tmesg, pmesg, out => do
    -- a space before every byte but the first of a line
    let tmesg ← if pmesg ≠ 0 then storeAt tmesg pmesg [' '] else some tmesg
    let pmesg := if pmesg ≠ 0 then pmesg + 1 else pmesg
    let tmesg ← storeAt tmesg pmesg (fmtHex02 b ++ ['\x00'])
    let pmesg := pmesg + 2
    if (i + 1) % 16 = 0 ∨ i + 1 = size then hexdLoop size bs (i + 1) tmesg 0 (out ++ [cstr tmesg])
    else hexdLoop size bs (i + 1) tmesg pmesg out

/-- `tst_resm_hexd_` on `tmesg` as `EXPAND_VAR_ARGS` leaves it: the texts handed to the result
function, `none` for a store past the buffer. -/
def tstResmHexd (tmesg : List Char) (buf : List UInt8) : Option (List (List Char)) :=
  let size := buf.length
  let offset := (cstr tmesg).length
  if 16 < size ∨ size = 0 ∨ usermesg ≤ offset + size * 3 then hexdLoop size buf 0 tmesg 0 [cstr tmesg]
  else hexdLoop size buf 0 tmesg offset []

/-! ### The layout -/

/-- A line of the dump: the bytes in hex, separated by spaces. -/
def hexLine (bs : List UInt8) : List Char :=
  [' '].intercalate (bs.map fmtHex02)

/-- The rows of 16 bytes, the last one shorter: row `j` holds the bytes `16 j .. 16 j + 15`. -/
def hexRows (bs : List UInt8) : List (List Char) :=
  (List.range ((bs.length + 15) / 16)).map fun j => hexLine ((bs.drop (16 * j)).take 16)

/-- What `tst_resm_hexd_` is to hand over: the message with the bytes behind it when they fit,
or else the message and then the rows. -/
def hexdLayout (m : List Char) (bs : List UInt8) : List (List Char) :=
  if 0 < bs.length ∧ bs.length ≤ 16 ∧ m.length + 3 * bs.length < usermesg then
    [m ++ ' ' :: hexLine bs]
  else m :: hexRows bs

theorem nul_not_mem_fmtHex02 (b : UInt8) : '\x00' ∉ fmtHex02 b := by
  have hdig : ∀ n < 16, Nat.digitChar n ≠ '\x00' := by decide
  have h1 : b.toNat / 16 < 16 := by have := b.toNat_lt; omega
  have h2 : b.toNat % 16 < 16 := Nat.mod_lt _ (by omega)
  simp only [fmtHex02, List.mem_cons, List.not_mem_nil, or_false, not_or]
  exact ⟨(hdig _ h1).symm, (hdig _ h2).symm⟩

@[simp] theorem length_fmtHex02 (b : UInt8) : (fmtHex02 b).length = 2 := rfl

theorem hexLine_cons (b : UInt8) (bs : List UInt8) :
    hexLine (b :: bs) = fmtHex02 b ++ bs.flatMap fun c => ' ' :: fmtHex02 c := by
  induction bs generalizing b with
  | nil => simp [hexLine]
  | cons c bs ih =>
    rw [hexLine, List.map_cons, List.map_cons, List.intercalate_cons_cons, ← List.map_cons,
      ← hexLine, ih, List.flatMap_cons]
    simp

theorem hexRows_nil : hexRows [] = [] := rfl

/-- The first row and the rows after it. -/
theorem hexRows_of_ne_nil {bs : List UInt8} (h : bs ≠ []) :
    hexRows bs = hexLine (bs.take 16) :: hexRows (bs.drop 16) := by
  have hlen : 0 < bs.length := List.length_pos_of_ne_nil h
  have hrows : (bs.length + 15) / 16 = ((bs.drop 16).length + 15) / 16 + 1 := by
    rw [List.length_drop]
    omega
  rw [hexRows, hrows, List.range_succ_eq_map, List.map_cons, List.map_map, hexRows]
  congr 1
  refine List.map_congr_left fun j _ => ?_
  simp only [Function.comp_apply, List.drop_drop]
  congr 3
  omega

/-! ### The loop -/

/-- A store at the end of what the buffer holds so far, inside its length. -/
theorem storeAt_append (pre post s : List Char) (h : s.length ≤ post.length) :
    storeAt (pre ++ post) pre.length s = some (pre ++ s ++ post.drop s.length) := by
  have hle : pre.length + s.length ≤ (pre ++ post).length := by
    rw [List.length_append]
    omega
  rw [storeAt, if_pos hle, writeAt, List.take_left, List.drop_append, List.drop_eq_nil_of_le (by omega),
    List.nil_append, Nat.add_sub_cancel_left]

/-- The first byte of a line: its two digits at the start of `tmesg`. -/
theorem hexdLoop_first (size i : Nat) (b : UInt8) (bs : List UInt8) (tmesg : List Char)
    (out : List (List Char)) (hroom : 3 ≤ tmesg.length) :
    hexdLoop size (b :: bs) i tmesg 0 out =
      if (i + 1) % 16 = 0 ∨ i + 1 = size then
        hexdLoop size bs (i + 1) (fmtHex02 b ++ '\x00' :: tmesg.drop 3) 0 (out ++ [fmtHex02 b])
      else hexdLoop size bs (i + 1) (fmtHex02 b ++ '\x00' :: tmesg.drop 3) 2 out := by
  have hstore := storeAt_append [] tmesg (fmtHex02 b ++ ['\x00']) (by simpa using hroom)
  simp only [List.nil_append, List.length_nil, List.length_append, length_fmtHex02,
    List.length_singleton] at hstore
  simp only [hexdLoop, ne_eq, not_true_eq_false, if_false, Option.bind_eq_bind,
    Option.bind_some, hstore, List.append_assoc, List.singleton_append, Nat.zero_add]
  rw [cstr_append_nul _ (nul_not_mem_fmtHex02 b)]

/-- A byte after the first of a line: a space and its two digits behind the line. -/
theorem hexdLoop_next (size i : Nat) (b : UInt8) (bs : List UInt8) (line tail : List Char)
    (out : List (List Char)) (hline : line ≠ []) (hnul : '\x00' ∉ line) (hroom : 4 ≤ tail.length) :
    hexdLoop size (b :: bs) i (line ++ tail) line.length out =
      if (i + 1) % 16 = 0 ∨ i + 1 = size then
        hexdLoop size bs (i + 1) ((line ++ ' ' :: fmtHex02 b) ++ '\x00' :: tail.drop 4) 0
          (out ++ [line ++ ' ' :: fmtHex02 b])
      else hexdLoop size bs (i + 1) ((line ++ ' ' :: fmtHex02 b) ++ '\x00' :: tail.drop 4)
          (line ++ ' ' :: fmtHex02 b).length out := by
  have hpos : line.length ≠ 0 := by simpa using hline
  have hspace : storeAt (line ++ tail) line.length [' '] = some (line ++ ' ' :: tail.drop 1) := by
    rw [storeAt_append line tail [' '] (by simp; omega)]
    simp
  have hdigits : storeAt (line ++ ' ' :: tail.drop 1) (line.length + 1) (fmtHex02 b ++ ['\x00']) =
      some ((line ++ ' ' :: fmtHex02 b) ++ '\x00' :: tail.drop 4) := by
    have h := storeAt_append (line ++ [' ']) (tail.drop 1) (fmtHex02 b ++ ['\x00']) (by simp; omega)
    simp only [List.length_append, List.length_singleton, length_fmtHex02, List.drop_drop] at h
    simpa using h
  have hnul' : '\x00' ∉ line ++ ' ' :: fmtHex02 b := by
    simp only [List.mem_append, List.mem_cons, not_or]
    exact ⟨hnul, by decide, nul_not_mem_fmtHex02 b⟩
  have hlen : (line ++ ' ' :: fmtHex02 b).length = line.length + 1 + 2 := by simp
  simp only [hexdLoop, ne_eq, hpos, not_false_eq_true, if_true, Option.bind_eq_bind,
    Option.bind_some, hspace, hdigits]
  rw [cstr_append_nul _ hnul', hlen]

/-- The bytes up to the next flush, behind a line already started: each adds a space and its two
digits, and the line goes out at the last of them. -/
theorem hexdLoop_segment (size : Nat) (seg rest : List UInt8) (i : Nat) (line tail : List Char)
    (out : List (List Char)) (hline : line ≠ []) (hnul : '\x00' ∉ line) (hseg : seg ≠ [])
    (hgo : ∀ k, k + 1 < seg.length → ¬((i + k + 1) % 16 = 0 ∨ i + k + 1 = size))
    (hstop : (i + seg.length) % 16 = 0 ∨ i + seg.length = size)
    (hroom : 3 * seg.length + 1 ≤ tail.length) :
    ∃ buf : List Char, buf.length = line.length + tail.length ∧
      hexdLoop size (seg ++ rest) i (line ++ tail) line.length out =
        hexdLoop size rest (i + seg.length) buf 0
          (out ++ [line ++ seg.flatMap fun b => ' ' :: fmtHex02 b]) := by
  induction seg generalizing i line tail with
  | nil => exact absurd rfl hseg
  | cons b seg ih =>
    rw [List.cons_append, hexdLoop_next size i b (seg ++ rest) line tail out hline hnul
      (by simp at hroom; omega)]
    cases seg with
    | nil =>
      -- the last byte of the run: the line goes out
      rw [if_pos (by simpa using hstop)]
      refine ⟨_, ?_, rfl⟩
      simp at hroom ⊢
      omega
    | cons c seg =>
      have hgo0 : ¬((i + 1) % 16 = 0 ∨ i + 1 = size) := by
        simpa using hgo 0 (by simp)
      have hnul' : '\x00' ∉ line ++ ' ' :: fmtHex02 b := by
        simp only [List.mem_append, List.mem_cons, not_or]
        exact ⟨hnul, by decide, nul_not_mem_fmtHex02 b⟩
      rw [if_neg hgo0]
      obtain ⟨buf, hbuf, heq⟩ := ih (i + 1) (line ++ ' ' :: fmtHex02 b) ('\x00' :: tail.drop 4)
        (by simp) hnul' (by simp)
        (fun k hk => by simpa [Nat.add_assoc, Nat.add_comm 1] using hgo (k + 1) (by simp at hk ⊢; omega))
        (by simpa [Nat.add_assoc, Nat.add_comm 1] using hstop)
        (by simp at hroom ⊢; omega)
      refine ⟨buf, by rw [hbuf]; simp at hroom ⊢; omega, ?_⟩
      rw [heq]
      simp [Nat.add_assoc, Nat.add_comm 1]

/-- From the start of a line at a multiple of 16, the rest of the bytes go out in rows. -/
theorem hexdLoop_rows (size : Nat) : ∀ (n : Nat) (bs : List UInt8) (i : Nat) (tmesg : List Char)
    (out : List (List Char)), bs.length = n → i % 16 = 0 → size = i + bs.length →
      48 ≤ tmesg.length → hexdLoop size bs i tmesg 0 out = some (out ++ hexRows bs) := by
  intro n
  induction n using Nat.strong_induction_on with
  | _ n ih =>
    intro bs i tmesg out hn hi hsize hroom
    cases bs with
    | nil => simp [hexdLoop, hexRows_nil]
    | cons b bs =>
      rw [hexdLoop_first size i b bs tmesg out (by omega), hexRows_of_ne_nil (List.cons_ne_nil b bs)]
      by_cases hone : bs = []
      · -- a last row of one byte
        subst hone
        rw [if_pos (.inr (by simpa using hsize.symm))]
        simp [hexdLoop, hexLine, hexRows_nil]
      · have hgo0 : ¬((i + 1) % 16 = 0 ∨ i + 1 = size) := by
          have := List.length_pos_of_ne_nil hone
          simp at hsize
          omega
        rw [if_neg hgo0]
        -- the rest of the row behind its first byte, then the rows after it
        have hsplit : bs = bs.take 15 ++ bs.drop 15 := (List.take_append_drop 15 bs).symm
        obtain ⟨buf, hbuf, heq⟩ := hexdLoop_segment size (bs.take 15) (bs.drop 15) (i + 1)
          (fmtHex02 b) ('\x00' :: tmesg.drop 3) out (by simp [fmtHex02]) (nul_not_mem_fmtHex02 b)
          (by simpa using hone)
          (fun k hk => by simp at hk hsize; omega) (by simp at hsize ⊢; omega) (by simp; omega)
        simp only [length_fmtHex02] at heq
        rw [← hsplit] at heq
        rw [heq]
        have hrow : (b :: bs).take 16 = b :: bs.take 15 := rfl
        have hrest : (b :: bs).drop 16 = bs.drop 15 := rfl
        rw [hrow, hrest, hexLine_cons]
        by_cases hnil : bs.drop 15 = []
        · rw [hnil, hexRows_nil]
          simp [hexdLoop]
        · have hlong : 15 < bs.length := by
            by_contra hle
            exact hnil (List.drop_eq_nil_of_le (by omega))
          rw [ih (bs.drop 15).length (by rw [List.length_drop]; simp at hn; omega) (bs.drop 15) _ buf _ rfl
            (by simp; omega) (by simp at hsize ⊢; omega) (by simp at hbuf; omega)]
          simp

/-- For every message with `0 < strlen(m) < USERMESG` in `tmesg` and every buffer, `tst_resm_hexd_`
stores nothing past the end of `tmesg` and hands over the message with the bytes behind it when
at most 16 bytes fit, and otherwise the message and then the rows of 16 bytes. -/
theorem tst_resm_hexd_layout (tmesg : List Char) (bs : List UInt8) (hlen : tmesg.length = usermesg)
    (hm : 0 < (cstr tmesg).length) (hm' : (cstr tmesg).length < usermesg) :
    tstResmHexd tmesg bs = some (hexdLayout (cstr tmesg) bs) := by
  have htmesg := eq_cstr_append_nul (s := tmesg) (by omega)
  have hnul : '\x00' ∉ cstr tmesg := fun h => (mem_cstr h).2 rfl
  rw [tstResmHexd, hexdLayout]
  -- `tmesg` is the message, its `'\0'`, and the rest of the array
  generalize cstr tmesg = m at *
  generalize tmesg.drop (m.length + 1) = t at htmesg
  subst htmesg
  by_cases hfit : 0 < bs.length ∧ bs.length ≤ 16 ∧ m.length + 3 * bs.length < usermesg
  · -- the bytes go behind the message, and the message goes out once, with them
    rw [if_neg (by rw [usermesg] at hfit ⊢; omega), if_pos hfit]
    obtain ⟨b, bs', rfl⟩ := List.exists_cons_of_ne_nil (List.ne_nil_of_length_pos hfit.1)
    have hroom : 3 * (b :: bs').length + 1 ≤ ('\x00' :: t).length := by
      simp only [List.length_cons, List.length_append] at hfit hlen ⊢
      rw [usermesg] at hfit hlen
      omega
    obtain ⟨buf, -, heq⟩ := hexdLoop_segment (b :: bs').length (b :: bs') [] 0 m ('\x00' :: t) []
      (List.ne_nil_of_length_pos hm) hnul (List.cons_ne_nil b bs')
      (fun k hk => by simp only [List.length_cons] at hk hfit ⊢; omega) (.inr (Nat.zero_add _)) hroom
    rw [List.append_nil] at heq
    rw [heq, hexLine_cons]
    simp [hexdLoop]
  · -- the message alone, then the rows
    rw [if_pos (by rw [usermesg] at hfit ⊢; omega), if_neg hfit]
    rw [hexdLoop_rows bs.length bs.length bs 0 _ [m] rfl rfl (Nat.zero_add _).symm
      (by rw [hlen, usermesg]; omega)]
    rfl

/-- The message `dump1` of `tst_res_hexd.c` with two bytes: they fit behind it. -/
theorem tst_resm_hexd_layout_dump1 :
    tstResmHexd (['d', 'u', 'm', 'p', '1'] ++ '\x00' :: List.replicate 2042 'x') [0x48, 0x65] =
      some (hexdLayout (cstr (['d', 'u', 'm', 'p', '1'] ++ '\x00' :: List.replicate 2042 'x'))
        [0x48, 0x65]) :=
  tst_resm_hexd_layout _ _ (by simp only [List.length_append, List.length_cons, List.length_replicate, List.length_nil]; rfl)
    (by rw [cstr_append_nul _ (by decide)]; decide) (by rw [cstr_append_nul _ (by decide)]; decide)

example : hexdLayout ['d', 'u', 'm', 'p', '1'] [0x48, 0x65] =
    [['d', 'u', 'm', 'p', '1', ' ', '4', '8', ' ', '6', '5']] := by decide

end Ltp
