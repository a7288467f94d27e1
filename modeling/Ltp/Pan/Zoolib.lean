import Ltp.Library.CText

/-!
# The zoo file (`zoolib.c`)

A zoo is a text file recording which test tags run at the moment: 80 characters per line ending
with a newline, `pid,tag,cmdline` on an active line, `#` at the start of an available one.
`zoo_mark_cmdline` formats an entry and `zoo_mark` writes it over the first available line, padded
or truncated to that line's own width, or appends it in 79 columns; `zoo_clear` writes `#` over the
first byte of the first active line of a pid; `zoo_getpid` returns the pid of the first active line
whose text after the first `,` starts with the tag.

The file is its bytes, and each call runs its C loop over `fgets` and `fwriteAt`, on a stream whose
locks and seeks succeed.  Above the bytes a file of well-formed lines is a list of `Slot`s, and each
call acts on that list: first fit for `zoo_mark`, freeing for `zoo_clear`, a first match for
`zoo_getpid` (`zooMarkCmdline_render`, `zooClear_render`, `zooGetpid_render`).  From these:

* `zooRun_laws`: along any run from an empty file whose tags and command lines hold no newline,
  every line is 80 bytes with its one newline at the end; the pids of the active lines are the
  marked pids less those of the `zoo_clear` calls that returned `0`; and a `zoo_clear` returns `1`,
  leaving the file as it is, exactly when no active line has its pid.
* `zoo_getpid_tag_prefix`: `zoo_getpid` compares only the first `strlen(tag)` bytes after the comma,
  so a tag finds the line of any longer tag that it begins.
-/

namespace Ltp

open CText

/-- `BUFLEN`, the size of the line buffers. -/
def bufLen : Nat := 81

/-- The zoo: the bytes of the file and the global `zoo_error`. -/
structure Zoo where
  file : List Char
  zooError : List Char
  deriving DecidableEq, Repr

/-- An empty zoo file, before any error. -/
def emptyZoo : Zoo := ⟨[], []⟩

/-- The entry of `zoo_mark_cmdline`: `snprintf(new_entry, 80, "%d,%s,%s", p, tag, cmdline)`. -/
def zooEntry (p : Int32) (tag cmdline : List Char) : List Char :=
  (fmtInt p.toInt ++ ',' :: cstr tag ++ ',' :: cstr cmdline).take 79

/-- The first-fit loop of `zoo_mark` from file offset `pos`.  Each pass reads at least one byte, so
`fuel` passes beyond the file's length are never needed. -/
def zooMarkLoop (f entry : List Char) : (fuel pos : Nat) → List Char
  | 0, _ => f
  | fuel + 1, pos =>
    match fgets f bufLen pos with
    | none => fwriteAt f f.length (fmtStrLeft 79 entry ++ ['\n'])
    | some buf =>
      if buf.head? = some '#' then
        -- left justified, and padded or truncated to the size of the previous entry
        fwriteAt f pos (fmtStrLeft ((cstr buf).length - 1) entry ++ ['\n'])
      else zooMarkLoop f entry fuel (pos + buf.length)

/-- `zoo_mark(z, entry)`. -/
def zooMark (z : Zoo) (entry : List Char) : Zoo × Int :=
  ({ z with file := zooMarkLoop z.file entry (z.file.length + 1) 0 }, 0)

/-- `zoo_mark_cmdline(z, p, tag, cmdline)`. -/
def zooMarkCmdline (z : Zoo) (p : Int32) (tag cmdline : List Char) : Zoo × Int :=
  zooMark z (zooEntry p tag cmdline)

/-- The search loop of `zoo_clear`: the offset of the first active line of `p`. -/
def zooClearLoop (f : List Char) (p : Int32) : (fuel pos : Nat) → Option Nat
  | 0, _ => none
  | fuel + 1, pos =>
    match fgets f bufLen pos with
    | none => none
    | some buf =>
      if buf.head? = some '#' then zooClearLoop f p fuel (pos + buf.length)
      else if atoi buf = p.toInt then some pos
      else zooClearLoop f p fuel (pos + buf.length)

/-- What `zoo_clear` leaves in `zoo_error` when `p` has no line. -/
def zooClearMessage (p : Int32) : List Char :=
  "zoo_clear() did not find pid(".toList ++ fmtInt p.toInt ++ [')']

/-- `zoo_clear(z, p)`. -/
def zooClear (z : Zoo) (p : Int32) : Zoo × Int :=
  match zooClearLoop z.file p (z.file.length + 1) 0 with
  | some pos => ({ z with file := fwriteAt z.file pos ['#'] }, 0)
  | none => ({ z with zooError := zooClearMessage p }, 1)

/-- The search loop of `zoo_getpid`. -/
def zooGetpidLoop (f tag : List Char) : (fuel pos : Nat) → Int
  | 0, _ => -1
  | fuel + 1, pos =>
    match fgets f bufLen pos with
    | none => -1
    | some buf =>
      if buf.head? = some '#' then zooGetpidLoop f tag fuel (pos + buf.length)
      else
        match strchr buf ',' with
        | none => zooGetpidLoop f tag fuel (pos + buf.length)
        | some s =>
          if strncmpEq s.tail tag (cstr tag).length then atoi buf
          else zooGetpidLoop f tag fuel (pos + buf.length)

/-- `zoo_getpid(z, tag)`. -/
def zooGetpid (z : Zoo) (tag : List Char) : Int :=
  zooGetpidLoop z.file tag (z.file.length + 1) 0

/-- A call on the zoo. -/
inductive ZooCall
  | markCmdline (p : Int32) (tag cmdline : List Char)
  | clear (p : Int32)
  | getpid (tag : List Char)
  deriving DecidableEq, Repr

/-- One call: the zoo after it and what it returns. -/
def zooCall (z : Zoo) : ZooCall → Zoo × Int
  | .markCmdline p tag cmdline => zooMarkCmdline z p tag cmdline
  | .clear p => zooClear z p
  | .getpid tag => (z, zooGetpid z tag)

/-- A sequence of calls: the zoo after them and what each returned. -/
def zooRun (z : Zoo) : List ZooCall → Zoo × List Int
  | [] => (z, [])
  | c :: cs =>
    let r := zooCall z c
    let rest := zooRun r.1 cs
    (rest.1, r.2 :: rest.2)

/-! ### The file as a list of slots -/

/-- A line of the zoo: available (`#` and the rest of its bytes) or an entry. -/
inductive Slot
  | free (rest : List Char)
  | used (p : Int32) (tag cmdline : List Char)
  deriving DecidableEq, Repr

/-- The bytes of a line before its newline. -/
def Slot.body : Slot → List Char
  | .free rest => '#' :: rest
  | .used p tag cmdline => fmtStrLeft 79 (zooEntry p tag cmdline)

/-- The bytes of a line. -/
def Slot.line (s : Slot) : List Char :=
  s.body ++ ['\n']

/-- A line after `zoo_clear` wrote `#` over its first byte. -/
def Slot.clear (s : Slot) : Slot :=
  .free s.body.tail

/-- The text of an entry after the comma that ends its pid: tag, comma and command line in the
columns the pid leaves, and the newline. -/
def Slot.tagText : Slot → List Char
  | .free _ => []
  | .used p tag cmdline =>
    fmtStrLeft (78 - (fmtInt p.toInt).length) (cstr tag ++ ',' :: cstr cmdline) ++ ['\n']

/-- The pid of an active line. -/
def Slot.pid? : Slot → Option Int
  | .free _ => none
  | .used p _ _ => some p.toInt

/-- A well-formed line: 79 bytes before the newline, none of them a newline or a `'\0'`. -/
structure Slot.WF (s : Slot) : Prop where
  length_body : s.body.length = 79
  newline_free : '\n' ∉ s.body
  nul_free : '\x00' ∉ s.body

/-- The bytes of a file of slots. -/
def render (ss : List Slot) : List Char :=
  (ss.map Slot.line).flatten

/-- Marking: the first available slot takes the entry, or a new slot at the end does. -/
def markSlots (e : Slot) : List Slot → List Slot
  | [] => [e]
  | .free _ :: ss => e :: ss
  | .used p t c :: ss => .used p t c :: markSlots e ss

/-- Clearing `p`: its first active slot becomes available, `none` when it has none. -/
def clearSlots (p : Int32) : List Slot → Option (List Slot)
  | [] => none
  | .free r :: ss => (clearSlots p ss).map (.free r :: ·)
  | .used q t c :: ss =>
    if q = p then some ((Slot.used q t c).clear :: ss)
    else (clearSlots p ss).map (.used q t c :: ·)

/-- The pid of the first active slot whose text after the pid's comma starts with `tag`. -/
def getpidSlots (tag : List Char) : List Slot → Int
  | [] => -1
  | .free _ :: ss => getpidSlots tag ss
  | .used p t c :: ss =>
    if cstr tag <+: (Slot.used p t c).tagText then p.toInt else getpidSlots tag ss

/-- The pids of the active slots. -/
def activePids (ss : List Slot) : Multiset Int :=
  ss.filterMap Slot.pid?

/-- A line as the zoo's header describes it: 80 bytes, the last one its only newline. -/
def ZooLine (l : List Char) : Prop :=
  ∃ b, l = b ++ ['\n'] ∧ b.length = 79 ∧ '\n' ∉ b

/-- The pids of the active lines of a file, read as `zoo_clear` reads them. -/
def linePids (ls : List (List Char)) : Multiset Int :=
  (ls.filter fun l => l.head? != some '#').map atoi

/-- What a call adds to the marked pids. -/
def ZooCall.marks : ZooCall → Multiset Int
  | .markCmdline p _ _ => {p.toInt}
  | _ => 0

/-- What a call that returned `ret` adds to the cleared pids. -/
def ZooCall.clears : ZooCall → Int → Multiset Int
  | .clear p, 0 => {p.toInt}
  | _, _ => 0

/-- The pids a sequence of calls marked. -/
def markedPids (calls : List ZooCall) : Multiset Int :=
  (calls.map ZooCall.marks).sum

/-- The pids a sequence of calls cleared, given what each returned. -/
def clearedPids (calls : List ZooCall) (rets : List Int) : Multiset Int :=
  (List.zipWith ZooCall.clears calls rets).sum

/-- The tags and command lines of a call hold no newline. -/
def ZooCall.NoNewline : ZooCall → Prop
  | .markCmdline _ tag cmdline => '\n' ∉ tag ∧ '\n' ∉ cmdline
  | _ => True

/-! ### Lines -/

section Lines

variable {p : Int32} {tag cmdline : List Char}

theorem pid_toInt_bounds (p : Int32) : -2 ^ 31 ≤ p.toInt ∧ p.toInt < 2 ^ 31 :=
  ⟨Int32.le_toInt p, Int32.toInt_lt p⟩

/-- An entry line is its pid, a comma and its tag text. -/
theorem used_line (p : Int32) (tag cmdline : List Char) :
    (Slot.used p tag cmdline).line = fmtInt p.toInt ++ ',' :: (Slot.used p tag cmdline).tagText := by
  obtain ⟨hlo, hhi⟩ := pid_toInt_bounds p
  have hlen := fmtInt_length_le hlo hhi
  have hnul : '\x00' ∉ fmtInt p.toInt ++ [','] := by
    intro h
    rcases List.mem_append.1 h with h | h
    · rcases mem_fmtInt h with h | h <;> revert h <;> decide
    · exact absurd h (by decide)
  have hbody := fmtStrLeft_append (w := 79) (cstr tag ++ ',' :: cstr cmdline) hnul (by simp; omega)
  have hw : 79 - (fmtInt p.toInt ++ [',']).length = 78 - (fmtInt p.toInt).length := by
    simp only [List.length_append, List.length_singleton]; omega
  simp only [List.append_assoc, List.singleton_append, hw] at hbody
  rw [Slot.line, Slot.body, zooEntry, fmtStrLeft_take]
  simp only [List.append_assoc, List.cons_append]
  rw [hbody, Slot.tagText]
  simp

theorem atoi_used_line (p : Int32) (tag cmdline : List Char) :
    atoi (Slot.used p tag cmdline).line = p.toInt := by
  obtain ⟨hlo, hhi⟩ := pid_toInt_bounds p
  rw [used_line]
  exact atoi_fmtInt hlo hhi (by simp [NoDigitHead])

theorem used_wf (hnt : '\n' ∉ tag) (hnc : '\n' ∉ cmdline) : (Slot.used p tag cmdline).WF where
  length_body := fmtStrLeft_length _ _
  newline_free := by
    intro h
    rcases mem_fmtStrLeft h with h | ⟨h, -⟩
    · exact absurd h (by decide)
    · -- a byte of the entry is the pid's, a comma, or the tag's or the command line's
      have h' := List.mem_of_mem_take h
      simp only [List.mem_append, List.mem_cons] at h'
      rcases h' with (h | h | h) | h | h
      · rcases mem_fmtInt h with h | h <;> revert h <;> decide
      · exact absurd h (by decide)
      · exact hnt (mem_cstr h).1
      · exact absurd h (by decide)
      · exact hnc (mem_cstr h).1
  nul_free := fun h => by
    rcases mem_fmtStrLeft h with h | ⟨-, h⟩
    · exact absurd h (by decide)
    · exact h rfl

theorem Slot.WF.clear {s : Slot} (hs : s.WF) : s.clear.WF := by
  obtain ⟨c, b, hcb⟩ := List.exists_cons_of_length_eq_add_one hs.length_body
  have hl := hs.length_body
  have hn := hs.newline_free
  have h0 := hs.nul_free
  rw [hcb] at hl hn h0
  refine ⟨?_, ?_, ?_⟩ <;> simp_all [Slot.clear, Slot.body]

theorem free_head (rest : List Char) : (Slot.free rest).line.head? = some '#' := rfl

theorem used_head (p : Int32) (tag cmdline : List Char) :
    (Slot.used p tag cmdline).line.head? ≠ some '#' := by
  obtain ⟨c, t, h, hc⟩ := fmtInt_head p.toInt
  rw [used_line, h]
  rcases hc with rfl | hc
  · simp
  · intro e
    simp only [List.cons_append, List.head?_cons, Option.some.injEq] at e
    exact absurd (e ▸ hc) (by decide)

theorem Slot.WF.line_length {s : Slot} (hs : s.WF) : s.line.length = 80 := by
  simp [Slot.line, hs.length_body]

theorem Slot.WF.cstr_line {s : Slot} (hs : s.WF) : cstr s.line = s.line :=
  cstr_of_not_mem (by simp [Slot.line, hs.nul_free])

end Lines

/-! ### Reading and writing a file of slots -/

section Render

variable {pre post : List Slot} {s : Slot}

@[simp] theorem render_nil : render [] = [] := rfl

@[simp] theorem render_cons (s : Slot) (ss : List Slot) : render (s :: ss) = s.line ++ render ss := by
  simp [render]

@[simp] theorem render_append (ss ts : List Slot) : render (ss ++ ts) = render ss ++ render ts := by
  simp [render]

theorem render_length {ss : List Slot} (h : ∀ s ∈ ss, s.WF) : (render ss).length = 80 * ss.length := by
  induction ss with
  | nil => rfl
  | cons s ss ih =>
    rw [render_cons, List.length_append, (h s (by simp)).line_length, ih fun t ht => h t (by simp [ht])]
    simp only [List.length_cons]
    ring

/-- `fgets` at the start of a slot reads that slot's line. -/
theorem fgets_render (hs : s.WF) :
    fgets (render (pre ++ s :: post)) bufLen (render pre).length = some s.line := by
  have hdrop : (render (pre ++ s :: post)).drop (render pre).length = s.body ++ '\n' :: render post := by
    simp [Slot.line]
  exact fgets_line hdrop hs.newline_free (by rw [hs.length_body]; decide)

theorem fgets_render_end (ss : List Slot) : fgets (render ss) bufLen (render ss).length = none :=
  fgets_eof le_rfl

/-- The offset after a slot's line is the start of the next slot. -/
theorem next_pos :
    (render pre).length + s.line.length = (render (pre ++ [s])).length := by
  simp

/-- Writing a line over a slot's line. -/
theorem fwriteAt_render {t : Slot} (hs : s.WF) (ht : t.WF) :
    fwriteAt (render (pre ++ s :: post)) (render pre).length t.line = render (pre ++ t :: post) := by
  have h : fwriteAt (render pre ++ s.line ++ render post) (render pre).length t.line =
      render pre ++ t.line ++ render post :=
    fwriteAt_mid (by rw [hs.line_length, ht.line_length])
  simpa using h

/-- Writing `#` over the first byte of a slot's line. -/
theorem fwriteAt_render_clear (hs : s.WF) :
    fwriteAt (render (pre ++ s :: post)) (render pre).length ['#'] = render (pre ++ s.clear :: post) := by
  obtain ⟨c, b, hcb⟩ := List.exists_cons_of_length_eq_add_one hs.length_body
  have hline : s.line = [c] ++ (b ++ ['\n']) := by rw [Slot.line, hcb]; rfl
  have hclear : s.clear.line = ['#'] ++ (b ++ ['\n']) := by rw [Slot.clear, hcb]; rfl
  have h : fwriteAt (render pre ++ [c] ++ (b ++ ['\n'] ++ render post)) (render pre).length ['#'] =
      render pre ++ ['#'] ++ (b ++ ['\n'] ++ render post) :=
    fwriteAt_mid rfl
  simp only [render_append, render_cons, hline, hclear, List.append_assoc] at h ⊢
  exact h

end Render

/-! ### Each call on a file of slots -/

section Calls

variable {p : Int32} {tag cmdline : List Char}

/-- The loop of `zoo_mark`, from the start of the slots `post`, is first fit on them. -/
theorem zooMarkLoop_render (hnt : '\n' ∉ tag) (hnc : '\n' ∉ cmdline) :
    ∀ (post pre : List Slot) (fuel : Nat), (∀ s ∈ pre ++ post, s.WF) → post.length < fuel →
      zooMarkLoop (render (pre ++ post)) (zooEntry p tag cmdline) fuel (render pre).length =
        render (pre ++ markSlots (.used p tag cmdline) post)
  | [], pre, fuel + 1, _, _ => by
    rw [List.append_nil, zooMarkLoop, fgets_render_end, fwriteAt_length]
    simp [markSlots, Slot.line, Slot.body]
  | s :: post, pre, fuel + 1, hwf, hfuel => by
    have hs : s.WF := hwf s (by simp)
    rw [zooMarkLoop, fgets_render hs]
    simp only
    cases s with
    | free rest =>
      -- the available line is overwritten in its own 79 columns
      have hwrite : fwriteAt (render (pre ++ .free rest :: post)) (render pre).length
          (Slot.used p tag cmdline).line = render (pre ++ .used p tag cmdline :: post) :=
        fwriteAt_render hs (used_wf hnt hnc)
      rw [if_pos (free_head rest), hs.cstr_line, hs.line_length, markSlots]
      exact hwrite
    | used q t c =>
      have ih := zooMarkLoop_render hnt hnc post (pre ++ [.used q t c]) fuel (by simpa using hwf)
        (by simpa using hfuel)
      simp only [List.append_assoc, List.singleton_append] at ih
      rw [if_neg (used_head q t c), next_pos, markSlots, ih]

/-- The loop of `zoo_clear`, from the start of the slots `post`, finds the first active slot of
`p`. -/
theorem zooClearLoop_render :
    ∀ (post pre : List Slot) (fuel : Nat), (∀ s ∈ pre ++ post, s.WF) → post.length < fuel →
      (zooClearLoop (render (pre ++ post)) p fuel (render pre).length).map
          (fun pos => fwriteAt (render (pre ++ post)) pos ['#']) =
        (clearSlots p post).map (fun ss => render (pre ++ ss))
  | [], pre, fuel + 1, _, _ => by
    rw [List.append_nil, zooClearLoop, fgets_render_end]
    rfl
  | s :: post, pre, fuel + 1, hwf, hfuel => by
    have hs : s.WF := hwf s (by simp)
    have ih := zooClearLoop_render post (pre ++ [s]) fuel (by simpa using hwf) (by simpa using hfuel)
    simp only [List.append_assoc, List.singleton_append] at ih
    rw [zooClearLoop, fgets_render hs]
    simp only
    cases s with
    | free rest =>
      rw [if_pos (free_head rest), next_pos, ih, clearSlots, Option.map_map]
      rfl
    | used q t c =>
      rw [if_neg (used_head q t c), atoi_used_line, clearSlots]
      by_cases hq : q = p
      · subst hq
        rw [if_pos rfl, if_pos rfl, Option.map_some, Option.map_some, fwriteAt_render_clear hs]
      · have hne : q.toInt ≠ p.toInt := fun e => hq (Int32.toInt_inj.1 e)
        rw [if_neg hne, if_neg hq, next_pos, ih, Option.map_map]
        rfl

/-- The loop of `zoo_getpid`, from the start of the slots `post`, is a first match on them. -/
theorem zooGetpidLoop_render :
    ∀ (post pre : List Slot) (fuel : Nat), (∀ s ∈ pre ++ post, s.WF) → post.length < fuel →
      zooGetpidLoop (render (pre ++ post)) tag fuel (render pre).length = getpidSlots tag post
  | [], pre, fuel + 1, _, _ => by
    rw [List.append_nil, zooGetpidLoop, fgets_render_end]
    rfl
  | s :: post, pre, fuel + 1, hwf, hfuel => by
    have hs : s.WF := hwf s (by simp)
    have ih := zooGetpidLoop_render post (pre ++ [s]) fuel (by simpa using hwf) (by simpa using hfuel)
    simp only [List.append_assoc, List.singleton_append] at ih
    rw [zooGetpidLoop, fgets_render hs]
    simp only
    cases s with
    | free rest => rw [if_pos (free_head rest), next_pos, ih, getpidSlots]
    | used q t c =>
      -- the first comma of an entry line ends its pid
      have hcomma : strchr (Slot.used q t c).line ',' = some (',' :: (Slot.used q t c).tagText) := by
        rw [used_line]
        refine strchr_append (fun h => ?_) (fun h => ?_)
        · rcases mem_fmtInt h with h | h <;> revert h <;> decide
        · rcases mem_fmtInt h with h | h <;> revert h <;> decide
      have hnul : cstr (Slot.used q t c).tagText = (Slot.used q t c).tagText := by
        have h := hs.cstr_line
        rw [used_line, cstr_append _ (by
          intro h; rcases mem_fmtInt h with h | h <;> revert h <;> decide)] at h
        simpa [cstr] using h
      have hmatch : strncmpEq (Slot.used q t c).tagText tag (cstr tag).length = true ↔
          cstr tag <+: (Slot.used q t c).tagText := by
        rw [strncmpEq_length_iff, hnul]
      rw [if_neg (used_head q t c), hcomma, getpidSlots, atoi_used_line, next_pos, ih]
      simp only [List.tail_cons, hmatch]

/-- A file of slots, and what the zoo's calls do on it. -/
def ZooHolds (z : Zoo) (ss : List Slot) : Prop :=
  z.file = render ss ∧ ∀ s ∈ ss, s.WF

theorem fuel_ok {z : Zoo} {ss : List Slot} (h : ZooHolds z ss) : ss.length < z.file.length + 1 := by
  rw [h.1, render_length h.2]
  omega

theorem zooMarkCmdline_render {z : Zoo} {ss : List Slot} (h : ZooHolds z ss)
    (hnt : '\n' ∉ tag) (hnc : '\n' ∉ cmdline) :
    zooMarkCmdline z p tag cmdline =
      ({ z with file := render (markSlots (.used p tag cmdline) ss) }, 0) := by
  have hloop := zooMarkLoop_render (p := p) hnt hnc ss [] (z.file.length + 1) (by simpa using h.2)
    (fuel_ok h)
  simp only [List.nil_append, render_nil, List.length_nil] at hloop
  rw [← h.1] at hloop
  rw [zooMarkCmdline, zooMark, hloop]

theorem zooClear_render {z : Zoo} {ss : List Slot} (h : ZooHolds z ss) :
    zooClear z p = match clearSlots p ss with
      | some ss' => ({ z with file := render ss' }, 0)
      | none => ({ z with zooError := zooClearMessage p }, 1) := by
  have hloop := zooClearLoop_render (p := p) ss [] (z.file.length + 1) (by simpa using h.2) (fuel_ok h)
  simp only [List.nil_append, render_nil, List.length_nil] at hloop
  rw [← h.1] at hloop
  unfold zooClear
  cases hc : clearSlots p ss with
  | none =>
    rw [hc, Option.map_none, Option.map_eq_none_iff] at hloop
    rw [hloop]
  | some ss' =>
    rw [hc, Option.map_some, Option.map_eq_some_iff] at hloop
    obtain ⟨pos, hpos, hfile⟩ := hloop
    simp only [hpos, hfile]

theorem zooGetpid_render {z : Zoo} {ss : List Slot} (h : ZooHolds z ss) :
    zooGetpid z tag = getpidSlots tag ss := by
  have hloop : zooGetpidLoop (render ([] ++ ss)) tag (z.file.length + 1) (render []).length =
      getpidSlots tag ss :=
    zooGetpidLoop_render ss [] (z.file.length + 1) (by simpa using h.2) (fuel_ok h)
  simp only [List.nil_append, render_nil, List.length_nil] at hloop
  rw [← h.1] at hloop
  rw [zooGetpid, hloop]

end Calls

/-! ### The pids of the active lines -/

section Pids

variable {p : Int32}

@[simp] theorem activePids_nil : activePids [] = 0 := rfl

@[simp] theorem activePids_free (r : List Char) (ss : List Slot) :
    activePids (.free r :: ss) = activePids ss := rfl

@[simp] theorem activePids_used (q : Int32) (t c : List Char) (ss : List Slot) :
    activePids (.used q t c :: ss) = q.toInt ::ₘ activePids ss := rfl

@[simp] theorem activePids_clear (s : Slot) (ss : List Slot) :
    activePids (s.clear :: ss) = activePids ss := rfl

theorem activePids_markSlots (q : Int32) (t c : List Char) :
    ∀ ss, activePids (markSlots (.used q t c) ss) = q.toInt ::ₘ activePids ss
  | [] => rfl
  | .free _ :: _ => rfl
  | .used r t' c' :: ss => by
    rw [markSlots, activePids_used, activePids_markSlots q t c ss, activePids_used,
      Multiset.cons_swap]

theorem markSlots_wf {e : Slot} (he : e.WF) :
    ∀ {ss : List Slot}, (∀ s ∈ ss, s.WF) → ∀ s ∈ markSlots e ss, s.WF
  | [], _ => by simpa [markSlots] using he
  | .free _ :: ss, h => by
    intro s hs
    rcases List.mem_cons.1 hs with rfl | hs
    · exact he
    · exact h s (List.mem_cons_of_mem _ hs)
  | .used q t c :: ss, h => by
    intro s hs
    rcases List.mem_cons.1 hs with rfl | hs
    · exact h _ List.mem_cons_self
    · exact markSlots_wf he (fun s' hs' => h s' (List.mem_cons_of_mem _ hs')) s hs

theorem clearSlots_eq_none_iff : ∀ {ss : List Slot}, clearSlots p ss = none ↔ p.toInt ∉ activePids ss
  | [] => by simp [clearSlots]
  | .free r :: ss => by
    rw [clearSlots, Option.map_eq_none_iff, activePids_free, clearSlots_eq_none_iff]
  | .used q t c :: ss => by
    rw [clearSlots, activePids_used, Multiset.mem_cons]
    by_cases hq : q = p
    · subst hq
      simp
    · have hne : p.toInt ≠ q.toInt := fun e => hq (Int32.toInt_inj.1 e).symm
      rw [if_neg hq, Option.map_eq_none_iff, clearSlots_eq_none_iff]
      simp [hne]

/-- Clearing takes one occurrence of `p` out of the active pids and keeps the slots well formed. -/
theorem clearSlots_eq_some :
    ∀ {ss ss' : List Slot}, (∀ s ∈ ss, s.WF) → clearSlots p ss = some ss' →
      activePids ss' = (activePids ss).erase p.toInt ∧ ∀ s ∈ ss', s.WF
  | [], _, _, h => by simp [clearSlots] at h
  | .free r :: ss, ss', hwf, h => by
    rw [clearSlots, Option.map_eq_some_iff] at h
    obtain ⟨ts, hts, rfl⟩ := h
    obtain ⟨hpids, hwf'⟩ := clearSlots_eq_some (fun s hs => hwf s (List.mem_cons_of_mem _ hs)) hts
    refine ⟨by rw [activePids_free, activePids_free, hpids], ?_⟩
    intro s hs
    rcases List.mem_cons.1 hs with rfl | hs
    · exact hwf _ List.mem_cons_self
    · exact hwf' s hs
  | .used q t c :: ss, ss', hwf, h => by
    rw [clearSlots] at h
    by_cases hq : q = p
    · -- the first active slot of `p` is the one freed
      subst hq
      rw [if_pos rfl, Option.some.injEq] at h
      subst h
      refine ⟨by simp, ?_⟩
      intro s hs
      rcases List.mem_cons.1 hs with rfl | hs
      · exact (hwf _ List.mem_cons_self).clear
      · exact hwf s (List.mem_cons_of_mem _ hs)
    · rw [if_neg hq, Option.map_eq_some_iff] at h
      obtain ⟨ts, hts, rfl⟩ := h
      obtain ⟨hpids, hwf'⟩ := clearSlots_eq_some (fun s hs => hwf s (List.mem_cons_of_mem _ hs)) hts
      have hne : q.toInt ≠ p.toInt := fun e => hq (Int32.toInt_inj.1 e)
      refine ⟨by rw [activePids_used, activePids_used, hpids, Multiset.erase_cons_tail _ hne], ?_⟩
      intro s hs
      rcases List.mem_cons.1 hs with rfl | hs
      · exact hwf _ List.mem_cons_self
      · exact hwf' s hs

/-- The active lines of a file of slots are its active slots. -/
theorem linePids_render : ∀ ss : List Slot, linePids (ss.map Slot.line) = activePids ss
  | [] => rfl
  | .free r :: ss => by
    have h := linePids_render ss
    simp only [linePids, List.map_cons, List.filter_cons, free_head] at h ⊢
    simpa using h
  | .used q t c :: ss => by
    have h := linePids_render ss
    have hhead : ((Slot.used q t c).line.head? != some '#') = true := by
      simpa using used_head q t c
    simp only [linePids, List.map_cons, List.filter_cons, hhead, if_true, List.map_cons,
      atoi_used_line] at h ⊢
    rw [activePids_used, ← h]
    rfl

theorem Slot.WF.zooLine {s : Slot} (hs : s.WF) : ZooLine s.line :=
  ⟨s.body, rfl, hs.length_body, hs.newline_free⟩

end Pids

/-! ### The lines of other pids

A call on a pid outside a set `B` leaves the active lines of the pids of `B` as they were, byte for
byte and in file order: marking fills an available line or appends one, and clearing frees a line
of its own pid. -/

section Kept

variable {B : Multiset Int} {p q : Int32} {t c : List Char}

/-- The active lines of a file: those that do not start with `#`. -/
def activeLines (ls : List (List Char)) : List (List Char) :=
  ls.filter fun l => l.head? != some '#'

/-- The active lines whose pid, read as `zoo_clear` reads it, is one of `B`. -/
def keptLines (B : Multiset Int) (ls : List (List Char)) : List (List Char) :=
  (activeLines ls).filter fun l => decide (atoi l ∈ B)

theorem linePids_eq_map_activeLines (ls : List (List Char)) :
    linePids ls = ((activeLines ls).map atoi : List Int) :=
  rfl

@[simp] theorem keptLines_nil : keptLines B [] = [] := rfl

@[simp] theorem keptLines_free (r : List Char) (ls : List (List Char)) :
    keptLines B ((Slot.free r).line :: ls) = keptLines B ls := by
  simp [keptLines, activeLines, free_head]

theorem keptLines_used (ls : List (List Char)) :
    keptLines B ((Slot.used q t c).line :: ls) =
      if q.toInt ∈ B then (Slot.used q t c).line :: keptLines B ls else keptLines B ls := by
  have hhead : ((Slot.used q t c).line.head? != some '#') = true := by simpa using used_head q t c
  simp only [keptLines, activeLines, List.filter_cons, hhead, if_true, atoi_used_line]
  split <;> simp_all

theorem keptLines_used_of_not_mem (hq : q.toInt ∉ B) (ls : List (List Char)) :
    keptLines B ((Slot.used q t c).line :: ls) = keptLines B ls := by
  rw [keptLines_used, if_neg hq]

/-- Marking a pid outside `B` keeps the lines of `B`. -/
theorem keptLines_markSlots (hq : q.toInt ∉ B) :
    ∀ ss : List Slot, keptLines B ((markSlots (.used q t c) ss).map Slot.line) =
      keptLines B (ss.map Slot.line)
  | [] => by simp [markSlots, keptLines_used_of_not_mem hq]
  | .free _ :: _ => by simp [markSlots, keptLines_used_of_not_mem hq]
  | .used r t' c' :: ss => by
    simp only [markSlots, List.map_cons, keptLines_used, keptLines_markSlots hq ss]

/-- Clearing a pid outside `B` keeps the lines of `B`. -/
theorem keptLines_clearSlots (hp : p.toInt ∉ B) :
    ∀ {ss ss' : List Slot}, clearSlots p ss = some ss' →
      keptLines B (ss'.map Slot.line) = keptLines B (ss.map Slot.line)
  | [], _, h => by simp [clearSlots] at h
  | .free r :: ss, ss', h => by
    rw [clearSlots, Option.map_eq_some_iff] at h
    obtain ⟨ts, hts, rfl⟩ := h
    simp only [List.map_cons, keptLines_free, keptLines_clearSlots hp hts]
  | .used r t' c' :: ss, ss', h => by
    rw [clearSlots] at h
    by_cases hr : r = p
    · -- the freed line is one of `p`'s, which `B` does not keep
      subst hr
      rw [if_pos rfl, Option.some.injEq] at h
      subst h
      simp only [List.map_cons, Slot.clear, keptLines_free, keptLines_used_of_not_mem hp]
    · rw [if_neg hr, Option.map_eq_some_iff] at h
      obtain ⟨ts, hts, rfl⟩ := h
      simp only [List.map_cons, keptLines_used, keptLines_clearSlots hp hts]

/-- When `B` holds every active pid, its lines are all the active lines. -/
theorem keptLines_eq_activeLines {ls : List (List Char)} (h : ∀ x ∈ linePids ls, x ∈ B) :
    keptLines B ls = activeLines ls := by
  refine List.filter_eq_self.2 fun l hl => ?_
  have hx : atoi l ∈ linePids ls := by
    rw [linePids_eq_map_activeLines]
    exact Multiset.mem_coe.2 (List.mem_map_of_mem hl)
  simpa using h _ hx

/-- A file that starts with a well-formed line is not empty: the line has 80 bytes. -/
theorem render_cons_ne_nil {s : Slot} (hs : s.WF) (ss : List Slot) : render (s :: ss) ≠ [] := by
  intro h
  have hlen := congrArg List.length h
  simp [hs.line_length] at hlen

/-- A file of well-formed lines is read as lines in one way only. -/
theorem lines_eq_of_render_eq :
    ∀ {ss ss' : List Slot}, (∀ s ∈ ss, s.WF) → (∀ s ∈ ss', s.WF) → render ss = render ss' →
      ss.map Slot.line = ss'.map Slot.line
  | [], [], _, _, _ => rfl
  | [], s' :: _, _, hw', h => absurd h.symm (render_cons_ne_nil (hw' s' List.mem_cons_self) _)
  | s :: _, [], hw, _, h => absurd h (render_cons_ne_nil (hw s List.mem_cons_self) _)
  | s :: ss, s' :: ss', hw, hw', h => by
    rw [render_cons, render_cons] at h
    -- both first lines are 80 bytes, so they are the same bytes
    obtain ⟨h₁, h₂⟩ := List.append_inj h (by
      rw [(hw s List.mem_cons_self).line_length, (hw' s' List.mem_cons_self).line_length])
    rw [List.map_cons, List.map_cons, h₁,
      lines_eq_of_render_eq (fun x hx => hw x (List.mem_cons_of_mem _ hx))
        (fun x hx => hw' x (List.mem_cons_of_mem _ hx)) h₂]

end Kept

/-- The zoo is a file of well-formed lines whose active lines of the pids `B` are `K`, in
order. -/
def ZooKept (z : Zoo) (B : Multiset Int) (K : List (List Char)) : Prop :=
  ∃ ss, ZooHolds z ss ∧ keptLines B (ss.map Slot.line) = K

section ZooKept

variable {z : Zoo} {B : Multiset Int} {K : List (List Char)} {p : Int32} {tag cmdline : List Char}

/-- However the file is read as slots, its kept lines are `K`. -/
theorem ZooKept.lines (h : ZooKept z B K) {ss : List Slot} (hz : ZooHolds z ss) :
    keptLines B (ss.map Slot.line) = K := by
  obtain ⟨ss', hz', hk⟩ := h
  rw [lines_eq_of_render_eq hz.2 hz'.2 (hz.1.symm.trans hz'.1), hk]

theorem ZooKept.mark (h : ZooKept z B K) (hp : p.toInt ∉ B) (hnt : '\n' ∉ tag)
    (hnc : '\n' ∉ cmdline) : ZooKept (zooMarkCmdline z p tag cmdline).1 B K := by
  obtain ⟨ss, hz, hk⟩ := h
  rw [zooMarkCmdline_render hz hnt hnc]
  exact ⟨_, ⟨rfl, markSlots_wf (used_wf hnt hnc) hz.2⟩, (keptLines_markSlots hp ss).trans hk⟩

theorem ZooKept.clear (h : ZooKept z B K) (hp : p.toInt ∉ B) : ZooKept (zooClear z p).1 B K := by
  obtain ⟨ss, hz, hk⟩ := h
  rw [zooClear_render hz]
  cases hcl : clearSlots p ss with
  | none => exact ⟨ss, hz, hk⟩
  | some ss' =>
    exact ⟨ss', ⟨rfl, (clearSlots_eq_some hz.2 hcl).2⟩, (keptLines_clearSlots hp hcl).trans hk⟩

/-- A file of slots keeps, for the pids of its active lines, all its active lines. -/
theorem ZooKept.of_holds {ss : List Slot} (hz : ZooHolds z ss) :
    ZooKept z (activePids ss) (activeLines (ss.map Slot.line)) :=
  ⟨ss, hz, keptLines_eq_activeLines fun x hx => by rwa [linePids_render] at hx⟩

end ZooKept

/-! ### Runs -/

section Runs

/-- One call keeps the file a file of slots, and moves a pid between the active pids and the
cleared ones, or adds a marked one. -/
theorem zooCall_holds {z : Zoo} {ss : List Slot} (h : ZooHolds z ss) {c : ZooCall}
    (hc : c.NoNewline) :
    ∃ ss', ZooHolds (zooCall z c).1 ss' ∧
      activePids ss' + c.clears (zooCall z c).2 = activePids ss + c.marks := by
  cases c with
  | markCmdline p t cmd =>
    obtain ⟨hnt, hnc⟩ := hc
    refine ⟨markSlots (.used p t cmd) ss, ?_, ?_⟩
    · rw [zooCall, zooMarkCmdline_render h hnt hnc]
      exact ⟨rfl, markSlots_wf (used_wf hnt hnc) h.2⟩
    · rw [zooCall, zooMarkCmdline_render h hnt hnc, activePids_markSlots]
      simp only [ZooCall.clears, ZooCall.marks, add_zero]
      rw [add_comm, Multiset.singleton_add]
  | clear p =>
    rw [zooCall, zooClear_render h]
    cases hcl : clearSlots p ss with
    | none => exact ⟨ss, h, by simp [ZooCall.clears, ZooCall.marks]⟩
    | some ss' =>
      obtain ⟨hpids, hwf⟩ := clearSlots_eq_some h.2 hcl
      have hmem : p.toInt ∈ activePids ss := by
        by_contra hn
        rw [← clearSlots_eq_none_iff, hcl] at hn
        cases hn
      refine ⟨ss', ⟨rfl, hwf⟩, ?_⟩
      simp only [ZooCall.clears, ZooCall.marks, add_zero, hpids]
      rw [add_comm, Multiset.singleton_add, Multiset.cons_erase hmem]
  | getpid tag => exact ⟨ss, h, by simp [ZooCall.clears, ZooCall.marks]⟩

/-- A run keeps the file a file of slots; its active pids gain the marked pids and lose the
cleared ones. -/
theorem zooRun_holds :
    ∀ (calls : List ZooCall) {z : Zoo} {ss : List Slot}, ZooHolds z ss → (∀ c ∈ calls, c.NoNewline) →
      ∃ ss', ZooHolds (zooRun z calls).1 ss' ∧
        activePids ss' + clearedPids calls (zooRun z calls).2 = activePids ss + markedPids calls
  | [], z, ss, h, _ => ⟨ss, h, by simp [zooRun, clearedPids, markedPids]⟩
  | c :: cs, z, ss, h, hcalls => by
    obtain ⟨ss₁, h₁, hstep⟩ := zooCall_holds h (hcalls c List.mem_cons_self)
    obtain ⟨ss₂, h₂, hrun⟩ := zooRun_holds cs h₁ (fun c hc => hcalls c (List.mem_cons_of_mem _ hc))
    refine ⟨ss₂, h₂, ?_⟩
    have hcl : clearedPids (c :: cs) (zooRun z (c :: cs)).2 =
        c.clears (zooCall z c).2 + clearedPids cs (zooRun (zooCall z c).1 cs).2 := by
      simp [zooRun, clearedPids]
    have hmk : markedPids (c :: cs) = c.marks + markedPids cs := by simp [markedPids]
    rw [hcl, hmk]
    calc activePids ss₂ + (c.clears (zooCall z c).2 + clearedPids cs (zooRun (zooCall z c).1 cs).2)
        = (activePids ss₂ + clearedPids cs (zooRun (zooCall z c).1 cs).2) + c.clears (zooCall z c).2 := by
          abel
      _ = (activePids ss₁ + c.clears (zooCall z c).2) + markedPids cs := by rw [hrun]; abel
      _ = activePids ss + (c.marks + markedPids cs) := by rw [hstep]; abel

/-- The store laws of the zoo along any run from an empty file: lines stay 80 bytes, the active
pids are the marked ones less the cleared ones, and `zoo_clear` fails exactly on a pid without an
active line, leaving the file as it is. -/
theorem zooRun_laws (calls : List ZooCall) (hcalls : ∀ c ∈ calls, c.NoNewline) :
    ∃ ls : List (List Char), (zooRun emptyZoo calls).1.file = ls.flatten ∧ (∀ l ∈ ls, ZooLine l) ∧
      linePids ls + clearedPids calls (zooRun emptyZoo calls).2 = markedPids calls ∧
      ∀ p : Int32, ((zooClear (zooRun emptyZoo calls).1 p).2 = 1 ↔ p.toInt ∉ linePids ls) ∧
        ((zooClear (zooRun emptyZoo calls).1 p).2 = 1 →
          (zooClear (zooRun emptyZoo calls).1 p).1.file = (zooRun emptyZoo calls).1.file) := by
  obtain ⟨ss, h, hpids⟩ := zooRun_holds calls (show ZooHolds emptyZoo [] from ⟨rfl, by simp⟩)
    hcalls
  rw [activePids_nil, zero_add] at hpids
  refine ⟨ss.map Slot.line, h.1, ?_, by rw [linePids_render, hpids], fun p => ?_⟩
  · intro l hl
    obtain ⟨s, hs, rfl⟩ := List.mem_map.1 hl
    exact (h.2 s hs).zooLine
  · rw [zooClear_render h, linePids_render, ← clearSlots_eq_none_iff]
    cases clearSlots p ss with
    | none => simp
    | some ss' => simp

/-- Pan's calls for one child with tag `ab`: it marks the child's line, looks the tag up and
clears the line again. -/
def childCalls : List ZooCall :=
  [.markCmdline 2 "ab".toList "x".toList, .getpid "ab".toList, .clear 2]

theorem zooRun_laws_child :
    ∃ ls : List (List Char), (zooRun emptyZoo childCalls).1.file = ls.flatten ∧
      (∀ l ∈ ls, ZooLine l) ∧
      linePids ls + clearedPids childCalls (zooRun emptyZoo childCalls).2 = markedPids childCalls ∧
      ∀ p : Int32, ((zooClear (zooRun emptyZoo childCalls).1 p).2 = 1 ↔ p.toInt ∉ linePids ls) ∧
        ((zooClear (zooRun emptyZoo childCalls).1 p).2 = 1 →
          (zooClear (zooRun emptyZoo childCalls).1 p).1.file = (zooRun emptyZoo childCalls).1.file) := by
  have h : ∀ c ∈ childCalls, c.NoNewline := by
    simp only [childCalls, List.mem_cons, List.not_mem_nil, or_false]
    rintro c (rfl | rfl | rfl)
    · exact ⟨by decide, by decide⟩
    · trivial
    · trivial
  exact zooRun_laws childCalls h

end Runs

/-! ### Tags are matched by prefix -/

/-- `zoo_getpid` finds the line of a longer tag: after `zoo_mark_cmdline(z, p, tag ++ ext, cmdline)`
on an empty zoo, `zoo_getpid(z, tag)` returns `p`. -/
theorem zoo_getpid_tag_prefix (p : Int32) (tag ext cmdline : List Char) (hnul : '\x00' ∉ tag)
    (hnl : '\n' ∉ tag ++ ext) (hnc : '\n' ∉ cmdline)
    (hfit : (fmtInt p.toInt).length + tag.length ≤ 78) :
    zooRun emptyZoo [.markCmdline p (tag ++ ext) cmdline, .getpid tag] =
      (⟨(Slot.used p (tag ++ ext) cmdline).line, []⟩, [0, p.toInt]) := by
  have h₀ : ZooHolds emptyZoo [] := ⟨rfl, by simp⟩
  have hmark := zooMarkCmdline_render (p := p) h₀ hnl hnc
  have h₁ : ZooHolds ⟨render [.used p (tag ++ ext) cmdline], []⟩ [.used p (tag ++ ext) cmdline] :=
    ⟨rfl, by simpa using used_wf hnl hnc⟩
  -- the tag text starts with the whole of `tag`
  have hprefix : cstr tag <+: (Slot.used p (tag ++ ext) cmdline).tagText := by
    rw [cstr_of_not_mem hnul, Slot.tagText, cstr_append ext hnul, List.append_assoc,
      fmtStrLeft_append _ hnul (by omega)]
    exact List.prefix_append_of_prefix (List.prefix_append _ _)
  have hget : zooGetpid ⟨render [.used p (tag ++ ext) cmdline], []⟩ tag =
      getpidSlots tag [.used p (tag ++ ext) cmdline] :=
    zooGetpid_render h₁
  simp only [markSlots, getpidSlots, if_pos hprefix] at hmark hget
  simp only [zooRun, zooCall, hmark]
  rw [show emptyZoo.zooError = [] from rfl, hget, render_cons, render_nil, List.append_nil]

theorem zoo_getpid_tag_prefix_ab :
    '\x00' ∉ "ab".toList ∧ '\n' ∉ "ab".toList ++ "c".toList ∧ '\n' ∉ "x".toList ∧
      (fmtInt (1 : Int32).toInt).length + "ab".toList.length ≤ 78 ∧
      zooRun emptyZoo [.markCmdline 1 ("ab".toList ++ "c".toList) "x".toList, .getpid "ab".toList] =
        (⟨(Slot.used 1 ("ab".toList ++ "c".toList) "x".toList).line, []⟩, [0, (1 : Int32).toInt]) :=
  ⟨by decide, by decide, by decide, by decide,
    zoo_getpid_tag_prefix 1 "ab".toList "c".toList "x".toList (by decide) (by decide) (by decide)
      (by decide)⟩

end Ltp
