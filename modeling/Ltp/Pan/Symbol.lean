import Ltp.Library.CText
import Ltp.Library.PathMap

/-!
# The symbol table of ltp-pan (`symbol.c`)

A `SYM` is a header with a list of nodes `(key, data)` and a cursor; a node's data is a caller's
pointer or, for a hierarchical key, the header of a nested table.  The headers live in a heap
indexed by allocation order (`newsym` appends one), a handle being an index, so that tables are
shared and mutated exactly as through the C pointers.  `sym_put` and `sym_get` split the key on
commas with `splitstr` and walk the components with the loop `symWalk`; `sym_put` then appends the
missing suffix with `addKeys`, the nested tables first.  Both free the split with `splitstr_free`
on every way out, which aborts for a key that begins with a comma and has a component
(`splitstrFree`): the first token then points inside `splitstr`'s copy of the key.  A key with no
component leaves `nsym` `NULL` on the complete-match branch: `symGet` and `symPut` with
`PUT_REPLACE` return `none` there.
-/

namespace Ltp

open CText

/-- A node's `data`: a caller's pointer, or the handle of a header made by `newsym`. -/
inductive SymData (α : Type) where
  | leaf (d : α)
  | table (t : Nat)
  deriving DecidableEq, Repr

/-- `struct sym` without its `next` link, which is the order of the node list. -/
structure SymNode (α : Type) where
  key : List Char
  data : SymData α
  deriving DecidableEq, Repr

/-- `struct symh` without its constant `magic`; the cursor names a table and a node's index. -/
structure Symh (α : Type) where
  sym : List (SymNode α)
  cursor : Option (Nat × Nat)
  deriving DecidableEq, Repr

/-- The headers made so far, a handle being an index. -/
abbrev SymHeap (α : Type) := List (Symh α)

/-- `PUT_REPLACE`, the flag of `sym_put`. -/
def putReplace : Int := 1

/-- `R_CURSOR`, `R_FIRST` and `R_NEXT`, the flags of `sym_seq`. -/
def rCursor : Int := 1
def rFirst : Int := 2
def rNext : Int := 4

/-- `EEXIST` and `ENOTDIR` of Linux. -/
def eexist : Int := 17
def enotdir : Int := 20

variable {α : Type}

/-- The header at handle `t`. -/
def symh (h : SymHeap α) (t : Nat) : Symh α :=
  h.getD t ⟨[], none⟩

/-- `newsym()`: a fresh empty header. -/
def newsym (h : SymHeap α) : SymHeap α × Nat :=
  (h ++ [⟨[], none⟩], h.length)

/-- `sym_open(flags, mode, openinfo)`, which ignores its arguments. -/
def symOpen (h : SymHeap α) : SymHeap α × Nat :=
  newsym h

/-- `find_key1(sym, key)`: the first node of the list with the key. -/
def findKey1 (sym : List (SymNode α)) (key : List Char) : Option (SymNode α) :=
  sym.find? (·.key == key)

/-- `add_key(sym, key, data)`: a new node at the end of table `t`. -/
def addKey (h : SymHeap α) (t : Nat) (key : List Char) (data : SymData α) : SymHeap α :=
  h.modify t fun s => { s with sym := s.sym ++ [⟨key, data⟩] }

/-- `nsym->data = data` for the node `nsym` that `find_key1` returned for `key`. -/
def setFirstData (key : List Char) (data : SymData α) : List (SymNode α) → List (SymNode α)
  | [] => []
  | n :: ns => if n.key = key then { n with data := data } :: ns else n :: setFirstData key data ns

/-- The same write on table `t` of the heap. -/
def replaceData (h : SymHeap α) (t : Nat) (key : List Char) (data : SymData α) : SymHeap α :=
  h.modify t fun s => { s with sym := setFirstData key data s.sym }

/-- `splitstr(str, separator, NULL)`: the strtok tokens of `str`. -/
def splitstr (str separator : List Char) : List (List Char) :=
  strtokAll separator str

/-- `splitstr_free(keys)` on the result of `splitstr(str, separator, NULL)`: it frees `keys[0]`, the
first token, and so `splitstr`'s copy of `str` only when that token starts the copy.  After
leading separators the first token points inside the copy, and glibc's `free` aborts (`none`);
with no token `keys[0]` is `NULL` and nothing is freed. -/
def splitstrFree (str separator : List Char) : Option Unit :=
  match str with
  | c :: _ => if c ∈ separator ∧ splitstr str separator ≠ [] then none else some ()
  | [] => some ()

/-- How the search loop of `sym_put` and `sym_get` ends. -/
inductive SymWalk (α : Type) where
  /-- `*kk == NULL`: a complete match, with the table and node `nsym` (`NULL` for no component). -/
  | complete (nsym : Option (Nat × SymNode α))
  /-- `find_key1` failed on the first component of `rest` in table `csym`. -/
  | missing (csym : Nat) (rest : List (List Char))
  /-- An intermediate node's data is not a table (`ENOTDIR` for `sym_put`). -/
  | notDir
  deriving DecidableEq, Repr

/-- The loop of `sym_put` and `sym_get` from table `csym` over the components still to match. -/
def symWalk (h : SymHeap α) (csym : Nat) : List (List Char) → SymWalk α
  | [] => .complete none
  | k :: ks =>
    match findKey1 (symh h csym).sym k with
    | none => .missing csym (k :: ks)
    | some n =>
      -- `*++kk == NULL` breaks with `nsym` found; otherwise the node must hold a table
      match ks, n.data with
      | [], _ => .complete (some (csym, n))
      | _ :: _, .table u => symWalk h u ks
      | _ :: _, .leaf _ => .notDir

/-- `sym_get(sym, key)`: `some NULL` as `some none`, and `none` where `splitstr_free` aborts or
where it reads `nsym->data` with `nsym` `NULL`.  Every way out of the search calls
`splitstr_free(keys)` before it returns. -/
def symGet (h : SymHeap α) (sym : Nat) (key : List Char) : Option (Option (SymData α)) := do
  splitstrFree key [',']
  match symWalk h sym (splitstr key [',']) with
  | .complete (some (_, n)) => some (some n.data)
  | .complete none => none
  | .missing _ _ => some none
  | .notDir => some none

/-- The second loop of `sym_put`: a nested table for each component but the last, which gets
`data`; `newsym` runs before `add_key` links the new table. -/
def addKeys (h : SymHeap α) (csym : Nat) (data : SymData α) : List (List Char) → SymHeap α
  | [] => h
  | [k] => addKey h csym k data
  | k :: k' :: ks =>
    let (h', ncsym) := newsym h
    addKeys (addKey h' csym k (.table ncsym)) ncsym data (k' :: ks)

/-- `sym_put(sym, key, data, flags)`: the heap after it and its result, `none` where
`splitstr_free` aborts or where it writes `nsym->data` with `nsym` `NULL`.  Every way out of the
search calls `splitstr_free(keys)`, on the complete match before the write through `nsym`. -/
def symPut (h : SymHeap α) (sym : Nat) (key : List Char) (data : SymData α) (flags : Int) :
    Option (SymHeap α × Int) := do
  splitstrFree key [',']
  match symWalk h sym (splitstr key [',']) with
  | .notDir => some (h, enotdir)
  | .complete nsym =>
    if flags = putReplace then nsym.map fun (t, n) => (replaceData h t n.key data, 0)
    else some (h, eexist)
  | .missing csym rest => some (addKeys h csym data rest, 0)

/-- `sym->cursor = c`. -/
def setCursor (h : SymHeap α) (t : Nat) (c : Option (Nat × Nat)) : SymHeap α :=
  h.modify t fun s => { s with cursor := c }

/-- `sym_seq(sym, key, data, flags)`: the heap, the result and the node whose key and data it
hands back; `key` is the input `key->data` of `R_CURSOR`, whose `sym_get` may fault. -/
def symSeq (h : SymHeap α) (sym : Nat) (key : List Char) (flags : Int) :
    Option (SymHeap α × Int × Option (SymNode α)) :=
  if flags = rCursor then
    match symGet h sym key with
    | none => none
    | some (some (.table u)) =>
      match (symh h u).sym with
      | [] => some (setCursor h sym none, 1, none)
      | n :: _ => some (setCursor h sym (some (u, 0)), 0, some n)
    -- `NULL`, or a leaf whose first word is not `SYM_MAGIC`
    | some _ => some (h, 2, none)
  else if flags = rFirst then
    match (symh h sym).sym with
    | [] => some (setCursor h sym none, 1, none)
    | n :: _ => some (setCursor h sym (some (sym, 0)), 0, some n)
  else if flags = rNext then
    match (symh h sym).cursor with
    | none => some (h, 1, none)
    | some (u, i) =>
      match (symh h u).sym[i + 1]? with
      | none => some (setCursor h sym none, 1, none)
      | some n => some (setCursor h sym (some (u, i + 1)), 0, some n)
  else some (h, -1, none)

/-! ### The heap -/

section Heap

variable {h : SymHeap α}

/-- The keys of table `t`, in list order. -/
def symKeys (h : SymHeap α) (t : Nat) : List (List Char) :=
  (symh h t).sym.map (·.key)

theorem symh_append_of_lt (e : List (Symh α)) {t : Nat} (ht : t < h.length) :
    symh (h ++ e) t = symh h t := by
  simp [symh, List.getD_eq_getElem?_getD, List.getElem?_append_left ht]

theorem symh_newsym_self : symh (newsym h).1 h.length = ⟨[], none⟩ := by
  simp [symh, newsym]

theorem sym_newsym (t : Nat) : (symh (newsym h).1 t).sym = (symh h t).sym := by
  by_cases ht : t < h.length
  · rw [newsym, symh_append_of_lt _ ht]
  · simp only [symh, newsym, List.getD_eq_getElem?_getD]
    rw [List.getElem?_eq_none (by omega : h.length ≤ t)]
    rcases Nat.lt_or_ge t (h.length + 1) with h1 | h1
    · rw [List.getElem?_append_right (by omega), show t - h.length = 0 by omega]
      rfl
    · rw [List.getElem?_eq_none (by simp; omega)]

theorem symh_modify_self (f : Symh α → Symh α) {t : Nat} (ht : t < h.length) :
    symh (h.modify t f) t = f (symh h t) := by
  simp [symh, List.getD_eq_getElem?_getD, List.getElem?_eq_getElem ht]

theorem symh_modify_ne (f : Symh α → Symh α) {t u : Nat} (hne : t ≠ u) :
    symh (h.modify t f) u = symh h u := by
  simp only [symh, List.getD_eq_getElem?_getD, List.getElem?_modify, hne, if_false]
  cases h[u]? <;> rfl

theorem sym_addKey (s t : Nat) (k : List Char) (v : SymData α) :
    (symh (addKey h s k v) t).sym =
      if s = t ∧ t < h.length then (symh h t).sym ++ [⟨k, v⟩] else (symh h t).sym := by
  by_cases hst : s = t
  · subst hst
    by_cases hs : s < h.length
    · simp [addKey, symh_modify_self _ hs, hs]
    · simp only [addKey, hs, and_false, if_false, symh, List.getD_eq_getElem?_getD]
      rw [List.getElem?_eq_none (by simp; omega), List.getElem?_eq_none (by omega)]
  · simp [addKey, symh_modify_ne _ hst, hst]

theorem mem_sym_addKey {s t : Nat} {k : List Char} {v : SymData α} {n : SymNode α}
    (hn : n ∈ (symh (addKey h s k v) t).sym) : n ∈ (symh h t).sym ∨ (s = t ∧ n = ⟨k, v⟩) := by
  rw [sym_addKey] at hn
  split at hn
  · rename_i hst
    simpa [hst.1] using hn
  · exact .inl hn

theorem length_addKey (s : Nat) (k : List Char) (v : SymData α) :
    (addKey h s k v).length = h.length :=
  List.length_modify _ _ _

theorem sym_setCursor (s t : Nat) (c : Option (Nat × Nat)) :
    (symh (setCursor h s c) t).sym = (symh h t).sym := by
  by_cases hst : s = t
  · subst hst
    by_cases hs : s < h.length
    · simp [setCursor, symh_modify_self _ hs]
    · simp only [setCursor, symh, List.getD_eq_getElem?_getD]
      rw [List.getElem?_eq_none (by simp; omega), List.getElem?_eq_none (by omega)]
  · simp [setCursor, symh_modify_ne _ hst]

theorem cursor_setCursor {s : Nat} (c : Option (Nat × Nat)) (hs : s < h.length) :
    (symh (setCursor h s c) s).cursor = c := by
  simp [setCursor, symh_modify_self _ hs]

theorem length_setCursor (s : Nat) (c : Option (Nat × Nat)) : (setCursor h s c).length = h.length :=
  List.length_modify _ _ _

end Heap

/-! ### `find_key1` -/

section FindKey

variable {sym : List (SymNode α)} {k x : List Char} {n : SymNode α}

theorem findKey1_key (hf : findKey1 sym k = some n) : n.key = k := by
  simpa using List.find?_some hf

theorem findKey1_mem (hf : findKey1 sym k = some n) : n ∈ sym :=
  List.mem_of_find?_eq_some hf

theorem findKey1_eq_none_iff : findKey1 sym k = none ↔ k ∉ sym.map (·.key) := by
  simp [findKey1, List.find?_eq_none]

theorem findKey1_append_of_ne (v : SymData α) (hne : x ≠ k) :
    findKey1 (sym ++ [⟨x, v⟩]) k = findKey1 sym k := by
  simp [findKey1, List.find?_append, hne]

theorem findKey1_append_self (v : SymData α) (hk : findKey1 sym k = none) :
    findKey1 (sym ++ [⟨k, v⟩]) k = some ⟨k, v⟩ := by
  simp only [findKey1] at hk ⊢
  simp [List.find?_append, hk]

theorem findKey1_cons (m : SymNode α) (ms : List (SymNode α)) :
    findKey1 (m :: ms) k = if m.key = k then some m else findKey1 ms k := by
  by_cases hm : m.key = k <;> simp [findKey1, hm]

theorem findKey1_setFirstData_of_ne (v : SymData α) (hne : x ≠ k) :
    findKey1 (setFirstData x v sym) k = findKey1 sym k := by
  induction sym with
  | nil => rfl
  | cons m ms ih =>
    by_cases hm : m.key = x
    · -- the written node keeps its key `x`, so the search for `k` passes it as before
      simp only [setFirstData, hm, if_true, findKey1_cons, hne, if_false]
    · simp only [setFirstData, hm, if_false, findKey1_cons, ih]

theorem findKey1_setFirstData_self (v : SymData α) (hf : findKey1 sym k = some n) :
    findKey1 (setFirstData k v sym) k = some { n with data := v } := by
  induction sym with
  | nil => simp [findKey1] at hf
  | cons m ms ih =>
    rw [findKey1_cons] at hf
    by_cases hm : m.key = k
    · simp only [hm, if_true, Option.some.injEq] at hf
      subst hf
      simp [setFirstData, findKey1_cons, hm]
    · simp only [hm, if_false] at hf
      simp only [setFirstData, hm, if_false, findKey1_cons, ih hf]

theorem keys_setFirstData (v : SymData α) :
    (setFirstData x v sym).map (·.key) = sym.map (·.key) := by
  induction sym with
  | nil => rfl
  | cons m ms ih =>
    by_cases hm : m.key = x
    · simp [setFirstData, hm]
    · simp [setFirstData, hm, ih]

theorem mem_setFirstData {v : SymData α} (hn : n ∈ setFirstData x v sym) :
    n ∈ sym ∨ n.data = v := by
  induction sym with
  | nil => simp [setFirstData] at hn
  | cons m ms ih =>
    by_cases hm : m.key = x
    · simp only [setFirstData, hm, if_true, List.mem_cons] at hn
      rcases hn with rfl | hn
      · exact .inr rfl
      · exact .inl (List.mem_cons_of_mem _ hn)
    · simp only [setFirstData, hm, if_false, List.mem_cons] at hn
      rcases hn with rfl | hn
      · exact .inl List.mem_cons_self
      · exact (ih hn).imp (List.mem_cons_of_mem _) id

end FindKey

/-! ### The search loop -/

/-- What `sym_get` returns for the components `q` from table `t`, and `t` itself for none. -/
def symLookup (h : SymHeap α) (t : Nat) (q : List (List Char)) : Option (SymData α) :=
  match symWalk h t q with
  | .complete (some (_, n)) => some n.data
  | .complete none => some (.table t)
  | .missing _ _ => none
  | .notDir => none

/-- The table that the node of key `k` of table `t` holds. -/
def symChild (h : SymHeap α) (t : Nat) (k : List Char) : Option Nat :=
  match findKey1 (symh h t).sym k with
  | some ⟨_, .table u⟩ => some u
  | _ => none

/-- The table reached from `t` through the components `p`, each a node holding a table. -/
def symReach (h : SymHeap α) (t : Nat) : List (List Char) → Option Nat
  | [] => some t
  | k :: p => (symChild h t k).bind fun u => symReach h u p

/-- Some proper prefix of `q`, of one component at least, is bound to a leaf. -/
def LeafAbove (h : SymHeap α) (t : Nat) (q : List (List Char)) : Prop :=
  ∃ a b d, q = a ++ b ∧ a ≠ [] ∧ b ≠ [] ∧ symLookup h t a = some (.leaf d)

section Walk

variable {h : SymHeap α} {s t u : Nat} {k k' : List Char} {ks : List (List Char)} {n : SymNode α}

theorem symWalk_cons_none (hf : findKey1 (symh h t).sym k = none) :
    symWalk h t (k :: ks) = .missing t (k :: ks) := by
  simp [symWalk, hf]

theorem symWalk_single (hf : findKey1 (symh h t).sym k = some n) :
    symWalk h t [k] = .complete (some (t, n)) := by
  simp [symWalk, hf]

theorem symWalk_cons_table (hf : findKey1 (symh h t).sym k = some n) (hn : n.data = .table u) :
    symWalk h t (k :: k' :: ks) = symWalk h u (k' :: ks) := by
  simp [symWalk, hf, hn]

theorem symWalk_cons_leaf {d : α} (hf : findKey1 (symh h t).sym k = some n)
    (hn : n.data = .leaf d) : symWalk h t (k :: k' :: ks) = .notDir := by
  simp [symWalk, hf, hn]

theorem symWalk_ne_complete_none {q : List (List Char)} (hq : q ≠ []) :
    symWalk h t q ≠ .complete none := by
  induction q generalizing t with
  | nil => exact absurd rfl hq
  | cons k ks ih =>
    rcases hf : findKey1 (symh h t).sym k with _ | m
    · simp [symWalk_cons_none hf]
    · rcases ks with _ | ⟨k', ks⟩
      · simp [symWalk_single hf]
      · rcases hm : m.data with d | v
        · simp [symWalk_cons_leaf hf hm]
        · rw [symWalk_cons_table hf hm]
          exact ih (List.cons_ne_nil _ _)

/-- `symLookup` follows the recursion of the loop. -/
theorem symLookup_cons_none (hf : findKey1 (symh h t).sym k = none) :
    symLookup h t (k :: ks) = none := by
  simp [symLookup, symWalk_cons_none hf]

theorem symLookup_single (hf : findKey1 (symh h t).sym k = some n) :
    symLookup h t [k] = some n.data := by
  simp [symLookup, symWalk_single hf]

theorem symLookup_cons_table (hf : findKey1 (symh h t).sym k = some n) (hn : n.data = .table u) :
    symLookup h t (k :: k' :: ks) = symLookup h u (k' :: ks) := by
  have hne := symWalk_ne_complete_none (h := h) (t := u) (List.cons_ne_nil k' ks)
  simp only [symLookup, symWalk_cons_table hf hn]
  rcases hw : symWalk h u (k' :: ks) with (_ | _) | _ | _ <;> simp_all

theorem symLookup_cons_leaf {d : α} (hf : findKey1 (symh h t).sym k = some n)
    (hn : n.data = .leaf d) : symLookup h t (k :: k' :: ks) = none := by
  simp [symLookup, symWalk_cons_leaf hf hn]

theorem symChild_eq_some :
    symChild h t k = some u ↔ ∃ n, findKey1 (symh h t).sym k = some n ∧ n.data = .table u := by
  unfold symChild
  split
  · rename_i n' key u' hf
    simp [hf]
  · rename_i hne
    simp only [reduceCtorEq, false_iff, not_exists, not_and]
    intro n hf hn
    exact hne n.key u (by rw [hf, ← hn])

theorem symReach_cons_eq_some {p : List (List Char)} {v : Nat} :
    symReach h t (k :: p) = some v ↔ ∃ u, symChild h t k = some u ∧ symReach h u p = some v := by
  simp [symReach, Option.bind_eq_some_iff]

theorem symReach_append (p q : List (List Char)) :
    symReach h t (p ++ q) = (symReach h t p).bind fun u => symReach h u q := by
  induction p generalizing t with
  | nil => rfl
  | cons k p ih =>
    simp only [List.cons_append, symReach, ih]
    cases symChild h t k <;> rfl

theorem symReach_concat (p : List (List Char)) (k : List Char) :
    symReach h t (p ++ [k]) = (symReach h t p).bind fun u => symChild h u k := by
  rw [symReach_append]
  congr
  funext u
  simp only [symReach]
  cases symChild h u k <;> rfl

/-- Following a reachable prefix, the loop goes on from the table reached. -/
theorem symWalk_append_of_reach {p : List (List Char)} (hp : symReach h t p = some u)
    (k : List Char) (ks : List (List Char)) : symWalk h t (p ++ k :: ks) = symWalk h u (k :: ks) := by
  induction p generalizing t with
  | nil =>
    simp only [symReach, Option.some.injEq] at hp
    rw [hp, List.nil_append]
  | cons k' p ih =>
    obtain ⟨v, hc, hp'⟩ := symReach_cons_eq_some.1 hp
    obtain ⟨n, hf, hn⟩ := symChild_eq_some.1 hc
    obtain ⟨y, ys, hyy⟩ := List.exists_cons_of_ne_nil (List.append_ne_nil_of_right_ne_nil p
      (List.cons_ne_nil k ks))
    rw [List.cons_append, hyy, symWalk_cons_table hf hn, ← hyy]
    exact ih hp'

/-- A loop that stops at a missing component has reached its table through the components before. -/
theorem symWalk_missing_split {q r : List (List Char)} (hw : symWalk h t q = .missing s r) :
    ∃ p k rest, q = p ++ r ∧ r = k :: rest ∧ symReach h t p = some s ∧
      findKey1 (symh h s).sym k = none := by
  induction q generalizing t with
  | nil => simp [symWalk] at hw
  | cons k ks ih =>
    rcases hf : findKey1 (symh h t).sym k with _ | n
    · rw [symWalk_cons_none hf] at hw
      obtain ⟨rfl, rfl⟩ := SymWalk.missing.inj hw
      exact ⟨[], k, ks, rfl, rfl, rfl, hf⟩
    · rcases ks with _ | ⟨k', ks⟩
      · simp [symWalk_single hf] at hw
      · rcases hn : n.data with d | v
        · simp [symWalk_cons_leaf hf hn] at hw
        · rw [symWalk_cons_table hf hn] at hw
          obtain ⟨p, k'', rest, hq, hr, hp, hk⟩ := ih hw
          refine ⟨k :: p, k'', rest, by rw [hq]; rfl, hr, ?_, hk⟩
          exact symReach_cons_eq_some.2 ⟨v, symChild_eq_some.2 ⟨n, hf, hn⟩, hp⟩

/-- A complete match ends at the node of the last component, in the table reached before it. -/
theorem symWalk_complete_split {q : List (List Char)} (hw : symWalk h t q = .complete (some (s, n))) :
    ∃ p, q = p ++ [n.key] ∧ symReach h t p = some s ∧ findKey1 (symh h s).sym n.key = some n := by
  induction q generalizing t with
  | nil => simp [symWalk] at hw
  | cons k ks ih =>
    rcases hf : findKey1 (symh h t).sym k with _ | m
    · simp [symWalk_cons_none hf] at hw
    · rcases ks with _ | ⟨k', ks⟩
      · rw [symWalk_single hf] at hw
        simp only [SymWalk.complete.injEq, Option.some.injEq, Prod.mk.injEq] at hw
        obtain ⟨rfl, rfl⟩ := hw
        have hk := findKey1_key hf
        exact ⟨[], by rw [hk]; rfl, rfl, hk ▸ hf⟩
      · rcases hm : m.data with d | v
        · simp [symWalk_cons_leaf hf hm] at hw
        · rw [symWalk_cons_table hf hm] at hw
          obtain ⟨p, hq, hp, hk⟩ := ih hw
          refine ⟨k :: p, by rw [hq]; rfl, ?_, hk⟩
          exact symReach_cons_eq_some.2 ⟨v, symChild_eq_some.2 ⟨m, hf, hm⟩, hp⟩

/-- A path that reaches a table looks up that table. -/
theorem symLookup_of_reach {p : List (List Char)} (hp : symReach h t p = some u) :
    symLookup h t p = some (.table u) := by
  induction p generalizing t with
  | nil =>
    simp only [symReach, Option.some.injEq] at hp
    simp [symLookup, symWalk, hp]
  | cons k p ih =>
    obtain ⟨v, hc, hp'⟩ := symReach_cons_eq_some.1 hp
    obtain ⟨n, hf, hn⟩ := symChild_eq_some.1 hc
    rcases p with _ | ⟨k', p⟩
    · simp only [symReach, Option.some.injEq] at hp'
      rw [symLookup_single hf, hn, hp']
    · rw [symLookup_cons_table hf hn]
      exact ih hp'

theorem symWalk_eq_notDir_iff {q : List (List Char)} : symWalk h t q = .notDir ↔ LeafAbove h t q := by
  induction q generalizing t with
  | nil => simp [symWalk, LeafAbove]
  | cons k ks ih =>
    rcases hf : findKey1 (symh h t).sym k with _ | m
    · -- the first component is missing: no prefix of the path is bound
      rw [symWalk_cons_none hf]
      simp only [reduceCtorEq, false_iff]
      rintro ⟨a, b, d, hab, ha, -, hl⟩
      obtain ⟨a', rfl⟩ : ∃ a', a = k :: a' := by
        rcases a with _ | ⟨y, a'⟩
        · exact absurd rfl ha
        · exact ⟨a', by simp at hab; rw [hab.1]⟩
      rcases a' with _ | ⟨k', a'⟩ <;> simp [symLookup_cons_none hf] at hl
    · rcases ks with _ | ⟨k', ks⟩
      · rw [symWalk_single hf]
        simp only [reduceCtorEq, false_iff]
        rintro ⟨a, b, d, hab, ha, hb, -⟩
        have := congrArg List.length hab
        simp only [List.length_cons, List.length_nil, List.length_append] at this
        have ha' := List.length_pos_iff.2 ha
        have hb' := List.length_pos_iff.2 hb
        omega
      · rcases hm : m.data with d | v
        · -- the first node is a leaf with components after it
          rw [symWalk_cons_leaf hf hm]
          simp only [true_iff]
          exact ⟨[k], k' :: ks, d, rfl, List.cons_ne_nil _ _, List.cons_ne_nil _ _,
            by rw [symLookup_single hf, hm]⟩
        · rw [symWalk_cons_table hf hm, ih]
          constructor
          · rintro ⟨a, b, d, hab, ha, hb, hl⟩
            refine ⟨k :: a, b, d, by rw [hab]; rfl, List.cons_ne_nil _ _, hb, ?_⟩
            obtain ⟨y, a', rfl⟩ := List.exists_cons_of_ne_nil ha
            rw [symLookup_cons_table hf hm]
            exact hl
          · rintro ⟨a, b, d, hab, ha, hb, hl⟩
            obtain ⟨y, a', rfl⟩ := List.exists_cons_of_ne_nil ha
            simp only [List.cons_append, List.cons.injEq] at hab
            obtain ⟨rfl, hab⟩ := hab
            rcases a' with _ | ⟨y', a'⟩
            · rw [symLookup_single hf, hm] at hl
              simp at hl
            · rw [symLookup_cons_table hf hm] at hl
              exact ⟨y' :: a', b, d, hab, List.cons_ne_nil _ _, hb, hl⟩

end Walk

/-! ### Frames -/

/-- Every table handle that a node holds is a header already made. -/
def TableLt (h : SymHeap α) : Prop :=
  ∀ t n u, n ∈ (symh h t).sym → n.data = .table u → u < h.length

/-- `h'` answers every `find_key1` on the tables of `h` as `h` does, except perhaps the one for
key `k` in table `s`. -/
def SameBut (h h' : SymHeap α) (s : Nat) (k : List Char) : Prop :=
  ∀ t < h.length, ∀ x, (t = s → x ≠ k) → findKey1 (symh h' t).sym x = findKey1 (symh h t).sym x

/-- No prefix of `q` reaches table `s` from `t` just before a component `k`. -/
def Avoids (h : SymHeap α) (t : Nat) (q : List (List Char)) (s : Nat) (k : List Char) : Prop :=
  ∀ p rest, q = p ++ k :: rest → symReach h t p ≠ some s

section Frame

variable {h h' : SymHeap α} {s t u v : Nat} {k x : List Char} {p q : List (List Char)}

theorem Avoids.head (hq : Avoids h t (x :: q) s k) : t = s → x ≠ k := by
  rintro rfl rfl
  exact hq [] q rfl rfl

theorem Avoids.tail (hq : Avoids h t (x :: q) s k) (hc : symChild h t x = some u) :
    Avoids h u q s k := by
  intro p rest hp hr
  apply hq (x :: p) rest (by rw [hp]; rfl)
  exact symReach_cons_eq_some.2 ⟨u, hc, hr⟩

theorem symReach_lt (hlt : TableLt h) (ht : t < h.length) (hp : symReach h t p = some v) :
    v < h.length := by
  induction p generalizing t with
  | nil =>
    simp only [symReach, Option.some.injEq] at hp
    exact hp ▸ ht
  | cons x p ih =>
    obtain ⟨u, hc, hp'⟩ := symReach_cons_eq_some.1 hp
    obtain ⟨n, hf, hn⟩ := symChild_eq_some.1 hc
    exact ih (hlt t n u (findKey1_mem hf) hn) hp'

theorem symChild_frame (hsame : SameBut h h' s k) (ht : t < h.length) (hx : t = s → x ≠ k) :
    symChild h' t x = symChild h t x := by
  unfold symChild
  rw [hsame t ht x hx]

/-- A walk that never asks `find_key1` for `k` in `s` meets the same nodes in both heaps. -/
theorem symWalk_frame (hlt : TableLt h) (hsame : SameBut h h' s k) (ht : t < h.length)
    (hq : Avoids h t q s k) : symWalk h' t q = symWalk h t q := by
  induction q generalizing t with
  | nil => rfl
  | cons x r ih =>
    have hf' := hsame t ht x hq.head
    rcases hf : findKey1 (symh h t).sym x with _ | n
    · rw [symWalk_cons_none hf, symWalk_cons_none (hf'.trans hf)]
    · rcases r with _ | ⟨y, r⟩
      · rw [symWalk_single hf, symWalk_single (hf'.trans hf)]
      · rcases hn : n.data with d | u
        · rw [symWalk_cons_leaf hf hn, symWalk_cons_leaf (hf'.trans hf) hn]
        · rw [symWalk_cons_table hf hn, symWalk_cons_table (hf'.trans hf) hn]
          exact ih (hlt t n u (findKey1_mem hf) hn)
            (hq.tail (symChild_eq_some.2 ⟨n, hf, hn⟩))

theorem symLookup_frame (hlt : TableLt h) (hsame : SameBut h h' s k) (ht : t < h.length)
    (hq : Avoids h t q s k) : symLookup h' t q = symLookup h t q := by
  unfold symLookup
  rw [symWalk_frame hlt hsame ht hq]

theorem symReach_frame (hlt : TableLt h) (hsame : SameBut h h' s k) (ht : t < h.length)
    (hp : Avoids h t p s k) (hr : symReach h t p = some v) : symReach h' t p = some v := by
  induction p generalizing t with
  | nil => exact hr
  | cons x p ih =>
    obtain ⟨u, hc, hr'⟩ := symReach_cons_eq_some.1 hr
    obtain ⟨n, hf, hn⟩ := symChild_eq_some.1 hc
    refine symReach_cons_eq_some.2 ⟨u, ?_, ?_⟩
    · rw [symChild_frame hsame ht hp.head, hc]
    · exact ih (hlt t n u (findKey1_mem hf) hn) (hp.tail hc) hr'

/-- A path through `k` in `s` cannot reach `s` again where `k` is missing from it. -/
theorem avoids_of_missing (hk : findKey1 (symh h s).sym k = none) (hp : symReach h t p = some v) :
    Avoids h t p s k := by
  rintro p' rest rfl hp'
  rw [symReach_append, hp', Option.bind_some, symReach, Option.bind_eq_some_iff] at hp
  obtain ⟨w, hc, -⟩ := hp
  obtain ⟨n, hf, -⟩ := symChild_eq_some.1 hc
  rw [hk] at hf
  exact absurd hf (by simp)

end Frame

/-! ### The invariant -/

/-- What every `sym_put` of a leaf keeps: table handles of made headers, each table held by one
node at most and the root by none, and distinct keys in every table. -/
structure SymInv (h : SymHeap α) (root : Nat) : Prop where
  root_lt : root < h.length
  table_lt : TableLt h
  ne_root : ∀ t n, n ∈ (symh h t).sym → n.data ≠ .table root
  parent : ∃ par : Nat → Nat × List Char,
    ∀ t n u, n ∈ (symh h t).sym → n.data = .table u → par u = (t, n.key)
  keys_nodup : ∀ t, (symKeys h t).Nodup

section Inv

variable {h : SymHeap α} {root s : Nat} {k : List Char}

/-- The path from the root to a table is unique: the tables form a tree. -/
theorem SymInv.reach_inj (hinv : SymInv h root) {p p' : List (List Char)} {u : Nat}
    (hp : symReach h root p = some u) (hp' : symReach h root p' = some u) : p = p' := by
  obtain ⟨par, hpar⟩ := hinv.parent
  induction p using List.reverseRecOn generalizing p' u with
  | nil =>
    simp only [symReach, Option.some.injEq] at hp
    subst hp
    rcases List.eq_nil_or_concat p' with rfl | ⟨p0', k', rfl⟩
    · rfl
    · -- the last node of `p'` would hold the root
      rw [List.concat_eq_append, symReach_concat, Option.bind_eq_some_iff] at hp'
      obtain ⟨t', -, hc⟩ := hp'
      obtain ⟨n, hf, hn⟩ := symChild_eq_some.1 hc
      exact absurd hn (hinv.ne_root t' n (findKey1_mem hf))
  | append_singleton p0 k ih =>
    rw [symReach_concat, Option.bind_eq_some_iff] at hp
    obtain ⟨t, hp0, hc⟩ := hp
    obtain ⟨n, hf, hn⟩ := symChild_eq_some.1 hc
    rcases List.eq_nil_or_concat p' with rfl | ⟨p0', k', rfl⟩
    · simp only [symReach, Option.some.injEq] at hp'
      subst hp'
      exact absurd hn (hinv.ne_root t n (findKey1_mem hf))
    · rw [List.concat_eq_append, symReach_concat, Option.bind_eq_some_iff] at hp'
      obtain ⟨t', hp0', hc'⟩ := hp'
      obtain ⟨n', hf', hn'⟩ := symChild_eq_some.1 hc'
      -- both last nodes hold `u`, so they are the one node of its parent
      have hsame : (t, k) = (t', k') := by
        rw [← findKey1_key hf, ← findKey1_key hf', ← hpar t n u (findKey1_mem hf) hn,
          hpar t' n' u (findKey1_mem hf') hn']
      obtain ⟨rfl, rfl⟩ := Prod.mk.inj hsame
      rw [ih hp0 hp0', List.concat_eq_append]

theorem SymInv.of_sym_eq {h' : SymHeap α} (hinv : SymInv h root) (hlen : h'.length = h.length)
    (hsym : ∀ t, (symh h' t).sym = (symh h t).sym) : SymInv h' root where
  root_lt := hlen ▸ hinv.root_lt
  table_lt := fun t n u hn hu => hlen ▸ hinv.table_lt t n u (hsym t ▸ hn) hu
  ne_root := fun t n hn => hinv.ne_root t n (hsym t ▸ hn)
  parent := by
    obtain ⟨par, hpar⟩ := hinv.parent
    exact ⟨par, fun t n u hn hu => hpar t n u (hsym t ▸ hn) hu⟩
  keys_nodup := fun t => by
    unfold symKeys
    rw [hsym t]
    exact hinv.keys_nodup t

theorem SymInv.addKey_leaf (hinv : SymInv h root) (hk : findKey1 (symh h s).sym k = none) (d : α) :
    SymInv (addKey h s k (.leaf d)) root where
  root_lt := (length_addKey s k _).symm ▸ hinv.root_lt
  table_lt := by
    intro t n u hn hu
    rw [length_addKey]
    rcases mem_sym_addKey hn with hn | ⟨-, rfl⟩
    · exact hinv.table_lt t n u hn hu
    · simp at hu
  ne_root := by
    intro t n hn
    rcases mem_sym_addKey hn with hn | ⟨-, rfl⟩
    · exact hinv.ne_root t n hn
    · simp
  parent := by
    obtain ⟨par, hpar⟩ := hinv.parent
    refine ⟨par, fun t n u hn hu => ?_⟩
    rcases mem_sym_addKey hn with hn | ⟨-, rfl⟩
    · exact hpar t n u hn hu
    · simp at hu
  keys_nodup := by
    intro t
    unfold symKeys
    rw [sym_addKey]
    split
    · rename_i hst
      obtain ⟨rfl, -⟩ := hst
      rw [List.map_append, List.nodup_append]
      refine ⟨hinv.keys_nodup s, by simp, ?_⟩
      simpa using findKey1_eq_none_iff.1 hk
    · exact hinv.keys_nodup t

/-- One step of the second loop of `sym_put`: a new empty table linked under the new key `k`. -/
theorem SymInv.addKey_newsym (hinv : SymInv h root) (hk : findKey1 (symh h s).sym k = none) :
    SymInv (addKey (newsym h).1 s k (.table h.length)) root := by
  have hlen : (addKey (newsym h).1 s k (.table h.length)).length = h.length + 1 := by
    simp [length_addKey, newsym]
  have hmem : ∀ {t n}, n ∈ (symh (addKey (newsym h).1 s k (.table h.length)) t).sym →
      n ∈ (symh h t).sym ∨ (s = t ∧ n = ⟨k, .table h.length⟩) := by
    intro t n hn
    rw [← sym_newsym]
    exact mem_sym_addKey hn
  refine ⟨hlen ▸ Nat.lt_succ_of_lt hinv.root_lt, ?_, ?_, ?_, ?_⟩
  · intro t n u hn hu
    rw [hlen]
    rcases hmem hn with hn | ⟨-, rfl⟩
    · exact Nat.lt_succ_of_lt (hinv.table_lt t n u hn hu)
    · simp only [SymData.table.injEq] at hu
      omega
  · intro t n hn
    rcases hmem hn with hn | ⟨-, rfl⟩
    · exact hinv.ne_root t n hn
    · simp only [ne_eq, SymData.table.injEq]
      exact Nat.ne_of_gt hinv.root_lt
  · -- the new table's parent is the new node; every older table keeps its own
    obtain ⟨par, hpar⟩ := hinv.parent
    refine ⟨Function.update par h.length (s, k), fun t n u hn hu => ?_⟩
    rcases hmem hn with hn | ⟨rfl, rfl⟩
    · rw [Function.update_of_ne (Nat.ne_of_lt (hinv.table_lt t n u hn hu))]
      exact hpar t n u hn hu
    · simp only [SymData.table.injEq] at hu
      subst hu
      simp
  · intro t
    unfold symKeys
    rw [sym_addKey, sym_newsym]
    split
    · rename_i hst
      obtain ⟨rfl, -⟩ := hst
      rw [List.map_append, List.nodup_append]
      refine ⟨hinv.keys_nodup s, by simp, ?_⟩
      simpa using findKey1_eq_none_iff.1 hk
    · exact hinv.keys_nodup t

theorem SymInv.addKeys_leaf (hinv : SymInv h root) (hs : s < h.length)
    (hk : findKey1 (symh h s).sym k = none) (d : α) (ks : List (List Char)) :
    SymInv (addKeys h s (.leaf d) (k :: ks)) root := by
  induction ks generalizing h s k with
  | nil => exact hinv.addKey_leaf hk d
  | cons k' ks ih =>
    -- the recursive call works in the fresh table, where `k'` is missing
    have hk' : findKey1 (symh (addKey (newsym h).1 s k (.table h.length)) h.length).sym k' = none := by
      rw [sym_addKey, if_neg (by omega), symh_newsym_self]
      rfl
    exact ih (hinv.addKey_newsym hk) (by simp [length_addKey]) hk'

theorem sym_replaceData (h : SymHeap α) (s t : Nat) (k : List Char) (v : SymData α) :
    (symh (replaceData h s k v) t).sym =
      if s = t ∧ t < h.length then setFirstData k v (symh h t).sym else (symh h t).sym := by
  by_cases hst : s = t
  · subst hst
    by_cases hs : s < h.length
    · simp [replaceData, symh_modify_self _ hs, hs]
    · simp only [replaceData, hs, and_false, if_false, symh, List.getD_eq_getElem?_getD]
      rw [List.getElem?_eq_none (by simp; omega), List.getElem?_eq_none (by omega)]
  · simp [replaceData, symh_modify_ne _ hst, hst]

theorem SymInv.replaceData_leaf (hinv : SymInv h root) (t : Nat) (k : List Char) (d : α) :
    SymInv (replaceData h t k (.leaf d)) root := by
  have hmem : ∀ {u n}, n ∈ (symh (replaceData h t k (.leaf d)) u).sym →
      n ∈ (symh h u).sym ∨ n.data = .leaf d := by
    intro u n hn
    rw [sym_replaceData] at hn
    split at hn
    · exact mem_setFirstData hn
    · exact .inl hn
  have hlen : (replaceData h t k (.leaf d)).length = h.length := List.length_modify _ _ _
  refine ⟨hlen ▸ hinv.root_lt, ?_, ?_, ?_, ?_⟩
  · intro u n v hn hv
    rw [hlen]
    rcases hmem hn with hn | hd
    · exact hinv.table_lt u n v hn hv
    · rw [hd] at hv
      simp at hv
  · intro u n hn
    rcases hmem hn with hn | hd
    · exact hinv.ne_root u n hn
    · rw [hd]
      simp
  · obtain ⟨par, hpar⟩ := hinv.parent
    refine ⟨par, fun u n v hn hv => ?_⟩
    rcases hmem hn with hn | hd
    · exact hpar u n v hn hv
    · rw [hd] at hv
      simp at hv
  · intro u
    unfold symKeys
    rw [sym_replaceData]
    split
    · rw [keys_setFirstData]
      exact hinv.keys_nodup u
    · exact hinv.keys_nodup u

end Inv

/-! ### What `sym_put` changes -/

section Put

variable {h : SymHeap α} {root s t : Nat} {k : List Char} {p q : List (List Char)}

theorem prefix_append_cases {a b : List (List Char)} (hq : q <+: a ++ b) :
    q <+: a ∨ ∃ r, q = a ++ r ∧ r <+: b := by
  obtain ⟨c, hc⟩ := hq
  rcases List.append_eq_append_iff.1 hc with ⟨a', rfl, -⟩ | ⟨c', rfl, rfl⟩
  · exact .inl (List.prefix_append q a')
  · exact .inr ⟨c', rfl, List.prefix_append c' c⟩

theorem symLookup_append_of_reach (hp : symReach h t p = some s) (k : List Char)
    (ks : List (List Char)) : symLookup h t (p ++ k :: ks) = symLookup h s (k :: ks) := by
  have hne := symWalk_ne_complete_none (h := h) (t := s) (List.cons_ne_nil k ks)
  simp only [symLookup, symWalk_append_of_reach hp]
  rcases hw : symWalk h s (k :: ks) with (_ | _) | _ | _ <;> simp_all

theorem addKeys_cons_cons (v : SymData α) (k' : List Char) (ks : List (List Char)) :
    addKeys h s v (k :: k' :: ks) =
      addKeys (addKey (newsym h).1 s k (.table h.length)) h.length v (k' :: ks) := rfl

/-- `addKeys` leaves every older table but `s` as it was. -/
theorem sym_addKeys_of_lt (v : SymData α) (ks : List (List Char)) (ht : t < h.length) (hts : s ≠ t) :
    (symh (addKeys h s v (k :: ks)) t).sym = (symh h t).sym := by
  induction ks generalizing h s k with
  | nil => simp [addKeys, sym_addKey, hts]
  | cons k' ks ih =>
    rw [addKeys_cons_cons, ih (by simp [length_addKey, newsym]; omega) (by omega), sym_addKey,
      if_neg (by omega), sym_newsym]

/-- ... and appends the new key to `s`, holding the first new table or the data. -/
theorem sym_addKeys_self (v : SymData α) (ks : List (List Char)) (hs : s < h.length) :
    (symh (addKeys h s v (k :: ks)) s).sym =
      (symh h s).sym ++ [⟨k, if ks = [] then v else .table h.length⟩] := by
  cases ks with
  | nil => simp [addKeys, sym_addKey, hs]
  | cons k' ks =>
    rw [addKeys_cons_cons, sym_addKeys_of_lt _ _ (by simp [length_addKey, newsym]; omega)
      (by omega), sym_addKey, if_pos ⟨rfl, by simp [newsym]; omega⟩, sym_newsym]
    simp

theorem sameBut_addKeys (v : SymData α) (ks : List (List Char)) (hs : s < h.length) :
    SameBut h (addKeys h s v (k :: ks)) s k := by
  intro t ht x hx
  by_cases hts : s = t
  · subst hts
    rw [sym_addKeys_self _ _ hs, findKey1_append_of_ne _ (hx rfl).symm]
  · rw [sym_addKeys_of_lt _ _ ht hts]

/-- Below the new node `k`, `addKeys` builds a chain of fresh tables along `ks`: going on from `k`,
a walk finds the leaf at the end of `ks`, a fresh table at a proper prefix of it, and nothing off it. -/
theorem symLookup_addKeys_chain (hs : s < h.length) (hk : findKey1 (symh h s).sym k = none) (d : α)
    (ks r : List (List Char)) :
    (r = ks ∧ symLookup (addKeys h s (.leaf d) (k :: ks)) s (k :: r) = some (.leaf d)) ∨
    (r <+: ks ∧ r ≠ ks ∧ ∃ u, h.length ≤ u ∧
      symLookup (addKeys h s (.leaf d) (k :: ks)) s (k :: r) = some (.table u)) ∨
    (¬ r <+: ks ∧ symLookup (addKeys h s (.leaf d) (k :: ks)) s (k :: r) = none) := by
  induction ks generalizing h s k r with
  | nil =>
    have hf : findKey1 (symh (addKeys h s (.leaf d) [k]) s).sym k = some ⟨k, .leaf d⟩ := by
      rw [sym_addKeys_self _ _ hs, findKey1_append_self _ hk]
      rfl
    rcases r with _ | ⟨x, r⟩
    · exact .inl ⟨rfl, by rw [symLookup_single hf]⟩
    · exact .inr (.inr ⟨by simp, symLookup_cons_leaf hf rfl⟩)
  | cons k1 ks ih =>
    have hf : findKey1 (symh (addKeys h s (.leaf d) (k :: k1 :: ks)) s).sym k =
        some ⟨k, .table h.length⟩ := by
      rw [sym_addKeys_self _ _ hs, findKey1_append_self _ hk]
      simp
    rcases r with _ | ⟨x, r⟩
    · exact .inr (.inl ⟨List.nil_prefix, by simp, h.length, le_rfl, by rw [symLookup_single hf]⟩)
    -- the walk goes on in the first fresh table, which the recursive call fills
    rw [symLookup_cons_table hf rfl, addKeys_cons_cons]
    have hL : h.length < (addKey (newsym h).1 s k (.table h.length)).length := by
      simp [length_addKey, newsym]
    have hempty : (symh (addKey (newsym h).1 s k (.table h.length)) h.length).sym = [] := by
      rw [sym_addKey, if_neg (by omega), symh_newsym_self]
    by_cases hx : x = k1
    · subst hx
      have hk1 : findKey1 (symh (addKey (newsym h).1 s k (.table h.length)) h.length).sym x = none := by
        rw [hempty]
        rfl
      rcases ih hL hk1 r with ⟨rfl, hl⟩ | ⟨hp, hne, u, hu, hl⟩ | ⟨hp, hl⟩
      · exact .inl ⟨rfl, hl⟩
      · refine .inr (.inl ⟨List.cons_prefix_cons.2 ⟨rfl, hp⟩, by simpa using hne, u, ?_, hl⟩)
        exact le_trans (by simp [length_addKey, newsym]) hu
      · exact .inr (.inr ⟨fun hp' => hp (List.cons_prefix_cons.1 hp').2, hl⟩)
    · -- off the chain: the fresh table holds only `k1`
      refine .inr (.inr ⟨fun hp' => hx (List.cons_prefix_cons.1 hp').1, ?_⟩)
      apply symLookup_cons_none
      rw [sym_addKeys_self _ _ hL, hempty, List.nil_append]
      simp [findKey1, Ne.symm hx]

theorem prefix_split_iff {a r rest : List (List Char)} : a ++ k :: r <+: a ++ k :: rest ↔ r <+: rest := by
  rw [List.prefix_append_right_inj, List.cons_prefix_cons]
  simp

theorem symReach_of_prefix (hpre : q <+: p) (hp : symReach h t p = some s) :
    ∃ u, symReach h t q = some u := by
  obtain ⟨c, rfl⟩ := hpre
  rw [symReach_append, Option.bind_eq_some_iff] at hp
  obtain ⟨u, hu, -⟩ := hp
  exact ⟨u, hu⟩

/-- A `sym_put` that follows the components `p` to table `s` and misses `k` there: the key itself
then looks up the leaf, each unbound proper prefix a fresh table, and every other path what it
looked up before. -/
theorem SymInv.symLookup_addKeys (hinv : SymInv h root) (hp : symReach h root p = some s)
    (hk : findKey1 (symh h s).sym k = none) (d : α) (rest q : List (List Char)) :
    (q = p ++ k :: rest → symLookup (addKeys h s (.leaf d) (k :: rest)) root q = some (.leaf d)) ∧
    (q <+: p ++ k :: rest → q ≠ p ++ k :: rest → symLookup h root q = none →
      ∃ u, h.length ≤ u ∧ symLookup (addKeys h s (.leaf d) (k :: rest)) root q = some (.table u)) ∧
    (¬ q <+: p ++ k :: rest ∨ symLookup h root q ≠ none →
      symLookup (addKeys h s (.leaf d) (k :: rest)) root q = symLookup h root q) := by
  have hs : s < h.length := symReach_lt hinv.table_lt hinv.root_lt hp
  have hsame := sameBut_addKeys (.leaf d) rest hs (k := k)
  by_cases hq : Avoids h root q s k
  · -- the walk of `q` never reaches the new node
    have hframe := symLookup_frame hinv.table_lt hsame hinv.root_lt hq
    refine ⟨?_, ?_, fun _ => hframe⟩
    · rintro rfl
      exact absurd hp (hq p rest rfl)
    · intro hpre _ hnone
      rcases prefix_append_cases hpre with hqp | ⟨r, rfl, hr⟩
      · obtain ⟨u, hu⟩ := symReach_of_prefix hqp hp
        rw [symLookup_of_reach hu] at hnone
        exact absurd hnone (by simp)
      · rcases r with _ | ⟨y, r⟩
        · rw [List.append_nil, symLookup_of_reach hp] at hnone
          exact absurd hnone (by simp)
        · obtain ⟨rfl, -⟩ := List.cons_prefix_cons.1 hr
          exact absurd hp (hq p r rfl)
  · -- `q` goes through the new node, so it extends the components before it
    simp only [Avoids, not_forall, not_not] at hq
    obtain ⟨p', r, rfl, hp'⟩ := hq
    obtain rfl := hinv.reach_inj hp' hp
    have hbefore : symLookup h root (p' ++ k :: r) = none := by
      rw [symLookup_append_of_reach hp, symLookup_cons_none hk]
    have hafter : symLookup (addKeys h s (.leaf d) (k :: rest)) root (p' ++ k :: r) =
        symLookup (addKeys h s (.leaf d) (k :: rest)) s (k :: r) :=
      symLookup_append_of_reach (symReach_frame hinv.table_lt hsame hinv.root_lt
        (avoids_of_missing hk hp) hp) k r
    rw [hafter, hbefore]
    rcases symLookup_addKeys_chain hs hk d rest r with ⟨rfl, hl⟩ | ⟨hpre, hne, u, hu, hl⟩ | ⟨hpre, hl⟩
    · exact ⟨fun _ => hl, fun _ hne => absurd rfl hne,
        by rintro (h1 | h1) <;> [exact absurd List.prefix_rfl h1; exact absurd rfl h1]⟩
    · refine ⟨fun heq => absurd (by simpa using heq) hne, fun _ _ _ => ⟨u, hu, hl⟩, ?_⟩
      rintro (h1 | h1)
      · exact absurd (prefix_split_iff.2 hpre) h1
      · exact absurd rfl h1
    · refine ⟨fun heq => absurd (by simp at heq; rw [heq]) hpre, ?_, fun _ => hl⟩
      intro hpre'
      exact absurd (prefix_split_iff.1 hpre') hpre

theorem sameBut_replaceData (v : SymData α) : SameBut h (replaceData h t k v) t k := by
  intro u hu x hx
  rw [sym_replaceData]
  split
  · rename_i htu
    exact findKey1_setFirstData_of_ne _ (hx htu.1.symm).symm
  · rfl

/-- `sym_put` with `PUT_REPLACE` on a bound key: the key looks up the new leaf, and every path that
does not extend it looks up what it did. -/
theorem SymInv.symLookup_replaceData (hinv : SymInv h root) (hp : symReach h root p = some t)
    {n : SymNode α} (hf : findKey1 (symh h t).sym k = some n) (d : α) (q : List (List Char)) :
    (q = p ++ [k] → symLookup (replaceData h t k (.leaf d)) root q = some (.leaf d)) ∧
    (¬ p ++ [k] <+: q → symLookup (replaceData h t k (.leaf d)) root q = symLookup h root q) := by
  have ht : t < h.length := symReach_lt hinv.table_lt hinv.root_lt hp
  have hsame := sameBut_replaceData (h := h) (t := t) (k := k) (.leaf d)
  constructor
  · rintro rfl
    -- `p` itself cannot pass through the node it ends at
    have havoid : Avoids h root p t k := by
      rintro p1 r1 rfl hp1
      have := congrArg List.length (hinv.reach_inj hp1 hp)
      simp at this
    rw [symLookup_append_of_reach (symReach_frame hinv.table_lt hsame hinv.root_lt havoid hp)]
    have hf' : findKey1 (symh (replaceData h t k (.leaf d)) t).sym k = some { n with data := .leaf d } := by
      rw [sym_replaceData, if_pos ⟨rfl, ht⟩, findKey1_setFirstData_self _ hf]
    rw [symLookup_single hf']
  · intro hq
    refine symLookup_frame hinv.table_lt hsame hinv.root_lt ?_
    rintro p' r rfl hp'
    obtain rfl := hinv.reach_inj hp' hp
    exact hq ⟨r, by simp⟩

end Put

/-! ### The ends of `sym_put` and `sym_get` -/

section Ends

variable {h : SymHeap α} {t : Nat} {key : List Char} {cs : List (List Char)} {v : SymData α}
  {flags : Int}

theorem symWalk_trichotomy (hne : cs ≠ []) :
    (∃ s n, symWalk h t cs = .complete (some (s, n)) ∧ symLookup h t cs = some n.data) ∨
    (∃ s r, symWalk h t cs = .missing s r ∧ symLookup h t cs = none ∧ ¬ LeafAbove h t cs) ∨
    (symWalk h t cs = .notDir ∧ symLookup h t cs = none ∧ LeafAbove h t cs) := by
  rcases hw : symWalk h t cs with (_ | ⟨s, n⟩) | ⟨s, r⟩ | _
  · exact absurd hw (symWalk_ne_complete_none hne)
  · exact .inl ⟨s, n, rfl, by simp [symLookup, hw]⟩
  · refine .inr (.inl ⟨s, r, rfl, by simp [symLookup, hw], ?_⟩)
    rw [← symWalk_eq_notDir_iff, hw]
    simp
  · exact .inr (.inr ⟨rfl, by simp [symLookup, hw], symWalk_eq_notDir_iff.1 hw⟩)

/-! The split is freed without fault when the key has no component or does not begin with a
comma, and `splitstr_free` aborts when a comma comes before the first component. -/

theorem splitstrFree_of_nil (hcs : splitstr key [','] = []) : splitstrFree key [','] = some () := by
  unfold splitstrFree
  split
  · rw [if_neg (fun hc => hc.2 hcs)]
  · rfl

theorem splitstrFree_of_head (hk : key.head? ≠ some ',') : splitstrFree key [','] = some () := by
  unfold splitstrFree
  split
  · next c _ =>
    have hc : c ∉ [','] := by simpa using hk
    rw [if_neg (fun h => hc h.1)]
  · rfl

theorem splitstrFree_of_comma (hk : key.head? = some ',') (hne : splitstr key [','] ≠ []) :
    splitstrFree key [','] = none := by
  obtain ⟨t, rfl⟩ : ∃ t, key = ',' :: t := by
    cases key with
    | nil => cases hk
    | cons c t => exact ⟨t, by simpa using hk⟩
  simp only [splitstrFree, List.mem_singleton, true_and]
  rw [if_pos hne]

theorem symGet_of_fault (hf : splitstrFree key [','] = none) : symGet h t key = none := by
  simp [symGet, hf]

theorem symPut_of_fault (hf : splitstrFree key [','] = none) : symPut h t key v flags = none := by
  simp [symPut, hf]

theorem splitstrFree_of_symPut {x : SymHeap α × Int} (hput : symPut h t key v flags = some x) :
    splitstrFree key [','] = some () := by
  cases hf : splitstrFree key [','] with
  | none => rw [symPut_of_fault hf] at hput; cases hput
  | some u => rfl

theorem symGet_eq (hf : splitstrFree key [','] = some ()) (hcs : splitstr key [','] = cs)
    (hne : cs ≠ []) : symGet h t key = some (symLookup h t cs) := by
  unfold symGet symLookup
  rw [hf, hcs]
  rcases hw : symWalk h t cs with (_ | ⟨s, n⟩) | ⟨s, r⟩ | _
  · exact absurd hw (symWalk_ne_complete_none hne)
  all_goals rfl

theorem symPut_of_leafAbove (hf : splitstrFree key [','] = some ()) (hcs : splitstr key [','] = cs)
    (hl : LeafAbove h t cs) : symPut h t key v flags = some (h, enotdir) := by
  simp only [symPut, hf, hcs, symWalk_eq_notDir_iff.2 hl]
  rfl

theorem symPut_of_bound (hf : splitstrFree key [','] = some ()) (hcs : splitstr key [','] = cs)
    (hne : cs ≠ []) (hb : symLookup h t cs ≠ none) (hfl : flags ≠ putReplace) :
    symPut h t key v flags = some (h, eexist) := by
  rcases symWalk_trichotomy (h := h) (t := t) hne with ⟨s, n, hw, -⟩ | ⟨-, -, -, hl, -⟩ | ⟨-, hl, -⟩
  · simp only [symPut, hf, hcs, hw, hfl, if_false]
    rfl
  all_goals exact absurd hl hb

theorem symPut_replace_of_bound (hf : splitstrFree key [','] = some ())
    (hcs : splitstr key [','] = cs) (hne : cs ≠ []) (hb : symLookup h t cs ≠ none) :
    ∃ s n, symWalk h t cs = .complete (some (s, n)) ∧
      symPut h t key v putReplace = some (replaceData h s n.key v, 0) := by
  rcases symWalk_trichotomy (h := h) (t := t) hne with ⟨s, n, hw, -⟩ | ⟨-, -, -, hl, -⟩ | ⟨-, hl, -⟩
  · exact ⟨s, n, hw, by simp only [symPut, hf, hcs, hw, if_true, Option.map_some]; rfl⟩
  all_goals exact absurd hl hb

/-- A key without a component: `nsym` stays `NULL` on the complete-match branch. -/
theorem symGet_of_nil (hcs : splitstr key [','] = []) : symGet h t key = none := by
  simp [symGet, splitstrFree_of_nil hcs, hcs, symWalk]

theorem symPut_of_nil (hcs : splitstr key [','] = []) :
    symPut h t key v putReplace = none ∧
      ∀ flags, flags ≠ putReplace → symPut h t key v flags = some (h, eexist) := by
  refine ⟨by simp [symPut, splitstrFree_of_nil hcs, hcs, symWalk], fun flags hfl => ?_⟩
  simp [symPut, splitstrFree_of_nil hcs, hcs, symWalk, hfl]

end Ends

/-! ### Reachable tables -/

section Reach

variable {h h' : SymHeap α} {root u : Nat} {key : List Char} {d : α} {flags r : Int}

theorem SymInv.put (hinv : SymInv h root) (hu : u < h.length)
    (hput : symPut h u key (.leaf d) flags = some (h', r)) : SymInv h' root := by
  have hf := splitstrFree_of_symPut hput
  simp only [symPut, hf, Option.bind_eq_bind, Option.bind_some] at hput
  rcases hw : symWalk h u (splitstr key [',']) with (_ | ⟨t, n⟩) | ⟨s, rest⟩ | _ <;>
    rw [hw] at hput
  · split_ifs at hput
    · simp at hput
    · obtain ⟨rfl, -⟩ := Prod.mk.inj (Option.some.inj hput)
      exact hinv
  · split_ifs at hput
    · obtain ⟨rfl, -⟩ := Prod.mk.inj (Option.some.inj hput)
      exact hinv.replaceData_leaf t n.key d
    · obtain ⟨rfl, -⟩ := Prod.mk.inj (Option.some.inj hput)
      exact hinv
  · -- the second loop starts in a table the walk reached, where its first key is missing
    obtain ⟨p, k, rest', -, rfl, hp, hk⟩ := symWalk_missing_split hw
    obtain ⟨rfl, -⟩ := Prod.mk.inj (Option.some.inj hput)
    exact hinv.addKeys_leaf (symReach_lt hinv.table_lt hu hp) hk d rest'
  · obtain ⟨rfl, -⟩ := Prod.mk.inj (Option.some.inj hput)
    exact hinv

/-- `sym_seq` moves a cursor and nothing else. -/
theorem symSeq_heap {o : Option (SymNode α)} (hseq : symSeq h u key flags = some (h', r, o)) :
    h' = h ∨ ∃ c, h' = setCursor h u c := by
  unfold symSeq at hseq
  split_ifs at hseq
  · split at hseq
    · simp at hseq
    · split at hseq <;> exact .inr ⟨_, (Prod.mk.inj (Option.some.inj hseq)).1.symm⟩
    · exact .inl (Prod.mk.inj (Option.some.inj hseq)).1.symm
  · split at hseq <;> exact .inr ⟨_, (Prod.mk.inj (Option.some.inj hseq)).1.symm⟩
  · split at hseq
    · exact .inl (Prod.mk.inj (Option.some.inj hseq)).1.symm
    · split at hseq <;> exact .inr ⟨_, (Prod.mk.inj (Option.some.inj hseq)).1.symm⟩
  · exact .inl (Prod.mk.inj (Option.some.inj hseq)).1.symm

theorem SymInv.seq {o : Option (SymNode α)} (hinv : SymInv h root)
    (hseq : symSeq h u key flags = some (h', r, o)) : SymInv h' root := by
  rcases symSeq_heap hseq with rfl | ⟨c, rfl⟩
  · exact hinv
  · exact hinv.of_sym_eq (length_setCursor u c) (fun t => sym_setCursor u t c)

/-- The heaps that `sym_open` on an empty heap makes, followed by `sym_put`s of leaves on its
tables and `sym_seq`s. -/
inductive SymReachable : SymHeap α → Prop
  | open : SymReachable (symOpen []).1
  | put {h h' : SymHeap α} {u : Nat} {key : List Char} {d : α} {flags r : Int} :
      SymReachable h → u < h.length → symPut h u key (.leaf d) flags = some (h', r) →
        SymReachable h'
  | seq {h h' : SymHeap α} {u : Nat} {key : List Char} {flags r : Int} {o : Option (SymNode α)} :
      SymReachable h → symSeq h u key flags = some (h', r, o) → SymReachable h'

theorem symInv_open : SymInv (symOpen ([] : SymHeap α)).1 0 := by
  have hsym : ∀ t, (symh (symOpen ([] : SymHeap α)).1 t).sym = [] := by
    intro t
    cases t <;> simp [symh, symOpen, newsym]
  refine ⟨by simp [symOpen, newsym], fun t n u hn _ => ?_, fun t n hn => ?_,
    ⟨fun _ => (0, []), fun t n u hn _ => ?_⟩, fun t => ?_⟩
  any_goals simp [hsym] at hn
  simp [symKeys, hsym]

/-- Every reachable heap keeps the invariant for the table that `sym_open` made. -/
theorem SymReachable.inv (hr : SymReachable h) : SymInv h 0 := by
  induction hr with
  | «open» => exact symInv_open
  | put _ hu hput ih => exact ih.put hu hput
  | seq _ hseq ih => exact ih.seq hseq

end Reach

/-! ### Enumerating a table -/

/-- The keys a caller reads with `sym_seq(R_FIRST)` and then `sym_seq(R_NEXT)` until it returns
non-zero, as `tag_report.c` does, with at most `fuel` calls of `R_NEXT`. -/
def seqKeys (h : SymHeap α) (sym : Nat) (fuel : Nat) : List (List Char) :=
  match symSeq h sym [] rFirst with
  | some (h', 0, some n) => n.key :: seqNextKeys h' sym fuel
  | _ => []
where
  /-- The `R_NEXT` calls. -/
  seqNextKeys (h : SymHeap α) (sym : Nat) : Nat → List (List Char)
    | 0 => []
    | fuel + 1 =>
      match symSeq h sym [] rNext with
      | some (h', 0, some n) => n.key :: seqNextKeys h' sym fuel
      | _ => []

section Seq

variable {h : SymHeap α} {t : Nat}

theorem symSeq_first :
    symSeq h t [] rFirst = match (symh h t).sym with
      | [] => some (setCursor h t none, 1, none)
      | n :: _ => some (setCursor h t (some (t, 0)), 0, some n) := by
  simp [symSeq, rFirst, rCursor]

theorem symSeq_next :
    symSeq h t [] rNext = match (symh h t).cursor with
      | none => some (h, 1, none)
      | some (u, i) =>
        match (symh h u).sym[i + 1]? with
        | none => some (setCursor h t none, 1, none)
        | some n => some (setCursor h t (some (u, i + 1)), 0, some n) := by
  simp [symSeq, rNext, rFirst, rCursor]

theorem lt_of_sym_ne_nil (hne : (symh h t).sym ≠ []) : t < h.length := by
  by_contra hge
  apply hne
  simp [symh, List.getD_eq_getElem?_getD, List.getElem?_eq_none (by omega : h.length ≤ t)]

/-- From a cursor on node `i` of the table, the `R_NEXT` calls read the keys after it. -/
theorem seqNextKeys_of_cursor {i fuel : Nat} (ht : t < h.length)
    (hc : (symh h t).cursor = some (t, i)) (hfuel : (symKeys h t).length ≤ i + 1 + fuel) :
    seqKeys.seqNextKeys h t fuel = (symKeys h t).drop (i + 1) := by
  induction fuel generalizing h i with
  | zero =>
    rw [List.drop_eq_nil_of_le (by omega)]
    rfl
  | succ fuel ih =>
    simp only [seqKeys.seqNextKeys, symSeq_next, hc]
    rcases hn : (symh h t).sym[i + 1]? with _ | n
    · have hlen : (symKeys h t).length ≤ i + 1 := by
        simpa [symKeys] using List.getElem?_eq_none_iff.1 hn
      rw [List.drop_eq_nil_of_le hlen]
      rfl
    · have ht' : t < (setCursor h t (some (t, i + 1))).length := by rwa [length_setCursor]
      have hkeys : symKeys (setCursor h t (some (t, i + 1))) t = symKeys h t := by
        simp [symKeys, sym_setCursor]
      simp only
      rw [ih ht' (cursor_setCursor _ ht) (by rw [hkeys]; omega), hkeys]
      have hlt : i + 1 < (symKeys h t).length := by
        have := (List.getElem?_eq_some_iff.1 hn).1
        simpa [symKeys] using this
      rw [List.drop_eq_getElem_cons hlt]
      simp [symKeys, List.getElem_map, (List.getElem?_eq_some_iff.1 hn).2]

/-- `R_FIRST` and then `R_NEXT` read every key of a table once, in list order. -/
theorem seqKeys_eq (t : Nat) : seqKeys h t (symKeys h t).length = symKeys h t := by
  unfold seqKeys
  rw [symSeq_first]
  rcases hs : (symh h t).sym with _ | ⟨n, ns⟩
  · simp [symKeys, hs]
  · have ht : t < h.length := lt_of_sym_ne_nil (by simp [hs])
    have hkeys : symKeys (setCursor h t (some (t, 0))) t = symKeys h t := by
      simp [symKeys, sym_setCursor]
    simp only
    rw [seqNextKeys_of_cursor (by rwa [length_setCursor]) (cursor_setCursor _ ht)
      (by rw [hkeys]; omega), hkeys]
    simp [symKeys, hs]

end Seq

/-! ### The namespace of a table -/

/-- What a lookup finds, with a table's handle forgotten. -/
def SymData.entry : SymData α → PathMap.Entry α
  | .leaf d => .leaf d
  | .table _ => .dir

/-- The namespace under table `t`: the entry of each path of components. -/
def symView (h : SymHeap α) (t : Nat) : PathMap.Space (List Char) α :=
  fun q => (symLookup h t q).map SymData.entry

/-- What `sym_put` returns for each end of the abstract `put`. -/
def putErrno : PathMap.PutResult → Int
  | .ok => 0
  | .exists => eexist
  | .notDir => enotdir

section View

variable {h h' : SymHeap α} {t : Nat} {key : List Char} {cs q : List (List Char)} {d : α} {r : Int}

theorem symView_eq_none : symView h t q = none ↔ symLookup h t q = none := by
  simp [symView]

theorem symLookup_nil : symLookup h t [] = some (.table t) :=
  symLookup_of_reach rfl

/-- Every table is a closed namespace: the proper prefixes of a bound path are tables. -/
theorem symView_closed : PathMap.Closed (symView h t) := by
  refine ⟨by simp [symView, symLookup_nil, SymData.entry], fun p q hq hne hp => ?_⟩
  have hpne : p ≠ [] := by
    rintro rfl
    exact hne (List.prefix_nil.1 hq)
  rcases symWalk_trichotomy (h := h) (t := t) hpne with ⟨s, n, hw, -⟩ | ⟨-, -, -, hl, -⟩ | ⟨-, hl, -⟩
  · obtain ⟨p0, rfl, hp0, -⟩ := symWalk_complete_split hw
    have hq0 : q <+: p0 := by
      rcases prefix_append_cases hq with hq0 | ⟨r, rfl, hr⟩
      · exact hq0
      · rcases List.prefix_cons_iff.1 hr with rfl | ⟨c, rfl, hc⟩
        · simp
        · rw [List.prefix_nil.1 hc] at hne
          exact absurd rfl hne
    obtain ⟨u, hu⟩ := symReach_of_prefix hq0 hp0
    simp [symView, symLookup_of_reach hu, SymData.entry]
  all_goals exact absurd (symView_eq_none.2 hl) hp

theorem leafAbove_iff : LeafAbove h t cs ↔ PathMap.LeafAbove (symView h t) cs := by
  constructor
  · rintro ⟨a, b, d, rfl, ha, hb, hl⟩
    exact ⟨a, List.prefix_append a b, by simpa using hb, d, by simp [symView, hl, SymData.entry]⟩
  · rintro ⟨q, ⟨c, rfl⟩, hne, b, hb⟩
    obtain ⟨x, hx, hxb⟩ := Option.map_eq_some_iff.1 hb
    have hx' : x = .leaf b := by
      cases x <;> simp_all [SymData.entry]
    subst hx'
    have hq : q ≠ [] := by
      rintro rfl
      simp [symLookup_nil] at hx
    exact ⟨q, c, b, rfl, hq, by simpa using hne, hx⟩

/-- `sym_put` of a leaf refines the abstract `put` on the namespace of the table. -/
theorem SymInv.symPut_refines (hinv : SymInv h 0) (hcs : splitstr key [','] = cs) (hne : cs ≠ [])
    (hput : symPut h 0 key (.leaf d) 0 = some (h', r)) :
    symView h' 0 = (PathMap.put (symView h 0) cs d).1 ∧ r = putErrno (PathMap.put (symView h 0) cs d).2 := by
  have h0 : (0 : Int) ≠ putReplace := by decide
  have hf := splitstrFree_of_symPut hput
  rcases symWalk_trichotomy (h := h) (t := 0) hne with ⟨s, n, hw, hb⟩ | ⟨s, rest, hw, hb, hl⟩ |
    ⟨hw, hb, hl⟩
  · have hv : symView h 0 cs ≠ none := by simp [symView, hb]
    rw [symPut_of_bound hf hcs hne (by simp [hb]) h0] at hput
    obtain ⟨rfl, rfl⟩ := Prod.mk.inj (Option.some.inj hput)
    simp [PathMap.put, hv, putErrno]
  · obtain ⟨p, k, rest', rfl, rfl, hp, hk⟩ := symWalk_missing_split hw
    simp only [symPut, hf, Option.bind_eq_bind, Option.bind_some, hcs, hw, Option.some.injEq,
      Prod.mk.injEq] at hput
    obtain ⟨rfl, rfl⟩ := hput
    have hv : symView h 0 (p ++ k :: rest') = none := symView_eq_none.2 hb
    have hl' : ¬ PathMap.LeafAbove (symView h 0) (p ++ k :: rest') := leafAbove_iff.not.1 hl
    simp only [PathMap.put, hv, ne_eq, not_true_eq_false, if_false, hl', putErrno, and_true]
    -- the new namespace agrees with `bind` path by path
    funext q
    have hlaws := hinv.symLookup_addKeys hp hk d rest' q
    by_cases hq : q = p ++ k :: rest'
    · subst hq
      simp [symView, hlaws.1 rfl, SymData.entry]
    by_cases hnew : q <+: p ++ k :: rest' ∧ symLookup h 0 q = none
    · have hqne : q ≠ [] := by
        rintro rfl
        simp [symLookup_nil] at hnew
      obtain ⟨u, -, hu⟩ := hlaws.2.1 hnew.1 hq hnew.2
      rw [PathMap.bind_of_unbound hnew.1 hq (symView_eq_none.2 hnew.2)]
      simp [symView, hu, SymData.entry]
    · have hold : ¬ q <+: p ++ k :: rest' ∨ symLookup h 0 q ≠ none := by
        by_cases hpre : q <+: p ++ k :: rest'
        · exact .inr fun hn => hnew ⟨hpre, hn⟩
        · exact .inl hpre
      have hbind : PathMap.bind (symView h 0) (p ++ k :: rest') d q = symView h 0 q := by
        simp only [PathMap.bind, hq, if_false, symView_eq_none]
        rw [if_neg hnew]
      rw [hbind]
      simp [symView, hlaws.2.2 hold]
  · rw [symPut_of_leafAbove hf hcs hl] at hput
    obtain ⟨rfl, rfl⟩ := Prod.mk.inj (Option.some.inj hput)
    have hv : symView h 0 cs = none := symView_eq_none.2 hb
    simp [PathMap.put, hv, leafAbove_iff.1 hl, putErrno]

theorem symPut_refines_ab :
    ∃ h' r, symPut (symOpen ([] : SymHeap Nat)).1 0 "a,b".toList (.leaf 7) 0 = some (h', r) ∧
      symView h' 0 =
        (PathMap.put (symView (symOpen ([] : SymHeap Nat)).1 0) ["a".toList, "b".toList] 7).1 ∧
      r = putErrno
        (PathMap.put (symView (symOpen ([] : SymHeap Nat)).1 0) ["a".toList, "b".toList] 7).2 :=
  ⟨_, _, rfl, SymInv.symPut_refines symInv_open
    (show splitstr "a,b".toList [','] = ["a".toList, "b".toList] by decide) (by decide) rfl⟩

end View

/-! ### The store laws -/

section Laws

variable {h h' : SymHeap α} {root u : Nat} {key : List Char} {cs : List (List Char)} {d : α}
  {flags r : Int}

/-- The tables that `addKeys` makes hold one node each. -/
theorem sym_addKeys_fresh {s : Nat} {k : List Char} (v : SymData α) (ks : List (List Char))
    (hs : s < h.length) {t : Nat} (ht : h.length ≤ t) : ((symh (addKeys h s v (k :: ks)) t).sym).length ≤ 1 := by
  have hnil : ∀ {h : SymHeap α} {t}, h.length ≤ t → (symh h t).sym = [] := by
    intro h t ht
    simp [symh, List.getD_eq_getElem?_getD, List.getElem?_eq_none ht]
  induction ks generalizing h s k with
  | nil =>
    rw [addKeys, sym_addKey, if_neg (by omega), hnil ht]
    simp
  | cons k' ks ih =>
    rw [addKeys_cons_cons]
    rcases Nat.lt_or_ge h.length t with hlt | hge
    · exact ih (by simp [length_addKey, newsym]) (by simp [length_addKey, newsym]; omega)
    · obtain rfl : t = h.length := by omega
      rw [sym_addKeys_self _ _ (by simp [length_addKey, newsym]), sym_addKey, if_neg (by omega),
        symh_newsym_self]
      simp

/-- Each `sym_put` appends at most one key to a table, at its end. -/
theorem SymInv.symKeys_put (hinv : SymInv h root) (hu : u < h.length)
    (hput : symPut h u key (.leaf d) flags = some (h', r)) (t : Nat) :
    ∃ l, symKeys h' t = symKeys h t ++ l ∧ l.length ≤ 1 := by
  have hf := splitstrFree_of_symPut hput
  simp only [symPut, hf, Option.bind_eq_bind, Option.bind_some] at hput
  rcases hw : symWalk h u (splitstr key [',']) with (_ | ⟨s, n⟩) | ⟨s, rest⟩ | _ <;>
    rw [hw] at hput
  · split_ifs at hput
    · simp at hput
    · obtain ⟨rfl, -⟩ := Prod.mk.inj (Option.some.inj hput)
      exact ⟨[], by simp, by simp⟩
  · split_ifs at hput
    · obtain ⟨rfl, -⟩ := Prod.mk.inj (Option.some.inj hput)
      refine ⟨[], ?_, by simp⟩
      simp only [symKeys, sym_replaceData, List.append_nil]
      split
      · exact keys_setFirstData _
      · rfl
    · obtain ⟨rfl, -⟩ := Prod.mk.inj (Option.some.inj hput)
      exact ⟨[], by simp, by simp⟩
  · obtain ⟨p, k, rest', -, rfl, hp, hk⟩ := symWalk_missing_split hw
    obtain ⟨rfl, -⟩ := Prod.mk.inj (Option.some.inj hput)
    have hs := symReach_lt hinv.table_lt hu hp
    by_cases ht : t < h.length
    · by_cases hst : s = t
      · subst hst
        exact ⟨[k], by simp [symKeys, sym_addKeys_self _ _ hs], by simp⟩
      · exact ⟨[], by simp [symKeys, sym_addKeys_of_lt _ _ ht hst], by simp⟩
    · -- a fresh table: nothing before, one key now
      refine ⟨symKeys (addKeys h s (.leaf d) (k :: rest')) t, ?_, ?_⟩
      · simp [symKeys, symh, List.getD_eq_getElem?_getD, List.getElem?_eq_none (by omega : h.length ≤ t)]
      · simpa [symKeys] using sym_addKeys_fresh (.leaf d) rest' hs (by omega : h.length ≤ t)
  · obtain ⟨rfl, -⟩ := Prod.mk.inj (Option.some.inj hput)
    exact ⟨[], by simp, by simp⟩

/-- The outcomes of `sym_put` of a leaf on a key with at least one component. -/
theorem SymInv.symPut_outcomes (hinv : SymInv h root) (hf : splitstrFree key [','] = some ())
    (hcs : splitstr key [','] = cs) (hne : cs ≠ []) (d : α) :
    (∃ h' r, symPut h root key (.leaf d) 0 = some (h', r) ∧
      (r = 0 ∧ symGet h' root key = some (some (.leaf d)) ↔
        ¬ LeafAbove h root cs ∧ symLookup h root cs = none)) ∧
    (symLookup h root cs ≠ none → ∃ h', symPut h root key (.leaf d) putReplace = some (h', 0) ∧
      symGet h' root key = some (some (.leaf d))) := by
  have h0 : (0 : Int) ≠ putReplace := by decide
  constructor
  · rcases symWalk_trichotomy (h := h) (t := root) hne with ⟨s, n, -, hb⟩ | ⟨s, rest, hw, hb, hl⟩ |
      ⟨-, -, hl⟩
    · refine ⟨h, eexist, symPut_of_bound hf hcs hne (by simp [hb]) h0, ?_⟩
      simp [hb, eexist]
    · -- the put adds the missing suffix, whose key then looks up the leaf
      obtain ⟨p, k, rest', rfl, rfl, hp, hk⟩ := symWalk_missing_split hw
      refine ⟨addKeys h s (.leaf d) (k :: rest'), 0, by simp only [symPut, hf, hcs, hw]; rfl, ?_⟩
      simp only [true_and, hl, not_false_eq_true, hb, and_self, iff_true]
      rw [symGet_eq hf hcs hne, (hinv.symLookup_addKeys hp hk d rest' _).1 rfl]
    · refine ⟨h, enotdir, symPut_of_leafAbove hf hcs hl, ?_⟩
      simp [hl, enotdir]
  · intro hb
    obtain ⟨s, n, hw, hput⟩ := symPut_replace_of_bound (v := .leaf d) hf hcs hne hb
    obtain ⟨p, rfl, hp, hfd⟩ := symWalk_complete_split hw
    refine ⟨_, hput, ?_⟩
    rw [symGet_eq hf hcs hne, (hinv.symLookup_replaceData hp hfd d _).1 rfl]

/-- What `sym_get` of any key returns after a `sym_put` of a leaf. -/
theorem SymInv.symGet_put (hinv : SymInv h root) (hcs : splitstr key [','] = cs) (hne : cs ≠ [])
    (hput : symPut h root key (.leaf d) flags = some (h', r)) (key2 : List Char)
    (hf2 : splitstrFree key2 [','] = some ()) :
    (¬ cs <+: splitstr key2 [','] → (splitstr key2 [','] <+: cs → symLookup h root (splitstr key2 [',']) ≠ none) →
      symGet h' root key2 = symGet h root key2) ∧
    (r = 0 → splitstr key2 [','] ≠ [] → splitstr key2 [','] <+: cs → splitstr key2 [','] ≠ cs →
      symLookup h root (splitstr key2 [',']) = none →
      ∃ u, h.length ≤ u ∧ symGet h' root key2 = some (some (.table u))) := by
  generalize hq : splitstr key2 [','] = q
  by_cases hqne : q = []
  · subst hqne
    exact ⟨fun _ _ => by rw [symGet_of_nil hq, symGet_of_nil hq], fun _ hq' => absurd rfl hq'⟩
  rw [symGet_eq hf2 hq hqne, symGet_eq hf2 hq hqne]
  have hf := splitstrFree_of_symPut hput
  simp only [symPut, hf, Option.bind_eq_bind, Option.bind_some, hcs] at hput
  rcases symWalk_trichotomy (h := h) (t := root) hne with ⟨s, n, hw, -⟩ | ⟨s, rest, hw, -, -⟩ |
    ⟨hw, -, -⟩ <;> rw [hw] at hput
  · obtain ⟨p, rfl, hp, hf⟩ := symWalk_complete_split hw
    split_ifs at hput
    · -- the replaced node: only the paths through it change
      simp only [Option.map_some, Option.some.injEq, Prod.mk.injEq] at hput
      obtain ⟨rfl, rfl⟩ := hput
      refine ⟨fun hcq _ => by rw [(hinv.symLookup_replaceData hp hf d q).2 hcq], ?_⟩
      intro _ _ hpre hneq hnone
      rcases prefix_append_cases hpre with hqp | ⟨r, rfl, hr⟩
      · obtain ⟨u, hu⟩ := symReach_of_prefix hqp hp
        rw [symLookup_of_reach hu] at hnone
        exact absurd hnone (by simp)
      · rcases List.prefix_cons_iff.1 hr with rfl | ⟨t, rfl, ht⟩
        · rw [List.append_nil, symLookup_of_reach hp] at hnone
          exact absurd hnone (by simp)
        · rw [List.prefix_nil.1 ht] at hneq
          exact absurd rfl hneq
    · obtain ⟨rfl, rfl⟩ := Prod.mk.inj (Option.some.inj hput)
      exact ⟨fun _ _ => rfl, fun h0 => absurd h0 (by decide)⟩
  · obtain ⟨p, k, rest', rfl, rfl, hp, hk⟩ := symWalk_missing_split hw
    obtain ⟨rfl, rfl⟩ := Prod.mk.inj (Option.some.inj hput)
    have hl := hinv.symLookup_addKeys hp hk d rest' q
    refine ⟨fun _ hb => ?_, fun _ _ hpre hneq hnone => ?_⟩
    · have hor : ¬ q <+: p ++ k :: rest' ∨ symLookup h root q ≠ none := by
        by_cases hpre : q <+: p ++ k :: rest'
        · exact .inr (hb hpre)
        · exact .inl hpre
      rw [hl.2.2 hor]
    · obtain ⟨u, hu, hlu⟩ := hl.2.1 hpre hneq hnone
      exact ⟨u, hu, by rw [hlu]⟩
  · obtain ⟨rfl, rfl⟩ := Prod.mk.inj (Option.some.inj hput)
    exact ⟨fun _ _ => rfl, fun h0 => absurd h0 (by decide)⟩

/-- The laws of `sym_put` and `sym_get` on the table that `sym_open` made (handle `0`), for a key
`key` of components `cs` and a leaf `d`. -/
structure SymStoreLaws (h : SymHeap α) (key : List Char) (cs : List (List Char)) (d : α) : Prop where
  put_ok : ∃ h' r, symPut h 0 key (.leaf d) 0 = some (h', r) ∧
    (r = 0 ∧ symGet h' 0 key = some (some (.leaf d)) ↔ ¬ LeafAbove h 0 cs ∧ symLookup h 0 cs = none)
  put_eexist : symLookup h 0 cs ≠ none → symPut h 0 key (.leaf d) 0 = some (h, eexist)
  put_enotdir : LeafAbove h 0 cs → symPut h 0 key (.leaf d) 0 = some (h, enotdir)
  put_replace : symLookup h 0 cs ≠ none → ∃ h', symPut h 0 key (.leaf d) putReplace = some (h', 0) ∧
    symGet h' 0 key = some (some (.leaf d))
  get_frame : ∀ flags h' r, symPut h 0 key (.leaf d) flags = some (h', r) → ∀ key2,
    ¬ cs <+: splitstr key2 [','] →
    (splitstr key2 [','] <+: cs → symLookup h 0 (splitstr key2 [',']) ≠ none) →
    symGet h' 0 key2 = symGet h 0 key2
  get_new_table : ∀ flags h', symPut h 0 key (.leaf d) flags = some (h', 0) → ∀ key2,
    key2.head? ≠ some ',' → splitstr key2 [','] ≠ [] → splitstr key2 [','] <+: cs → splitstr key2 [','] ≠ cs →
    symLookup h 0 (splitstr key2 [',']) = none →
    ∃ u, h.length ≤ u ∧ symGet h' 0 key2 = some (some (.table u))
  keys_nodup : ∀ t, (symKeys h t).Nodup
  seq_keys : ∀ t, seqKeys h t (symKeys h t).length = symKeys h t
  keys_append : ∀ flags h' r, symPut h 0 key (.leaf d) flags = some (h', r) → ∀ t,
    ∃ l, symKeys h' t = symKeys h t ++ l ∧ l.length ≤ 1
  get_unbound : ∀ key2, key2.head? ≠ some ',' → splitstr key2 [','] ≠ [] →
    symLookup h 0 (splitstr key2 [',']) = none → symGet h 0 key2 = some none
  no_component : ∀ key2, splitstr key2 [','] = [] → symGet h 0 key2 = none ∧
    symPut h 0 key2 (.leaf d) putReplace = none ∧ symPut h 0 key2 (.leaf d) 0 = some (h, eexist)
  comma_faults : ∀ key2, key2.head? = some ',' → splitstr key2 [','] ≠ [] →
    symGet h 0 key2 = none ∧ ∀ flags, symPut h 0 key2 (.leaf d) flags = none

theorem sym_put_get_store_laws (hr : SymReachable h) (hcs : splitstr key [','] = cs)
    (hne : cs ≠ []) (hkey : key.head? ≠ some ',') (d : α) : SymStoreLaws h key cs d := by
  have hinv := hr.inv
  have h0 : (0 : Int) ≠ putReplace := by decide
  have hf := splitstrFree_of_head hkey
  obtain ⟨hput, hreplace⟩ := hinv.symPut_outcomes hf hcs hne d
  refine ⟨hput, fun hb => symPut_of_bound hf hcs hne hb h0, symPut_of_leafAbove hf hcs, hreplace,
    ?_, ?_, hinv.keys_nodup, fun t => seqKeys_eq t,
    fun _ _ _ hp t => hinv.symKeys_put hinv.root_lt hp t, ?_, ?_, ?_⟩
  · -- a second key that faults faults before and after the put
    intro flags h' r hp key2
    cases hf2 : splitstrFree key2 [','] with
    | none => exact fun _ _ => by rw [symGet_of_fault hf2, symGet_of_fault hf2]
    | some u => exact (hinv.symGet_put hcs hne hp key2 hf2).1
  · intro flags h' hp key2 hk2 hq
    exact (hinv.symGet_put hcs hne hp key2 (splitstrFree_of_head hk2)).2 rfl hq
  · intro key2 hk2 hq hb
    rw [symGet_eq (splitstrFree_of_head hk2) rfl hq, hb]
  · intro key2 hq
    exact ⟨symGet_of_nil hq, (symPut_of_nil hq).1, (symPut_of_nil hq).2 0 h0⟩
  · intro key2 hk2 hq
    have hf2 := splitstrFree_of_comma hk2 hq
    exact ⟨symGet_of_fault hf2, fun _ => symPut_of_fault hf2⟩

theorem sym_put_get_store_laws_ab :
    SymStoreLaws (symOpen ([] : SymHeap Nat)).1 "a,b".toList ["a".toList, "b".toList] 7 :=
  sym_put_get_store_laws .open (by decide) (by decide) (by decide) 7

-- `,a` names the same component as `a`, but freeing its split aborts
example : symGet (symOpen ([] : SymHeap Nat)).1 0 ",a".toList = none ∧
    symPut (symOpen ([] : SymHeap Nat)).1 0 ",a".toList (.leaf 7) 0 = none := by
  decide

/-- `sym_put` of `a,b` on an empty table binds its prefix `a` to a new table: `sym_get` of `a`,
which does not extend `a,b`, returns `NULL` before and the new table after. -/
theorem sym_put_binds_prefix :
    symGet (symOpen ([] : SymHeap Nat)).1 0 "a".toList = some none ∧
      ∃ h', symPut (symOpen ([] : SymHeap Nat)).1 0 "a,b".toList (.leaf 7) 0 = some (h', 0) ∧
        symGet h' 0 "a".toList = some (some (.table 1)) :=
  ⟨by decide, _, rfl, by decide⟩

end Laws

end Ltp
