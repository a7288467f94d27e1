import Ltp.Library.CText
import Ltp.Library.Lex

/-!
# The rts scanner of `ltp-scanner` (`scan.l`)

`ltp-scanner` reads the report `pan` writes with a flex scanner: markers such as
`<<<test_start>>>` alone on a line move it between its start conditions (`KEY` for keyword lines,
`OUT` for the output of a test, `CUTS` for CUTS results) and between the scan modes it checks with
`check_mode`, keyword lines `key=value` and `key="value"` fill a table `keys`, and
`<<<test_end>>>` hands the table to `test_end`.

The scanner is a `Lex.Scanner`: its fourteen rules in the order of `scan.l`, each the length of its
match at the head of the input.  Every pattern of `scan.l` is a sequence of pieces where each
repeated class is disjoint from what follows it, so its longest match is the greedy one
(`Lex.greedyLen`); `$` is a newline after the match, which the match does not take.  The state
holds the start condition, `scan_mode`, the table (`none` for `NULL`), `yylineno`, whether the
input is at the start of a line, and what the scanner reports: `PARSE ERROR`s and the tables
given to `test_end`.

A table is the list of its bindings in the order they were made; `sym_put(keys, key, data, 0)`
leaves a key that is bound alone, so the first binding wins.  The keys of the rules hold no `,`, so
each is one level of the `SYM` table.
-/

namespace Ltp

open CText Lex

/-- The start conditions of `scan.l`: `INITIAL` and the inclusive `KEY`, `OUT` and `CUTS`. -/
inductive StartCond
  | initial
  | key
  | out
  | cuts
  deriving DecidableEq, Repr

/-- `scan_mode`: `SCAN_OUTSIDE`, `SCAN_RTSKEY`, `SCAN_TSTKEY`, `SCAN_OUTPUT`. -/
inductive ScanMode
  | outside
  | rtskey
  | tstkey
  | output
  deriving DecidableEq, Repr

/-- The rules of `scan.l`, in their order. -/
inductive ScanRule
  | rtsKeywordStart
  | rtsKeywordEnd
  | testStart
  | testOutput
  | execStatus
  | testEnd
  | keywordQuoted
  | keyword
  | keySpace
  | textLine
  | cutsResult
  | cutsResultR
  | anyChar
  | newline
  deriving DecidableEq, Repr

/-- A table of keywords, its bindings in the order they were made; `none` is `NULL`. -/
abbrev KeyTable := Option (List (List Char × List Char))

/-- What the scanner reports: a `PARSE ERROR` (line, matched text, mode), the table handed to
`test_end`, and the table stored as `_RTS`. -/
inductive ScanEvent
  | parseError (line : Nat) (text : List Char) (mode : ScanMode)
  | testEnd (keys : KeyTable)
  | rtsKeywords (keys : KeyTable)
  deriving DecidableEq, Repr

/-- The state of the scanner between two tokens. -/
structure ScanState where
  sc : StartCond
  mode : ScanMode
  keys : KeyTable
  line : Nat
  bol : Bool
  events : List ScanEvent
  deriving DecidableEq, Repr

/-- The state before the first byte: `INITIAL`, `SCAN_OUTSIDE`, no table, line 1. -/
def scanInit : ScanState := ⟨.initial, .outside, none, 1, true, []⟩

/-! ### The keyword table -/

/-- `sym_put(keys, key, data, 0)`: a new key is added, a bound one is left as it is, and a `NULL`
table stays `NULL`. -/
def keysPut (keys : KeyTable) (k v : List Char) : KeyTable :=
  keys.map fun kv => if kv.any (·.1 == k) then kv else kv ++ [(k, v)]

/-- `sym_get(keys, key)`. -/
def keysGet (keys : KeyTable) (k : List Char) : Option (List Char) :=
  keys.bind fun kv => (kv.find? (·.1 == k)).map (·.2)

/-! ### The rules -/

/-- `[a-zA-Z_-]`, the characters of a keyword. -/
def isKeyName (c : Char) : Bool :=
  c.isAlpha || c == '_' || c == '-'

/-- `{W}`: `[a-zA-Z0-9_-]`. -/
def isWordChar (c : Char) : Bool :=
  c.isAlpha || c.isDigit || c == '_' || c == '-'

/-- `{S}`: `[ \t]`. -/
def isBlank (c : Char) : Bool :=
  c == ' ' || c == '\t'

/-- `^m$` for a marker `m`: the marker at the start of a line, with a newline after it. -/
def markerLen (m : List Char) (bol : Bool) (s : List Char) : Nat :=
  if bol ∧ (m ++ ['\n']).isPrefixOf s then m.length else 0

/-- `[a-zA-Z_-]+=\"[^\"\n]+\"`. -/
def quotedPieces : List (Piece Char) :=
  [.many isKeyName, .one (· == '='), .one (· == '"'), .many (fun c => c != '"' && c != '\n'),
    .one (· == '"')]

/-- `[a-zA-Z_-]+=[^\t \n]+`. -/
def keywordPieces : List (Piece Char) :=
  [.many isKeyName, .one (· == '='), .many (fun c => c != '\t' && c != ' ' && c != '\n')]

/-- `^{W}{S}{UI}{S}{A}{S}":"`. -/
def cutsPieces : List (Piece Char) :=
  [.many isWordChar, .many isBlank, .many Char.isDigit, .many isBlank, .many Char.isAlpha,
    .many isBlank, .one (· == ':')]

/-- `^{W}{S}{UI}-{UI}{S}{A}{S}":"`. -/
def cutsRangePieces : List (Piece Char) :=
  [.many isWordChar, .many isBlank, .many Char.isDigit, .one (· == '-'), .many Char.isDigit,
    .many isBlank, .many Char.isAlpha, .many isBlank, .one (· == ':')]

/-- `^.+$`: a whole line that is not empty. -/
def textLineLen (bol : Bool) (s : List Char) : Nat :=
  let v := spanLen (· != '\n') s
  if bol ∧ 0 < v ∧ (s.drop v).head? = some '\n' then v else 0

/-- A rule anchored with `^`. -/
def anchoredLen (ps : List (Piece Char)) (bol : Bool) (s : List Char) : Nat :=
  if bol then (greedyLen ps s).getD 0 else 0

/-- The markers `pan` and the rts driver write. -/
def rtsKeywordStartMark : List Char := "<<<rts_keyword_start>>>".toList
def rtsKeywordEndMark : List Char := "<<<rts_keyword_end>>>".toList
def testStartMark : List Char := "<<<test_start>>>".toList
def testOutputMark : List Char := "<<<test_output>>>".toList
def execStatusMark : List Char := "<<<execution_status>>>".toList
def testEndMark : List Char := "<<<test_end>>>".toList

/-- The rule of a marker. -/
def markerRule (m : List Char) (t : ScanRule) : Rule Char ScanRule :=
  ⟨markerLen m, t⟩

/-- The six marker rules, active in every start condition. -/
def markerRules : List (Rule Char ScanRule) :=
  [markerRule rtsKeywordStartMark .rtsKeywordStart, markerRule rtsKeywordEndMark .rtsKeywordEnd,
    markerRule testStartMark .testStart, markerRule testOutputMark .testOutput,
    markerRule execStatusMark .execStatus, markerRule testEndMark .testEnd]

/-- `<KEY>[a-zA-Z_-]+=\"[^\"\n]+\"`. -/
def quotedRule : Rule Char ScanRule :=
  ⟨fun _ s => (greedyLen quotedPieces s).getD 0, .keywordQuoted⟩

/-- `<KEY>[a-zA-Z_-]+=[^\t \n]+`. -/
def keywordRule : Rule Char ScanRule :=
  ⟨fun _ s => (greedyLen keywordPieces s).getD 0, .keyword⟩

/-- `<KEY>[ \t\n]*`. -/
def keySpaceRule : Rule Char ScanRule :=
  ⟨fun _ s => spanLen (fun c => c == ' ' || c == '\t' || c == '\n') s, .keySpace⟩

/-- `<OUT>^.+$`. -/
def textLineRule : Rule Char ScanRule :=
  ⟨textLineLen, .textLine⟩

/-- `.` -/
def anyCharRule : Rule Char ScanRule :=
  ⟨fun _ s => if s.head?.any (· != '\n') then 1 else 0, .anyChar⟩

/-- `"\n"` -/
def newlineRule : Rule Char ScanRule :=
  ⟨fun _ s => if s.head? = some '\n' then 1 else 0, .newline⟩

/-- The rules active in a start condition, in the order of `scan.l`. -/
def scanRules : StartCond → List (Rule Char ScanRule)
  | .initial => markerRules ++ [anyCharRule, newlineRule]
  | .key => markerRules ++ [quotedRule, keywordRule, keySpaceRule, anyCharRule, newlineRule]
  | .out => markerRules ++ [textLineRule, anyCharRule, newlineRule]
  | .cuts => markerRules ++ [⟨anchoredLen cutsPieces, .cutsResult⟩,
      ⟨anchoredLen cutsRangePieces, .cutsResultR⟩, anyCharRule, newlineRule]

/-! ### The actions -/

/-- `check_mode(scan_mode, ...)`: a `PARSE ERROR` when the mode is none of the expected ones. -/
def checkMode (st : ScanState) (text : List Char) (expected : List ScanMode) : ScanState :=
  if st.mode ∈ expected then st
  else { st with events := st.events ++ [.parseError st.line text st.mode] }

/-- The key and the text after `=` of a keyword token: `cont = strchr(yytext, '='); *cont++ = 0`. -/
def splitKeyword (text : List Char) : List Char × List Char :=
  (text.takeWhile (· != '='), (text.dropWhile (· != '=')).drop 1)

/-- The value of a quoted keyword: the quotes after `=` and at the end taken off. -/
def unquote (cont : List Char) : List Char :=
  let cont := if cont.head? = some '"' then cont.drop 1 else cont
  if cont.getLast? = some '"' then cont.dropLast else cont

/-- `test_output(ctag, keys)`: an `analysis` keyword that starts with `cuts` in any case turns on
the `CUTS` start condition. -/
def testOutputSc (keys : KeyTable) : StartCond :=
  match keysGet keys "analysis".toList with
  | some at_ => if (at_.take 4).map Char.toLower = "cuts".toList then .cuts else .out
  | none => .out

/-- The action of a rule on the text it matched, after `yylineno` and the start of line have moved
past the text. -/
def ruleAct (st : ScanState) (r : ScanRule) (text : List Char) : ScanState :=
  match r with
  | .rtsKeywordStart =>
    let st := checkMode st text [.outside]
    { st with sc := .key, mode := .rtskey, keys := some [] }
  | .rtsKeywordEnd =>
    let st := checkMode st text [.rtskey]
    let events := st.events ++ [.rtsKeywords st.keys]
    { st with sc := .initial, mode := .outside, keys := none, events := events }
  | .testStart =>
    let st := checkMode st text [.outside]
    { st with sc := .key, mode := .tstkey, keys := some [("_Start_line".toList, fmtInt st.line)] }
  | .testOutput =>
    let st := checkMode st text [.tstkey]
    { st with sc := testOutputSc st.keys, mode := .output }
  | .execStatus =>
    let st := checkMode st text [.tstkey, .output]
    { st with sc := .key, mode := .tstkey }
  | .testEnd =>
    let st := checkMode st text [.tstkey]
    let keys := keysPut st.keys "_End_line".toList (fmtInt st.line)
    let events := st.events ++ [.testEnd keys]
    { st with sc := .initial, mode := .outside, keys := none, events := events }
  | .keywordQuoted =>
    { st with keys := keysPut st.keys (splitKeyword text).1 (unquote (splitKeyword text).2) }
  | .keyword => { st with keys := keysPut st.keys (splitKeyword text).1 (splitKeyword text).2 }
  | _ => st

/-- One token: `yylineno` counts the newlines of the text, and the next token starts a line when
the text ends with a newline. -/
def scanAct (st : ScanState) (r : ScanRule) (text : List Char) : ScanState :=
  ruleAct { st with line := st.line + text.count '\n', bol := text.getLast? = some '\n' } r text

/-- The scanner of `scan.l`. -/
def rtsScanner : Scanner Char ScanRule ScanState :=
  ⟨fun st => scanRules st.sc, fun st => st.bol, scanAct⟩

/-- `scanner(tags)`: `yylex()` until the end of the input; every token takes a byte at least, so as
many rounds as bytes reach the end. -/
def scanner (s : List Char) : ScanState :=
  (run rtsScanner s.length scanInit s).1

end Ltp
