import Qemacs.Display.Colorize
import Qemacs.Command.Sort
import Qemacs.Buffer.Undo

/-!
# C mode colouring

`c_colorize_line` (clang.c) colours one line of a C buffer and hands on a
state to the next line: the kind of comment, string or regex the line ends
in, the comment nesting level and whether a preprocessor line goes on. A line
that starts in a state goes straight to the code that parses that token, and
the main loop then switches on each code point.

The model is C mode: flavor `CLANG_C` with `c_mode`'s flags, whose keyword
and type tables are empty; the flavor's own branches for other languages are
left out. The line is followed by a NUL, which the loops that look ahead stop
at. The buffer's tags, which the identifier branch adds, are left out.

A string or character literal that is not closed keeps its bit of the state
at the end of the line, and only `IN_C_PREPROCESS` is cleared there, so the
next line resumes inside the literal whether or not the line ended in a
backslash (`cColorizeLine_unterminated_literal`).
-/

namespace Qemacs

/-! ## Styles, states and flags -/

def C_STYLE_DEFAULT : UInt32 := 0
def C_STYLE_COMMENT : UInt32 := 14
def C_STYLE_PREPROCESS : UInt32 := 15
def C_STYLE_STRING : UInt32 := 16
def C_STYLE_STRING_Q : UInt32 := 17
def C_STYLE_REGEX : UInt32 := 17
def C_STYLE_STRING_BQ : UInt32 := 16
def C_STYLE_KEYWORD : UInt32 := 18
def C_STYLE_NUMBER : UInt32 := 19
def C_STYLE_FUNCTION : UInt32 := 20
def C_STYLE_VARIABLE : UInt32 := 21
def C_STYLE_TYPE : UInt32 := 22

def IN_C_COMMENT : Nat := 0x03
def IN_C_COMMENT1 : Nat := 0x01
def IN_C_COMMENT2 : Nat := 0x02
def IN_C_COMMENT3 : Nat := 0x03
def IN_C_STRING : Nat := 0x1C
def IN_C_STRING_D : Nat := 0x04
def IN_C_STRING_Q : Nat := 0x08
def IN_C_STRING_BQ : Nat := 0x0C
def IN_C_STRING_D3 : Nat := 0x14
def IN_C_PREPROCESS : Nat := 0x20
def IN_C_REGEX : Nat := 0x40
def IN_C_CHARCLASS : Nat := 0x80
def IN_C_COMMENT_SHIFT : Nat := 8
def IN_C_COMMENT_LEVEL : Nat := 0x700

def CLANG_C : Nat := 0
def CLANG_C_TYPES : Nat := 0x00080
def CLANG_C_KEYWORDS : Nat := 0x00100
def CLANG_REGEX : Nat := 0x00800
def CLANG_WLITERALS : Nat := 0x01000
def CLANG_PREPROC : Nat := 0x02000
def CLANG_STR3 : Nat := 0x08000
def CLANG_LINECONT : Nat := 0x10000
def CLANG_NEST_COMMENTS : Nat := 0x20000
def CLANG_T_TYPES : Nat := 0x40000
def CLANG_C_DEFS : Nat := 0x80000

/-- `CLANG_CC`, all C language features. -/
def CLANG_CC : Nat :=
  CLANG_LINECONT ||| CLANG_WLITERALS ||| CLANG_PREPROC ||| CLANG_C_KEYWORDS ||| CLANG_C_TYPES |||
    CLANG_T_TYPES ||| CLANG_C_DEFS

/-- `c_mode.colorize_flags`. -/
def cModeFlags : Nat := CLANG_C ||| CLANG_CC

/-- `mode_flags & flag`. -/
def cFlag (flag : Nat) : Bool := cModeFlags &&& flag ≠ 0

/-! ## Characters and words -/

/-- `str[k]`: the code points of the line, then a NUL. -/
def chAt (str : List UInt32) (k : Nat) : UInt32 := str.getD k 0

theorem chAt_of_le {str : List UInt32} {k : Nat} (h : str.length ≤ k) : chAt str k = 0 := by
  simp [chAt, List.getD_eq_getElem?_getD, List.getElem?_eq_none h]

theorem lt_of_chAt_ne_zero {str : List UInt32} {k : Nat} (h : chAt str k ≠ 0) : k < str.length := by
  by_contra hk
  exact h (chAt_of_le (by omega))

/-- `qe_isalnum`: `qe_digit_value(c) < 36`. -/
def qeIsalnumChar (c : UInt32) : Bool := qeIsdigitChar c || qeIsalphaChar c

/-- `qe_isalnum_`. -/
def qeIsalnum_Char (c : UInt32) : Bool := qeIsalnumChar c || c = 0x5f

/-- `qe_isalpha_`. -/
def qeIsalpha_Char (c : UInt32) : Bool := qeIsalphaChar c || c = 0x5f

/-- `is_c_identifier_start` for `CLANG_C`. -/
def isCIdentifierStart (c : UInt32) : Bool := qeIsalpha_Char c || c = 0x24 || c = 0x40

/-- `i` moved past the code points from `i` on that satisfy `p`: the loops
`while (p(str[i])) i++`, which stop at the NUL after the line. -/
def skipWhile (p : UInt32 → Bool) (str : List UInt32) (i : Nat) : Nat :=
  i + ((str.drop i).takeWhile p).length

/-- `cp_skip_blanks(str, i, n)`. -/
def cpSkipBlanks (str : List UInt32) (i : Nat) : Nat := skipWhile qeIsblankChar str i

/-- `strfind(list, s)` for a non-empty `s`: a word of the `|`-separated list. -/
def strfind (list s : List UInt32) : Bool := s ∈ list.splitOn 0x7c

/-- `has_c_decl`: past blanks and stars, an identifier starts. -/
def hasCDecl (str : List UInt32) (i : Nat) : Bool :=
  isCIdentifierStart (chAt str (skipWhile (fun c => c = 0x20 || c = 9 || c = 0x2a) str i))

/-- The code points of an ASCII text. -/
def cpText (s : String) : List UInt32 := s.toList.map fun c => c.toNat.toUInt32

/-- `c_keywords`. -/
def cKeywords : List UInt32 := cpText
  ("auto|break|case|const|continue|default|do|else|enum|extern|for|goto|" ++
   "if|inline|register|restrict|return|sizeof|static|struct|switch|" ++
   "typedef|union|volatile|while|" ++
   "_Alignas|_Alignof|_Atomic|_Generic|_Noreturn|_Pragma|" ++
   "_Static_assert|_Thread_local|" ++
   "alignas|alignof|static_assert|thread_local|" ++
   "constexpr|false|nullptr|true|typeof|typeof_unqual|" ++
   "countof|")

/-- `c_types`. -/
def cTypes : List UInt32 := cpText
  ("char|double|float|int|long|unsigned|short|signed|void|" ++
   "FILE|va_list|jmp_buf|" ++
   "_Bool|_Complex|_Imaginary|bool|complex|imaginary|" ++
   "_BitInt|_Decimal128|_Decimal32|_Decimal64|")

/-! ## The lexer -/

/-- The variables of `c_colorize_line` that live from token to token. -/
structure CLexer where
  i : Nat
  state : Nat
  style : UInt32
  style0 : UInt32
  typeDecl : Bool
  typeStart : Nat
  sbuf : List UInt32
  deriving DecidableEq, Repr

/-- `SET_STYLE(sbuf, a, b, style)`. -/
def setStyle (sbuf : List UInt32) (a b : Nat) (style : UInt32) : List UInt32 :=
  sbuf.mapIdx fun k s => if a ≤ k ∧ k < b then style else s

/-- `SET_STYLE1(sbuf, a, style)`. -/
def setStyle1 (sbuf : List UInt32) (a : Nat) (style : UInt32) : List UInt32 := sbuf.set a style

@[simp] theorem length_setStyle (sbuf : List UInt32) (a b : Nat) (style : UInt32) :
    (setStyle sbuf a b style).length = sbuf.length :=
  List.length_mapIdx

@[simp] theorem length_setStyle1 (sbuf : List UInt32) (a : Nat) (style : UInt32) :
    (setStyle1 sbuf a style).length = sbuf.length :=
  List.length_set

section Tokens

variable (str : List UInt32)

/-- `parse_comment1`: the comment runs to the end of the line, and goes on on
the next one after a final backslash. -/
def parseComment1 (start : Nat) (s : CLexer) : CLexer :=
  let n := str.length
  let state := s.state ||| IN_C_COMMENT1
  let state := if chAt str (n - 1) ≠ 0x5c then clearBits state IN_C_COMMENT1 else state
  { s with i := n, state := state, style := C_STYLE_COMMENT,
           sbuf := setStyle s.sbuf start n C_STYLE_COMMENT }

/-- The loop of a block comment whose ends are `/` `mark` and `mark` `/`,
nested when `nest`: the index after it, the nesting level, and whether the
comment ended. -/
def blockCommentLoop (mark : UInt32) (nest : Bool) (i level : Nat) : Nat × Nat × Bool :=
  if i < str.length then
    if chAt str i = 0x2f ∧ chAt str (i + 1) = mark ∧ nest then
      blockCommentLoop mark nest (i + 2) (level + 1)
    else if chAt str i = mark ∧ chAt str (i + 1) = 0x2f then
      if level = 0 then (i + 2, level, true)
      else blockCommentLoop mark nest (i + 2) (level - 1)
    else blockCommentLoop mark nest (i + 1) level
  else (i, level, false)
termination_by str.length - i

/-- The common end of `parse_comment2` and `parse_comment3`: the level is
kept in the state, at most 7. -/
def endBlockComment (start : Nat) (bit : Nat) (s : CLexer) (r : Nat × Nat × Bool) : CLexer :=
  let (i, level, closed) := r
  let (state, style) := if closed then (clearBits s.state bit, s.style0) else (s.state, C_STYLE_COMMENT)
  { s with i := i, style := style,
           state := clearBits state IN_C_COMMENT_LEVEL ||| (min level 7 <<< IN_C_COMMENT_SHIFT),
           sbuf := setStyle s.sbuf start i C_STYLE_COMMENT }

/-- `parse_comment2`, a C comment; nested only with `CLANG_NEST_COMMENTS`. -/
def parseComment2 (start : Nat) (s : CLexer) : CLexer :=
  let s := { s with state := s.state ||| IN_C_COMMENT2 }
  endBlockComment start IN_C_COMMENT2 s <|
    blockCommentLoop str 0x2a (cFlag CLANG_NEST_COMMENTS) s.i
      ((s.state &&& IN_C_COMMENT_LEVEL) >>> IN_C_COMMENT_SHIFT)

/-- `parse_comment3`, a nested D comment. -/
def parseComment3 (start : Nat) (s : CLexer) : CLexer :=
  endBlockComment start IN_C_COMMENT3 s <|
    blockCommentLoop str 0x2b true s.i ((s.state &&& IN_C_COMMENT_LEVEL) >>> IN_C_COMMENT_SHIFT)

/-- The loop of `parse_regex` up to `delim`, out of character classes: the
index after it, the state with `IN_C_CHARCLASS`, and whether it ended. -/
def cRegexLoop (delim : UInt32) (i state : Nat) : Nat × Nat × Bool :=
  if i < str.length then
    let c := chAt str i
    if c = 0x5c then
      if i + 1 < str.length then cRegexLoop delim (i + 2) state else cRegexLoop delim (i + 1) state
    else if state &&& IN_C_CHARCLASS ≠ 0 then
      if c = 0x5d then cRegexLoop delim (i + 1) (clearBits state IN_C_CHARCLASS)
      else cRegexLoop delim (i + 1) state
    else if c = 0x5b then cRegexLoop delim (i + 1) (state ||| IN_C_CHARCLASS)
    else if c = delim then (skipWhile qeIsalnum_Char str (i + 1), state, true)
    else cRegexLoop delim (i + 1) state
  else (i, state, false)
termination_by str.length - i

/-- `parse_regex`. -/
def parseRegex (start : Nat) (delim : UInt32) (s : CLexer) : CLexer :=
  let (i, state, closed) := cRegexLoop str delim s.i s.state
  let (state, style) := if closed then (clearBits state IN_C_REGEX, s.style0) else (state, C_STYLE_REGEX)
  { s with i := i, state := state, style := style, sbuf := setStyle s.sbuf start i C_STYLE_REGEX }

/-- The loop of `string:`: a backslash escapes the next code point; the index
after the literal and whether it was closed. -/
def stringLoop (delim : UInt32) (i : Nat) : Nat × Bool :=
  if i < str.length then
    let c := chAt str i
    if c = 0x5c then
      if i + 1 ≥ str.length then (i + 1, false) else stringLoop delim (i + 2)
    else if c = delim then (i + 1, true)
    else stringLoop delim (i + 1)
  else (i, false)
termination_by str.length - i

/-- `string:` after `parse_string` or `parse_string_q`: a literal of kind
`kind` and style `style1`, in the preprocessor style on a preprocessor line. -/
def parseString (start kind : Nat) (style1 delim : UInt32) (s : CLexer) : CLexer :=
  let state := s.state ||| kind
  let (i, closed) := stringLoop str delim s.i
  let (state, style) := if closed then (clearBits state IN_C_STRING, s.style0) else (state, style1)
  let style1 := if state &&& IN_C_PREPROCESS ≠ 0 then C_STYLE_PREPROCESS else style1
  { s with i := i, state := state, style := style, sbuf := setStyle s.sbuf start i style1 }

/-- The loop of `parse_string_bq`: to the next backquote. -/
def bqLoop (i : Nat) : Nat × Bool :=
  if i < str.length then
    if chAt str i = 0x60 then (i + 1, true) else bqLoop (i + 1)
  else (i, false)
termination_by str.length - i

/-- `parse_string_bq`, reached from the state only in C mode. -/
def parseStringBq (start : Nat) (s : CLexer) : CLexer :=
  let state := s.state ||| IN_C_STRING_BQ
  let (i, closed) := bqLoop str s.i
  let state := if closed then clearBits state IN_C_STRING else state
  let style1 := if state &&& IN_C_PREPROCESS ≠ 0 then C_STYLE_PREPROCESS else C_STYLE_STRING_BQ
  { s with i := i, state := state, sbuf := setStyle s.sbuf start i style1 }

/-- The loop of `parse_string3`: to three double quotes. -/
def string3Loop (i : Nat) : Nat × Bool :=
  if i < str.length then
    let c := chAt str i
    if c = 0x5c then
      if i + 1 < str.length then string3Loop (i + 2) else string3Loop (i + 1)
    else if c = 0x22 ∧ chAt str (i + 1) = 0x22 ∧ chAt str (i + 2) = 0x22 then (i + 3, true)
    else string3Loop (i + 1)
  else (i, false)
termination_by str.length - i

/-- `parse_string3`, reached from the state only in C mode. -/
def parseString3 (start : Nat) (s : CLexer) : CLexer :=
  let state := s.state ||| IN_C_STRING_D3
  let (i, closed) := string3Loop str s.i
  let (state, style) := if closed then (clearBits state IN_C_STRING, s.style0) else (state, s.style)
  { s with i := i, state := state, style := style, sbuf := setStyle s.sbuf start i C_STYLE_STRING }

/-- The loop of a number: alphanumerics, a quote between digits, and a dot
that does not start `..`. -/
def numberLoop (i : Nat) : Nat :=
  if h : qeIsalnum_Char (chAt str i) ∨ (chAt str i = 0x27 ∧ qeIsalnumChar (chAt str (i + 1))) ∨
      (chAt str i = 0x2e ∧ chAt str (i + 1) ≠ 0x2e) then numberLoop (i + 1)
  else i
termination_by str.length - i
decreasing_by
  have hz : chAt str i ≠ 0 := by
    rcases h with h | ⟨h, -⟩ | ⟨h, -⟩
    · intro h0
      rw [h0] at h
      exact absurd h (by decide)
    · rw [h]; decide
    · rw [h]; decide
  have := lt_of_chAt_ne_zero hz
  omega

end Tokens

/-- What follows a case of the switch: `break` sets the style of the code
point at `start`, `continue` does not, and `goto reswitch` switches again on
the code point at the new index. -/
inductive CNext
  | brk (s : CLexer)
  | cont (s : CLexer)
  | reswitch (s : CLexer)

section Cases

variable (str : List UInt32) (partialFile : Bool) (indent : Nat)

/-- The identifier branch from the end `i` of an identifier that starts at
`start`. -/
def cIdentifier (start : Nat) (s : CLexer) : CNext :=
  let i := s.i
  let isMember := start > 0 ∧ chAt str (start - 1) = 0x2e
  let kbuf := ((str.drop start).take (i - start)).take 63
  if (chAt str i = 0x27 ∨ chAt str i = 0x22) ∧ cFlag CLANG_WLITERALS ∧ strfind (cpText "L|u|U|u8") kbuf then
    -- an encoding prefix: the literal is switched on with the prefix in it
    .reswitch s
  else if ¬isMember ∧ (strfind [] kbuf ∨ (cFlag CLANG_C_KEYWORDS ∧ strfind cKeywords kbuf)) then
    let typeStart := if strfind kbuf (cpText "const|volatile|extern|inline|static|register|typedef|constexpr")
      then i + 1 else s.typeStart
    .cont { s with typeStart := typeStart, sbuf := setStyle s.sbuf start i C_STYLE_KEYWORD }
  else
    let i1 := cpSkipBlanks str i
    let i2 := skipWhile (fun c => c = 0x2a || qeIsblankChar c) str i1
    -- `c_mode.types` is empty: the empty pattern matches no identifier exactly
    if ¬isMember ∧ ¬(chAt str i = 0x2e ∨ chAt str i = 0x28 ∨ chAt str i = 0x3a) ∧
        (kbuf = [] ∨ (cFlag CLANG_C_TYPES ∧ strfind cTypes kbuf) ∨
          (cFlag CLANG_T_TYPES ∧ kbuf.drop (kbuf.length - 2) = cpText "_t") ∨
          (cFlag CLANG_C_DEFS ∧ (indent = 0 ∨ s.typeStart = start) ∧ hasCDecl str i)) then
      -- if not cast, assume type declaration
      let typeDecl := if chAt str i2 ≠ 0x29 then true else s.typeDecl
      let style1 := if chAt str i1 = 0x28 then C_STYLE_FUNCTION else C_STYLE_TYPE
      .cont { s with typeDecl := typeDecl, sbuf := setStyle s.sbuf start i style1 }
    else if chAt str i1 = 0x28 then
      .cont { s with sbuf := setStyle s.sbuf start i C_STYLE_FUNCTION }
    else if cFlag CLANG_CC then
      let typeDecl := if start = 0 ∧ qeIsalpha_Char (chAt str i) then true else s.typeDecl
      let sbuf := if typeDecl then
          setStyle s.sbuf start i (if start = 0 then C_STYLE_TYPE else C_STYLE_VARIABLE)
        else s.sbuf
      .cont { s with typeDecl := typeDecl, sbuf := sbuf }
    else .cont s

/-- The `default:` case: numbers and identifiers, outside preprocessor lines. -/
def cNormal (start : Nat) (c : UInt32) (s : CLexer) : CNext :=
  if s.state &&& IN_C_PREPROCESS ≠ 0 then .brk s
  else if qeIsdigitChar c ∨ (c = 0x2e ∧ qeIsdigitChar (chAt str s.i)) then
    let i := numberLoop str s.i
    .cont { s with i := i, sbuf := setStyle s.sbuf start i C_STYLE_NUMBER }
  else if isCIdentifierStart c then
    cIdentifier str indent start { s with i := skipWhile qeIsalnum_Char str s.i }
  else .brk s

/-- `reswitch: c = str[i++]; switch (c)` for C mode, the token starting at
`start`. -/
def cSwitch (start : Nat) (s : CLexer) : CNext :=
  let n := str.length
  let c := chAt str s.i
  let s := { s with i := s.i + 1 }
  if c = 0x2a then
    -- a lone star at the start of a line of a shell buffer opens a comment
    if start = indent ∧ partialFile ∧ (s.i = n ∨ chAt str s.i = 0x20 ∨ chAt str s.i = 0x2f) then
      .cont (parseComment2 str start { s with i := s.i - 1 })
    else .brk s
  else if c = 0x2f then
    if chAt str s.i = 0x2a then .cont (parseComment2 str start { s with i := s.i + 1 })
    else if chAt str s.i = 0x2f then .cont (parseComment1 str start s)
    else .brk s
  else if c = 0x23 then
    if start = 0 ∧ chAt str s.i = 0x21 then
      -- a shebang line
      .brk { s with i := n, style := C_STYLE_PREPROCESS, style0 := C_STYLE_PREPROCESS,
                    sbuf := setStyle s.sbuf start n C_STYLE_PREPROCESS }
    else if cFlag CLANG_PREPROC then
      .brk { s with state := s.state ||| IN_C_PREPROCESS, style := C_STYLE_PREPROCESS,
                    style0 := C_STYLE_PREPROCESS }
    else .brk s
  else if c = 0x27 then .cont (parseString str start IN_C_STRING_Q C_STYLE_STRING_Q 0x27 s)
  else if c = 0x22 then .cont (parseString str start IN_C_STRING_D C_STYLE_STRING 0x22 s)
  else if c = 0x3d then .brk { s with typeDecl := false }
  -- the cases of other flavors
  else if c = 0x25 ∨ c = 0x3c ∨ c = 0x28 ∨ c = 0x7b ∨ c = 0x60 then .brk s
  else cNormal str indent start c s

end Cases

/-! ## Progress

Every token moves past the code point the switch reads, so the loops end. -/

/-- The lexer a case of the switch goes on with. -/
def CNext.lexer : CNext → CLexer
  | .brk s => s
  | .cont s => s
  | .reswitch s => s

@[simp] theorem CNext.lexer_brk (s : CLexer) : (CNext.brk s).lexer = s := rfl

@[simp] theorem CNext.lexer_cont (s : CLexer) : (CNext.cont s).lexer = s := rfl

@[simp] theorem CNext.lexer_reswitch (s : CLexer) : (CNext.reswitch s).lexer = s := rfl

theorem le_skipWhile (p : UInt32 → Bool) (str : List UInt32) (i : Nat) : i ≤ skipWhile p str i :=
  Nat.le_add_right _ _

section Loops

variable (str : List UInt32)

theorem le_blockCommentLoop (mark : UInt32) (nest : Bool) (i level : Nat) :
    i ≤ (blockCommentLoop str mark nest i level).1 := by
  fun_induction blockCommentLoop str mark nest i level with
  | case2 | case5 => simp
  | case1 | case3 | case4 => omega

/-- From inside the line the comment loop reads at least one code point. -/
theorem lt_blockCommentLoop (mark : UInt32) (nest : Bool) {i : Nat} (level : Nat)
    (h : i < str.length) : i < (blockCommentLoop str mark nest i level).1 := by
  rw [blockCommentLoop, if_pos h]
  split_ifs
  · exact Nat.lt_of_lt_of_le (by omega) (le_blockCommentLoop str mark nest _ _)
  · simp
  · exact Nat.lt_of_lt_of_le (by omega) (le_blockCommentLoop str mark nest _ _)
  · exact Nat.lt_of_lt_of_le (by omega) (le_blockCommentLoop str mark nest _ _)

theorem le_stringLoop (delim : UInt32) (i : Nat) : i ≤ (stringLoop str delim i).1 := by
  fun_induction stringLoop str delim i with
  | case1 | case3 | case5 => simp
  | case2 | case4 => omega

theorem le_numberLoop (i : Nat) : i ≤ numberLoop str i := by
  fun_induction numberLoop str i <;> omega

/-! The index each token parser ends at. -/

variable (start : Nat) (s : CLexer)

@[simp] theorem parseComment1_i : (parseComment1 str start s).i = str.length := rfl

@[simp] theorem endBlockComment_i (bit : Nat) (r : Nat × Nat × Bool) :
    (endBlockComment start bit s r).i = r.1 := rfl

@[simp] theorem parseRegex_i (delim : UInt32) :
    (parseRegex str start delim s).i = (cRegexLoop str delim s.i s.state).1 := rfl

@[simp] theorem parseString_i (kind : Nat) (style1 delim : UInt32) :
    (parseString str start kind style1 delim s).i = (stringLoop str delim s.i).1 := rfl

@[simp] theorem parseStringBq_i : (parseStringBq str start s).i = (bqLoop str s.i).1 := rfl

@[simp] theorem parseString3_i : (parseString3 str start s).i = (string3Loop str s.i).1 := rfl

theorem le_parseComment2_i : s.i ≤ (parseComment2 str start s).i :=
  le_blockCommentLoop str _ _ _ _

theorem lt_parseComment2_i (h : s.i < str.length) : s.i < (parseComment2 str start s).i :=
  lt_blockCommentLoop str _ _ _ h

end Loops

section Switch

variable (str : List UInt32) (partialFile : Bool) (indent : Nat)

/-- A reswitch comes only from an identifier followed by a quote, inside the
line. -/
theorem cIdentifier_reswitch {start : Nat} {s s' : CLexer}
    (h : cIdentifier str indent start s = .reswitch s') : s' = s ∧ s.i < str.length := by
  unfold cIdentifier at h
  dsimp only at h
  split_ifs at h with hq
  · cases h
    refine ⟨rfl, lt_of_chAt_ne_zero ?_⟩
    rcases hq.1 with hc | hc <;> rw [hc] <;> decide

@[simp] theorem cIdentifier_i (start : Nat) (s : CLexer) :
    (cIdentifier str indent start s).lexer.i = s.i := by
  -- every branch goes on with `s`, only its styles and types changed
  simp only [cIdentifier, apply_ite CNext.lexer, apply_ite CLexer.i, CNext.lexer_cont,
    CNext.lexer_reswitch, ite_self]

theorem le_cNormal_i (start : Nat) (c : UInt32) (s : CLexer) :
    s.i ≤ (cNormal str indent start c s).lexer.i := by
  unfold cNormal
  dsimp only
  split_ifs
  · exact Nat.le_refl _
  · exact le_numberLoop str _
  · rw [cIdentifier_i]
    exact le_skipWhile _ _ _
  · exact Nat.le_refl _

/-- Each case of the switch moves past the code point it switched on. -/
theorem cSwitch_i_gt (start : Nat) (s : CLexer) (h : s.i < str.length) :
    s.i < (cSwitch str partialFile indent start s).lexer.i := by
  unfold cSwitch
  dsimp only
  split_ifs
  · -- the lone star goes back to itself, and the comment loop reads it
    exact lt_parseComment2_i str start _ h
  · exact Nat.lt_succ_self _
  · exact Nat.lt_of_lt_of_le (show s.i < s.i + 1 + 1 by omega)
      (le_parseComment2_i str start { s with i := s.i + 1 + 1 })
  · exact h
  · exact Nat.lt_succ_self _
  · -- a shebang line is read to its end
    exact h
  · exact Nat.lt_succ_self _
  · exact Nat.lt_succ_self _
  · exact Nat.lt_of_lt_of_le (Nat.lt_succ_self _) (le_stringLoop str _ _)
  · exact Nat.lt_of_lt_of_le (Nat.lt_succ_self _) (le_stringLoop str _ _)
  · exact Nat.lt_succ_self _
  · exact Nat.lt_succ_self _
  · exact Nat.lt_of_lt_of_le (Nat.lt_succ_self _)
      (le_cNormal_i str indent start (chAt str s.i) { s with i := s.i + 1 })

theorem cSwitch_reswitch {start : Nat} {s s' : CLexer}
    (h : cSwitch str partialFile indent start s = .reswitch s') :
    s.i < s'.i ∧ s'.i < str.length := by
  unfold cSwitch at h
  dsimp only at h
  split_ifs at h
  -- only the identifier branch of `default:` switches again
  unfold cNormal at h
  dsimp only at h
  split_ifs at h
  obtain ⟨rfl, hlt⟩ := cIdentifier_reswitch str indent h
  exact ⟨Nat.lt_of_lt_of_le (Nat.lt_succ_self _) (le_skipWhile _ _ _), hlt⟩

end Switch

/-- One token from `start`: the switch, again after an encoding prefix, and
the style of `start` after a `break`. -/
def cToken (str : List UInt32) (partialFile : Bool) (indent start : Nat) (s : CLexer) : CLexer :=
  match _h : cSwitch str partialFile indent start s with
  | .brk s' => { s' with sbuf := setStyle1 s'.sbuf start s'.style }
  | .cont s' => s'
  | .reswitch s' => cToken str partialFile indent start s'
termination_by str.length - s.i
decreasing_by
  have := cSwitch_reswitch str partialFile indent _h
  omega

theorem cToken_i_gt (str : List UInt32) (partialFile : Bool) (indent start : Nat) (s : CLexer)
    (h : s.i < str.length) : s.i < (cToken str partialFile indent start s).i := by
  fun_induction cToken str partialFile indent start s with
  | case1 s s' hs =>
    have := cSwitch_i_gt str partialFile indent start s h
    rw [hs] at this
    exact this
  | case2 s s' hs =>
    have := cSwitch_i_gt str partialFile indent start s h
    rw [hs] at this
    exact this
  | case3 s s' hs ih =>
    have := cSwitch_reswitch str partialFile indent hs
    exact Nat.lt_trans this.1 (ih this.2)

/-! ## A line -/

section Line

variable (str : List UInt32) (partialFile : Bool)

/-- The main loop `while (i < n) { start = i; ... }`. -/
def cLoop (indent : Nat) (s : CLexer) : CLexer :=
  if _h : s.i < str.length then cLoop indent (cToken str partialFile indent s.i s) else s
termination_by str.length - s.i
decreasing_by
  have := cToken_i_gt str partialFile indent s.i s _h
  omega

/-- A line that starts in a state goes straight to the parser of its token. -/
def cResume (s : CLexer) : CLexer :=
  let state := s.state
  if state = 0 then s
  else
    let s := if state &&& IN_C_PREPROCESS ≠ 0 then
        { s with style := C_STYLE_PREPROCESS, style0 := C_STYLE_PREPROCESS } else s
    if state &&& IN_C_COMMENT ≠ 0 then
      if state &&& IN_C_COMMENT = IN_C_COMMENT1 then parseComment1 str 0 s
      else if state &&& IN_C_COMMENT = IN_C_COMMENT2 then parseComment2 str 0 s
      else parseComment3 str 0 s
    else if state &&& IN_C_STRING = IN_C_STRING_D then
      parseString str 0 IN_C_STRING_D C_STYLE_STRING 0x22 s
    else if state &&& IN_C_STRING = IN_C_STRING_Q then
      parseString str 0 IN_C_STRING_Q C_STYLE_STRING_Q 0x27 s
    else if state &&& IN_C_STRING = IN_C_STRING_BQ then parseStringBq str 0 s
    else if state &&& IN_C_STRING = IN_C_STRING_D3 then parseString3 str 0 s
    else if state &&& IN_C_REGEX ≠ 0 then parseRegex str 0 0x2f s
    else s

/-- `c_colorize_line` in C mode, from the state `state` at the start of the
line: the styles of its code points and of its end, and the state at its end. -/
def cColorizeLine (state : Nat) : List UInt32 × Nat :=
  let n := str.length
  let indent := cpSkipBlanks str 0
  let s : CLexer := ⟨0, state, C_STYLE_DEFAULT, C_STYLE_DEFAULT, false, indent, List.replicate (n + 1) 0⟩
  let s := if n = 0 then s else cLoop str partialFile indent (cResume str s)
  -- the_end: the style of the end of the line inside a token
  let sbuf := if s.state &&& (IN_C_COMMENT ||| IN_C_PREPROCESS ||| IN_C_STRING) ≠ 0 then
      setStyle1 s.sbuf n s.style else s.sbuf
  -- only a preprocessor line is ended, unless a backslash continues it
  let state := if s.state &&& IN_C_COMMENT = 0 ∧
      (¬cFlag CLANG_LINECONT ∨ n = 0 ∨ chAt str (n - 1) ≠ 0x5c) then
      clearBits s.state IN_C_PREPROCESS else s.state
  (sbuf, state)

end Line

/-- C mode's `colorize_func` as the colouring cache calls it, outside shell
buffers; the states the cache hands it are never negative. -/
def cModeColorize : ColorizeFunc := fun state line =>
  let r := cColorizeLine line false state.toNat
  (r.1, r.2)

/-! ## Lines inside a comment or a literal

A line that starts inside a C comment and does not close it is a comment to
its end, and the comment goes on. A line that starts inside a string or a
character constant and holds neither its quote nor a backslash is coloured as
the literal to its end, and the literal goes on: a literal left open is never
closed by the end of a line. -/

section Inside

variable (str : List UInt32)

/-- Without a closing `mark` `/` from `i` on, an unnested comment runs to the
end of the line. -/
theorem blockCommentLoop_of_unclosed (mark : UInt32) (level : Nat) :
    ∀ i, i ≤ str.length → (∀ k, i ≤ k → k < str.length → ¬(chAt str k = mark ∧ chAt str (k + 1) = 0x2f)) →
      blockCommentLoop str mark false i level = (str.length, level, false) := by
  intro i
  fun_induction blockCommentLoop str mark false i level with
  | case1 i _ _ h => exact absurd h.2.2 (by decide)
  | case2 i _ _ hc | case3 i _ _ _ hc => exact fun _ hno => absurd hc (hno i (Nat.le_refl i) ‹_›)
  | case4 i _ hlt _ _ ih => exact fun _ hno => ih (by omega) fun k hk => hno k (by omega)
  | case5 i _ hge => exact fun hle _ => by rw [Nat.le_antisymm hle (Nat.not_lt.mp hge)]

/-- Without the quote and without a backslash from `i` on, a literal runs to
the end of the line. -/
theorem stringLoop_of_unclosed (delim : UInt32) :
    ∀ i, i ≤ str.length → (∀ k, i ≤ k → k < str.length → chAt str k ≠ delim ∧ chAt str k ≠ 0x5c) →
      stringLoop str delim i = (str.length, false) := by
  intro i
  fun_induction stringLoop str delim i with
  | case1 i hlt _ hc _ | case2 i hlt _ hc _ => exact fun _ hno => absurd hc (hno i (Nat.le_refl i) hlt).2
  | case3 i hlt _ _ hc => exact fun _ hno => absurd hc (hno i (Nat.le_refl i) hlt).1
  | case4 i hlt _ _ _ ih => exact fun _ hno => ih (by omega) fun k hk => hno k (by omega)
  | case5 i hge => exact fun hle _ => by rw [Nat.le_antisymm hle (Nat.not_lt.mp hge)]

theorem cLoop_of_end (partialFile : Bool) (indent : Nat) {s : CLexer} (h : str.length ≤ s.i) :
    cLoop str partialFile indent s = s := by
  rw [cLoop, dif_neg (by omega)]

/-- A fresh style array with `[0, n)` set, then the end of the line set. -/
theorem setStyle1_setStyle_replicate (n : Nat) (style : UInt32) :
    setStyle1 (setStyle (List.replicate (n + 1) 0) 0 n style) n style = List.replicate (n + 1) style := by
  apply List.ext_getElem
  · simp
  · intro k h₁ _
    simp only [length_setStyle1, length_setStyle, List.length_replicate] at h₁
    simp only [setStyle1, setStyle, List.getElem_set, List.getElem_mapIdx, List.getElem_replicate]
    split_ifs <;> first | rfl | omega

theorem cFlag_nest_comments : cFlag CLANG_NEST_COMMENTS = false := by decide

/-- A line inside a C comment that does not close it. -/
theorem cColorizeLine_in_comment (partialFile : Bool) (hne : str ≠ [])
    (hno : ∀ k, k < str.length → ¬(chAt str k = 0x2a ∧ chAt str (k + 1) = 0x2f)) :
    cColorizeLine str partialFile IN_C_COMMENT2 =
      (List.replicate (str.length + 1) C_STYLE_COMMENT, IN_C_COMMENT2) := by
  have hn : str.length ≠ 0 := fun h => hne (List.length_eq_zero_iff.mp h)
  have hloop := blockCommentLoop_of_unclosed str 0x2a 0 0 (Nat.zero_le _) fun k _ hk => hno k hk
  unfold cColorizeLine
  dsimp only
  rw [if_neg hn]
  generalize cpSkipBlanks str 0 = indent
  -- the line resumes in the comment, which runs to its end
  have hres : cResume str ⟨0, IN_C_COMMENT2, C_STYLE_DEFAULT, C_STYLE_DEFAULT, false, indent,
      List.replicate (str.length + 1) 0⟩ =
      ⟨str.length, IN_C_COMMENT2, C_STYLE_COMMENT, C_STYLE_DEFAULT, false, indent,
        setStyle (List.replicate (str.length + 1) 0) 0 str.length C_STYLE_COMMENT⟩ := by
    simp +decide only [cResume, ↓reduceIte, parseComment2, endBlockComment, cFlag_nest_comments,
      IN_C_COMMENT2, IN_C_COMMENT_LEVEL, IN_C_COMMENT_SHIFT]
    rw [show ((2 ||| 2) &&& 1792) >>> 8 = 0 from rfl, hloop]
    simp only [CLexer.mk.injEq, and_true, true_and, Bool.false_eq_true, ↓reduceIte]
    rfl
  rw [hres, cLoop_of_end str partialFile _ (Nat.le_refl _)]
  dsimp only
  -- the comment goes on past the end of the line
  rw [if_pos (by decide), if_neg fun h => absurd h.1 (by decide), setStyle1_setStyle_replicate]

/-- `ab` inside a comment. -/
theorem cColorizeLine_in_comment_ab :
    cColorizeLine [0x61, 0x62] false IN_C_COMMENT2 = (List.replicate 3 C_STYLE_COMMENT, IN_C_COMMENT2) :=
  cColorizeLine_in_comment _ false (by decide) (by decide)

/-- A line inside a string literal that holds neither its quote nor a backslash. -/
theorem cColorizeLine_in_string (partialFile : Bool) (hne : str ≠ [])
    (hno : ∀ k, k < str.length → chAt str k ≠ 0x22 ∧ chAt str k ≠ 0x5c) :
    cColorizeLine str partialFile IN_C_STRING_D =
      (List.replicate (str.length + 1) C_STYLE_STRING, IN_C_STRING_D) := by
  have hn : str.length ≠ 0 := fun h => hne (List.length_eq_zero_iff.mp h)
  have hloop := stringLoop_of_unclosed str 0x22 0 (Nat.zero_le _) fun k _ hk => hno k hk
  unfold cColorizeLine
  dsimp only
  rw [if_neg hn]
  generalize cpSkipBlanks str 0 = indent
  -- the line resumes in the literal, which runs to its end
  have hres : cResume str ⟨0, IN_C_STRING_D, C_STYLE_DEFAULT, C_STYLE_DEFAULT, false, indent,
      List.replicate (str.length + 1) 0⟩ =
      ⟨str.length, IN_C_STRING_D, C_STYLE_STRING, C_STYLE_DEFAULT, false, indent,
        setStyle (List.replicate (str.length + 1) 0) 0 str.length C_STYLE_STRING⟩ := by
    simp +decide only [cResume, ↓reduceIte, parseString, IN_C_STRING_D, IN_C_STRING, IN_C_COMMENT,
      IN_C_PREPROCESS]
    rw [hloop]
    simp only [CLexer.mk.injEq, true_and, Bool.false_eq_true, ↓reduceIte]
    exact ⟨by decide, by rw [if_neg (by decide)]⟩
  rw [hres, cLoop_of_end str partialFile _ (Nat.le_refl _)]
  dsimp only
  rw [if_pos (by decide), setStyle1_setStyle_replicate]
  -- the literal goes on whether or not a backslash ends the line
  congr 1
  split <;> decide

/-- `ab` inside a string literal. -/
theorem cColorizeLine_in_string_ab :
    cColorizeLine [0x61, 0x62] false IN_C_STRING_D = (List.replicate 3 C_STYLE_STRING, IN_C_STRING_D) :=
  cColorizeLine_in_string _ false (by decide) (by decide)

end Inside

/-! ## A literal left open

The line `"a` opens a string that it does not close: the state keeps
`IN_C_STRING_D`, and the next line `b` is coloured as string although the
literal ended with the line before. The preprocessor line `#error don't`
leaves a character constant open the same way, and the line after it is
coloured as one. -/

unseal cToken numberLoop blockCommentLoop stringLoop string3Loop cLoop cRegexLoop bqLoop in
theorem cColorizeLine_unterminated_literal :
    cColorizeLine [0x22, 0x61] false 0 =
      ([C_STYLE_STRING, C_STYLE_STRING, C_STYLE_STRING], IN_C_STRING_D) ∧
    cColorizeLine [0x62] false IN_C_STRING_D = ([C_STYLE_STRING, C_STYLE_STRING], IN_C_STRING_D) ∧
    (cColorizeLine (cpText "#error don" ++ [0x27, 0x74]) false 0).2 = IN_C_STRING_Q ∧
    cColorizeLine [0x78] false IN_C_STRING_Q = ([C_STYLE_STRING_Q, C_STYLE_STRING_Q], IN_C_STRING_Q) := by
  decide

end Qemacs
