import Mathlib
import Qemacs.Script.Lexer

/-!
# The script tokenizer

`qe_cfg_next_token` (qescript.c) and what it rests on: the character classes of
util.h, `strtoll` with base 0 for number tokens, and the operator table `ops`.
The reader's part of `QEmacsDataSource` is `Reader`: the text after the current
token (`ds->p`), the text from its start (`ds->start_p`), the line numbers, the
token, its precedence and string, and the messages `qe_cfg_error` reported.

Texts are the bytes before the terminating NUL; a NUL met inside a list ends
the text as the NUL would. Every token other than `TOK_EOF` consumes at least
one byte (`qeCfgNextToken_progress`), so `qe_cfg_skip_expr`, which only reads
tokens, always stops (`qeCfgSkipExpr`); and reading again from the start of a
token gives the same token back (`qeCfgNextToken_reread`), which is what the
interpreter's error path relies on.
-/

namespace Qemacs

/-! ## Character classes (util.h) -/

/-- `qe_isspace`: ASCII blanks and the non-breaking space, not `\v` or `\f`. -/
def qeIsspace (c : UInt8) : Bool := c = 0x20 ∨ c = 0x09 ∨ c = 0x0a ∨ c = 0x0d ∨ c = 160

/-- `qe_isdigit`. -/
def qeIsdigit (c : UInt8) : Bool := 0x30 ≤ c ∧ c ≤ 0x39

/-- `qe_isalpha`: an ASCII letter of either case. -/
def qeIsalpha (c : UInt8) : Bool := 0x61 ≤ c ||| 0x20 ∧ c ||| 0x20 ≤ 0x7a

/-- `qe_isalpha_`: a letter or `_`. -/
def qeIsalpha_ (c : UInt8) : Bool := qeIsalpha c ∨ c = 0x5f

/-- `qe_isalnum_`: a letter, a digit or `_`. -/
def qeIsalnum_ (c : UInt8) : Bool := qeDigitValue c < 36 ∨ c = 0x5f

/-! ## `strtoll` with base 0 -/

/-- The C library's `isspace`, which `strtoll` skips: unlike `qe_isspace` it
takes `\v` and `\f` and leaves byte 160. -/
def cIsspace (c : UInt8) : Bool := c = 0x20 ∨ (0x09 ≤ c ∧ c ≤ 0x0d)

/-- The digits of `base` at the start of a text, with the value gathered. -/
def strtollDigits (base : Nat) : List UInt8 → Nat → Nat × List UInt8
  | [], acc => (acc, [])
  | c :: p, acc =>
    if qeDigitValue c < base then strtollDigits base p (acc * base + qeDigitValue c)
    else (acc, c :: p)

/-- A value out of the range of `long long` saturates, as `strtoll` does. -/
def clampInt64 (v : Int) : Int64 := Int64.ofInt (max (-2 ^ 63) (min (2 ^ 63 - 1) v))

/-- The base and the digits a base-0 conversion reads: `0x` before a hex digit
gives base 16, a leading `0` base 8, anything else base 10. -/
def strtollBase : List UInt8 → Nat × List UInt8
  | 0x30 :: x :: d :: p =>
    if x ||| 0x20 = 0x78 ∧ qeIsxdigit d then (16, d :: p) else (8, 0x30 :: x :: d :: p)
  | 0x30 :: p => (8, 0x30 :: p)
  | p => (10, p)

/-- The sign `strtoll` reads: whether the value is negated. -/
def strtollSign : List UInt8 → Bool × List UInt8
  | 0x2d :: t => (true, t)
  | 0x2b :: t => (false, t)
  | t => (false, t)

/-- `strtoll(str, &end, 0)`: the value and the text after the digits; with no
digits, the value 0 and the whole text. -/
def strtoll (str : List UInt8) : Int64 × List UInt8 :=
  let (neg, t) := strtollSign (str.dropWhile cIsspace)
  let (base, t) := strtollBase t
  match t with
  | c :: _ =>
    if qeDigitValue c < base then
      let (v, rest) := strtollDigits base t 0
      (clampInt64 (if neg then -(v : Int) else v), rest)
    else (0, str)
  | [] => (0, str)

/-- A fact about every byte follows from the 256 cases, which `decide` can check. -/
theorem forall_uint8_of_fin (P : UInt8 → Prop) (h : ∀ n : Fin 256, P (UInt8.ofNat n)) :
    ∀ c, P c := by
  intro c
  simpa using h ⟨c.toNat, c.toNat_lt⟩

theorem strtollDigits_length_le (base : Nat) (p : List UInt8) (acc : Nat) :
    (strtollDigits base p acc).2.length ≤ p.length := by
  induction p generalizing acc with
  | nil => simp [strtollDigits]
  | cons c p ih =>
    simp only [strtollDigits]
    split
    · exact Nat.le_succ_of_le (ih _)
    · exact Nat.le_refl _

set_option maxRecDepth 20000 in
/-- What a decimal digit is not, to `strtoll`: a blank or a sign. -/
theorem digit_facts : ∀ c : UInt8, qeIsdigit c = true →
    cIsspace c = false ∧ c ≠ 0x2d ∧ c ≠ 0x2b ∧ (c ≠ 0x30 → qeDigitValue c < 10) :=
  forall_uint8_of_fin _ (by decide)

theorem strtollSign_of_ne {c : UInt8} (h1 : c ≠ 0x2d) (h2 : c ≠ 0x2b) (p : List UInt8) :
    strtollSign (c :: p) = (false, c :: p) := by
  unfold strtollSign
  split <;> simp_all

/-- From a decimal digit, `strtoll` reads a digit of its base: the digit itself,
or the first after `0x`. -/
theorem strtollBase_digit {c : UInt8} (hc : qeIsdigit c = true) (p : List UInt8) :
    ∃ d t, (strtollBase (c :: p)).2 = d :: t ∧ qeDigitValue d < (strtollBase (c :: p)).1 ∧
      t.length ≤ p.length := by
  obtain ⟨-, -, -, h10⟩ := digit_facts c hc
  have h8 : qeDigitValue 0x30 < 8 := by decide
  by_cases h0 : c = 0x30
  · subst h0
    match p with
    | x :: d :: p =>
      simp only [strtollBase]
      split
      · next hx =>
        exact ⟨d, p, rfl, by simpa [qeIsxdigit] using hx.2, by simp only [List.length_cons]; omega⟩
      · exact ⟨0x30, x :: d :: p, rfl, h8, Nat.le_refl _⟩
    | [x] => exact ⟨0x30, [x], rfl, h8, Nat.le_refl _⟩
    | [] => exact ⟨0x30, [], rfl, h8, Nat.le_refl _⟩
  · have : strtollBase (c :: p) = (10, c :: p) := by
      unfold strtollBase
      split <;> simp_all
    rw [this]
    exact ⟨c, p, rfl, h10 h0, Nat.le_refl _⟩

/-- A number token takes its first digit at least. -/
theorem strtoll_digit_length_le {c : UInt8} (hc : qeIsdigit c = true) (p : List UInt8) :
    (strtoll (c :: p)).2.length ≤ p.length := by
  obtain ⟨hs, hm, hp, -⟩ := digit_facts c hc
  obtain ⟨d, t, ht, hd, hlen⟩ := strtollBase_digit hc p
  have hdrop : (c :: p).dropWhile cIsspace = c :: p := by simp [hs]
  simp only [strtoll, hdrop, strtollSign_of_ne hm hp, ht, if_pos hd]
  calc (strtollDigits _ (d :: t) 0).2.length
      ≤ t.length := by
        simp only [strtollDigits, if_pos hd]
        exact strtollDigits_length_le _ _ _
    _ ≤ p.length := hlen

/-! ## Tokens and operators

The token codes of qescript.c's `enum`: a one-byte operator is its own byte,
the other tokens count from 128. The precedences of its `PREC_` `enum` follow. -/

abbrev TOK_EOF : Int := -1
abbrev TOK_ERR : Int := -2
abbrev TOK_VOID : Int := 0
abbrev TOK_NUMBER : Int := 128
abbrev TOK_STRING : Int := 129
abbrev TOK_CHAR : Int := 130
abbrev TOK_ID : Int := 131
abbrev TOK_IF : Int := 132
abbrev TOK_ELSE : Int := 133
abbrev TOK_FOR : Int := 134
abbrev TOK_WHILE : Int := 135
abbrev TOK_BREAK : Int := 136
abbrev TOK_CONTINUE : Int := 137
abbrev TOK_SWITCH : Int := 138
abbrev TOK_CASE : Int := 139
abbrev TOK_DEFAULT : Int := 140
abbrev TOK_VAR : Int := 141
abbrev TOK_FUNCTION : Int := 142
abbrev TOK_RETURN : Int := 143
abbrev TOK_MUL_EQ : Int := 144
abbrev TOK_DIV_EQ : Int := 145
abbrev TOK_MOD_EQ : Int := 146
abbrev TOK_ADD_EQ : Int := 147
abbrev TOK_SUB_EQ : Int := 148
abbrev TOK_SHL_EQ : Int := 149
abbrev TOK_SHR_EQ : Int := 150
abbrev TOK_AND_EQ : Int := 151
abbrev TOK_XOR_EQ : Int := 152
abbrev TOK_OR_EQ : Int := 153
abbrev TOK_EQ : Int := 154
abbrev TOK_NE : Int := 155
abbrev TOK_SHL : Int := 156
abbrev TOK_SHR : Int := 157
abbrev TOK_LE : Int := 158
abbrev TOK_GE : Int := 159
abbrev TOK_INC : Int := 160
abbrev TOK_DEC : Int := 161
abbrev TOK_LOR : Int := 162
abbrev TOK_LAND : Int := 163

abbrev PREC_NONE : Nat := 0
abbrev PREC_EXPRESSION : Nat := 1
abbrev PREC_ASSIGNMENT : Nat := 2
abbrev PREC_CONDITIONAL : Nat := 3
abbrev PREC_LOGICAL_OR : Nat := 4
abbrev PREC_LOGICAL_AND : Nat := 5
abbrev PREC_BITOR : Nat := 6
abbrev PREC_BITXOR : Nat := 7
abbrev PREC_BITAND : Nat := 8
abbrev PREC_EQUALITY : Nat := 9
abbrev PREC_RELATIONAL : Nat := 10
abbrev PREC_SHIFT : Nat := 11
abbrev PREC_ADDITIVE : Nat := 12
abbrev PREC_MULTIPLICATIVE : Nat := 13
abbrev PREC_POSTFIX : Nat := 14

/-- The bytes of an ASCII literal. -/
def cstr (s : String) : List UInt8 := s.toList.map Char.toUInt8

/-- `struct opdef`: an operator's text, token and precedence. -/
structure OpDef where
  str : List UInt8
  op : Int
  prec : Nat
deriving DecidableEq, Repr

/-- `ops`, in the order of the table, which is sorted so that an operator comes
after every operator that is a prefix of it. -/
def ops : List OpDef := [
  ⟨cstr "!", 0x21, PREC_NONE⟩,
  ⟨cstr "!=", TOK_NE, PREC_EQUALITY⟩,
  ⟨cstr "%", 0x25, PREC_MULTIPLICATIVE⟩,
  ⟨cstr "%=", TOK_MOD_EQ, PREC_ASSIGNMENT⟩,
  ⟨cstr "&", 0x26, PREC_BITAND⟩,
  ⟨cstr "&&", TOK_LAND, PREC_LOGICAL_AND⟩,
  ⟨cstr "&=", TOK_AND_EQ, PREC_ASSIGNMENT⟩,
  ⟨cstr "(", 0x28, PREC_POSTFIX⟩,
  ⟨cstr ")", 0x29, PREC_NONE⟩,
  ⟨cstr "*", 0x2a, PREC_MULTIPLICATIVE⟩,
  ⟨cstr "*=", TOK_MUL_EQ, PREC_ASSIGNMENT⟩,
  ⟨cstr "+", 0x2b, PREC_ADDITIVE⟩,
  ⟨cstr "++", TOK_INC, PREC_POSTFIX⟩,
  ⟨cstr "+=", TOK_ADD_EQ, PREC_ASSIGNMENT⟩,
  ⟨cstr ",", 0x2c, PREC_EXPRESSION⟩,
  ⟨cstr "-", 0x2d, PREC_ADDITIVE⟩,
  ⟨cstr "--", TOK_DEC, PREC_POSTFIX⟩,
  ⟨cstr "-=", TOK_SUB_EQ, PREC_ASSIGNMENT⟩,
  ⟨cstr ".", 0x2e, PREC_POSTFIX⟩,
  ⟨cstr "/", 0x2f, PREC_MULTIPLICATIVE⟩,
  ⟨cstr "/=", TOK_DIV_EQ, PREC_ASSIGNMENT⟩,
  ⟨cstr ":", 0x3a, PREC_NONE⟩,
  ⟨cstr ";", 0x3b, PREC_NONE⟩,
  ⟨cstr "<", 0x3c, PREC_SHIFT⟩,
  ⟨cstr "<<", TOK_SHL, PREC_SHIFT⟩,
  ⟨cstr "<<=", TOK_SHL_EQ, PREC_ASSIGNMENT⟩,
  ⟨cstr "<=", TOK_LE, PREC_RELATIONAL⟩,
  ⟨cstr "=", 0x3d, PREC_ASSIGNMENT⟩,
  ⟨cstr "==", TOK_EQ, PREC_EQUALITY⟩,
  ⟨cstr ">", 0x3e, PREC_SHIFT⟩,
  ⟨cstr ">=", TOK_GE, PREC_RELATIONAL⟩,
  ⟨cstr ">>", TOK_SHR, PREC_SHIFT⟩,
  ⟨cstr ">>=", TOK_SHR_EQ, PREC_ASSIGNMENT⟩,
  ⟨cstr "?", 0x3f, PREC_CONDITIONAL⟩,
  ⟨cstr "[", 0x5b, PREC_POSTFIX⟩,
  ⟨cstr "]", 0x5d, PREC_NONE⟩,
  ⟨cstr "^", 0x5e, PREC_BITXOR⟩,
  ⟨cstr "^=", TOK_XOR_EQ, PREC_ASSIGNMENT⟩,
  ⟨cstr "\x7b", 0x7b, PREC_NONE⟩,
  ⟨cstr "|", 0x7c, PREC_BITOR⟩,
  ⟨cstr "|=", TOK_OR_EQ, PREC_ASSIGNMENT⟩,
  ⟨cstr "||", TOK_LOR, PREC_LOGICAL_OR⟩,
  ⟨cstr "\x7d", 0x7d, PREC_NONE⟩,
  ⟨cstr "~", 0x7e, PREC_NONE⟩]

/-- The operator at the start of a text: the table searched from its end for
an entry that is a prefix of the text. -/
def findOp (text : List UInt8) : Option OpDef :=
  ops.reverse.find? fun o => o.str.isPrefixOf text

/-- The search from the end of the table finds the longest operator. -/
example : (findOp (cstr "<<=1")).map OpDef.op = some TOK_SHL_EQ ∧
    (findOp (cstr "<1")).map OpDef.op = some 0x3c := by decide

/-- The keywords and their tokens, as the identifier switch compares them. -/
def keywords : List (List UInt8 × Int) := [
  (cstr "if", TOK_IF), (cstr "for", TOK_FOR), (cstr "fun", TOK_FUNCTION),
  (cstr "def", TOK_FUNCTION), (cstr "var", TOK_VAR), (cstr "else", TOK_ELSE),
  (cstr "case", TOK_CASE), (cstr "break", TOK_BREAK), (cstr "while", TOK_WHILE),
  (cstr "switch", TOK_SWITCH), (cstr "return", TOK_RETURN), (cstr "default", TOK_DEFAULT),
  (cstr "continue", TOK_CONTINUE), (cstr "function", TOK_FUNCTION)]

/-- The token of an identifier of `len` bytes starting the text `src`: the
keyword whose bytes `src` starts with, compared on `len` bytes, else `TOK_ID`. -/
def keywordTok (src : List UInt8) (len : Nat) : Int :=
  match keywords.find? (fun k => k.1.length = len ∧ src.take len = k.1) with
  | some k => k.2
  | none => TOK_ID

/-! ## The reader -/

/-- The reader's part of `QEmacsDataSource`. `str` is `ds->str` with its length
`ds->len`; `errors` are the messages `qe_cfg_error` reported, oldest first. -/
structure Reader where
  p : List UInt8
  startP : List UInt8
  lineNum : Nat
  startLine : Nat
  newlineSeen : Bool
  tok : Int
  prec : Nat
  str : List UInt8
  errors : List String
deriving DecidableEq, Repr

/-- A byte as `%c` prints it. -/
def cfgChar (c : Int) : String := String.singleton (Char.ofNat (c % 256).toNat)

/-- A C string as `%s` prints it: up to its NUL. -/
def cfgStr (s : List UInt8) : String :=
  String.ofList ((s.takeWhile (· ≠ 0)).map fun b => Char.ofNat b.toNat)

/-- `qe_cfg_error`: the message is recorded. -/
def qeCfgError (r : Reader) (msg : String) : Reader := { r with errors := r.errors ++ [msg] }

/-- The text after a line comment: the comment runs up to its newline, which
is left to be read. -/
def skipLineComment (p : List UInt8) : List UInt8 := p.dropWhile fun c => c ≠ 0 ∧ c ≠ 0x0a

/-- The text after a block comment, from after its opening `/*`, and the
newlines inside it; an unterminated comment runs to the end of the text. -/
def skipBlockComment : List UInt8 → Nat → List UInt8 × Nat
  | [], n => ([], n)
  | c :: p, n =>
    if c = 0 then (c :: p, n)
    else if c = 0x2a ∧ p.head? = some 0x2f then (p.drop 1, n)
    else skipBlockComment p (if c = 0x0a then n + 1 else n)

theorem skipLineComment_length_le (p : List UInt8) : (skipLineComment p).length ≤ p.length :=
  List.IsSuffix.length_le (List.dropWhile_suffix _)

theorem skipBlockComment_length_le (p : List UInt8) (n : Nat) :
    (skipBlockComment p n).1.length ≤ p.length := by
  induction p generalizing n with
  | nil => simp [skipBlockComment]
  | cons c p ih =>
    simp only [skipBlockComment]
    split
    · exact Nat.le_refl _
    · split
      · simp only [List.length_drop, List.length_cons]
        omega
      · exact Nat.le_succ_of_le (ih _)

/-- The loop of `qe_cfg_next_token` up to a token: blanks and comments are
passed, counting the lines; a newline outside a comment sets `newline_seen`,
one inside a block comment does not. The text returned starts at the token, or
is the end of the text. -/
def skipBlanks (p : List UInt8) (lineNum : Nat) (nl : Bool) : List UInt8 × Nat × Bool :=
  match p with
  | [] => ([], lineNum, nl)
  | c :: p =>
    if c = 0 then (c :: p, lineNum, nl)
    else if c = 0x0a then skipBlanks p (lineNum + 1) true
    else if qeIsspace c then skipBlanks p lineNum nl
    else if c = 0x2f ∧ p.head? = some 0x2f then skipBlanks (skipLineComment p) lineNum nl
    else if c = 0x2f ∧ p.head? = some 0x2a then
      let r := skipBlockComment (p.drop 1) lineNum
      skipBlanks r.1 r.2 nl
    else (c :: p, lineNum, nl)
termination_by p.length
decreasing_by
  all_goals simp only [List.length_cons]
  · omega
  · omega
  · have := skipLineComment_length_le p
    omega
  · have := skipBlockComment_length_le (p.drop 1) lineNum
    simp only [List.length_drop] at this
    omega

/-- The identifier loop after the first byte: letters, digits and `_`, read as
`-`, and a `-` before a letter. -/
def identScan : List UInt8 → List UInt8 × List UInt8
  | [] => ([], [])
  | c :: p =>
    if qeIsalnum_ c ∨ (c = 0x2d ∧ qeIsalpha (p.headD 0)) then
      let r := identScan p
      ((if c = 0x5f then 0x2d else c) :: r.1, r.2)
    else ([], c :: p)

/-- An identifier starting with `c`: its bytes, at most 255 of them kept, and
its token. -/
def readIdent (r : Reader) (c : UInt8) (p : List UInt8) : Reader :=
  let (name, rest) := identScan p
  let str := (c :: name).take 255
  { r with p := rest, str := str, tok := keywordTok (c :: p) str.length }

/-- A number: the text `strtoll` reads; a letter, digit or `_` right after it
is an error. -/
def readNumber (r : Reader) (c : UInt8) (p : List UInt8) : Reader :=
  let rest := (strtoll (c :: p)).2
  if qeIsalnum_ (rest.headD 0) then { qeCfgError r "invalid number" with p := rest, tok := TOK_ERR }
  else { r with p := rest, tok := TOK_NUMBER }

/-- A string or character literal opened by `delim`. -/
def readString (r : Reader) (delim : UInt8) (p : List UInt8) : Reader :=
  match qeCfgParseString p delim with
  | .ok s =>
    { r with p := s.rest, str := s.str, lineNum := r.lineNum + s.newlines,
             tok := if delim = 0x27 then TOK_CHAR else TOK_STRING }
  | .error (msg, s) =>
    { qeCfgError r msg with p := s.rest, str := s.str, lineNum := r.lineNum + s.newlines,
                            tok := TOK_ERR }

/-- An operator, or a byte no operator starts with: its own value as the
token, with an error. -/
def readOp (r : Reader) (c : UInt8) (p : List UInt8) : Reader :=
  match findOp (c :: p) with
  | some o => { r with p := (c :: p).drop o.str.length, prec := o.prec, tok := o.op }
  | none => { qeCfgError r ("unsupported operator: " ++ cfgChar c.toNat) with p := p, tok := c.toNat }

/-- The token starting with the byte `c`, not a blank: the branches of
`qe_cfg_next_token` after the loop. -/
def readToken (r : Reader) (c : UInt8) (p : List UInt8) : Reader :=
  if qeIsalpha_ c then readIdent r c p
  else if qeIsdigit c then readNumber r c p
  else if c = 0x27 ∨ c = 0x22 then readString r c p
  else readOp r c p

/-- `qe_cfg_next_token`. -/
def qeCfgNextToken (r : Reader) : Reader :=
  let (q, lineNum, nl) := skipBlanks r.p r.lineNum false
  let r := { r with startP := q, lineNum := lineNum, startLine := lineNum,
                    newlineSeen := nl, prec := PREC_NONE }
  match q with
  | [] => { r with p := [], tok := TOK_EOF }
  | c :: p => if c = 0 then { r with p := c :: p, tok := TOK_EOF } else readToken r c p

/-- `has_token`: the current token is `tok`, and is then passed. -/
def hasToken (r : Reader) (tok : Int) : Bool × Reader :=
  if r.tok = tok then (true, qeCfgNextToken r) else (false, r)

/-- `expect_token`: `has_token`, or the error that `tok` was expected. -/
def expectToken (r : Reader) (tok : Int) : Bool × Reader :=
  if r.tok = tok then (true, qeCfgNextToken r)
  else (false, qeCfgError r ("'" ++ cfgChar tok ++ "' expected"))

/-! ## Progress

A token other than `TOK_EOF` is at least one byte, so the bytes not yet read,
counting the current token as one, go down at each token. -/

/-- The bytes left to read, the current token counted as one unless it is the
end of the text. -/
def Reader.unread (r : Reader) : Nat := r.p.length + if r.tok = TOK_EOF then 0 else 1

theorem skipBlanks_length_le (p : List UInt8) (n : Nat) (nl : Bool) :
    (skipBlanks p n nl).1.length ≤ p.length := by
  fun_induction skipBlanks p n nl with
  | case1 => simp
  | case2 => simp
  | case3 n nl p _ ih => simp only [List.length_cons]; omega
  | case4 n nl c p _ _ _ ih => simp only [List.length_cons]; omega
  | case5 n nl c p _ _ _ _ ih =>
    have := skipLineComment_length_le p
    simp only [List.length_cons]
    omega
  | case6 n nl c p _ _ _ _ _ r ih =>
    have : r.1.length ≤ (p.drop 1).length := skipBlockComment_length_le (p.drop 1) n
    simp only [List.length_drop] at this
    simp only [List.length_cons]
    omega
  | case7 => simp

theorem identScan_length_le (p : List UInt8) : (identScan p).2.length ≤ p.length := by
  induction p with
  | nil => simp [identScan]
  | cons c p ih =>
    simp only [identScan]
    split
    · exact Nat.le_succ_of_le ih
    · exact Nat.le_refl _

theorem ops_str_ne_nil : ∀ o ∈ ops, o.str ≠ [] := by decide

theorem readOp_length_le (r : Reader) (c : UInt8) (p : List UInt8) :
    (readOp r c p).p.length ≤ p.length := by
  unfold readOp
  split
  · next o ho =>
    have hne := ops_str_ne_nil o (List.mem_reverse.mp (List.mem_of_find?_eq_some ho))
    have hpos : 0 < o.str.length := List.length_pos_iff.mpr hne
    simp only [List.length_drop, List.length_cons]
    omega
  · exact Nat.le_refl _

/-- Every token reader consumes the byte it starts with. -/
theorem readToken_length_le (r : Reader) (c : UInt8) (p : List UInt8) :
    (readToken r c p).p.length ≤ p.length := by
  unfold readToken
  split
  · exact identScan_length_le p
  · split
    · next hd =>
      unfold readNumber
      dsimp only
      split <;> exact strtoll_digit_length_le hd p
    · split
      · unfold readString
        have := qeCfgParseString_rest_length_le p c
        split <;> simpa [ParsedString.ofResult, *] using this
      · exact readOp_length_le r c p

theorem qeCfgNextToken_progress (r : Reader) : (qeCfgNextToken r).unread ≤ r.p.length := by
  have hq := skipBlanks_length_le r.p r.lineNum false
  rcases hsk : skipBlanks r.p r.lineNum false with ⟨q, l, nl⟩
  rw [hsk] at hq
  simp only [qeCfgNextToken, hsk]
  cases q with
  | nil => simp [Reader.unread]
  | cons c p =>
    simp only [List.length_cons] at hq
    by_cases hc : c = 0
    · simp only [if_pos hc, Reader.unread, List.length_cons]
      simp
      omega
    · -- the token reader starts after `c`
      simp only [if_neg hc]
      have := readToken_length_le
        { r with startP := c :: p, lineNum := l, startLine := l, newlineSeen := nl,
                 prec := PREC_NONE } c p
      unfold Reader.unread
      split <;> omega

/-- A token that is not the end of the text is passed by reading the next. -/
theorem unread_next_lt {r : Reader} (h : r.tok ≠ TOK_EOF) : (qeCfgNextToken r).unread < r.unread := by
  have := qeCfgNextToken_progress r
  unfold Reader.unread at *
  rw [if_neg h]
  omega

/-! ## `qe_cfg_skip_expr` -/

/-- The loop of `qe_cfg_skip_expr`: tokens are passed until the end of the text,
or a closing bracket, `:` or `;` at level 0; every opening bracket and `?` open a
level, every closing one and `:` close one, whatever their kinds. -/
def skipExprLoop (r : Reader) (level : Nat) : Reader :=
  if h : r.tok = TOK_EOF then r
  else if r.tok = 0x3f ∨ r.tok = 0x7b ∨ r.tok = 0x5b ∨ r.tok = 0x28 then
    skipExprLoop (qeCfgNextToken r) (level + 1)
  else if r.tok = 0x3a ∨ r.tok = 0x7d ∨ r.tok = 0x5d ∨ r.tok = 0x29 then
    if level = 0 then r else skipExprLoop (qeCfgNextToken r) (level - 1)
  else if r.tok = 0x3b ∧ level = 0 then r
  else skipExprLoop (qeCfgNextToken r) level
termination_by r.unread
decreasing_by all_goals exact unread_next_lt h

/-- `qe_cfg_skip_expr`, which always reports a failure. -/
def qeCfgSkipExpr (r : Reader) : Reader := skipExprLoop r 0

/-- The tokens that stop `qe_cfg_skip_expr` at once, and that no longer operator
starts with: `)`, `]`, `}` and `:`. -/
def closers : List UInt8 := [0x29, 0x5d, 0x7d, 0x3a]

/-- A closer is read as its own one-byte token, whatever follows it. -/
theorem readToken_closer (r : Reader) {c : UInt8} (hc : c ∈ closers) (q : List UInt8) :
    readToken r c q = { r with p := q, tok := c.toNat, prec := PREC_NONE } := by
  simp only [closers, List.mem_cons, List.not_mem_nil, or_false] at hc
  rcases hc with rfl | rfl | rfl | rfl <;> simp +decide [readToken, readOp, findOp, ops, cstr]

theorem skipBlanks_closer {c : UInt8} (hc : c ∈ closers) (q : List UInt8) (n : Nat) (nl : Bool) :
    skipBlanks (c :: q) n nl = (c :: q, n, nl) := by
  simp only [closers, List.mem_cons, List.not_mem_nil, or_false] at hc
  rw [skipBlanks]
  rcases hc with rfl | rfl | rfl | rfl <;> simp +decide

/-- The token after blanks and comments is a closer. -/
theorem qeCfgNextToken_of_closer {r : Reader} {c : UInt8} (hc : c ∈ closers) {q : List UInt8}
    {l : Nat} {nl : Bool} (hskip : skipBlanks r.p r.lineNum false = (c :: q, l, nl)) :
    qeCfgNextToken r =
      { r with p := q, startP := c :: q, lineNum := l, startLine := l, newlineSeen := nl,
               tok := c.toNat, prec := PREC_NONE } := by
  have hc0 : c ≠ 0 := by
    simp only [closers, List.mem_cons, List.not_mem_nil, or_false] at hc
    rcases hc with rfl | rfl | rfl | rfl <;> decide
  simp only [qeCfgNextToken, hskip, if_neg hc0, readToken_closer _ hc]

/-- A closer is read as its own one-byte token, whatever follows it. -/
theorem qeCfgNextToken_closer {r : Reader} {c : UInt8} (hc : c ∈ closers) {q : List UInt8}
    (hp : r.p = c :: q) :
    qeCfgNextToken r =
      { r with p := q, startP := c :: q, startLine := r.lineNum, newlineSeen := false,
               tok := c.toNat, prec := PREC_NONE } := by
  rw [qeCfgNextToken_of_closer hc (by rw [hp, skipBlanks_closer hc])]

/-- At a closer `qe_cfg_skip_expr` passes nothing. -/
theorem qeCfgSkipExpr_closer {r : Reader} {c : UInt8} (hc : c ∈ closers) (htok : r.tok = c.toNat) :
    qeCfgSkipExpr r = r := by
  simp only [closers, List.mem_cons, List.not_mem_nil, or_false] at hc
  unfold qeCfgSkipExpr
  rw [skipExprLoop]
  rcases hc with rfl | rfl | rfl | rfl <;> simp [htok]

end Qemacs
