import Qemacs.Charset.Utf8

/-!
# Quoting strings, and reading them back

`strquote` (util.c) writes a byte string as a double-quoted source literal:
printable ASCII as itself, the usual escapes, and `\xNN` for every other
byte. `qe_cfg_parse_string` (qescript.c) reads a string literal of the
configuration language. Its `\x` escape takes hex digits as long as they come,
and appends the value as the UTF-8 encoding of a code point, so that neither a
byte of 128 or more nor a control byte followed by a hex digit reads back as
written (`strquote_parse_string_differs`).

The text is a NUL-terminated C string, here the list of its bytes before the
NUL.
-/

namespace Qemacs

/-! ## Character classes (util.h) -/

/-- `qe_digit_value`: 0 to 35 for the ASCII digits and letters, 255 otherwise. -/
def qeDigitValue (c : UInt8) : Nat :=
  if 0x30 ≤ c ∧ c ≤ 0x39 then (c - 0x30).toNat
  else if 0x41 ≤ c ∧ c ≤ 0x5a then (c - 0x41).toNat + 10
  else if 0x61 ≤ c ∧ c ≤ 0x7a then (c - 0x61).toNat + 10
  else 255

/-- `qe_isxdigit`. -/
def qeIsxdigit (c : UInt8) : Bool := qeDigitValue c < 16

/-- `qe_isoctdigit`. -/
def qeIsoctdigit (c : UInt8) : Bool := 0x30 ≤ c ∧ c ≤ 0x37

/-! ## `strquote` -/

/-- `SQB_USE_EXTENDED`: `\b` and `\e` for backspace and escape. -/
def SQB_USE_EXTENDED : Nat := 1

/-- `SQB_USE_CONTROL`: `\^X` for the other control bytes. -/
def SQB_USE_CONTROL : Nat := 2

/-- The two upper-case hex digits of a byte, as `%02X` prints them. -/
def hex2 (ch : UInt8) : List UInt8 :=
  let digit (d : UInt8) : UInt8 := if d < 10 then 0x30 + d else 0x41 + (d - 10)
  [digit (ch >>> 4), digit (ch &&& 0xf)]

/-- `strquote_byte`: the escape sequence of one byte. -/
def strquoteByte (ch : UInt8) (flags : Nat) : List UInt8 :=
  let ext := flags &&& SQB_USE_EXTENDED ≠ 0
  let escaped : Option UInt8 :=
    if ch = 0x0a then some 0x6e          -- \n
    else if ch = 0x0d then some 0x72     -- \r
    else if ch = 0x09 then some 0x74     -- \t
    else if ch = 0x0c then some 0x66     -- \f
    else if ch = 0x08 ∧ ext then some 0x62  -- \b
    else if ch = 0x1b ∧ ext then some 0x65  -- \e
    else if ch = 0x27 then some 0x27     -- \'
    else if ch = 0x22 then some 0x22     -- \"
    else if ch = 0x5c then some 0x5c     -- \\
    else none
  match escaped with
  | some c => [0x5c, c]
  | none =>
    if ch < 32 ∧ flags &&& SQB_USE_CONTROL ≠ 0 then [0x5c, 0x5e, (ch + 0x40) &&& 127]
    else if 32 ≤ ch ∧ ch < 127 then [ch]
    else 0x5c :: 0x78 :: hex2 ch

/-- `strquote` of a string: the quoted bytes between double quotes. -/
def strquote (str : List UInt8) (flags : Nat) : List UInt8 :=
  0x22 :: str.flatMap (strquoteByte · flags) ++ [0x22]

/-! ## `qe_cfg_parse_string` -/

/-- The digit loop of the `\x`, `\u` and `\U` escapes: hex digits taken while
there are any and the count `maxc` allows, `none` for no limit. -/
def hexEscape : List UInt8 → Option Nat → UInt32 → UInt32 × List UInt8
  | [], _, ch => (ch, [])
  | c :: p, maxc, ch =>
    if qeIsxdigit c ∧ maxc ≠ some 0 then
      hexEscape p (maxc.map (· - 1)) ((ch <<< 4) ||| (qeDigitValue c).toUInt32)
    else (ch, c :: p)

/-- The up to three digits of an octal escape, the first one `d` already read;
the value is an `unsigned char`. -/
def octEscape (d : UInt8) (p : List UInt8) : UInt8 × List UInt8 :=
  let c := d - 0x30
  match p with
  | e :: p' =>
    if qeIsoctdigit e then
      let c := (c <<< 3) ||| (e - 0x30)
      match p' with
      | f :: p'' => if c < 0o40 ∧ qeIsoctdigit f then ((c <<< 3) ||| (f - 0x30), p'') else (c, p')
      | [] => (c, p')
    else (c, p)
  | [] => (c, p)

theorem hexEscape_length_le (p : List UInt8) (maxc : Option Nat) (ch : UInt32) :
    (hexEscape p maxc ch).2.length ≤ p.length := by
  induction p generalizing maxc ch with
  | nil => simp [hexEscape]
  | cons c p ih =>
    simp only [hexEscape]
    split
    · exact Nat.le_succ_of_le (ih _ _)
    · exact Nat.le_refl _

theorem octEscape_length_le (d : UInt8) (p : List UInt8) : (octEscape d p).2.length ≤ p.length := by
  unfold octEscape
  rcases p with _ | ⟨e, p⟩
  · simp
  · dsimp only
    split
    · rcases p with _ | ⟨f, p⟩
      · simp
      · dsimp only
        split <;> simp only [List.length_cons] <;> omega
    · simp

/-- What reading a string literal gives: the bytes of the string, the text
after the closing delimiter, and the newlines passed. -/
structure ParsedString where
  str : List UInt8
  rest : List UInt8
  newlines : Nat
deriving DecidableEq, Repr

/-- The `for (;;)` loop of `qe_cfg_parse_string`, from after the opening
delimiter, with the bytes read so far. An error is the message
`qe_cfg_error` reports, with the bytes read and the place where the reader
stopped, which the caller keeps as `ds->p`. -/
def parseStringLoop (delim : UInt8) (triple : Bool) (p : List UInt8) (acc : List UInt8)
    (newlines : Nat) : Except (String × ParsedString) ParsedString :=
  match p with
  | [] => .error ("unterminated string", ⟨acc, [], newlines⟩)
  | c :: p =>
    if c = 0 then .error ("unterminated string", ⟨acc, c :: p, newlines⟩)
    else if c = 0x0a ∧ ¬triple then .error ("newline in simple string", ⟨acc, c :: p, newlines⟩)
    else
      let newlines := if c = 0x0a then newlines + 1 else newlines
      if c = delim ∧ ¬triple then .ok ⟨acc, p, newlines⟩
      else if c = delim ∧ p.take 2 = [delim, delim] then .ok ⟨acc, p.drop 2, newlines⟩
      else if c = 0x5c then
        match p with
        | [] => .error ("unterminated string", ⟨acc, [], newlines⟩)
        | e :: p =>
          if e = 0 then .error ("unterminated string", ⟨acc, e :: p, newlines⟩)
          -- escaped newlines contribute no character to the string
          else if e = 0x0a then parseStringLoop delim triple p acc (newlines + 1)
          else if e = 0x78 ∨ e = 0x75 ∨ e = 0x55 then
            let maxc := if e = 0x78 then none else if e = 0x75 then some 4 else some 8
            let r := hexEscape p maxc 0
            parseStringLoop delim triple r.2 (acc ++ utf8Encode r.1) newlines
          else if qeIsoctdigit e then
            let r := octEscape e p
            parseStringLoop delim triple r.2 (acc ++ [r.1]) newlines
          else
            let c := if e = 0x6e then 0x0a else if e = 0x72 then 0x0d else if e = 0x74 then 0x09
              else if e = 0x61 then 0x07 else if e = 0x62 then 0x08 else if e = 0x65 then 0x1b
              else if e = 0x66 then 0x0c else if e = 0x76 then 0x0b else e
            parseStringLoop delim triple p (acc ++ [c]) newlines
      else parseStringLoop delim triple p (acc ++ [c]) newlines
termination_by p.length
decreasing_by
  all_goals simp only [List.length_cons]
  all_goals first
    | omega
    | (apply Nat.lt_of_le_of_lt (hexEscape_length_le _ _ _); omega)
    | (apply Nat.lt_of_le_of_lt (octEscape_length_le _ _); omega)

/-- `qe_cfg_parse_string`, from after the opening delimiter `delim`. -/
def qeCfgParseString (p : List UInt8) (delim : UInt8) :
    Except (String × ParsedString) ParsedString :=
  -- check for triple delimiter
  if p.take 2 = [delim, delim] then
    let p := p.drop 2
    -- ignore newline after the triple delimiter
    let p := if p.head? = some 0x0a then p.drop 1 else p
    parseStringLoop delim true p [] 0
  else parseStringLoop delim false p [] 0

/-- Where the reader stopped, whether it read a string or failed. -/
def ParsedString.ofResult : Except (String × ParsedString) ParsedString → ParsedString
  | .ok r => r
  | .error (_, r) => r

/-- The reader never moves back: where it stops is a suffix of where it started. -/
theorem parseStringLoop_rest_length_le (delim : UInt8) (triple : Bool) (p acc : List UInt8)
    (n : Nat) :
    (ParsedString.ofResult (parseStringLoop delim triple p acc n)).rest.length ≤ p.length := by
  fun_induction parseStringLoop delim triple p acc n
  -- the `\x`, `\u`, `\U` and octal escapes read on from where their digits end
  case case9 =>
    rename_i ih
    refine Nat.le_trans ih (Nat.le_trans (hexEscape_length_le _ _ _) ?_)
    simp only [List.length_cons]
    omega
  case case10 =>
    rename_i ih
    refine Nat.le_trans ih (Nat.le_trans (octEscape_length_le _ _) ?_)
    simp only [List.length_cons]
    omega
  all_goals
    simp only [ParsedString.ofResult, List.length_cons, List.length_drop, List.length_nil] at *
    omega

theorem qeCfgParseString_rest_length_le (p : List UInt8) (delim : UInt8) :
    (ParsedString.ofResult (qeCfgParseString p delim)).rest.length ≤ p.length := by
  unfold qeCfgParseString
  split
  · refine Nat.le_trans (parseStringLoop_rest_length_le _ _ _ _ _) ?_
    split <;> simp only [List.length_drop] <;> omega
  · exact parseStringLoop_rest_length_le _ _ _ _ _

unseal parseStringLoop in
/-- UTF-8 text, and a control byte followed by a hex digit, quoted by
`strquote` and read back by `qe_cfg_parse_string`, come back changed. -/
theorem strquote_parse_string_differs :
    qeCfgParseString ((strquote [0xc3, 0xa9] SQB_USE_EXTENDED).drop 1) 0x22 =
        .ok ⟨[0xc3, 0x83, 0xc2, 0xa9], [], 0⟩ ∧
      qeCfgParseString ((strquote [0x01, 0x41] SQB_USE_EXTENDED).drop 1) 0x22 =
        .ok ⟨[0x1a], [], 0⟩ := by
  decide

end Qemacs
