import Qemacs.Script.Token

/-!
# Script values, operators and commands

The value stack of the script interpreter (qescript.c) and the functions that
work on its slots: `qe_cfg_getvalue`, the conversions `qe_cfg_tonum`,
`qe_cfg_tostr` and `qe_cfg_tochar`, the operators of `qe_cfg_op`, the
assignments of `qe_cfg_assign`, and the argument list of a command, which
`parse_arg` (qe.c) reads from its spec string.

The editor is a parameter, `ScriptHost`: its variables, its commands and what
a command does to it, the buffer flags and positions a command takes as
default arguments, and the `%` formatting of a string, which rests on the C
library's `snprintf`. The interpreter's part is modelled as the source has it,
C's stale union reads apart: a slot without a number reads as 0 where the C
reads the union's leftover contents.

`long long` arithmetic is `Int64`, wrapping; the C has undefined behaviour
where it overflows, shifts by a negative or too large amount, and divides
`LLONG_MIN` by `-1` (which `qe_cfg_op` checks).
-/

namespace Qemacs

/-- `QEValue`: the type of a slot and its contents. An identifier is a name not
yet looked up. -/
inductive QEValue where
  | void
  | number (v : Int64)
  | char (v : Int64)
  | string (s : List UInt8)
  | id (name : List UInt8)
deriving DecidableEq, Repr

namespace QEValue

/-- `sp->type`. -/
def type : QEValue → Int
  | void => TOK_VOID
  | number _ => TOK_NUMBER
  | char _ => TOK_CHAR
  | string _ => TOK_STRING
  | id _ => TOK_ID

/-- `sp->u.value`; 0 where the C reads the stale union. -/
def num : QEValue → Int64
  | number v => v
  | char v => v
  | _ => 0

/-- `sp->u.str` with its length; empty where the C reads the stale union. -/
def str : QEValue → List UInt8
  | string s => s
  | id name => name
  | _ => []

/-- The truth of a value in `if` and `?:`: a string, or a value not 0. -/
def truth (v : QEValue) : Bool := v.type = TOK_STRING ∨ v.num ≠ 0

end QEValue

/-- What `qe_get_variable` gives: the text of a `VAR_CHARS` or `VAR_STRING`
variable, or the value of a `VAR_NUMBER` or `VAR_STYLE` one. -/
inductive VarValue where
  | text (s : List UInt8)
  | number (n : Int32)
deriving DecidableEq, Repr

/-! ## Commands -/

/-- `CmdDef`: the name, the argument spec before its NUL, and `val`. -/
structure CmdDef where
  name : List UInt8
  spec : List UInt8
  val : Int32
deriving DecidableEq, Repr

/-- `CmdArg`: an argument as `call_func` receives it. -/
inductive CmdArg where
  | window
  | int (n : Int32)
  | string (s : List UInt8)
deriving DecidableEq, Repr

/-- The argument types of qe.h and their flags. -/
abbrev CMD_ARG_INT : Nat := 0
abbrev CMD_ARG_INTVAL : Nat := 1
abbrev CMD_ARG_STRING : Nat := 2
abbrev CMD_ARG_STRINGVAL : Nat := 3
abbrev CMD_ARG_WINDOW : Nat := 4
abbrev CMD_ARG_TYPE_MASK : Nat := 0x0f
abbrev CMD_ARG_RAW_ARGVAL : Nat := 0x10
abbrev CMD_ARG_NUM_ARGVAL : Nat := 0x20
abbrev CMD_ARG_NEG_ARGVAL : Nat := 0x30
abbrev CMD_ARG_USE_KEY : Nat := 0x40
abbrev CMD_ARG_USE_MARK : Nat := 0x50
abbrev CMD_ARG_USE_POINT : Nat := 0x60
abbrev CMD_ARG_USE_ZERO : Nat := 0x70
abbrev CMD_ARG_USE_BSIZE : Nat := 0x80

/-- `MAX_CMD_ARGS`. -/
def MAX_CMD_ARGS : Nat := 5

/-- `NO_ARG`: `INT_MIN`. -/
def NO_ARG : Int32 := -2147483648

/-- `get_param`: the text between `osep` and `sep` at the start of `p`, of at
most `size - 1` bytes, and what follows the closing `sep`. -/
def getParam (p : List UInt8) (osep sep : UInt8) (size : Nat) : List UInt8 × List UInt8 :=
  match p with
  | c :: q =>
    if c = osep then
      let body := q.takeWhile fun b => b ≠ sep ∧ b ≠ 0
      let rest := q.dropWhile fun b => b ≠ sep ∧ b ≠ 0
      (body.take (size - 1), if rest.head? = some sep then rest.drop 1 else rest)
    else ([], p)
  | [] => ([], [])

/-- The argument type of a code letter of a spec. -/
def argTypeOf (tc : UInt8) : Option Nat :=
  if tc = 0x64 then some (CMD_ARG_INT ||| CMD_ARG_USE_POINT)         -- 'd'
  else if tc = 0x65 then some (CMD_ARG_INT ||| CMD_ARG_USE_BSIZE)    -- 'e'
  else if tc = 0x6b then some (CMD_ARG_INT ||| CMD_ARG_USE_KEY)      -- 'k'
  else if tc = 0x6d then some (CMD_ARG_INT ||| CMD_ARG_USE_MARK)     -- 'm'
  else if tc = 0x6e then some CMD_ARG_INT                            -- 'n'
  else if tc = 0x4e then some (CMD_ARG_INT ||| CMD_ARG_RAW_ARGVAL)   -- 'N'
  else if tc = 0x70 then some (CMD_ARG_INT ||| CMD_ARG_NUM_ARGVAL)   -- 'p'
  else if tc = 0x50 then some (CMD_ARG_INT ||| CMD_ARG_RAW_ARGVAL)   -- 'P'
  else if tc = 0x71 then some (CMD_ARG_INT ||| CMD_ARG_NEG_ARGVAL)   -- 'q'
  else if tc = 0x73 then some CMD_ARG_STRING                         -- 's'
  else if tc = 0x40 then some CMD_ARG_STRINGVAL                      -- '@'
  else if tc = 0x76 then some CMD_ARG_INTVAL                         -- 'v'
  else if tc = 0x7a then some (CMD_ARG_INT ||| CMD_ARG_USE_ZERO)     -- 'z'
  else none

/-- What `parse_arg` returns: 0, -1, or 1 with the argument read. -/
inductive ParsedArg where
  | done
  | error
  | arg (type : Nat) (prompt : List UInt8) (rest : List UInt8)
deriving DecidableEq, Repr

/-- `parse_arg`: one argument of a spec, with its prompt; the completion and
history names are passed over. -/
def parseArg (p : List UInt8) : ParsedArg :=
  match p with
  | [] => .done
  | tc :: p =>
    if tc = 0 then .done
    else
      let (prompt, p) := getParam p 0x7b 0x7d 1024
      let p := (getParam p 0x5b 0x5d 32).2
      let p := (getParam p 0x7c 0x7c 32).2
      match argTypeOf tc with
      | some t => .arg t prompt p
      | none => .error

/-- The argument loop of `qe_cfg_call` over the spec: the types after the
window, and the prompt of the last argument read; `none` for a bad spec or one
with more than `MAX_CMD_ARGS` arguments, the window counted. -/
def specArgs : Nat → List UInt8 → List Nat → List UInt8 → Option (List Nat × List UInt8)
  | room, spec, types, prompt =>
    match parseArg spec with
    | .done => some (types, prompt)
    | .error => none
    | .arg t pr rest =>
      match room with
      | 0 => none
      | room + 1 => specArgs room rest (types ++ [t]) pr

/-! ## The editor -/

/-- What the interpreter asks of the editor, whose state is `σ`. -/
structure ScriptHost (σ : Type) where
  /-- `qe_get_variable`; `none` for `VAR_UNKNOWN`. -/
  getVariable : σ → List UInt8 → Option VarValue
  /-- `qe_set_variable`, with a text or a number. -/
  setVariable : σ → List UInt8 → VarValue → σ
  /-- `qe_find_cmd`. -/
  findCmd : σ → List UInt8 → Option CmdDef
  /-- `check_read_only`: the buffer is read-only, which it reports. -/
  checkReadOnly : σ → Bool
  /-- The buffer's mark, the window's point and the buffer's size. -/
  mark : σ → Int32
  point : σ → Int32
  bufferSize : σ → Int32
  /-- `call_func` on the command and its arguments, then the window the
  command left active. -/
  callFunc : σ → CmdDef → List CmdArg → σ
  /-- `qe_cfg_format`: the string formatted with the second operand, or the
  message of the conversion that failed. -/
  format : σ → List UInt8 → QEValue → Except String (List UInt8)

/-! ## The data source -/

/-- `QEmacsDataSource`: the reader, the editor state `ds->s`, and the value
stack of 16 slots with `sp_max`, one past the highest slot used. -/
structure QEmacsDataSource (σ : Type) extends Reader where
  s : σ
  spMax : Nat
  stack : List QEValue

/-- The number of slots of `ds->stack`. -/
def STACK_SIZE : Nat := 16

namespace QEmacsDataSource

variable {σ : Type}

/-- Slot `i` of the stack. -/
def get (ds : QEmacsDataSource σ) (i : Nat) : QEValue := ds.stack.getD i .void

/-- Slot `i` set to `v`. A slot past the 16 is C's overflow into the
structure's next field; it is dropped here. -/
def set (ds : QEmacsDataSource σ) (i : Nat) (v : QEValue) : QEmacsDataSource σ :=
  { ds with stack := ds.stack.set i v }

/-- `qe_cfg_error`. -/
def error (ds : QEmacsDataSource σ) (msg : String) : QEmacsDataSource σ :=
  { ds with toReader := qeCfgError ds.toReader msg }

/-- `qe_cfg_next_token`. -/
def next (ds : QEmacsDataSource σ) : QEmacsDataSource σ :=
  { ds with toReader := qeCfgNextToken ds.toReader }

/-- `has_token`. -/
def has (ds : QEmacsDataSource σ) (tok : Int) : Bool × QEmacsDataSource σ :=
  let (b, r) := hasToken ds.toReader tok
  (b, { ds with toReader := r })

/-- `expect_token`. -/
def expect (ds : QEmacsDataSource σ) (tok : Int) : Bool × QEmacsDataSource σ :=
  let (b, r) := expectToken ds.toReader tok
  (b, { ds with toReader := r })

/-- `qe_cfg_skip_expr`, which reports a failure. -/
def skipExpr (ds : QEmacsDataSource σ) : Bool × QEmacsDataSource σ :=
  (true, { ds with toReader := qeCfgSkipExpr ds.toReader })

@[simp] theorem set_toReader (ds : QEmacsDataSource σ) (i : Nat) (v : QEValue) :
    (ds.set i v).toReader = ds.toReader := rfl

@[simp] theorem set_s (ds : QEmacsDataSource σ) (i : Nat) (v : QEValue) : (ds.set i v).s = ds.s := rfl

@[simp] theorem set_spMax (ds : QEmacsDataSource σ) (i : Nat) (v : QEValue) :
    (ds.set i v).spMax = ds.spMax := rfl

@[simp] theorem error_s (ds : QEmacsDataSource σ) (msg : String) : (ds.error msg).s = ds.s := rfl

@[simp] theorem error_stack (ds : QEmacsDataSource σ) (msg : String) :
    (ds.error msg).stack = ds.stack := rfl

@[simp] theorem error_spMax (ds : QEmacsDataSource σ) (msg : String) :
    (ds.error msg).spMax = ds.spMax := rfl

@[simp] theorem next_s (ds : QEmacsDataSource σ) : ds.next.s = ds.s := rfl

@[simp] theorem next_stack (ds : QEmacsDataSource σ) : ds.next.stack = ds.stack := rfl

@[simp] theorem next_spMax (ds : QEmacsDataSource σ) : ds.next.spMax = ds.spMax := rfl

end QEmacsDataSource

/-! ## Conversions -/

section Conversions

variable {σ : Type} (host : ScriptHost σ)

/-- `qe_cfg_getvalue`: an identifier in slot `sp` is replaced by the value of
the variable; an unknown variable is an error and leaves the slot void. -/
def qeCfgGetvalue (ds : QEmacsDataSource σ) (sp : Nat) : Bool × QEmacsDataSource σ :=
  match ds.get sp with
  | .id name =>
    match host.getVariable ds.s name with
    | some (.text s) => (false, ds.set sp (.string (s.takeWhile (· ≠ 0))))
    | some (.number n) => (false, ds.set sp (.number n.toInt64))
    | none => (true, (ds.error ("no variable " ++ cfgStr name)).set sp .void)
  | _ => (false, ds)

/-- The decimal text of a number, as `%lld` prints it. -/
def decimal (v : Int64) : List UInt8 := cstr (toString v.toInt)

/-- A code point as `char32_t`: the low 32 bits. -/
def toChar32 (v : Int64) : UInt32 := UInt32.ofInt v.toInt

/-- `qe_cfg_tonum`. A string is read by `strtoll`; a character is its code. -/
def qeCfgTonum (ds : QEmacsDataSource σ) (sp : Nat) : Bool × QEmacsDataSource σ :=
  let (e, ds) := qeCfgGetvalue host ds sp
  if e then (true, ds)
  else
    match ds.get sp with
    | .number _ => (false, ds)
    | .string s => (false, ds.set sp (.number (strtoll s).1))
    | .char v => (false, ds.set sp (.number v))
    | _ => (false, ds.set sp (.number 0))

/-- `qe_cfg_tostr`. A character becomes its UTF-8 encoding. -/
def qeCfgTostr (ds : QEmacsDataSource σ) (sp : Nat) : Bool × QEmacsDataSource σ :=
  let (e, ds) := qeCfgGetvalue host ds sp
  if e then (true, ds)
  else
    match ds.get sp with
    | .string _ => (false, ds)
    | .number v => (false, ds.set sp (.string (decimal v)))
    | .char v => (false, ds.set sp (.string (utf8Encode (toChar32 v))))
    | _ => (false, ds.set sp (.string []))

/-- `qe_cfg_tochar`. A string gives the number of its first code point, not a
character. -/
def qeCfgTochar (ds : QEmacsDataSource σ) (sp : Nat) : Bool × QEmacsDataSource σ :=
  let (e, ds) := qeCfgGetvalue host ds sp
  if e then (true, ds)
  else
    match ds.get sp with
    | .string s => (false, ds.set sp (.number (Int64.ofNat (utf8Decode s).1.toNat)))
    | .number v => (false, ds.set sp (.char v))
    | .char v => (false, ds.set sp (.char v))
    | _ => (false, ds.set sp (.number 0))

end Conversions

/-! ## Operators -/

/-- The comparison of two C strings by `strcmp`: its sign. -/
def strcmpSign (a b : List UInt8) : Int64 :=
  let a := a.takeWhile (· ≠ 0)
  let b := b.takeWhile (· ≠ 0)
  if a = b then 0 else if a < b then -1 else 1

/-- A C truth value. -/
def cBool (b : Bool) : Int64 := if b then 1 else 0

/-- The byte of a string at an index, read as a signed `char` and converted to
`char32_t`, as the subscript operator does. -/
def signedChar (b : UInt8) : Int64 :=
  Int64.ofNat (if b < 128 then b.toNat else (b.toUInt32 ||| 0xffffff00).toNat)

/-- The numeric operators of `qe_cfg_op`, from the label `num` on: the result,
or the message of the error. -/
def numOp (op : Int) (a b : Int64) : Except String Int64 :=
  if op = 0x2a ∨ op = TOK_MUL_EQ then .ok (a * b)
  else if op = 0x2f ∨ op = 0x25 ∨ op = TOK_DIV_EQ ∨ op = TOK_MOD_EQ then
    if b = 0 ∨ (a = Int64.minValue ∧ b = -1) then .error ("'" ++ cfgChar op ++ "': division overflow")
    else if op = 0x2f ∨ op = TOK_DIV_EQ then .ok (a / b) else .ok (a % b)
  else if op = 0x2b ∨ op = TOK_ADD_EQ ∨ op = TOK_INC then .ok (a + b)
  else if op = 0x2d ∨ op = TOK_SUB_EQ ∨ op = TOK_DEC then .ok (a - b)
  else if op = TOK_SHL ∨ op = TOK_SHL_EQ then .ok (a <<< b)
  else if op = TOK_SHR ∨ op = TOK_SHR_EQ then .ok (a >>> b)
  else if op = 0x3c then .ok (cBool (a < b))
  else if op = 0x3e then .ok (cBool (a > b))
  else if op = TOK_LE then .ok (cBool (a ≤ b))
  else if op = TOK_GE then .ok (cBool (a ≥ b))
  else if op = TOK_EQ then .ok (cBool (a = b))
  else if op = TOK_NE then .ok (cBool (a ≠ b))
  else if op = 0x26 ∨ op = TOK_AND_EQ then .ok (a &&& b)
  else if op = 0x5e ∨ op = TOK_XOR_EQ then .ok (a ^^^ b)
  else if op = 0x7c ∨ op = TOK_OR_EQ then .ok (a ||| b)
  else if op = TOK_LAND then .ok (cBool (a ≠ 0 ∧ b ≠ 0))
  else if op = TOK_LOR then .ok (cBool (a ≠ 0 ∨ b ≠ 0))
  else if op = 0x3f ∨ op = 0x2c then .ok b
  else .error ("invalid numeric operator '" ++ cfgChar op ++ "'")

section Operators

variable {σ : Type} (host : ScriptHost σ)

/-- The numeric part of `qe_cfg_op`: slot `sp` becomes `numOp` of the numbers
in `sp` and `sp + 1`. -/
def numOpAt (ds : QEmacsDataSource σ) (sp : Nat) (op : Int) : Bool × QEmacsDataSource σ :=
  match numOp op (ds.get sp).num (ds.get (sp + 1)).num with
  | .ok v => (false, ds.set sp (.number v))
  | .error msg => (true, ds.error msg)

/-- `qe_cfg_op`: the operator `op` on the slots `sp` and `sp + 1`, the result
in `sp`. A string on the left compares, concatenates, indexes or formats; any
other value is converted to a number, the right operand too. -/
def qeCfgOp (ds : QEmacsDataSource σ) (sp : Nat) (op : Int) : Bool × QEmacsDataSource σ :=
  match ds.get sp with
  | .string s =>
    if op = 0x3c ∨ op = 0x3e ∨ op = TOK_LE ∨ op = TOK_GE ∨ op = TOK_EQ ∨ op = TOK_NE then
      let (e, ds) := qeCfgTostr host ds (sp + 1)
      if e then (true, ds)
      else
        let ds := (ds.set sp (.number (strcmpSign s (ds.get (sp + 1)).str))).set (sp + 1) (.number 0)
        numOpAt ds sp op
    else if op = 0x2b ∨ op = TOK_ADD_EQ then
      let (e, ds) := qeCfgTostr host ds (sp + 1)
      if e then (true, ds) else (false, ds.set sp (.string (s ++ (ds.get (sp + 1)).str)))
    else if op = 0x5b then
      let (e, ds) := qeCfgTonum host ds (sp + 1)
      if e then (true, ds)
      else
        let i := (ds.get (sp + 1)).num.toInt
        if h : 0 ≤ i ∧ i < s.length then
          (false, ds.set sp (.char (signedChar (s.get ⟨i.toNat, by omega⟩))))
        else (false, ds.set sp .void)
    else if op = 0x25 then
      match host.format ds.s s (ds.get (sp + 1)) with
      | .ok t => (false, ds.set sp (.string t))
      | .error msg => (true, ds.error msg)
    else (true, ds.error ("invalid string operator '" ++ cfgChar op ++ "'"))
  | _ =>
    let (e, ds) := qeCfgTonum host ds sp
    if e then (true, ds)
    else
      let (e, ds) := qeCfgTonum host ds (sp + 1)
      if e then (true, ds) else numOpAt ds sp op

/-- `qe_cfg_check_lvalue`: the slot holds a name. -/
def qeCfgCheckLvalue (ds : QEmacsDataSource σ) (sp : Nat) : Bool × QEmacsDataSource σ :=
  match ds.get sp with
  | .id _ => (false, ds)
  | _ => (true, ds.error "not a variable")

/-- The value `qe_set_variable` receives: a string's text, or the number,
truncated to `int`. -/
def varValueOf (v : QEValue) : VarValue :=
  match v with
  | .string s => .text (s.takeWhile (· ≠ 0))
  | v => .number v.num.toInt32

/-- `qe_cfg_assign`: the variable named in `sp` is set to the value in
`sp + 1`, combined first with its current value by `op` unless `op` is `=`.
The slot keeps the name, so the assignment's value is read back from the
variable. -/
def qeCfgAssign (ds : QEmacsDataSource σ) (sp : Nat) (op : Int) : Bool × QEmacsDataSource σ :=
  match ds.get sp with
  | .id name =>
    let (e, ds) := qeCfgGetvalue host ds (sp + 1)
    if e then (true, ds)
    else
      let r : Bool × QEmacsDataSource σ :=
        if op ≠ 0x3d then
          let (e, ds) := qeCfgGetvalue host ds sp
          if e then (true, ds)
          else
            let (e, ds) := qeCfgOp host ds sp op
            -- `qe_cfg_move(sp + 1, sp)`, then the name back in `sp`
            if e then (true, ds) else (false, (ds.set (sp + 1) (ds.get sp)).set sp (.id name))
        else (false, ds)
      let (e, ds) := r
      if e then (true, ds)
      else (false, { ds with s := host.setVariable ds.s name (varValueOf (ds.get (sp + 1))) })
  | _ => (true, ds.error "not a variable")

end Operators

end Qemacs
