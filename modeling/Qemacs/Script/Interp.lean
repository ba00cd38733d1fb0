import Qemacs.Script.Value

/-!
# The script interpreter

`qe_cfg_expr`, `qe_cfg_get_args`, `qe_cfg_call`, `qe_cfg_stmt` and
`qe_parse_script` (qescript.c): a recursive-descent interpreter that parses and
evaluates at once. Each function returns whether it failed, C's nonzero return,
with the data source it leaves.

The functions are one mutual recursion with a `fuel` argument that every call
spends, `none` when it runs out: the top-level loop of `qe_parse_script` need
not end. An expression that fails goes back to its first token and skips itself
with `qe_cfg_skip_expr`; a statement consumes only a `;` of its own; and
`qe_cfg_skip_expr` stops, without consuming it, at a closing bracket or `:` at
level 0. At a stray `)`, `]`, `}` or `:` the three stand still together, and the
top-level loop runs forever (`qeParseScript_closer`).

Labels of the C become functions: `again` (the prefix switch, on the token the
expression started with, which `goto again` does not update) is `exprAgain`,
the operator loop is `exprLoop`, and `fail` is `exprFail`.
-/

namespace Qemacs

/-- What `qe_cfg_expr` keeps from its entry: where the expression starts and
the line number then, for the error path; its first token, which the prefix
switch reads; the slot and the precedence. -/
structure ExprCtx where
  startP : List UInt8
  startLine : Nat
  tok : Int
  sp : Nat
  prec0 : Nat

section Interp

variable {σ : Type} (host : ScriptHost σ)

/-- The label `fail` of `qe_cfg_expr`: back to the first token of the
expression, which is read again and skipped with what follows it. -/
def exprFail (ctx : ExprCtx) (ds : QEmacsDataSource σ) : Bool × QEmacsDataSource σ :=
  ({ ds with p := ctx.startP, lineNum := ctx.startLine } : QEmacsDataSource σ).next.skipExpr

/-- The default of an argument of type `t` of a command called with no more
arguments, if it has one. -/
def defaultArg (s : σ) (t : Nat) : Option Int32 :=
  if t = CMD_ARG_INT ||| CMD_ARG_RAW_ARGVAL then some NO_ARG
  else if t = CMD_ARG_INT ||| CMD_ARG_NUM_ARGVAL then some 1
  else if t = CMD_ARG_INT ||| CMD_ARG_NEG_ARGVAL then some (-1)
  else if t = CMD_ARG_INT ||| CMD_ARG_USE_MARK then some (host.mark s)
  else if t = CMD_ARG_INT ||| CMD_ARG_USE_POINT then some (host.point s)
  else if t = CMD_ARG_INT ||| CMD_ARG_USE_ZERO then some 0
  else if t = CMD_ARG_INT ||| CMD_ARG_USE_BSIZE then some (host.bufferSize s)
  else none

mutual

/-- `qe_cfg_expr`: the expression at the current token, with operators of
precedence `prec0` and above, evaluated into slot `sp`, or skipped. -/
def qeCfgExpr : Nat → QEmacsDataSource σ → Nat → Nat → Bool →
    Option (Bool × QEmacsDataSource σ)
  | 0, _, _, _, _ => none
  | fuel + 1, ds, sp, prec0, skip =>
    let ctx : ExprCtx := ⟨ds.startP, ds.lineNum, ds.tok, sp, prec0⟩
    if skip then some ds.skipExpr
    else if ds.spMax ≤ sp then
      if STACK_SIZE ≤ sp then some (ds.error "stack overflow").skipExpr
      else exprAgain fuel ctx { ds with spMax := sp + 1 }
    else exprAgain fuel ctx ds

/-- The label `again`: the prefix operators and the operands, switched on the
expression's first token. -/
def exprAgain : Nat → ExprCtx → QEmacsDataSource σ → Option (Bool × QEmacsDataSource σ)
  | 0, _, _ => none
  | fuel + 1, ctx, ds =>
    let sp := ctx.sp
    let tok := ctx.tok
    if tok = 0x28 then do
      let (e, ds) ← qeCfgExpr fuel ds.next sp PREC_EXPRESSION false
      if e then return exprFail ctx ds
      let (ok, ds) := ds.expect 0x29
      if !ok then return exprFail ctx ds
      exprLoop fuel ctx ds
    else if tok = 0x2d ∨ tok = 0x2b ∨ tok = 0x7e then do
      -- unary minus, plus and complement share their shape
      let (e, ds) ← qeCfgExpr fuel ds.next sp PREC_POSTFIX false
      if e then return exprFail ctx ds
      let (e, ds) := qeCfgTonum host ds sp
      if e then return exprFail ctx ds
      let v := (ds.get sp).num
      let ds := if tok = 0x2d then ds.set sp (.number (-v))
        else if tok = 0x7e then ds.set sp (.number (~~~v)) else ds
      exprLoop fuel ctx ds
    else if tok = 0x21 then do
      let (e, ds) ← qeCfgExpr fuel ds.next sp PREC_POSTFIX false
      if e then return exprFail ctx ds
      let (e, ds) := qeCfgGetvalue host ds sp
      if e then return exprFail ctx ds
      let v := ds.get sp
      exprLoop fuel ctx (ds.set sp (.number (if v.type = TOK_STRING then 0 else cBool (v.num = 0))))
    else if tok = TOK_INC ∨ tok = TOK_DEC then do
      -- `++x` is `x += 1`
      let (e, ds) ← qeCfgExpr fuel ds.next sp PREC_POSTFIX false
      if e then return exprFail ctx ds
      let (e, ds) := qeCfgCheckLvalue ds sp
      if e then return exprFail ctx ds
      let (e, ds) := qeCfgAssign host (ds.set (sp + 1) (.number 1)) sp tok
      if e then return exprFail ctx ds
      let (e, ds) := qeCfgGetvalue host ds sp
      if e then return exprFail ctx ds
      exprLoop fuel ctx ds
    -- the operands read the current token's text, whatever `tok` is
    else if tok = TOK_NUMBER then exprLoop fuel ctx (ds.set sp (.number (strtoll ds.startP).1)).next
    else if tok = TOK_STRING then exprLoop fuel ctx (ds.set sp (.string ds.str)).next
    else if tok = TOK_ID then exprLoop fuel ctx (ds.set sp (.id ds.str)).next
    else if tok = TOK_CHAR then
      exprLoop fuel ctx (ds.set sp (.char (Int64.ofNat (utf8Decode ds.str).1.toNat))).next
    else some (exprFail ctx ((ds.set sp .void).error "invalid expression"))

/-- The `for (;;)` loop of `qe_cfg_expr` over the infix and postfix operators. -/
def exprLoop : Nat → ExprCtx → QEmacsDataSource σ → Option (Bool × QEmacsDataSource σ)
  | 0, _, _ => none
  | fuel + 1, ctx, ds =>
    let sp := ctx.sp
    let op := ds.tok
    let prec := ds.prec
    if prec < ctx.prec0 then some (false, ds)
    else
      let ds := ds.next
      if op = 0x2c then exprAgain fuel ctx ds
      else if op = 0x3f then
        -- a failure of the conditional goes back to the prefix switch
        let (e, ds) := qeCfgGetvalue host ds sp
        if e then exprAgain fuel ctx ds
        else
          let t := (ds.get sp).truth
          match qeCfgExpr fuel ds sp PREC_EXPRESSION (!t) with
          | none => none
          | some (e, ds) =>
            if e ≠ !t then exprAgain fuel ctx ds
            else
              let (ok, ds) := ds.has 0x3a
              if !ok then exprAgain fuel ctx ds
              else
                match qeCfgExpr fuel ds sp PREC_CONDITIONAL t with
                | none => none
                | some (e, ds) => if e ≠ t then exprAgain fuel ctx ds else exprLoop fuel ctx ds
      else if prec = PREC_POSTFIX then
        if op = 0x28 then
          match ds.get sp with
          | .id name =>
            match host.findCmd ds.s name with
            | none =>
              -- the conversions are not commands
              if name = cstr "char" ∨ name = cstr "int" ∨ name = cstr "string" then do
                let (n, ds) ← qeCfgGetArgs fuel ds sp 1 1 0 0
                if n < 0 then return exprFail ctx ds
                let ds := if name = cstr "char" then (qeCfgTochar host ds sp).2
                  else if name = cstr "int" then (qeCfgTonum host ds sp).2
                  else (qeCfgTostr host ds sp).2
                exprLoop fuel ctx ds
              else some (exprFail ctx (ds.error ("unknown command '" ++ cfgStr name ++ "'")))
            | some d => do
              let (e, ds) ← qeCfgCall fuel ds sp d
              if e then return exprFail ctx ds
              exprLoop fuel ctx ds
          | _ => some (exprFail ctx (ds.error "invalid function call"))
        else if op = TOK_INC ∨ op = TOK_DEC then
          -- `x++` is `first(x, x += 1)`, the name moved to `sp + 1`
          let (e, ds) := qeCfgCheckLvalue ds sp
          if e then some (exprFail ctx ds)
          else
            let (e, ds) := qeCfgGetvalue host (ds.set (sp + 1) (ds.get sp)) sp
            if e then some (exprFail ctx ds)
            else
              let (e, ds) := qeCfgAssign host (ds.set (sp + 2) (.number 1)) (sp + 1) op
              if e then some (exprFail ctx ds) else exprLoop fuel ctx ds
        else if op = 0x5b then do
          let (e, ds) ← qeCfgExpr fuel ds (sp + 1) PREC_EXPRESSION false
          if e then return exprFail ctx ds
          let (ok, ds) := ds.expect 0x5d
          if !ok then return exprFail ctx ds
          let (e, ds) := qeCfgOp host ds sp op
          -- a failed subscript returns without the error path
          if e then return (true, ds)
          exprLoop fuel ctx ds
        else if op = 0x2e then
          if ds.tok ≠ TOK_ID then some (exprFail ctx (ds.error "expected property name"))
          else
            let (e, ds) := qeCfgGetvalue host ds sp
            if e then some (true, ds)
            else
              match ds.get sp with
              | .string s =>
                if ds.str = cstr "length" then
                  exprLoop fuel ctx (ds.set sp (.number (Int64.ofNat (s.takeWhile (· ≠ 0)).length))).next
                else some (exprFail ctx (ds.error ("no such property '" ++ cfgStr ds.str ++ "'")))
              | _ => some (exprFail ctx (ds.error ("no such property '" ++ cfgStr ds.str ++ "'")))
        else some (exprFail ctx (ds.error ("unsupported operator '" ++ cfgChar op ++ "'")))
      else if prec = PREC_ASSIGNMENT then do
        -- assignments are right associative
        let (e, ds) ← qeCfgExpr fuel ds (sp + 1) PREC_ASSIGNMENT false
        if e then return exprFail ctx ds
        let (e, ds) := qeCfgAssign host ds sp op
        if e then return exprFail ctx ds
        exprLoop fuel ctx ds
      else do
        -- other operators are left associative
        let (e, ds) ← qeCfgExpr fuel ds (sp + 1) (prec + 1) false
        if e then return exprFail ctx ds
        let (e, ds) := qeCfgGetvalue host ds sp
        if e then return exprFail ctx ds
        let (e, ds) := qeCfgOp host ds sp op
        if e then return exprFail ctx ds
        exprLoop fuel ctx ds

/-- `qe_cfg_get_args` from `nargs` arguments read, `sep` the separator expected
before the next: the arguments up to `)` into the slots from `sp` on, and
their number, or -1. -/
def qeCfgGetArgs : Nat → QEmacsDataSource σ → Nat → Nat → Nat → Nat → Int →
    Option (Int × QEmacsDataSource σ)
  | 0, _, _, _, _, _, _ => none
  | fuel + 1, ds, sp, n1, n2, nargs, sep =>
    let (closed, ds) := ds.has 0x29
    if closed then
      if nargs < n1 then some (-1, ds.error "missing arguments")
      else if n2 < nargs then some (-1, ds.error "extra arguments")
      else some (nargs, ds)
    else
      let (ok, ds) := if sep ≠ 0 then ds.expect sep else (true, ds)
      if !ok then some (-1, ds)
      else do
        let (e, ds) ← qeCfgExpr fuel ds (sp + nargs) PREC_ASSIGNMENT false
        if e then return (-1, ds.error "invalid argument")
        qeCfgGetArgs fuel ds sp n1 n2 (nargs + 1) 0x2c

/-- `qe_cfg_call`: the command `d` on the arguments that follow, after its
spec is read; the command's own arguments, the window, `val` and the prompt,
take no text. -/
def qeCfgCall : Nat → QEmacsDataSource σ → Nat → CmdDef → Option (Bool × QEmacsDataSource σ)
  | 0, _, _, _ => none
  | fuel + 1, ds, sp, d =>
    -- a spec starting with `*` modifies the buffer
    let (modifies, spec) := match d.spec with
      | 0x2a :: r => (true, r)
      | r => (false, r)
    if modifies ∧ host.checkReadOnly ds.s then some (true, ds)
    else
      match specArgs (MAX_CMD_ARGS - 1) spec [] [] with
      | none => some (true, ds.error ("invalid command definition '" ++ cfgStr d.name ++ "'"))
      | some (types, prompt) => callArgs fuel ds sp d prompt (CMD_ARG_WINDOW :: types) [] 0

/-- The argument loop of `qe_cfg_call` over the remaining types, with the
arguments gathered and the separator expected; then the closing `)` and the
call. -/
def callArgs : Nat → QEmacsDataSource σ → Nat → CmdDef → List UInt8 → List Nat → List CmdArg →
    Int → Option (Bool × QEmacsDataSource σ)
  | 0, _, _, _, _, _, _, _ => none
  | _ + 1, ds, sp, d, _, [], args, _ =>
    let (ok, ds) := ds.has 0x29
    if !ok then some (true, ds.error ("too many arguments for " ++ cfgStr d.name))
    else some (false, ({ ds with s := host.callFunc ds.s d args } : QEmacsDataSource σ).set sp .void)
  | fuel + 1, ds, sp, d, prompt, t :: ts, args, sep =>
    if t = CMD_ARG_WINDOW then callArgs fuel ds sp d prompt ts (args ++ [.window]) sep
    else if t = CMD_ARG_INTVAL then callArgs fuel ds sp d prompt ts (args ++ [.int d.val]) sep
    else if t = CMD_ARG_STRINGVAL then callArgs fuel ds sp d prompt ts (args ++ [.string prompt]) sep
    else
      match (if ds.tok = 0x29 then defaultArg host ds.s t else none) with
      | some n => callArgs fuel ds sp d prompt ts (args ++ [.int n]) sep
      | none =>
        -- at `)` with no default, the expression parser reports the missing argument
        let (ok, ds, sep) : Bool × QEmacsDataSource σ × Int :=
          if ds.tok = 0x29 then (true, ds, sep)
          else
            let (ok, ds) := if sep ≠ 0 then ds.expect sep else (true, ds)
            (ok, ds, 0x2c)
        if !ok then some (true, ds)
        else do
          let (e, ds) ← qeCfgExpr fuel ds sp PREC_ASSIGNMENT false
          if e then return (true, ds.error ("missing arguments for " ++ cfgStr d.name))
          -- a failed conversion is not reported to the command
          if t &&& CMD_ARG_TYPE_MASK = CMD_ARG_STRING then
            let ds := (qeCfgTostr host ds sp).2
            let str := ((ds.get sp).str).takeWhile (· ≠ 0)
            callArgs fuel (ds.set sp .void) sp d prompt ts (args ++ [.string str]) sep
          else
            let ds := (qeCfgTonum host ds sp).2
            let n := (ds.get sp).num.toInt32
            let n := if t = CMD_ARG_INT ||| CMD_ARG_NEG_ARGVAL then n * -1 else n
            callArgs fuel ds sp d prompt ts (args ++ [.int n]) sep

/-- `qe_cfg_stmt`: a block, an `if`, or an expression statement, executed, or
skipped when `skip` is set. -/
def qeCfgStmt : Nat → QEmacsDataSource σ → Nat → Bool → Option (Bool × QEmacsDataSource σ)
  | 0, _, _, _ => none
  | fuel + 1, ds, sp, skip =>
    let (block, ds) := ds.has 0x7b
    if block then stmtBlock fuel ds sp skip false
    else
      let (isIf, ds) := ds.has TOK_IF
      if isIf then do
        let (e, ds) ← qeCfgExpr fuel ds sp PREC_EXPRESSION skip
        let (e, ds) := if e then (true, ds) else qeCfgGetvalue host ds sp
        -- a failed condition skips both branches
        let (res, skip, truth) := if e then (true, true, false) else (false, skip, (ds.get sp).truth)
        let (r1, ds) ← qeCfgStmt fuel ds sp (skip || !truth)
        let (isElse, ds) := ds.has TOK_ELSE
        if isElse then do
          let (r2, ds) ← qeCfgStmt fuel ds sp (skip || truth)
          return (res || r1 || r2, ds)
        else return (res || r1, ds)
      else do
        let (res, ds) ←
          if ds.tok ≠ 0x3b then do
            let (e, ds) ← qeCfgExpr fuel ds sp PREC_EXPRESSION skip
            pure (if e then (true, ds) else qeCfgGetvalue host ds sp)
          else pure (false, ds)
        -- the statement consumes its `;`, if it has one
        let (semi, ds) := ds.has 0x3b
        let ds := if !semi ∧ ds.tok ≠ TOK_EOF ∧ ds.tok ≠ 0x7d ∧ !ds.newlineSeen then
          ds.error "missing ';'" else ds
        return (res, ds)

/-- The statements of a block up to its `}`. -/
def stmtBlock : Nat → QEmacsDataSource σ → Nat → Bool → Bool → Option (Bool × QEmacsDataSource σ)
  | 0, _, _, _, _ => none
  | fuel + 1, ds, sp, skip, res =>
    let (closed, ds) := ds.has 0x7d
    if closed then some (res, ds)
    else if ds.tok = TOK_EOF then some (true, ds.error "missing '\x7d'")
    else do
      let (r, ds) ← qeCfgStmt fuel ds sp skip
      stmtBlock fuel ds sp skip (res || r)

end

/-- The top-level loop of `qe_parse_script`: statements until the end of the
text or a token error; a failed statement leaves a void result. -/
def scriptLoop : Nat → QEmacsDataSource σ → Option (QEmacsDataSource σ)
  | 0, _ => none
  | fuel + 1, ds =>
    if ds.tok = TOK_EOF ∨ ds.tok = TOK_ERR then some ds
    else do
      let (e, ds) ← qeCfgStmt host fuel ds 0 false
      scriptLoop fuel (if e then ds.set 0 .void else ds)

/-- `qe_cfg_init`, then the setup of `qe_parse_script`: the text `buf`, line 1,
an empty stack. -/
def qeCfgInit (s : σ) (buf : List UInt8) : QEmacsDataSource σ where
  p := buf
  startP := buf
  lineNum := 1
  startLine := 0
  newlineSeen := false
  tok := TOK_VOID
  prec := PREC_NONE
  str := []
  errors := []
  s := s
  spMax := 0
  stack := List.replicate STACK_SIZE .void

/-- `qe_parse_script` on the text `buf`: the type of the result in slot 0, which
the function returns, and the data source it leaves. -/
def qeParseScript (fuel : Nat) (s : σ) (buf : List UInt8) :
    Option (Int × QEmacsDataSource σ) :=
  (scriptLoop host fuel (qeCfgInit s buf).next).map fun ds => ((ds.get 0).type, ds)

/-! ## A stray closer

At `)`, `]`, `}` or `:` the prefix switch finds no operand, the error path reads
the same token again, `qe_cfg_skip_expr` stops at it at level 0, and the
statement, having no `;` to consume, returns with the closer still current. -/

theorem QEmacsDataSource.has_of_ne {ds : QEmacsDataSource σ} {t : Int} (h : ds.tok ≠ t) :
    ds.has t = (false, ds) := by
  simp [QEmacsDataSource.has, hasToken, h]

/-- The error path at a closer reads it again and stops there. -/
theorem exprFail_closer {c : UInt8} (hc : c ∈ closers) {ctx : ExprCtx} {q : List UInt8}
    (hstart : ctx.startP = c :: q) (ds : QEmacsDataSource σ) :
    exprFail ctx ds =
      (true, { ds with p := q, startP := c :: q, lineNum := ctx.startLine,
                       startLine := ctx.startLine, newlineSeen := false, tok := c.toNat,
                       prec := PREC_NONE }) := by
  simp only [exprFail, QEmacsDataSource.next, QEmacsDataSource.skipExpr]
  rw [qeCfgNextToken_closer hc hstart, qeCfgSkipExpr_closer hc rfl]

/-- No prefix operator or operand starts with a closer. -/
theorem exprAgain_closer {c : UInt8} (hc : c ∈ closers) {ctx : ExprCtx} (htok : ctx.tok = c.toNat)
    (fuel : Nat) (ds : QEmacsDataSource σ) :
    exprAgain host (fuel + 1) ctx ds =
      some (exprFail ctx ((ds.set ctx.sp .void).error "invalid expression")) := by
  simp only [closers, List.mem_cons, List.not_mem_nil, or_false] at hc
  rw [exprAgain]
  rcases hc with rfl | rfl | rfl | rfl <;> simp +decide [htok]

/-- An expression at a closer fails, and leaves the closer the current token. -/
theorem qeCfgExpr_closer {c : UInt8} (hc : c ∈ closers) (fuel : Nat) {ds : QEmacsDataSource σ}
    (htok : ds.tok = c.toNat) (hstart : ds.startP = c :: ds.p) (sp : Nat) (hsp : sp < STACK_SIZE)
    (prec0 : Nat) :
    qeCfgExpr host fuel ds sp prec0 false = none ∨
      ∃ ds', qeCfgExpr host fuel ds sp prec0 false = some (true, ds') ∧
        ds'.tok = c.toNat ∧ ds'.startP = c :: ds'.p ∧ ds'.newlineSeen = false := by
  match fuel with
  | 0 => exact .inl (by rw [qeCfgExpr])
  | 1 =>
    left
    simp only [qeCfgExpr, Bool.false_eq_true, if_false]
    split
    · rw [if_neg (by omega), exprAgain]
    · rw [exprAgain]
  | fuel + 2 =>
    right
    simp only [qeCfgExpr, Bool.false_eq_true, if_false]
    -- both sides of the `sp_max` check reach the prefix switch
    split
    · rw [if_neg (by omega), exprAgain_closer host hc htok, exprFail_closer hc hstart]
      exact ⟨_, rfl, rfl, rfl, rfl⟩
    · rw [exprAgain_closer host hc htok, exprFail_closer hc hstart]
      exact ⟨_, rfl, rfl, rfl, rfl⟩

/-- None of the tokens a statement starts with is a closer. -/
theorem closer_ne {c : UInt8} (hc : c ∈ closers) :
    (c.toNat : Int) ≠ 0x7b ∧ (c.toNat : Int) ≠ TOK_IF ∧ (c.toNat : Int) ≠ 0x3b ∧
      (c.toNat : Int) ≠ TOK_EOF ∧ (c.toNat : Int) ≠ TOK_ERR := by
  simp only [closers, List.mem_cons, List.not_mem_nil, or_false] at hc
  rcases hc with rfl | rfl | rfl | rfl <;> decide

/-- A statement at a closer fails and consumes nothing. -/
theorem qeCfgStmt_closer {c : UInt8} (hc : c ∈ closers) (fuel : Nat) {ds : QEmacsDataSource σ}
    (htok : ds.tok = c.toNat) (hstart : ds.startP = c :: ds.p) :
    qeCfgStmt host fuel ds 0 false = none ∨
      ∃ ds', qeCfgStmt host fuel ds 0 false = some (true, ds') ∧
        ds'.tok = c.toNat ∧ ds'.startP = c :: ds'.p := by
  obtain ⟨h7b, hif, hsemi, -, -⟩ := closer_ne hc
  match fuel with
  | 0 => exact .inl (by rw [qeCfgStmt])
  | fuel + 1 =>
    rw [qeCfgStmt]
    simp only [QEmacsDataSource.has_of_ne (htok ▸ h7b), QEmacsDataSource.has_of_ne (htok ▸ hif),
      Bool.false_eq_true, if_false, htok, ne_eq, hsemi, not_false_eq_true, if_true]
    rcases qeCfgExpr_closer host hc fuel htok hstart 0 (by decide) PREC_EXPRESSION with
      h | ⟨ds', h, htok', hstart', -⟩
    · left
      simp [h]
    · right
      have hsemi' : ds'.has 0x3b = (false, ds') := QEmacsDataSource.has_of_ne (htok' ▸ hsemi)
      simp only [h, Option.bind_eq_bind, Option.bind_some, Option.pure_def, if_true, hsemi']
      -- a `missing ';'` message is all the statement adds
      refine ⟨_, rfl, ?_, ?_⟩ <;> split <;> simp [QEmacsDataSource.error, qeCfgError, htok', hstart']

/-- From a closer the top-level loop never ends. -/
theorem scriptLoop_closer {c : UInt8} (hc : c ∈ closers) (fuel : Nat) {ds : QEmacsDataSource σ}
    (htok : ds.tok = c.toNat) (hstart : ds.startP = c :: ds.p) : scriptLoop host fuel ds = none := by
  -- induction on the fuel: every iteration comes back to a state at the same closer
  induction fuel generalizing ds with
  | zero => rw [scriptLoop]
  | succ fuel ih =>
    obtain ⟨-, -, -, heof, herr⟩ := closer_ne hc
    have hrun : ¬(ds.tok = TOK_EOF ∨ ds.tok = TOK_ERR) := by
      rw [htok]
      exact not_or.mpr ⟨heof, herr⟩
    rw [scriptLoop, if_neg hrun]
    rcases qeCfgStmt_closer host hc fuel htok hstart with h | ⟨ds', h, htok', hstart'⟩
    · simp [h]
    · simp only [h, Option.bind_eq_bind, Option.bind_some, if_true]
      exact ih htok' hstart'

/-- `qe_parse_script` does not return on a text whose first token, after blanks
and comments, is a closer. -/
theorem qeParseScript_of_closer (fuel : Nat) (s : σ) {src : List UInt8} {c : UInt8}
    (hc : c ∈ closers) {rest : List UInt8} {l : Nat} {nl : Bool}
    (hfirst : skipBlanks src 1 false = (c :: rest, l, nl)) :
    qeParseScript host fuel s src = none := by
  have hnext := @qeCfgNextToken_of_closer (qeCfgInit s src).toReader c hc rest l nl hfirst
  have htok : (qeCfgInit s src).next.tok = c.toNat := by simp [QEmacsDataSource.next, hnext]
  have hstart : (qeCfgInit s src).next.startP = c :: (qeCfgInit s src).next.p := by
    simp [QEmacsDataSource.next, hnext]
  simp only [qeParseScript, scriptLoop_closer host hc fuel htok hstart, Option.map_none]

/-- `qe_parse_script` runs forever on every text that starts with `)`, `]`,
`}` or `:`, whatever the editor and however much fuel it is given. -/
theorem qeParseScript_stray_closer (fuel : Nat) (s : σ) (rest : List UInt8) :
    qeParseScript host fuel s (0x29 :: rest) = none ∧
      qeParseScript host fuel s (0x5d :: rest) = none ∧
      qeParseScript host fuel s (0x7d :: rest) = none ∧
      qeParseScript host fuel s (0x3a :: rest) = none :=
  ⟨qeParseScript_of_closer host fuel s (by decide) (skipBlanks_closer (by decide) rest 1 false),
   qeParseScript_of_closer host fuel s (by decide) (skipBlanks_closer (by decide) rest 1 false),
   qeParseScript_of_closer host fuel s (by decide) (skipBlanks_closer (by decide) rest 1 false),
   qeParseScript_of_closer host fuel s (by decide) (skipBlanks_closer (by decide) rest 1 false)⟩

end Interp

/-! ## Operator precedence

The operator table puts `<` and `>` at `PREC_SHIFT`, with `<<` and `>>`,
where C has them with `<=` and `>=` at `PREC_RELATIONAL`. -/

/-- An editor without variables and commands: an expression of numbers is
evaluated and nothing else happens. -/
def plainHost : ScriptHost Unit where
  getVariable _ _ := none
  setVariable s _ _ := s
  findCmd _ _ := none
  checkReadOnly _ := false
  mark _ := 0
  point _ := 0
  bufferSize _ := 0
  callFunc s _ _ := s
  format _ _ _ := .ok []

unseal skipBlanks skipExprLoop parseStringLoop qeCfgExpr in
/-- `1 < 2 << 3` is read as `(1 < 2) << 3`, and `3 <= 2 < 1` as `3 <= (2 < 1)`. -/
theorem qeParseScript_less_than_precedence :
    ((qeParseScript plainHost 30 () (cstr "1 < 2 << 3")).map fun r => r.2.get 0) =
        some (.number 8) ∧
      ((qeParseScript plainHost 30 () (cstr "3 <= 2 < 1")).map fun r => r.2.get 0) =
        some (.number 0) := by
  constructor <;> decide

/-! ## The untaken operand of a conditional

The evaluator stops at the first operator below the precedence it reads at; the
skipper does not (`qeCfgExpr_skip_stops`). The third operand of `?:`, read at
`PREC_CONDITIONAL`, stops before a `,` when it is evaluated and takes the comma
and the rest of the comma expression with it when it is skipped. -/

unseal skipBlanks skipExprLoop parseStringLoop qeCfgExpr in
/-- `3, 7` read at `PREC_CONDITIONAL` stops before the comma when evaluated and
at the end of the text when skipped: `1 ? 2 : 3, 7` is worth 2, where
`0 ? 2 : 3, 7` is worth 7. -/
theorem qeCfgExpr_skip_passes_comma :
    ((qeCfgExpr plainHost 10 (qeCfgInit () (cstr "3, 7")).next 0 PREC_CONDITIONAL false).map
        fun r => (r.1, r.2.tok)) = some (false, 0x2c) ∧
      ((qeCfgExpr plainHost 10 (qeCfgInit () (cstr "3, 7")).next 0 PREC_CONDITIONAL true).map
        fun r => r.2.tok) = some TOK_EOF ∧
      ((qeParseScript plainHost 30 () (cstr "1 ? 2 : 3, 7")).map fun r => r.2.get 0) =
        some (.number 2) ∧
      ((qeParseScript plainHost 30 () (cstr "0 ? 2 : 3, 7")).map fun r => r.2.get 0) =
        some (.number 7) := by
  refine ⟨?_, ?_, ?_, ?_⟩ <;> decide

/-! ## Arithmetic without a range check

`qe_cfg_op` checks the divisor of `/` and `%` and nothing else: `+`, `-`, `*`,
`<<` and `>>` run on whatever `long long` operands they are given. The model
computes them as the machine does, modulo 2^64 and with the shift count taken
modulo 64; in C they are undefined once the exact result leaves `long long` or
the count leaves [0, 63]. -/

unseal skipBlanks skipExprLoop parseStringLoop qeCfgExpr in
/-- The literal `9223372036854775807` is `LLONG_MAX`, and adding 1 to it is no
error: the exact sum 2^63 is no `long long`, and the script is worth `LLONG_MIN`.
`1 << 64`, a shift by more than 63, is no error either. -/
theorem qeParseScript_add_overflows :
    (strtoll (cstr "9223372036854775807")).1 = Int64.maxValue ∧
      ((qeParseScript plainHost 30 () (cstr "9223372036854775807 + 1")).map
        fun r => (r.2.get 0, r.2.errors)) = some (.number Int64.minValue, []) ∧
      Int64.minValue.toInt ≠ Int64.maxValue.toInt + 1 ∧
      ((qeParseScript plainHost 30 () (cstr "1 << 64")).map fun r => (r.2.get 0, r.2.errors)) =
        some (.number 1, []) := by
  refine ⟨?_, ?_, ?_, ?_⟩ <;> decide

end Qemacs
