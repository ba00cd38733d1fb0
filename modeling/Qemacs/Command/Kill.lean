import Qemacs.Command.Basic
import Qemacs.Buffer.PageCache
import Qemacs.Search.Basic
import Qemacs.Script.Token

/-!
# Kills and yanks

`do_kill` and the commands built on it (qe.c). The text killed goes into the
yank buffer `yank_buffers[yank_current]`: a new one, unless the last command
left `do_append_next_kill` and the kill has a direction; at its end, or at its
start for a kill with `dir < 0`. `do_yank` inserts that buffer at the point.

`do_kill_region` kills with `dir = 1` on whichever side of the point the mark
is. After a kill to the end of the line, killing the region that ends at the
point appends its text after the text killed before, and the yank gives the two
pieces back in the wrong order (`kill_line_then_region_yank_reorders`).

Deliberate scope limits: buffers carry no styles, and no mode has a
`delete_bytes` hook; `BF_SAVELOG` is read as the low bit of `save_log`.
-/

namespace Qemacs

/-- `NB_YANK_BUFFERS`. -/
def NB_YANK_BUFFERS : Nat := 10

/-- The command functions the kill commands compare `last_cmd_func` with, and
those of the commands modelled here. -/
inductive CmdFunc where
  | doAppendNextKill
  | doYank
  | doKillLine
  | doKillRegion
  | doCopyRegion
  | doKillWholeLine
  | doKillWord
  | other
deriving DecidableEq, Repr

/-- The fields of `QEmacsState` the kill commands use. -/
structure QEmacsState where
  yankBuffers : List (Option EditBuffer)
  yankCurrent : Nat
  lastCmdFunc : CmdFunc
  thisCmdFunc : CmdFunc

/-- No yank buffer yet. -/
def QEmacsState.init : QEmacsState :=
  ⟨List.replicate NB_YANK_BUFFERS none, 0, .other, .other⟩

/-- The yank buffer in slot `i`. -/
def QEmacsState.yankBuffer (qs : QEmacsState) (i : Nat) : Option EditBuffer :=
  qs.yankBuffers.getD i none

/-- The current yank buffer replaced by `b`. -/
def QEmacsState.setYank (qs : QEmacsState) (b : EditBuffer) : QEmacsState :=
  { qs with yankBuffers := qs.yankBuffers.set qs.yankCurrent (some b) }

/-- A new empty buffer of `qe_new_buffer` with `BF_SYSTEM`, which keeps no undo
log, set to a charset and end of line type. -/
def systemBuffer (charset : QECharset) (eolType : EOLType) : EditBuffer :=
  ebSetCharset { EditBuffer.empty charset eolType with saveLog := 0 } charset eolType

theorem systemBuffer_wf (charset : QECharset) (eolType : EOLType) :
    (systemBuffer charset eolType).WF :=
  (EditBuffer.empty_wf charset eolType).of_sizes rfl rfl rfl rfl

/-- `qe_new_yank_buffer`: the next slot of the ring when the current one holds
a buffer, and in it a new buffer in the charset of `base`. -/
def qeNewYankBuffer (qs : QEmacsState) (base : EditBuffer) : QEmacsState × EditBuffer :=
  let qs :=
    if (qs.yankBuffer qs.yankCurrent).isSome then
      let cur := (qs.yankCurrent + 1) % NB_YANK_BUFFERS
      { qs with yankCurrent := cur, yankBuffers := qs.yankBuffers.set cur none }
    else qs
  let b := systemBuffer base.charset base.eolType
  (qs.setYank b, b)

/-! ## `eb_insert_buffer_convert` -/

/-- The conversion loop of `eb_insert_buffer_convert`: the characters of `src`
from `offset` up to `offset_max`, each encoded for `b` and inserted at
`offset1 + size`. Returns the count, `b` and `src`. -/
def convertLoop (offsetMax offset1 : Int) :
    Nat → EditBuffer → EditBuffer → Int → Int → Option (Int × EditBuffer × EditBuffer)
  | 0, _, _, _, _ => none
  | fuel + 1, b, src, offset, size =>
    if offset < offsetMax then
      let (c, offset, src) := ebNextc src offset
      let buf := ebEncodeChar32 b c
      let (n, b) := ebInsert b (offset1 + size) buf buf.length
      convertLoop offsetMax offset1 fuel b src offset (size + n)
    else some (size, b, src)

/-- `eb_insert_buffer_convert`: `eb_insert_buffer` between buffers of one
charset and end of line type; otherwise the characters converted one by one,
through a temporary buffer when `dest` keeps an undo log or the insertion is not
at its end. Returns the count, `dest` and `src`. -/
def ebInsertBufferConvert (fuel : Nat) (dest : EditBuffer) (destOffset : Int) (src : EditBuffer)
    (srcOffset size : Int) : Option (Int × EditBuffer × EditBuffer) :=
  if dest.charset.name = src.charset.name ∧ dest.eolType = src.eolType then
    some (ebInsertBuffer dest destOffset src srcOffset size)
  else
    let tmp := dest.saveLog &&& 1 ≠ 0 ∨ destOffset ≠ dest.totalSize
    let b := if tmp then systemBuffer dest.charset dest.eolType else dest
    let offsetMax := min (src.totalSize : Int) (srcOffset + size)
    match convertLoop offsetMax (if tmp then 0 else destOffset) fuel b src srcOffset 0 with
    | none => none
    | some (size, b, src) =>
      if tmp then
        let (size, dest, _) := ebInsertBuffer dest destOffset b 0 b.totalSize
        some (size, dest, src)
      else some (size, b, src)

/-- Between buffers of one charset and end of line type, `eb_insert_buffer_convert` is
`eb_insert_buffer`. -/
theorem ebInsertBufferConvert_of_same {dest src : EditBuffer} (fuel : Nat)
    (destOffset srcOffset size : Int) (hc : dest.charset = src.charset)
    (he : dest.eolType = src.eolType) :
    ebInsertBufferConvert fuel dest destOffset src srcOffset size =
      some (ebInsertBuffer dest destOffset src srcOffset size) := by
  unfold ebInsertBufferConvert
  rw [if_pos ⟨by rw [hc], he⟩]

/-! ## Kills -/

/-- `do_kill`: the bytes between `p1` and `p2` into the yank buffer, and out of
the buffer unless `keep`. -/
def doKill (fuel : Nat) (qs : QEmacsState) (s : EditState) (p1 p2 : Int) (dir : Int)
    (keep : Bool) : Option (QEmacsState × EditState) :=
  -- deactivate region hilite
  let s := { s with regionStyle := 0 }
  let (p1, p2) := if p1 > p2 then (p2, p1) else (p1, p2)
  let len := p2 - p1
  -- append kill if last command was kill already
  let (qs, b) :=
    match qs.yankBuffer qs.yankCurrent with
    | some b =>
      if dir = 0 ∨ qs.lastCmdFunc ≠ CmdFunc.doAppendNextKill then qeNewYankBuffer qs s.b else (qs, b)
    | none => qeNewYankBuffer qs s.b
  -- insert at beginning or end depending on kill direction
  match ebInsertBufferConvert fuel b (if dir < 0 then 0 else b.totalSize) s.b p1 len with
  | none => none
  | some (_, b, src) =>
    let qs := qs.setYank b
    let s := { s with b := src }
    let s :=
      if keep then s
      else if !s.b.readOnly then { s.withBuffer (ebDelete s.b p1 len).2 with offset := p1 }
      else s
    some (if dir ≠ 0 then { qs with thisCmdFunc := .doAppendNextKill } else qs, s)

/-- `do_kill_region`. -/
def doKillRegion (fuel : Nat) (qs : QEmacsState) (s : EditState) : Option (QEmacsState × EditState) :=
  doKill fuel qs s s.mark s.offset 1 false

/-- `do_copy_region`. -/
def doCopyRegion (fuel : Nat) (qs : QEmacsState) (s : EditState) : Option (QEmacsState × EditState) :=
  doKill fuel qs s s.mark s.offset 0 true

/-- The loop of `do_kill_line` for `argval <= 0`: to the start of the line,
then back over the end of line before it, `-argval` times. Returns the state
and `p2`. -/
def killLineBackLoop : Nat → EditState → Int → Option (EditState × Int)
  | 0, _, _ => none
  | fuel + 1, s, argval =>
    match doBol fuel s with
    | none => none
    | some s =>
      if s.offset ≤ 0 ∨ argval = 0 then some (s, s.offset)
      else
        let (p2, b) := ebPrev s.b s.offset
        killLineBackLoop fuel { s with b, offset := p2 } (argval + 1)

/-- The loop of `do_kill_line` for `argval > 0`: to the end of the line, then
over it, `argval` times. Returns the state and `p2`. -/
def killLineFwdLoop : Nat → EditState → Int → Option (EditState × Int)
  | 0, _, _ => none
  | fuel + 1, s, argval =>
    match doEol fuel s with
    | none => none
    | some s =>
      if (s.b.totalSize : Int) ≤ s.offset ∨ argval = 0 then some (s, s.offset)
      else
        let (p2, b) := ebNext s.b s.offset
        killLineFwdLoop fuel { s with b, offset := p2 } (argval - 1)

/-- `do_kill_line`, with `none` for `NO_ARG`. -/
def doKillLine (fuel : Nat) (qs : QEmacsState) (s : EditState) (argval : Option Int) :
    Option (QEmacsState × EditState) :=
  let p1 := s.offset
  -- the state, `p1`, `p2` and `dir`
  let r : Option (EditState × Int × Int × Int) :=
    match argval with
    | none =>
      if s.regionStyle ≠ 0 ∧ s.mark ≠ s.offset then
        -- kill highlighted region
        some (s, s.mark, s.offset, 1)
      else
        let (c, offset1, b) := ebNextc s.b p1
        let s := { s with b }
        -- kill end of line marker, or to end of line
        if c = 10 then some ({ s with offset := offset1 }, p1, offset1, 1)
        else (doEol fuel s).map fun s => (s, p1, s.offset, 1)
    | some argval =>
      -- kill backwards
      if argval ≤ 0 then (killLineBackLoop fuel s argval).map fun (s, p2) => (s, p1, p2, -1)
      else (killLineFwdLoop fuel s argval).map fun (s, p2) => (s, p1, p2, 1)
  match r with
  | none => none
  | some (s, p1, p2, dir) => doKill fuel qs s p1 p2 dir false

/-- The `n < 0` loop of `do_kill_whole_line`. -/
def wholeLineBackLoop : Nat → EditState → Int → Option EditState
  | 0, _, _ => none
  | fuel + 1, s, n =>
    if n < 0 ∧ 0 < s.offset then
      match doBol fuel s with
      | none => none
      | some s =>
        let (offset, b) := ebPrev s.b s.offset
        wholeLineBackLoop fuel { s with b, offset } (n + 1)
    else some s

/-- The `n > 0` loop of `do_kill_whole_line`. -/
def wholeLineFwdLoop : Nat → EditState → Int → Option EditState
  | 0, _, _ => none
  | fuel + 1, s, n =>
    if 0 < n ∧ s.offset < s.b.totalSize then
      match doEol fuel s with
      | none => none
      | some s =>
        let (offset, b) := ebNext s.b s.offset
        wholeLineFwdLoop fuel { s with b, offset } (n - 1)
    else some s

/-- `do_kill_whole_line`: `n` lines from the start of the current one, or `-n`
lines back from its end; nothing for an empty range. -/
def doKillWholeLine (fuel : Nat) (qs : QEmacsState) (s : EditState) (n : Int) :
    Option (QEmacsState × EditState) :=
  let r : Option (EditState × Int × Int) :=
    if n < 0 then
      (doEol fuel s).bind fun s =>
        (wholeLineBackLoop fuel s n).map fun s' => (s', s.offset, s'.offset)
    else if 0 < n then
      (doBol fuel s).bind fun s =>
        (wholeLineFwdLoop fuel s n).map fun s' => (s', s.offset, s'.offset)
    else some (s, 0, 0)
  match r with
  | none => none
  | some (s, p1, p2) => if p1 ≠ p2 then doKill fuel qs s p1 p2 n false else some (qs, s)

/-! ## Words -/

/-- `eb_word_right`: forward to the first character whose `qe_isword` is
`w`. -/
def ebWordRight (w : Bool) : Nat → EditBuffer → Int → Option (Int × EditBuffer)
  | 0, _, _ => none
  | fuel + 1, b, offset =>
    if offset < b.totalSize then
      let (c, offset1, b) := ebNextc b offset
      if qeIsword c = w then some (offset, b) else ebWordRight w fuel b offset1
    else some (offset, b)

/-- `eb_word_left`: back past the characters whose `qe_isword` is not `w`. -/
def ebWordLeft (w : Bool) : Nat → EditBuffer → Int → Option (Int × EditBuffer)
  | 0, _, _ => none
  | fuel + 1, b, offset =>
    if 0 < offset then
      let (c, offset1, b) := ebPrevc b offset
      if qeIsword c = w then some (offset, b) else ebWordLeft w fuel b offset1
    else some (offset, b)

theorem ebWordRight_frame {b b' : EditBuffer} {offset o : Int} (w : Bool) (fuel : Nat)
    (hwf : b.WF) (h : ebWordRight w fuel b offset = some (o, b')) : b.SameText b' := by
  induction fuel generalizing b offset with
  | zero => cases h
  | succ fuel ih =>
    unfold ebWordRight at h
    split at h
    · have h₁ := ebNextc_frame hwf offset
      generalize ebNextc b offset = r at h h₁
      obtain ⟨c, offset1, b₁⟩ := r
      dsimp only at h h₁
      split at h
      · cases h
        exact h₁
      · exact h₁.trans (ih h₁.right h)
    · cases h
      exact EditBuffer.SameText.refl hwf

theorem ebWordLeft_frame {b b' : EditBuffer} {offset o : Int} (w : Bool) (fuel : Nat)
    (hwf : b.WF) (h : ebWordLeft w fuel b offset = some (o, b')) : b.SameText b' := by
  induction fuel generalizing b offset with
  | zero => cases h
  | succ fuel ih =>
    unfold ebWordLeft at h
    split at h
    · have h₁ := ebPrevc_frame hwf offset
      generalize ebPrevc b offset = r at h h₁
      obtain ⟨c, offset1, b₁⟩ := r
      dsimp only at h h₁
      split at h
      · cases h
        exact h₁
      · exact h₁.trans (ih h₁.right h)
    · cases h
      exact EditBuffer.SameText.refl hwf

/-- `text_move_word_left_right`: to the end of the next word, or the start of
the previous one. -/
def textMoveWordLeftRight (fuel : Nat) (s : EditState) (dir : Int) : Option EditState :=
  let move := if 0 < dir then ebWordRight else ebWordLeft
  (move true fuel s.b s.offset).bind fun (offset, b) =>
    (move false fuel b offset).map fun (offset, b) => { s with b, offset }

/-- `do_word_left_right`: `n` words, forward for `n > 0`. -/
def doWordLeftRight : Nat → EditState → Int → Option EditState
  | 0, _, _ => none
  | fuel + 1, s, n =>
    if n = 0 then some s
    else
      let dir : Int := if n < 0 then -1 else 1
      (textMoveWordLeftRight fuel s dir).bind fun s => doWordLeftRight fuel s (n - dir)

/-- `do_kill_word`. -/
def doKillWord (fuel : Nat) (qs : QEmacsState) (s : EditState) (n : Int) :
    Option (QEmacsState × EditState) :=
  if n ≠ 0 then
    (doWordLeftRight fuel s n).bind fun s' => doKill fuel qs s' s.offset s'.offset n false
  else some (qs, s)

/-! ## Yanks -/

/-- `do_delete_selection`: the highlighted region deleted, the highlighting
off. -/
def doDeleteSelection (s : EditState) : EditState :=
  let s := if s.regionStyle ≠ 0 ∧ s.mark ≠ s.offset then
      s.withBuffer (ebDeleteRange s.b s.mark s.offset).2
    else s
  { s with regionStyle := 0 }

/-- `do_yank`: the current yank buffer inserted at the point, the mark at its
start and the point at its end. -/
def doYank (fuel : Nat) (qs : QEmacsState) (s : EditState) : Option (QEmacsState × EditState) :=
  if s.b.readOnly then some (qs, s)
  else
    -- first delete any highlighted range
    let s := doDeleteSelection s
    let s := { s with mark := s.offset }
    let r : Option (QEmacsState × EditState) :=
      match qs.yankBuffer qs.yankCurrent with
      | some yb =>
        if 0 < yb.totalSize then
          let s := { s with b := { s.b with lastLog := .free } }
          (ebInsertBufferConvert fuel s.b s.offset yb 0 yb.totalSize).map fun (n, b, yb) =>
            let s := s.withBuffer b
            (qs.setYank yb, { s with offset := s.offset + n })
        else some (qs, s)
      | none => some (qs, s)
    r.map fun (qs, s) => ({ qs with thisCmdFunc := .doYank }, s)

/-- `do_yank_pop`: after a yank, the yanked text replaced by the previous yank
buffer of the ring; nothing after another command. -/
def doYankPop (fuel : Nat) (qs : QEmacsState) (s : EditState) : Option (QEmacsState × EditState) :=
  if qs.lastCmdFunc ≠ CmdFunc.doYank then some (qs, s)
  else
    let s := s.withBuffer (ebDeleteRange s.b s.mark s.offset).2
    let cur :=
      if qs.yankCurrent = 0 then
        -- get last yank buffer, yank ring may not be full
        ((List.range NB_YANK_BUFFERS).reverse.find? fun i =>
          i = 0 ∨ (qs.yankBuffer i).isSome).getD 0
      else qs.yankCurrent - 1
    doYank fuel { qs with yankCurrent := cur } s

/-! ## Running commands -/

/-- A command run by the dispatcher: `this_cmd_func` is the command when it
starts and becomes `last_cmd_func` when it returns. -/
def runCommand (f : CmdFunc)
    (cmd : QEmacsState → EditState → Option (QEmacsState × EditState))
    (qs : QEmacsState) (s : EditState) : Option (QEmacsState × EditState) :=
  (cmd { qs with thisCmdFunc := f } s).map fun (qs, s) => ({ qs with lastCmdFunc := qs.thisCmdFunc }, s)

unseal lineScan deleteLoop shiftLoop utf8Cols in
/-- In the file "abcdef" with the point at 3 and the mark at 0, `kill-line`
kills "def"; `kill-region` then kills "abc", the region that ends at the point,
and appends it, as it kills with `dir = 1`; `yank` puts back "defabc" where the
file held "abcdef". -/
theorem kill_line_then_region_yank_reorders :
    ((runCommand .doKillLine (fun qs s => doKillLine 10 qs s none) QEmacsState.init
        ⟨ebMmapBuffer (EditBuffer.empty charset_utf8 .unix) (cstr "abcdef"), 3, 0, 0⟩).bind
      fun (qs, s) => (runCommand .doKillRegion (doKillRegion 10) qs s).bind
      fun (qs, s) => runCommand .doYank (doYank 10) qs s).map
        (fun r => (r.2.b.content, (r.1.yankBuffer r.1.yankCurrent).map EditBuffer.content)) =
      some (cstr "defabc", some (cstr "defabc")) := by
  decide

end Qemacs
