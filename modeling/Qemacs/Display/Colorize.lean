import Qemacs.Buffer.Chars

/-!
# The syntax colouring cache

`syntax_get_colorized_line`, `colorize_callback` and `set_colorize_mode`
(qe.c). A window keeps, for the first `colorize_nb_valid_lines` lines of its
buffer, the colouring state at the start of each line. An edit reports its
offset through `colorize_callback`, which keeps the smallest one; the next
request converts it to a line with `eb_get_pos` and cuts the valid prefix
there. Lines past the valid prefix are reached by colouring from the last
valid state, reading lines with `cp_get_line`, which stops at the newlines
`eb_nextc` returns.

The mode's `colorize_func` is a parameter: a function of the colouring state
and the code points of a line, giving the styles and the state at the end of
the line. What the request does after colouring with the buffer's own styles,
the cursor and trailing blanks reads neither the cache nor the colouring state,
and is left out.
-/

namespace Qemacs

/-- `MAX_COLORED_LINE_SIZE` (qe.h). -/
def MAX_COLORED_LINE_SIZE : Nat := 16 * 1024 * 1024

/-- The loop of `eb_get_line` with room for `room` code points: the code
points up to the end of the line, whether the newline was reached, and the
offset of the first character not read. -/
def getLineLoop (b : EditBuffer) : Nat → Int → List UInt32 × Bool × Int × EditBuffer
  | 0, offset => ([], false, offset, b)
  | room + 1, offset =>
    let (c, next, b) := ebNextc b offset
    if c = 10 then ([], true, next, b)
    else
      let r := getLineLoop b room next
      (c :: r.1, r.2)

/-- `cp_get_line`: the line at `offset`, as many code points as
`MAX_COLORED_LINE_SIZE` leaves room for, and the offset of the next line. A
line too long for the buffer is measured on to its end by
`eb_get_line_length`, one byte at least per character. -/
def cpGetLine (b : EditBuffer) (offset : Int) : List UInt32 × Int × EditBuffer :=
  let (line, complete, next, b) := getLineLoop b (MAX_COLORED_LINE_SIZE - 1) offset
  if complete then (line, next, b)
  else
    let (_, _, next, b) := getLineLoop b (b.totalSize + 1) next
    (line, next, b)

/-- A mode's `colorize_func`: the styles of a line and the state at its end,
from the state at its start and its code points. -/
abbrev ColorizeFunc := Int → List UInt32 → List UInt32 × Int

/-- `cp_colorize_line` after a byte order mark of `bom` code points. -/
def cpColorizeLine (colorize : ColorizeFunc) (state : Int) (line : List UInt32) (bom : Nat) :
    List UInt32 × Int :=
  colorize state (line.drop bom)

/-- A byte order mark at the start of a line: `cp->buf[0] == 0xFEFF`. -/
def bomOf (line : List UInt32) : Nat := if line.head? = some 0xfeff then 1 else 0

/-- The colouring fields of `EditState`. The state array is `unsigned short`;
`INT_MAX` for `colorize_max_valid_offset` is `none`. Its allocated length only
bounds the indices written, and is left out. -/
structure ColorizeCache where
  states : Nat → UInt16
  nbValidLines : Nat
  maxValidOffset : Option Int

/-- `set_colorize_mode`: no valid line, no pending edit. -/
def setColorizeMode : ColorizeCache := ⟨fun _ => 0, 0, none⟩

/-- `colorize_callback`: the smallest offset edited since the last request. -/
def colorizeCallback (c : ColorizeCache) (offset : Int) : ColorizeCache :=
  match c.maxValidOffset with
  | some m => if offset < m then { c with maxValidOffset := some offset } else c
  | none => { c with maxValidOffset := some offset }

/-- The invalidation at the start of `syntax_get_colorized_line`: the lines
up to the one holding the smallest edited offset stay valid. -/
def invalidate (c : ColorizeCache) (b : EditBuffer) : ColorizeCache × EditBuffer :=
  match c.maxValidOffset with
  | none => (c, b)
  | some m =>
    let (pos, b) := ebGetPos b m.toNat
    let line := pos.1 + 1
    ({ c with nbValidLines := min c.nbValidLines line, maxValidOffset := none }, b)

/-- The propagation loop: `count` lines coloured from `offset` with only their
end state kept, that of each line stored as the state of the next, from index
`line` on. -/
def propagate (colorize : ColorizeFunc) (b : EditBuffer) :
    Nat → Int → Int → Nat → (Nat → UInt16) → Int × (Nat → UInt16) × EditBuffer
  | 0, offset, _, _, states => (offset, states, b)
  | count + 1, offset, state, line, states =>
    let (buf, next, b) := cpGetLine b offset
    let state := (cpColorizeLine colorize state buf (bomOf buf)).2
    let states := Function.update states line (UInt16.ofInt state)
    propagate colorize b count next state (line + 1) states

/-- A state read back from the array. -/
def loadState (states : Nat → UInt16) (k : Nat) : Int := (states k).toNat

/-- `syntax_get_colorized_line`: the styles of line `lineNum`, which starts
at `offset`, and the state at its end. -/
def syntaxGetColorizedLine (colorize : ColorizeFunc) (c : ColorizeCache) (b : EditBuffer)
    (offset : Int) (lineNum : Nat) : (List UInt32 × Int) × ColorizeCache × EditBuffer :=
  -- invalidate cache if needed
  let (c, b) := invalidate c b
  -- propagate state if needed
  let (offset, c, b) :=
    if c.nbValidLines ≤ lineNum then
      let c := if c.nbValidLines = 0 then
          { c with states := Function.update c.states 0 0, nbValidLines := 1 }
        else c
      let (start, b) := ebGotoPos b (c.nbValidLines - 1) 0
      let (offset, states, b) := propagate colorize b (lineNum + 1 - c.nbValidLines) start
        (loadState c.states (c.nbValidLines - 1)) c.nbValidLines c.states
      (offset, { c with states := states }, b)
    else (offset, c, b)
  -- compute line color
  let (buf, _, b) := cpGetLine b offset
  let r := cpColorizeLine colorize (loadState c.states lineNum) buf (bomOf buf)
  let c := { c with states := Function.update c.states (lineNum + 1) (UInt16.ofInt r.2) }
  -- extend valid area
  let c := if c.nbValidLines < lineNum + 2 then { c with nbValidLines := lineNum + 2 } else c
  (r, c, b)

/-! ## `cp_colorize_line` on a range

The embedding colorizers (htmlsrc, xml, markdown, tcl, shell) colour a range
`[i, n)` of their line with another mode. `cp_colorize_line` rebases `buf`,
`sbuf` and `n` by `i`; when the range is not NUL-terminated it copies it to a
fresh array, from `buf + i` of the rebased `buf`: from `2 i` in the caller's
array. The colorizer then sees `buf[2i .. n + i)` in place of `buf[i .. n)`.
The display path passes a NUL-terminated line and takes the other branch. -/

/-- The styles `styles` written into `sbuf` from index `i`. -/
def writeStyles (sbuf : List UInt32) (i : Nat) (styles : List UInt32) : List UInt32 :=
  sbuf.take i ++ styles ++ sbuf.drop (i + styles.length)

/-- `cp_colorize_line(cp, buf, i, n, sbuf, syn)` for `i ≤ n`, `buf` the caller's
array and `sbuf` its styles: the styles after the mode's colorizer has styled
the `n - i` code points it is given, and the state it leaves. `none` when
`buf[n]`, or the copy, is read past `buf`. The copy is taken to be allocated. -/
def cpColorizeLineRange (colorize : ColorizeFunc) (state : Int) (buf : List UInt32) (i n : Nat)
    (sbuf : List UInt32) : Option (List UInt32 × Int) :=
  -- buf += i; sbuf += i; n -= i
  let len := n - i
  match buf[i + len]? with
  | none => none
  | some c =>
    if c = 0 then
      let r := colorize state ((buf.drop i).take len)
      some (writeStyles sbuf i (r.1.take len), r.2)
    -- ensure buf is null terminated, clone if needed: qe_malloc_dup_array(buf + i, n + 1)
    else if i + i + len + 1 ≤ buf.length then
      let r := colorize state ((buf.drop (i + i)).take len)
      -- reset the end of line style
      some ((writeStyles sbuf i (r.1.take len)).set (i + len) 0, r.2)
    else none

/-- A colorizer that styles each code point with itself: the styles show what
it was given. -/
def echoColorize : ColorizeFunc := fun state line => (line, state)

/-- `abcde` with the range `[1, 3)`, `bc`: when `buf[3]` is `d` the colorizer is
given `cd`, when it is a NUL it is given `bc`. -/
theorem cpColorizeLineRange_copies_wrong_range :
    cpColorizeLineRange echoColorize 0 [97, 98, 99, 100, 101] 1 3 [0, 0, 0, 0, 0] =
      some ([0, 99, 100, 0, 0], 0) ∧
    cpColorizeLineRange echoColorize 0 [97, 98, 99, 0, 101] 1 3 [0, 0, 0, 0, 0] =
      some ([0, 98, 99, 0, 0], 0) := by
  decide

/-! ## A stale state after an edit in DOS mode

In DOS mode `eb_get_pos` ends a line at every CR, while `eb_nextc` reads a CR
not followed by LF as a character. An edit after such a CR is placed one line
too far down, and the state stored for the line after it stays valid. -/

/-- A colouring function that follows C block comments across lines, as C mode
does: the state is 1 inside a comment, and comment characters get style 1. -/
def commentColorize (state : Int) (line : List UInt32) : List UInt32 × Int :=
  match line with
  | [] => ([], state)
  | c :: rest =>
    if state = 0 ∧ c = 0x2f ∧ rest.head? = some 0x2a then
      let r := commentColorize 1 (rest.drop 1)
      (1 :: 1 :: r.1, r.2)
    else if state ≠ 0 ∧ c = 0x2a ∧ rest.head? = some 0x2f then
      let r := commentColorize 0 (rest.drop 1)
      (1 :: 1 :: r.1, r.2)
    else
      let r := commentColorize state rest
      ((if state = 0 then 0 else 1) :: r.1, r.2)
termination_by line.length
decreasing_by all_goals simp only [List.length_drop, List.length_cons]; omega

unseal lineScan commentColorize gotoPosWalk shiftLoop in
/-- The buffer `a CR b CR LF c` in DOS mode, line 1 (`c`) coloured, then `/*`
inserted after the lone CR: the cache colours `c` as code, from the state
stored before the edit, where colouring the new contents from scratch finds it
inside a comment. -/
theorem colorize_cache_stale_after_lone_cr :
    (ebInsert (EditBuffer.empty charset_raw .dos) 0 [0x61, 0x0d, 0x62, 0x0d, 0x0a, 0x63] 6).2.events
      = [⟨.insert, 0, 6⟩] ∧
    (ebInsert (syntaxGetColorizedLine commentColorize setColorizeMode
        (ebInsert (EditBuffer.empty charset_raw .dos) 0 [0x61, 0x0d, 0x62, 0x0d, 0x0a, 0x63] 6).2
        5 1).2.2 2 [0x2f, 0x2a] 2).2.events.getLast? = some ⟨.insert, 2, 2⟩ ∧
    (syntaxGetColorizedLine commentColorize
      (colorizeCallback (syntaxGetColorizedLine commentColorize setColorizeMode
        (ebInsert (EditBuffer.empty charset_raw .dos) 0 [0x61, 0x0d, 0x62, 0x0d, 0x0a, 0x63] 6).2
        5 1).2.1 2)
      (ebInsert (syntaxGetColorizedLine commentColorize setColorizeMode
        (ebInsert (EditBuffer.empty charset_raw .dos) 0 [0x61, 0x0d, 0x62, 0x0d, 0x0a, 0x63] 6).2
        5 1).2.2 2 [0x2f, 0x2a] 2).2 7 1).1 = ([0], 0) ∧
    (syntaxGetColorizedLine commentColorize setColorizeMode
      (ebInsert (syntaxGetColorizedLine commentColorize setColorizeMode
        (ebInsert (EditBuffer.empty charset_raw .dos) 0 [0x61, 0x0d, 0x62, 0x0d, 0x0a, 0x63] 6).2
        5 1).2.2 2 [0x2f, 0x2a] 2).2 7 1).1 = ([1], 1) := by
  decide

end Qemacs
