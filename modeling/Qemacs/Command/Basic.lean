import Qemacs.Buffer.Readers
import Qemacs.Buffer.Undo

/-!
# The state the commands act on, text mode motions and ranges

`EditState` holds what the commands of qe.c and search.c modelled here read and
write of a window: its buffer, the point, the buffer's `mark` and the region
highlighting. The motions of text mode (`move_bol`, `move_eol`) walk the buffer
with `eb_prevc` and `eb_nextc` until an end of line; each turn of their loops
takes one unit of fuel, and `none` is a walk that has not stopped.

The point and the mark are registered with `eb_offset_callback`: when a
command changes the buffer, they follow the notifications `eb_addlog` sends
(`EditState.withBuffer`). Deliberate scope limit: `do_maybe_set_mark` is left
out, the commands being run from keys without shift.
-/

namespace Qemacs

/-- The fields of `struct EditState` the commands modelled here use, with the
`mark` of its buffer. -/
structure EditState where
  b : EditBuffer
  offset : Int
  mark : Int
  regionStyle : Nat

/-- `QE_STYLE_SEARCH_MATCH`, the style of the match query-replace shows. -/
def QE_STYLE_SEARCH_MATCH : Nat := 28

/-! ## Offsets that follow the text -/

/-- `eb_offset_callback`: how an offset registered with `edge` follows one
notification of the buffer. -/
def ebOffsetCallback (edge : Bool) (p : Int) (e : EditEvent) : Int :=
  match e.op with
  | .insert =>
    let p := if p > e.offset then p + e.size else p
    -- the buffer's own point and the shell cursor are pushed right at the edge
    if p = e.offset ∧ edge then p + e.size else p
  | .delete =>
    if p > e.offset then
      let p := p - e.size
      if p < e.offset then e.offset else p
    else p
  | _ => p

/-- An offset registered with `eb_offset_callback` after the notifications
`events`, in order. -/
def trackOffset (edge : Bool) (events : List EditEvent) (p : Int) : Int :=
  events.foldl (ebOffsetCallback edge) p

/-- The window's buffer is now `b`: the point and the mark, both registered
without `edge` (`generic_mode_init`, `eb_new`), follow the notifications sent
since. -/
def EditState.withBuffer (s : EditState) (b : EditBuffer) : EditState :=
  let events := b.events.drop s.b.events.length
  { s with b, offset := trackOffset false events s.offset, mark := trackOffset false events s.mark }

@[simp] theorem EditState.withBuffer_b (s : EditState) (b : EditBuffer) : (s.withBuffer b).b = b :=
  rfl

/-! ## Motions -/

/-- `eb_next`. -/
def ebNext (b : EditBuffer) (offset : Int) : Int × EditBuffer :=
  let (_, offset, b) := ebNextc b offset
  (offset, b)

/-- `eb_prev`. -/
def ebPrev (b : EditBuffer) (offset : Int) : Int × EditBuffer :=
  let (_, offset, b) := ebPrevc b offset
  (offset, b)

/-- `eb_goto_bol`: back to the start of the line that holds `offset`. -/
def ebGotoBol : Nat → EditBuffer → Int → Option (Int × EditBuffer)
  | 0, _, _ => none
  | fuel + 1, b, offset =>
    let (c, offset1, b) := ebPrevc b offset
    if c = 10 then some (offset, b) else ebGotoBol fuel b offset1

/-- `eb_goto_eol`: forward to the end of line at or after `offset`. -/
def ebGotoEol : Nat → EditBuffer → Int → Option (Int × EditBuffer)
  | 0, _, _ => none
  | fuel + 1, b, offset =>
    let (c, offset1, b) := ebNextc b offset
    if c = 10 then some (offset, b) else ebGotoEol fuel b offset1

/-- `eb_next_line`: past the end of line at or after `offset`. -/
def ebNextLine : Nat → EditBuffer → Int → Option (Int × EditBuffer)
  | 0, _, _ => none
  | fuel + 1, b, offset =>
    let (c, offset, b) := ebNextc b offset
    if c = 10 then some (offset, b) else ebNextLine fuel b offset

/-! The motions only move the cache of the buffer they read. -/

section Frames

open EditBuffer

variable {b b' : EditBuffer} {offset o : Int}

theorem ebPrev_frame (hwf : b.WF) (offset : Int) : b.SameText (ebPrev b offset).2 := by
  have h := ebPrevc_frame hwf offset
  unfold ebPrev
  generalize ebPrevc b offset = r at h
  obtain ⟨c, o, b₁⟩ := r
  exact h

theorem ebGotoBol_frame (fuel : Nat) (hwf : b.WF) (h : ebGotoBol fuel b offset = some (o, b')) :
    b.SameText b' := by
  induction fuel generalizing b offset with
  | zero => cases h
  | succ fuel ih =>
    unfold ebGotoBol at h
    have h₁ := ebPrevc_frame hwf offset
    generalize ebPrevc b offset = r at h h₁
    obtain ⟨c, offset1, b₁⟩ := r
    dsimp only at h h₁
    split at h
    · cases h
      exact h₁
    · exact h₁.trans (ih h₁.right h)

theorem ebGotoEol_frame (fuel : Nat) (hwf : b.WF) (h : ebGotoEol fuel b offset = some (o, b')) :
    b.SameText b' := by
  induction fuel generalizing b offset with
  | zero => cases h
  | succ fuel ih =>
    unfold ebGotoEol at h
    have h₁ := ebNextc_frame hwf offset
    generalize ebNextc b offset = r at h h₁
    obtain ⟨c, offset1, b₁⟩ := r
    dsimp only at h h₁
    split at h
    · cases h
      exact h₁
    · exact h₁.trans (ih h₁.right h)

theorem ebNextLine_frame (fuel : Nat) (hwf : b.WF) (h : ebNextLine fuel b offset = some (o, b')) :
    b.SameText b' := by
  induction fuel generalizing b offset with
  | zero => cases h
  | succ fuel ih =>
    unfold ebNextLine at h
    have h₁ := ebNextc_frame hwf offset
    generalize ebNextc b offset = r at h h₁
    obtain ⟨c, offset1, b₁⟩ := r
    dsimp only at h h₁
    split at h
    · cases h
      exact h₁
    · exact h₁.trans (ih h₁.right h)

end Frames

/-- `do_bol` in text mode (`text_move_bol`). -/
def doBol (fuel : Nat) (s : EditState) : Option EditState :=
  (ebGotoBol fuel s.b s.offset).map fun (offset, b) => { s with b, offset }

/-- `do_eol` in text mode (`text_move_eol`). -/
def doEol (fuel : Nat) (s : EditState) : Option EditState :=
  (ebGotoEol fuel s.b s.offset).map fun (offset, b) => { s with b, offset }

/-! ## Ranges and characters -/

/-- `eb_delete_range`: the bytes between `p1` and `p2`, in either order. -/
def ebDeleteRange (b : EditBuffer) (p1 p2 : Int) : Int × EditBuffer :=
  let (p1, p2) := if p1 > p2 then (p2, p1) else (p1, p2)
  ebDelete b p1 (p2 - p1)

/-- An empty range deletes nothing. -/
@[simp] theorem ebDeleteRange_self (b : EditBuffer) (p : Int) : ebDeleteRange b p p = (0, b) := by
  simp [ebDeleteRange, ebDelete]

/-- `eb_encode_char32`: the bytes of `c` in the buffer's charset, a newline
becoming CR in Mac mode and CR LF in DOS mode; `?` for a character the charset
cannot encode. The C passes on the null pointer the encoding of a CR that
failed; no charset fails on CR, and the model then encodes the character
alone. -/
def ebEncodeChar32 (b : EditBuffer) (c : UInt32) : List UInt8 :=
  let (pre, c) : List UInt8 × UInt32 :=
    if c = 10 then
      match b.eolType with
      | .mac => ([], 13)
      | .dos => ((b.charset.encodeFunc 13).getD [], c)
      | .unix => ([], c)
    else ([], c)
  match b.charset.encodeFunc c with
  | some bytes => pre ++ bytes
  | none => [0x3f]

/-- The loop of `eb_insert_char32_buf`: the characters are encoded into a
buffer of 1024 bytes, inserted when it has less than `MAX_CHAR_BYTES` left and
after the last character. Returns the bytes inserted. -/
def insertChar32Loop (offset : Int) : EditBuffer → List UInt32 → List UInt8 → Int → Int × EditBuffer
  | b, [], _, size => (size, b)
  | b, c :: cs, pending, size =>
    let pending := pending ++ ebEncodeChar32 b c
    if 1024 - MAX_CHAR_BYTES < pending.length ∨ cs = [] then
      let (n, b) := ebInsert b (offset + size) pending pending.length
      insertChar32Loop offset b cs [] (size + n)
    else insertChar32Loop offset b cs pending size

/-- `eb_insert_char32_buf`: insert the characters of `p` at `offset`, encoded
for the buffer. -/
def ebInsertChar32Buf (b : EditBuffer) (offset : Int) (p : List UInt32) : Int × EditBuffer :=
  insertChar32Loop offset b p [] 0

/-- No character, no insertion. -/
@[simp] theorem ebInsertChar32Buf_nil (b : EditBuffer) (offset : Int) :
    ebInsertChar32Buf b offset [] = (0, b) := rfl

end Qemacs
