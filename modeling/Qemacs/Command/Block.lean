import Qemacs.Command.Basic

/-!
# Block motion

`forward_block` (extras.c): from the point, forward or backward, over the
characters of the buffer, balancing the delimiters `()`, `[]` and `{}` and
skipping quoted strings, up to the delimiter that closes the block the scan
starts in. The open blocks are kept in two arrays of `MAX_LEVEL` entries,
`balance` (the closer each block expects) and `delim_offset` (where its opener
is), indexed by the nesting `level`; past `MAX_LEVEL` the level goes on
counting and nothing more is recorded.

A closer is checked against `balance` only for blocks up to `MAX_LEVEL` deep,
and the message for blocks left open at the end reads `delim_offset[level - 1]`,
past the arrays when more than `MAX_LEVEL` blocks are open.

**Deliberate scope limit**: the colorizer is off (no `colorize_mode` and no
`b_styles`), so every character has style 0, the quote scans run on every
quote, and the line number and colorized line `forward_block` keeps for the
colorizer are left out. The column `pos` stays: the backward scan reads it.
-/

namespace Qemacs

/-! ## The two arrays -/

def MAX_LEVEL : Nat := 32

/-- The pairs of `matching_delimiter`. -/
def delimiterPairs : List UInt32 := [0x28, 0x29, 0x7b, 0x7d, 0x5b, 0x5d, 0x3c, 0x3e]

/-- `matching_delimiter`: the other member of the pair `c` is in, or `c`. -/
def matchingDelimiter (c : UInt32) : UInt32 :=
  match delimiterPairs.idxOf? c with
  | some i => delimiterPairs.getD (i ^^^ 1) c
  | none => c

/-- `level` with `balance` and `delim_offset`. -/
structure BlockStack where
  level : Nat
  balance : List UInt32
  delimOffset : List Int
deriving DecidableEq, Repr

namespace BlockStack

/-- Level 0; the arrays are not initialized in C, and every entry read below
the level was written first. -/
def init : BlockStack := ⟨0, List.replicate MAX_LEVEL 0, List.replicate MAX_LEVEL 0⟩

/-- A delimiter that opens a block (a closing one, backward) at `thisOffset`:
recorded while the level is below `MAX_LEVEL`, counted always. -/
def push (st : BlockStack) (c : UInt32) (thisOffset : Int) : BlockStack :=
  if st.level < MAX_LEVEL then
    ⟨st.level + 1, st.balance.set st.level (matchingDelimiter c),
      st.delimOffset.set st.level thisOffset⟩
  else { st with level := st.level + 1 }

end BlockStack

/-- What a delimiter that closes a block does. -/
inductive PopOutcome
  /-- `Unmatched delimiter`: the opener at `mark` expected `expected`. -/
  | mismatch (mark : Int) (expected : UInt32)
  /-- The scan stops after the delimiter: it closes the outermost block, or
  one above the start with `stop_at_parent`. -/
  | stop
  /-- The scan goes on. -/
  | next (st : BlockStack)
deriving DecidableEq, Repr

/-- A delimiter `c` that closes a block (an opening one, backward): compared
with the closer expected only while the level is below `MAX_LEVEL`; at level 0
it leaves the block the scan started in, silently unless `stop_at_parent`. -/
def BlockStack.pop (st : BlockStack) (c : UInt32) (stopAtParent : Bool) : PopOutcome :=
  if 0 < st.level then
    let level := st.level - 1
    if level < MAX_LEVEL ∧ st.balance.getD level 0 ≠ c then
      .mismatch (st.delimOffset.getD level 0) (st.balance.getD level 0)
    else if level = 0 then .stop
    else .next { st with level }
  else if stopAtParent then .stop
  else .next st

/-- Where `forward_block` leaves the point and the mark, and what it reports. -/
inductive BlockEnd
  /-- The point moves to `offset`. -/
  | moved (offset : Int)
  /-- `Unmatched delimiter %c <> %c`: the point after the delimiter `c`, the
  mark at the opener that expected `expected`. -/
  | mismatch (offset mark : Int) (c expected : UInt32)
  /-- `Unmatched delimiter` at the end of the scan, with blocks still open: the
  mark is `delim_offset[level - 1]`, `none` when that index is past the array. -/
  | unclosed (offset : Int) (mark : Option Int)
deriving DecidableEq, Repr

/-- The message `put_error` shows. -/
def BlockEnd.message : BlockEnd → Option String
  | .moved _ => none
  | .mismatch _ _ c expected =>
    some ("Unmatched delimiter " ++ (Char.ofNat c.toNat).toString ++ " <> " ++
      (Char.ofNat expected.toNat).toString)
  | .unclosed _ _ => some "Unmatched delimiter"

/-- After the loop: blocks still open are reported with the mark read at
`delim_offset[level - 1]`, whatever the level; otherwise the point goes after
the last character scanned, if any. -/
def blockFinish (st : BlockStack) (offset pendingOffset : Int) : BlockEnd :=
  if st.level ≠ 0 then .unclosed offset st.delimOffset[st.level - 1]?
  else .moved (if pendingOffset ≥ 0 then pendingOffset else offset)

/-! ## The scans -/

/-- `qe_isdigit` on a code point. -/
def qeIsdigitChar (c : UInt32) : Bool := 0x30 ≤ c ∧ c ≤ 0x39

/-- `eb_goto_bol2`: the start of the line of `offset`, and the characters
passed. -/
def ebGotoBol2 : Nat → EditBuffer → Int → Nat → Option (Int × Nat × EditBuffer)
  | 0, _, _, _ => none
  | fuel + 1, b, offset, count =>
    let (c, offset1, b) := ebPrevc b offset
    if c = 10 then some (offset, count, b) else ebGotoBol2 fuel b offset1 (count + 1)

/-- The loop of `is_escaped_backward`: the backslashes right before `offset`. -/
def escapeCount : Nat → EditBuffer → Int → Nat → Option (Nat × EditBuffer)
  | 0, _, _, _ => none
  | fuel + 1, b, offset, count =>
    let (c, offset, b) := ebPrevc b offset
    if c = 0x5c then escapeCount fuel b offset (count + 1) else some (count, b)

/-- `is_escaped_backward`: an odd number of backslashes before `offset`. -/
def isEscapedBackward (fuel : Nat) (b : EditBuffer) (offset : Int) : Option (Bool × EditBuffer) :=
  (escapeCount fuel b offset 0).map fun (n, b) => (n % 2 = 1, b)

/-- A `'` between two digits, a C++ digit separator, is no quote: the digits
at `after` and before `before`. -/
def digitSeparator (b : EditBuffer) (after before : Int) : Bool × EditBuffer :=
  let (d1, _, b) := ebNextc b after
  if qeIsdigitChar d1 then
    let (d2, _, b) := ebPrevc b before
    (qeIsdigitChar d2, b)
  else (false, b)

/-- The forward quote scan after the quote `c`: to the same quote or the end
of the line, a backslash taking the next character with it. The last character
read and the offset after the scan. -/
def skipQuoteFwd (c : UInt32) : Nat → EditBuffer → Int → Option (UInt32 × Int × EditBuffer)
  | 0, _, _ => none
  | fuel + 1, b, offset =>
    let (c1, off, b) := ebNextc b offset
    if c1 = 10 then some (c1, offset, b)
    else if c1 = c then some (c1, off, b)
    else if c1 = 0x5c then
      let (c2, off2, b) := ebNextc b off
      if c2 = 10 then some (c1, off, b) else skipQuoteFwd c fuel b off2
    else skipQuoteFwd c fuel b off

/-- The backward quote scan before the quote `c`: to the same quote not
escaped, or the start of the line. The offset and the column after it. -/
def skipQuoteBwd (c : UInt32) : Nat → EditBuffer → Int → Int → Option (Int × Int × EditBuffer)
  | 0, _, _, _ => none
  | fuel + 1, b, offset, pos =>
    let (c1, off, b) := ebPrevc b offset
    if c1 = 10 then some (offset, pos, b)
    else if c1 = c then do
      let (esc, b) ← isEscapedBackward fuel b off
      if esc then skipQuoteBwd c fuel b off (pos - 1) else some (off, pos - 1, b)
    else skipQuoteBwd c fuel b off (pos - 1)

/-- The variables of the scan loops. -/
structure BlockScan where
  b : EditBuffer
  offset : Int
  stack : BlockStack
  pendingOffset : Int
  pos : Int

/-- The forward loop, from the character at the point `c0`. -/
def fwdBlockLoop (c0 : UInt32) (stopAtParent : Bool) : Nat → BlockScan → Option BlockEnd
  | 0, _ => none
  | fuel + 1, sc =>
    let thisOffset := sc.offset
    let (c, offset, b) := ebNextc sc.b sc.offset
    if c = 10 then
      if (b.totalSize : Int) ≤ offset then some (blockFinish sc.stack offset sc.pendingOffset)
      else fwdBlockLoop c0 stopAtParent fuel { sc with b, offset, pos := 0 }
    else
      let sc := { sc with b, offset, pendingOffset := offset, pos := sc.pos + 1 }
      let (sep, b) := if c = 0x27 then digitSeparator b offset thisOffset else (false, b)
      let sc := { sc with b }
      if c = 0x27 ∧ sep then fwdBlockLoop c0 stopAtParent fuel sc
      else if c = 0x27 ∨ c = 0x22 then
        match skipQuoteFwd c fuel b offset with
        | none => none
        | some (c1, offset, b) =>
          if c1 = c ∧ c = c0 then some (.moved offset)
          else fwdBlockLoop c0 stopAtParent fuel { sc with b, offset }
      else if c = 0x28 ∨ c = 0x5b ∨ c = 0x7b then
        fwdBlockLoop c0 stopAtParent fuel { sc with stack := sc.stack.push c thisOffset }
      else if c = 0x29 ∨ c = 0x5d ∨ c = 0x7d then
        match sc.stack.pop c stopAtParent with
        | .mismatch mark expected => some (.mismatch offset mark c expected)
        | .stop => some (.moved offset)
        | .next stack => fwdBlockLoop c0 stopAtParent fuel { sc with stack }
      else fwdBlockLoop c0 stopAtParent fuel sc

/-- The backward loop, from the character before the point `c0`. -/
def bwdBlockLoop (c0 : UInt32) (stopAtParent : Bool) : Nat → BlockScan → Option BlockEnd
  | 0, _ => none
  | fuel + 1, sc =>
    let thisOffset := sc.offset
    let (c, offset, b) := ebPrevc sc.b sc.offset
    if c = 10 then
      if offset ≤ 0 then some (blockFinish sc.stack offset sc.pendingOffset)
      else
        match ebGotoBol2 fuel b offset 0 with
        | none => none
        | some (_, pos, b) => bwdBlockLoop c0 stopAtParent fuel { sc with b, offset, pos }
    else
      let sc := { sc with b, offset, pendingOffset := offset, pos := sc.pos - 1 }
      let (sep, b) := if c = 0x27 then digitSeparator b thisOffset offset else (false, b)
      let sc := { sc with b }
      if c = 0x27 ∧ sep then bwdBlockLoop c0 stopAtParent fuel sc
      else if c = 0x27 ∨ c = 0x22 then
        if 0 < sc.pos ∨ c = c0 then
          match skipQuoteBwd c fuel b offset sc.pos with
          | none => none
          | some (offset, pos, b) =>
            if c = c0 then some (.moved offset)
            else bwdBlockLoop c0 stopAtParent fuel { sc with b, offset, pos }
        else bwdBlockLoop c0 stopAtParent fuel sc
      else if c = 0x29 ∨ c = 0x5d ∨ c = 0x7d then
        bwdBlockLoop c0 stopAtParent fuel { sc with stack := sc.stack.push c thisOffset }
      else if c = 0x28 ∨ c = 0x5b ∨ c = 0x7b then
        match sc.stack.pop c stopAtParent with
        | .mismatch mark expected => some (.mismatch offset mark c expected)
        | .stop => some (.moved offset)
        | .next stack => bwdBlockLoop c0 stopAtParent fuel { sc with stack }
      else bwdBlockLoop c0 stopAtParent fuel sc

/-- `forward_block` with the colorizer off: backward when `dir < 0`. -/
def forwardBlock (fuel : Nat) (s : EditState) (dir : Int) (stopAtParent : Bool) :
    Option BlockEnd := do
  let (_, pos, b) ← ebGotoBol2 fuel s.b s.offset 0
  if dir < 0 then
    let (c0, _, b) := ebPrevc b s.offset
    bwdBlockLoop c0 stopAtParent fuel ⟨b, s.offset, .init, -1, pos⟩
  else
    let (c0, _, b) := ebNextc b s.offset
    fwdBlockLoop c0 stopAtParent fuel ⟨b, s.offset, .init, -1, pos⟩

/-! ## More than `MAX_LEVEL` open blocks -/

set_option maxRecDepth 20000 in
/-- 33 `(` in a row: the scan ends with 33 blocks open and reads
`delim_offset[32]`, past the 32 entries of the array. 33 `(`, a `]` and 32
`)`: the `]` closes the 33rd block unchecked, and the scan stops after the last
`)` with no message. -/
theorem forwardBlock_deep_nesting :
    forwardBlock 100 ⟨ebMmapBuffer (EditBuffer.empty charset_raw .unix)
        (List.replicate 33 0x28), 0, 0, 0⟩ 1 false = some (.unclosed 33 none) ∧
      forwardBlock 100 ⟨ebMmapBuffer (EditBuffer.empty charset_raw .unix)
        (List.replicate 33 0x28 ++ [0x5d] ++ List.replicate 32 0x29), 0, 0, 0⟩ 1 false =
        some (.moved 66) := by
  constructor <;> decide

end Qemacs
