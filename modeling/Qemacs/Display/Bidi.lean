import Mathlib.Data.List.Infix

/-!
# Bidirectional levels

`bidir_compute_attributes` (qe.c) cuts a line into runs of characters of one bidi type
(`BidirTypeLink`, between a start link `SOT` and an end link `EOT`), and
`bidir_analyze_string` (unicode_join.c) gives each run an embedding level, which the
display loop of qe.c reads at each character's offset (`runLevelAt`). The analysis runs in
passes over the list of runs: the explicit embeddings (the controls `LRE`, `RLE`, `LRO`,
`RLO` push a level on a stack, `PDF` pops it, and are marked `DEL`), the weak types
(W1–W7), the neutral types (N1, N2) and the implicit levels (I1, I2). Between passes,
`compact_list` drops the `DEL` links and merges adjacent links of one type, keeping the
level of the first.

Each pass is a recursion over the links after the start link, with the link before as a
parameter where the pass reads or rewrites it. The explicit pass is the only one that sets
levels from the embeddings; `compact_list` only keeps levels it is given, and the implicit
pass raises a level by at most 2 (`implicitPass_levels`). So without embedding controls
every run ends between the base level and 2 above it
(`bidirAnalyzeString_levels_of_no_controls`). With them, the merge of `compact_list`
joins the runs on both sides of an embedding once its controls are dropped, since it
compares types only: in `a RLE a` the second `a` is at embedding level 1 and ends in the
run of the first, at level 0 (`bidirAnalyzeString_merges_embedding`).

The search for the base direction takes `R`, `RLE` and `RLO` for right to left, and `L`,
`LRE` and `LRO` for left to right, but not the Arabic letters `AL`, which rule P2 of
UAX #9 counts as strong right to left (`bidirAnalyzeString_arabic_base`).
-/

namespace Qemacs

/-- `BidirCharType`: the bidi types of characters, then those the analysis uses itself.
`BIDIR_TYPE_L` and `BIDIR_TYPE_R` are `LTR` and `RTL`. -/
inductive BidirCharType
  | LTR | RTL | WL | WR | EN | ES | ET | AN | CS | BS | SS | WS | AL | NSM | BN | ON
  | LRE | RLE | PDF | LRO | RLO
  | SOT | EOT | N | E | CTL | EO | DEL
  deriving DecidableEq, Repr

open BidirCharType

/-- `BidirTypeLink`: a run of `len` characters of one type from offset `pos`, at `level`. -/
structure BidirTypeLink where
  type : BidirCharType
  pos : Nat
  len : Nat
  level : Nat
  deriving DecidableEq, Repr

/-! ## `bidir_get_type` -/

/-- `bidir_char_type_start`: the first code point of each range of one type. -/
def bidirCharTypeStart : List UInt16 :=
  [
   0x0000, 0x0009, 0x000a, 0x000b, 0x000c, 0x000d, 0x000e, 0x001c,
   0x001f, 0x0020, 0x0021, 0x0023, 0x0026, 0x002b, 0x002c, 0x002d,
   0x002e, 0x002f, 0x0030, 0x003a, 0x003b, 0x0041, 0x005b, 0x0061,
   0x007b, 0x007f, 0x0085, 0x0086, 0x00a0, 0x00a1, 0x00a2, 0x00a6,
   0x00aa, 0x00ab, 0x00b0, 0x00b2, 0x00b4, 0x00b5, 0x00b6, 0x00b9,
   0x00ba, 0x00bb, 0x00c0, 0x00d7, 0x00d8, 0x00f7, 0x00f8, 0x02b9,
   0x02bb, 0x02c2, 0x02d0, 0x02d2, 0x02e0, 0x02e5, 0x02ee, 0x0300,
   0x0374, 0x037a, 0x037e, 0x0386, 0x0387, 0x0388, 0x0483, 0x048c,
   0x058a, 0x0591, 0x05be, 0x05bf, 0x05c0, 0x05c1, 0x05c3, 0x05c4,
   0x05d0, 0x0600, 0x061b, 0x064b, 0x0660, 0x066a, 0x066b, 0x066d,
   0x0670, 0x0671, 0x06d6, 0x06e5, 0x06e7, 0x06e9, 0x06ea, 0x06f0,
   0x06fa, 0x070f, 0x0710, 0x0711, 0x0712, 0x0730, 0x0780, 0x07a6,
   0x0800, 0x0900, 0x0903, 0x093c, 0x093d, 0x0941, 0x0949, 0x094d,
   0x0950, 0x0951, 0x0958, 0x0962, 0x0964, 0x0981, 0x0982, 0x09bc,
   0x09be, 0x09c1, 0x09c7, 0x09cd, 0x09d7, 0x09e2, 0x09e6, 0x09f2,
   0x09f4, 0x0a00, 0x0a05, 0x0a3c, 0x0a3e, 0x0a41, 0x0a59, 0x0a70,
   0x0a72, 0x0a81, 0x0a83, 0x0abc, 0x0abd, 0x0ac1, 0x0ac9, 0x0acd,
   0x0ad0, 0x0b00, 0x0b02, 0x0b3c, 0x0b3d, 0x0b3f, 0x0b40, 0x0b41,
   0x0b47, 0x0b4d, 0x0b57, 0x0b82, 0x0b83, 0x0bc0, 0x0bc1, 0x0bcd,
   0x0bd7, 0x0c3e, 0x0c41, 0x0c46, 0x0c60, 0x0cbf, 0x0cc0, 0x0cc6,
   0x0cc7, 0x0ccc, 0x0cd5, 0x0d41, 0x0d46, 0x0d4d, 0x0d57, 0x0dca,
   0x0dcf, 0x0dd2, 0x0dd8, 0x0e31, 0x0e32, 0x0e34, 0x0e3f, 0x0e40,
   0x0e47, 0x0e4f, 0x0eb1, 0x0eb2, 0x0eb4, 0x0ebd, 0x0ec8, 0x0ed0,
   0x0f18, 0x0f1a, 0x0f35, 0x0f36, 0x0f37, 0x0f38, 0x0f39, 0x0f3a,
   0x0f3e, 0x0f71, 0x0f7f, 0x0f80, 0x0f85, 0x0f86, 0x0f88, 0x0f90,
   0x0fbe, 0x0fc6, 0x0fc7, 0x102d, 0x1031, 0x1032, 0x1038, 0x1039,
   0x1040, 0x1058, 0x10a0, 0x1680, 0x1681, 0x169b, 0x16a0, 0x17b7,
   0x17be, 0x17c6, 0x17c7, 0x17c9, 0x17d4, 0x17db, 0x17dc, 0x1800,
   0x180b, 0x1810, 0x18a9, 0x1900, 0x1fbd, 0x1fbe, 0x1fbf, 0x1fc2,
   0x1fcd, 0x1fd0, 0x1fdd, 0x1fe0, 0x1fed, 0x1ff2, 0x1ffd, 0x2000,
   0x200b, 0x200e, 0x200f, 0x2010, 0x2028, 0x2029, 0x202a, 0x202b,
   0x202c, 0x202d, 0x202e, 0x202f, 0x2030, 0x2035, 0x206a, 0x2070,
   0x207a, 0x207c, 0x207f, 0x2080, 0x208a, 0x208c, 0x20a0, 0x20d0,
   0x2100, 0x2102, 0x2103, 0x2107, 0x2108, 0x210a, 0x2114, 0x2115,
   0x2116, 0x2119, 0x211e, 0x2124, 0x2125, 0x2126, 0x2127, 0x2128,
   0x2129, 0x212a, 0x212e, 0x212f, 0x2132, 0x2133, 0x213a, 0x2160,
   0x2190, 0x2212, 0x2214, 0x2336, 0x237b, 0x2395, 0x2396, 0x2460,
   0x249c, 0x24ea, 0x2500, 0x2900, 0x2e00, 0x3000, 0x3001, 0x3005,
   0x3008, 0x3021, 0x302a, 0x3030, 0x3031, 0x3036, 0x3038, 0x303e,
   0x3041, 0x3099, 0x309b, 0x309d, 0x30fb, 0x30fc, 0xa490, 0xa500,
   0xfb1d, 0xfb1e, 0xfb1f, 0xfb29, 0xfb2a, 0xfb50, 0xfd3e, 0xfd50,
   0xfe00, 0xfe30, 0xfe50, 0xfe51, 0xfe52, 0xfe54, 0xfe55, 0xfe56,
   0xfe5f, 0xfe60, 0xfe62, 0xfe64, 0xfe69, 0xfe6b, 0xfe70, 0xfeff,
   0xff00, 0xff03, 0xff06, 0xff0b, 0xff0c, 0xff0d, 0xff0e, 0xff0f,
   0xff10, 0xff1a, 0xff1b, 0xff21, 0xff3b, 0xff41, 0xff5b, 0xff66,
   0xffe0, 0xffe2, 0xffe5, 0xffe8, 0xfff9, 0xfffc]

/-- `bidir_char_type_val`: the type of each range. -/
def bidirCharTypeVal : List BidirCharType :=
  [
   .BN, .SS, .BS, .SS, .WS, .BS, .BN, .BS, .SS, .WS, .ON, .ET,
   .ON, .ET, .CS, .ET, .CS, .ES, .EN, .CS, .ON, .LTR, .ON, .LTR,
   .ON, .BN, .BS, .BN, .CS, .ON, .ET, .ON, .LTR, .ON, .ET, .EN,
   .ON, .LTR, .ON, .EN, .LTR, .ON, .LTR, .ON, .LTR, .ON, .LTR, .ON,
   .LTR, .ON, .LTR, .ON, .LTR, .ON, .LTR, .NSM, .ON, .LTR, .ON, .LTR,
   .ON, .LTR, .NSM, .LTR, .ON, .NSM, .RTL, .NSM, .RTL, .NSM, .RTL, .NSM,
   .RTL, .CS, .AL, .NSM, .AN, .ET, .AN, .AL, .NSM, .AL, .NSM, .AL,
   .NSM, .ON, .NSM, .EN, .AL, .BN, .AL, .NSM, .AL, .NSM, .AL, .NSM,
   .LTR, .NSM, .LTR, .NSM, .LTR, .NSM, .LTR, .NSM, .LTR, .NSM, .LTR, .NSM,
   .LTR, .NSM, .LTR, .NSM, .LTR, .NSM, .LTR, .NSM, .LTR, .NSM, .LTR, .ET,
   .LTR, .NSM, .LTR, .NSM, .LTR, .NSM, .LTR, .NSM, .LTR, .NSM, .LTR, .NSM,
   .LTR, .NSM, .LTR, .NSM, .LTR, .NSM, .LTR, .NSM, .LTR, .NSM, .LTR, .NSM,
   .LTR, .NSM, .LTR, .NSM, .LTR, .NSM, .LTR, .NSM, .LTR, .NSM, .LTR, .NSM,
   .LTR, .NSM, .LTR, .NSM, .LTR, .NSM, .LTR, .NSM, .LTR, .NSM, .LTR, .NSM,
   .LTR, .NSM, .LTR, .NSM, .LTR, .NSM, .ET, .LTR, .NSM, .LTR, .NSM, .LTR,
   .NSM, .LTR, .NSM, .LTR, .NSM, .LTR, .NSM, .LTR, .NSM, .LTR, .NSM, .ON,
   .LTR, .NSM, .LTR, .NSM, .LTR, .NSM, .LTR, .NSM, .LTR, .NSM, .LTR, .NSM,
   .LTR, .NSM, .LTR, .NSM, .LTR, .NSM, .LTR, .WS, .LTR, .ON, .LTR, .NSM,
   .LTR, .NSM, .LTR, .NSM, .LTR, .ET, .LTR, .ON, .BN, .LTR, .NSM, .LTR,
   .ON, .LTR, .ON, .LTR, .ON, .LTR, .ON, .LTR, .ON, .LTR, .ON, .WS,
   .BN, .LTR, .RTL, .ON, .WS, .BS, .LRE, .RLE, .PDF, .LRO, .RLO, .WS,
   .ET, .ON, .BN, .EN, .ET, .ON, .LTR, .EN, .ET, .ON, .ET, .NSM,
   .ON, .LTR, .ON, .LTR, .ON, .LTR, .ON, .LTR, .ON, .LTR, .ON, .LTR,
   .ON, .LTR, .ON, .LTR, .ON, .LTR, .ET, .LTR, .ON, .LTR, .ON, .LTR,
   .ON, .ET, .ON, .LTR, .ON, .LTR, .ON, .EN, .LTR, .EN, .ON, .LTR,
   .ON, .WS, .ON, .LTR, .ON, .LTR, .NSM, .ON, .LTR, .ON, .LTR, .ON,
   .LTR, .NSM, .ON, .LTR, .ON, .LTR, .ON, .LTR, .RTL, .NSM, .RTL, .ET,
   .RTL, .AL, .ON, .AL, .NSM, .ON, .CS, .ON, .CS, .ON, .CS, .ON,
   .ET, .ON, .ET, .ON, .ET, .ON, .AL, .BN, .ON, .ET, .ON, .ET,
   .CS, .ET, .CS, .ES, .EN, .CS, .ON, .LTR, .ON, .LTR, .ON, .LTR,
   .ET, .ON, .ET, .ON, .BN, .ON]

/-- The nine halvings of the binary search of `bidir_get_type` over `[a, b)`. -/
def bidirGetTypeLoop (ch : UInt32) : Nat → Nat → Nat → Nat
  | 0, a, _ => a
  | i + 1, a, b =>
    let m := (a + b) / 2
    if ch < (bidirCharTypeStart.getD m 0).toUInt32 then bidirGetTypeLoop ch i a m
    else bidirGetTypeLoop ch i m b

/-- `bidir_get_type`. -/
def bidirGetType (ch : UInt32) : BidirCharType :=
  bidirCharTypeVal.getD (bidirGetTypeLoop ch 9 0 bidirCharTypeStart.length) ON

/-! ## `bidir_compute_attributes` -/

/-- `RLE_EMBEDDINGS_SIZE` (qe.c): the size of the array of links of a line. -/
def RLE_EMBEDDINGS_SIZE : Nat := 128

/-- The start link. Its level is never set, nor read. -/
def sotLink : BidirTypeLink := ⟨SOT, 0, 0, 0⟩

/-- The loop of `bidir_compute_attributes` over the characters of the line with their
offsets, `left` links still free and `ltype` the type of the last link; the links so far
are in `acc`, the last first. A character of another type starts a link while there is
room; otherwise it is counted in the last link, whatever its type. -/
def computeAttrLoop (getType : UInt32 → BidirCharType) :
    Nat → BidirCharType → List BidirTypeLink → List (Nat × UInt32) → List BidirTypeLink
  | _, _, acc, [] => acc
  | left, ltype, acc, (offset1, c) :: line =>
    let type := getType c
    if type ≠ ltype ∧ left > 0 then
      computeAttrLoop getType (left - 1) type (⟨type, offset1, 1, 0⟩ :: acc) line
    else
      match acc with
      | p :: ps => computeAttrLoop getType left ltype ({ p with len := p.len + 1 } :: ps) line
      | [] => computeAttrLoop getType left ltype [] line

/-- `bidir_compute_attributes` on a line given as its characters with their offsets, up to
the newline at `endOffset`: the links, from `SOT` to `EOT`. The character types are
`getType` (`bidir_get_type` in qemacs). -/
def bidirComputeAttributes (getType : UInt32 → BidirCharType) (maxSize : Nat)
    (line : List (Nat × UInt32)) (endOffset : Nat) : List BidirTypeLink :=
  (computeAttrLoop getType (maxSize - 2) SOT [sotLink] line).reverse ++
    [⟨EOT, endOffset, 0, 0⟩]

/-! ## `compact_list` -/

/-- `compact_list`, `q?` the link being extended: a link of its type is merged into it; a
`DEL` link is dropped; the list ends at `EOT`. -/
def compactLoop : Option BidirTypeLink → List BidirTypeLink → List BidirTypeLink
  | none, [] => []
  | some q, [] => [q]
  | some q, p :: rest =>
    if p.type = q.type then compactLoop (some { q with len := q.len + p.len }) rest
    else
      q :: (if p.type = EOT then [p]
        else if p.type = DEL then compactLoop none rest
        else compactLoop (some p) rest)
  | none, p :: rest =>
    if p.type = EOT then [p]
    else if p.type = DEL then compactLoop none rest
    else compactLoop (some p) rest

/-- `compact_list`. -/
def compactList (list : List BidirTypeLink) : List BidirTypeLink := compactLoop none list

/-! ## `bidir_analyze_string` -/

/-- `STACK_SIZE`: the depth of the stack of embeddings. -/
def Bidir.STACK_SIZE : Nat := 64

/-- The state of the explicit pass: the current level and override, and the stack of the
levels and overrides pushed, the top first. -/
structure ExplicitState where
  level : Nat
  override : BidirCharType
  stack : List (Nat × BidirCharType)

/-- One `LRE`, `RLE`, `LRO` or `RLO` of type `type`: push the level and the override while
the stack has room, then take the least greater even level for `LRE` and `LRO`, the least
greater odd one for `RLE` and `RLO`. -/
def pushEmbedding (type : BidirCharType) (st : ExplicitState) : ExplicitState :=
  if st.stack.length < Bidir.STACK_SIZE then
    { level := if type = LRE ∨ type = LRO then (st.level + 2) / 2 * 2 else (st.level + 1) ||| 1
      override := if type = LRO then LTR else if type = RLO then RTL else N
      stack := (st.level, st.override) :: st.stack }
  else st

/-- One `PDF`: pop the level and the override if the stack is not empty. -/
def popEmbedding (st : ExplicitState) : ExplicitState :=
  match st.stack with
  | (level, override) :: stack => { level, override, stack }
  | [] => st

/-- The embedding controls. -/
def IsExplicitControl (type : BidirCharType) : Prop :=
  type = LRE ∨ type = RLE ∨ type = LRO ∨ type = RLO ∨ type = PDF

instance (type : BidirCharType) : Decidable (IsExplicitControl type) := by
  unfold IsExplicitControl; infer_instance

/-- The pass for `LRE`, `RLE`, `LRO`, `RLO` and `PDF`, on the links up to `EOT`: a run of
controls pushes or pops once per character and becomes `DEL`; any other link takes the
current level, and the override as its type if there is one. -/
def explicitPass (st : ExplicitState) : List BidirTypeLink → List BidirTypeLink
  | [] => []
  | p :: rest =>
    if p.type = EOT then p :: rest
    else if p.type = LRE ∨ p.type = RLE ∨ p.type = LRO ∨ p.type = RLO then
      { p with type := DEL } :: explicitPass ((pushEmbedding p.type)^[p.len] st) rest
    else if p.type = PDF then
      { p with type := DEL } :: explicitPass (popEmbedding^[p.len] st) rest
    else
      { p with level := st.level, type := if st.override ≠ N then st.override else p.type } ::
        explicitPass st rest

/-- The rules W1–W7 at one link, from the type of the link before (as the pass left it),
its own, that of the link after and its length: the new types of the link before and of
this one, and `last_strong`. W2 tests `N` where UAX #9 has `EN`; a W4 rule that applies
skips W5–W7 (`continue`). -/
def weakRules (lastStrong prevType thisType nextType : BidirCharType) (thisLen : Nat) :
    BidirCharType × BidirCharType × BidirCharType :=
  let lastStrong :=
    if prevType = AL ∨ prevType = RTL ∨ prevType = LTR then prevType else lastStrong
  -- W1
  let t := if thisType = NSM then (if prevType = SOT then N else prevType) else thisType
  -- W2
  let t := if thisType = N ∧ lastStrong = AL then AN else t
  -- W3
  let p := if prevType = AL then RTL else prevType
  -- W4
  if thisLen = 1 ∧ prevType = nextType ∧
      ((prevType = EN ∧ thisType = ES ∧ nextType = EN) ∨
        (prevType = EN ∧ thisType = CS ∧ nextType = EN)) then (p, EN, lastStrong)
  else if thisLen = 1 ∧ prevType = nextType ∧
      (prevType = AN ∧ thisType = CS ∧ nextType = AN) then (p, AN, lastStrong)
  else
    -- W5
    let t := if thisType = ET ∧ (nextType = EN ∨ prevType = EN) then EN else t
    -- W6
    let t := if t = ET ∨ t = CS ∨ t = ES then ON else t
    -- W7
    let p := if prevType = EN ∧ lastStrong = LTR then LTR else p
    (p, t, lastStrong)

/-- The pass "4. Resolving weak types" over the links after `prev`, which it may still
rewrite; the link after the last one read is `EOT`. -/
def weakPass (lastStrong : BidirCharType) (prev : BidirTypeLink) :
    List BidirTypeLink → List BidirTypeLink
  | [] => [prev]
  | this :: rest =>
    if this.type = EOT then prev :: this :: rest
    else
      let r := weakRules lastStrong prev.type this.type (rest.headD ⟨EOT, 0, 0, 0⟩).type this.len
      { prev with type := r.1 } :: weakPass r.2.2 { this with type := r.2.1 } rest

/-- The first loop of "5. Resolving Neutral Types": separators and other neutrals become
`N`, up to `EOT`. -/
def neutralCollapse : List BidirTypeLink → List BidirTypeLink
  | [] => []
  | p :: rest =>
    if p.type = EOT then p :: rest
    else if p.type = WS ∨ p.type = ON ∨ p.type = ES ∨ p.type = ET ∨ p.type = CS ∨
        p.type = BN then
      { p with type := N } :: neutralCollapse rest
    else p :: neutralCollapse rest

/-- N1 and N2 over the links after one of type `prevType`: a neutral run between two `L`
becomes `L`, between numbers or `R` becomes `R`, and otherwise `E`, the embedding
direction. -/
def neutralPass (prevType : BidirCharType) : List BidirTypeLink → List BidirTypeLink
  | [] => []
  | p :: rest =>
    if p.type = EOT then p :: rest
    else
      let nextType := (rest.headD ⟨EOT, 0, 0, 0⟩).type
      let t :=
        if p.type = N then
          if prevType = LTR ∧ nextType = LTR then LTR
          else if (prevType = EN ∨ prevType = AN ∨ prevType = RTL) ∧
              (nextType = EN ∨ nextType = AN ∨ nextType = RTL) then RTL
          else E
        else p.type
      { p with type := t } :: neutralPass t rest

/-- The level I1 and I2 give a link of type `type` at `level`, after a link of type
`prevType`. -/
def implicitLevel (prevType type : BidirCharType) (level : Nat) : Nat :=
  if level % 2 = 0 then
    if type = RTL then level + 1
    else if type = AN then level + 2
    else if prevType ≠ LTR ∧ type = EN then level + 2
    else level
  else if type = LTR ∨ type = AN ∨ type = EN then level + 1
  else level

/-- "6. Resolving Implicit levels" over the links after one of type `prevType`, with the
greatest level so far. -/
def implicitPass (prevType : BidirCharType) (maxLevel : Nat) :
    List BidirTypeLink → List BidirTypeLink × Nat
  | [] => ([], maxLevel)
  | p :: rest =>
    if p.type = EOT then (p :: rest, maxLevel)
    else
      let level := implicitLevel prevType p.type p.level
      let r := implicitPass p.type (max maxLevel level) rest
      ({ p with level } :: r.1, r.2)

/-- The search for the first strong link, from the start link: `RTL` for `R`, `RLE` or
`RLO`, `LTR` for `L`, `LRE` or `LRO`. -/
def findStrong : List BidirTypeLink → Option BidirCharType
  | [] => none
  | p :: rest =>
    if p.type = EOT then none
    else if p.type = RTL ∨ p.type = RLE ∨ p.type = RLO then some RTL
    else if p.type = LTR ∨ p.type = LRE ∨ p.type = LRO then some LTR
    else findStrong rest

/-- The base direction and level: `L` or `R` as given, else the first strong link, else
the weak direction given. -/
def bidirBase (list : List BidirTypeLink) (baseDir : BidirCharType) : BidirCharType × Nat :=
  if baseDir = LTR then (LTR, 0)
  else if baseDir = RTL then (RTL, 1)
  else
    match findStrong list with
    | some RTL => (RTL, 1)
    | some _ => (LTR, 0)
    | none => if baseDir = WR then (RTL, 1) else if baseDir = WL then (LTR, 0) else (N, 0)

/-- A pass over the links after the start link. -/
def afterStart (f : List BidirTypeLink → List BidirTypeLink) :
    List BidirTypeLink → List BidirTypeLink
  | [] => []
  | sot :: rest => sot :: f rest

/-- The weak pass from the start link, `last_strong` first the base direction. -/
def weakStage (baseDir : BidirCharType) : List BidirTypeLink → List BidirTypeLink
  | [] => []
  | sot :: rest => weakPass baseDir sot rest

/-- N1 and N2 from the start link. -/
def neutralStage : List BidirTypeLink → List BidirTypeLink
  | [] => []
  | sot :: rest => sot :: neutralPass sot.type rest

/-- The implicit levels from the start link, `max_level` first the base level. -/
def implicitStage (baseLevel : Nat) : List BidirTypeLink → List BidirTypeLink × Nat
  | [] => ([], baseLevel)
  | sot :: rest =>
    let r := implicitPass sot.type baseLevel rest
    (sot :: r.1, r.2)

/-- `bidir_analyze_string`: the links with their levels, the base direction and the
greatest level. -/
def bidirAnalyzeString (list : List BidirTypeLink) (baseDir : BidirCharType) :
    List BidirTypeLink × BidirCharType × Nat :=
  let base := bidirBase list baseDir
  let list := compactList (afterStart (explicitPass ⟨base.2, N, []⟩) list)
  let list := compactList (weakStage base.1 list)
  let list := compactList (afterStart neutralCollapse list)
  let list := compactList (neutralStage list)
  let r := implicitStage base.2 list
  (compactList r.1, base.1, r.2)

/-- The level the display loop of qe.c uses at `offset`: that of the last link after the
start link whose run starts at or before it. -/
def runLevelAt (list : List BidirTypeLink) (offset : Nat) : Option Nat :=
  ((list.drop 1).takeWhile (·.pos ≤ offset)).getLast?.map (·.level)

/-! ## Against the embedding levels and UAX #9 -/

/-- The embedding level of each character of a line, from the stack of embeddings as the
controls before it leave it; none for the controls themselves. -/
def charEmbeddingLevels (st : ExplicitState) : List BidirCharType → List (Option Nat)
  | [] => []
  | t :: ts =>
    if t = LRE ∨ t = RLE ∨ t = LRO ∨ t = RLO then
      none :: charEmbeddingLevels (pushEmbedding t st) ts
    else if t = PDF then none :: charEmbeddingLevels (popEmbedding st) ts
    else some st.level :: charEmbeddingLevels st ts

/-- Rule P2 of UAX #9: the first type `L`, `R` or `AL` of a paragraph. -/
def p2FirstStrong (types : List BidirCharType) : Option BidirCharType :=
  types.find? (fun t => t = LTR ∨ t = RTL ∨ t = AL)

set_option maxRecDepth 20000 in
/-- `a RLE a`, base `WL`: the second `a` is at embedding level 1, but once the `RLE` is
dropped `compact_list` merges its run into the run of the first `a`, which keeps level 0,
and the display gives it level 0. -/
theorem bidirAnalyzeString_merges_embedding :
    bidirComputeAttributes bidirGetType RLE_EMBEDDINGS_SIZE [(0, 0x61), (1, 0x202b), (4, 0x61)] 5 =
        [sotLink, ⟨LTR, 0, 1, 0⟩, ⟨RLE, 1, 1, 0⟩, ⟨LTR, 4, 1, 0⟩, ⟨EOT, 5, 0, 0⟩] ∧
      charEmbeddingLevels ⟨0, N, []⟩ ([0x61, 0x202b, 0x61].map bidirGetType) =
        [some 0, none, some 1] ∧
      bidirAnalyzeString [sotLink, ⟨LTR, 0, 1, 0⟩, ⟨RLE, 1, 1, 0⟩, ⟨LTR, 4, 1, 0⟩, ⟨EOT, 5, 0, 0⟩] WL =
        ([sotLink, ⟨LTR, 0, 2, 0⟩, ⟨EOT, 5, 0, 0⟩], LTR, 0) ∧
      runLevelAt [sotLink, ⟨LTR, 0, 2, 0⟩, ⟨EOT, 5, 0, 0⟩] 4 = some 0 := by
  refine ⟨by decide, by decide, by decide, by decide⟩

set_option maxRecDepth 20000 in
/-- `ا a` (alef, space, a), base `WL`: P2 finds the Arabic letter first, so the paragraph is
right to left, but the search of `bidir_analyze_string` passes over `AL`, finds `a`, and
returns a left-to-right base direction, with the base level 0. -/
theorem bidirAnalyzeString_arabic_base :
    p2FirstStrong ([0x627, 0x20, 0x61].map bidirGetType) = some AL ∧
      bidirComputeAttributes bidirGetType RLE_EMBEDDINGS_SIZE [(0, 0x627), (2, 0x20), (3, 0x61)] 4 =
        [sotLink, ⟨AL, 0, 1, 0⟩, ⟨WS, 2, 1, 0⟩, ⟨LTR, 3, 1, 0⟩, ⟨EOT, 4, 0, 0⟩] ∧
      bidirAnalyzeString [sotLink, ⟨AL, 0, 1, 0⟩, ⟨WS, 2, 1, 0⟩, ⟨LTR, 3, 1, 0⟩, ⟨EOT, 4, 0, 0⟩] WL =
        ([sotLink, ⟨RTL, 0, 1, 1⟩, ⟨E, 2, 1, 0⟩, ⟨LTR, 3, 1, 0⟩, ⟨EOT, 4, 0, 0⟩], LTR, 1) := by
  refine ⟨by decide, by decide, by decide⟩

/-! ## Levels without embedding controls -/

/-- Every link other than the start and end links has its level in `[lo, hi]`. -/
def LevelsIn (lo hi : Nat) (list : List BidirTypeLink) : Prop :=
  ∀ p ∈ list, p.type ≠ SOT → p.type ≠ EOT → lo ≤ p.level ∧ p.level ≤ hi

/-- `p` is `p'` after a pass that keeps levels, and the types of the start and end links. -/
def Relabels (p' p : BidirTypeLink) : Prop :=
  p.level = p'.level ∧ (p'.type = SOT ∨ p'.type = EOT → p.type = p'.type)

theorem Relabels.refl (p : BidirTypeLink) : Relabels p p := ⟨rfl, fun _ => rfl⟩

theorem Relabels.trans {p q r : BidirTypeLink} (hpq : Relabels p q) (hqr : Relabels q r) :
    Relabels p r := by
  refine ⟨hqr.1.trans hpq.1, fun h => ?_⟩
  have hq := hpq.2 h
  exact (hqr.2 (hq ▸ h)).trans hq

/-- A link whose type is not the start or end one may take any other type. -/
theorem Relabels.of_level {p' p : BidirTypeLink} (hl : p.level = p'.level)
    (hs : p'.type ≠ SOT) (he : p'.type ≠ EOT) : Relabels p' p :=
  ⟨hl, fun h => h.elim (fun h' => absurd h' hs) (fun h' => absurd h' he)⟩

theorem LevelsIn.of_relabels {lo hi : Nat} {xs ys : List BidirTypeLink}
    (h : LevelsIn lo hi xs) (hys : ∀ p ∈ ys, ∃ p' ∈ xs, Relabels p' p) :
    LevelsIn lo hi ys := by
  intro p hp hs he
  obtain ⟨p', hp', hl, ht⟩ := hys p hp
  have hs' : p'.type ≠ SOT := fun h' => hs ((ht (.inl h')).trans h')
  have he' : p'.type ≠ EOT := fun h' => he ((ht (.inr h')).trans h')
  rw [hl]
  exact h p' hp' hs' he'

/-- `compact_list` keeps the type and the level of the first link of each merged block. -/
theorem compactLoop_relabels (q? : Option BidirTypeLink) (xs : List BidirTypeLink) :
    ∀ p ∈ compactLoop q? xs, ∃ p' ∈ q?.toList ++ xs, Relabels p' p := by
  induction xs generalizing q? with
  | nil =>
    cases q? with
    | none => simp [compactLoop]
    | some q =>
      intro p hp
      rw [compactLoop, List.mem_singleton] at hp
      exact ⟨q, by simp, hp ▸ Relabels.refl q⟩
  | cons x rest ih =>
    -- from `x` on, once the link before is written
    have hstart : ∀ p ∈ (if x.type = EOT then [x] else if x.type = DEL then compactLoop none rest
        else compactLoop (some x) rest), ∃ p' ∈ x :: rest, Relabels p' p := by
      intro p hp
      split_ifs at hp with h1 h2
      · rw [List.mem_singleton] at hp
        exact ⟨x, List.mem_cons_self, hp ▸ Relabels.refl x⟩
      · obtain ⟨p', hp', hr⟩ := ih none p hp
        exact ⟨p', List.mem_cons_of_mem x (by simpa using hp'), hr⟩
      · obtain ⟨p', hp', hr⟩ := ih (some x) p hp
        exact ⟨p', by simpa using hp', hr⟩
    cases q? with
    | none =>
      intro p hp
      rw [compactLoop] at hp
      simpa using hstart p hp
    | some q =>
      intro p hp
      rw [compactLoop] at hp
      by_cases hq : x.type = q.type
      · -- `x` is merged into `q`, which keeps its type and level
        rw [if_pos hq] at hp
        obtain ⟨p', hp', hr⟩ := ih _ p hp
        rcases List.mem_cons.mp (by simpa using hp') with rfl | hp'
        · exact ⟨q, by simp, hr⟩
        · exact ⟨p', by simp [hp'], hr⟩
      · rw [if_neg hq] at hp
        rcases List.mem_cons.mp hp with rfl | hp
        · exact ⟨_, by simp, Relabels.refl _⟩
        · obtain ⟨p', hp', hr⟩ := hstart p hp
          refine ⟨p', ?_, hr⟩
          rw [Option.toList_some, List.singleton_append]
          exact List.mem_cons_of_mem q hp'

theorem LevelsIn.compact {lo hi : Nat} {xs : List BidirTypeLink} (h : LevelsIn lo hi xs) :
    LevelsIn lo hi (compactList xs) :=
  h.of_relabels fun p hp => by simpa using compactLoop_relabels none xs p hp

theorem afterStart_relabels {f : List BidirTypeLink → List BidirTypeLink}
    (hf : ∀ xs, ∀ p ∈ f xs, ∃ p' ∈ xs, Relabels p' p) (xs : List BidirTypeLink) :
    ∀ p ∈ afterStart f xs, ∃ p' ∈ xs, Relabels p' p := by
  cases xs with
  | nil => simp [afterStart]
  | cons sot rest =>
    intro p hp
    rcases List.mem_cons.mp hp with rfl | hp
    · exact ⟨p, List.mem_cons_self, Relabels.refl p⟩
    · obtain ⟨p', hp', hr⟩ := hf rest p hp
      exact ⟨p', List.mem_cons_of_mem sot hp', hr⟩

/-- The weak rules keep the type of a start or end link before. -/
theorem weakRules_fst_of_ends {ls prevType thisType nextType : BidirCharType} {len : Nat}
    (h : prevType = SOT ∨ prevType = EOT) :
    (weakRules ls prevType thisType nextType len).1 = prevType := by
  -- no rule changes the type of a link before that is a start or an end
  rcases h with rfl | rfl <;> simp [weakRules]

/-- The weak rules keep the type of a start link. -/
theorem weakRules_snd_of_sot {ls prevType nextType : BidirCharType} {len : Nat} :
    (weakRules ls prevType SOT nextType len).2.1 = SOT := by
  simp [weakRules]

theorem weakPass_relabels (ls : BidirCharType) (prev : BidirTypeLink) (xs : List BidirTypeLink) :
    ∀ p ∈ weakPass ls prev xs, ∃ p' ∈ prev :: xs, Relabels p' p := by
  induction xs generalizing ls prev with
  | nil =>
    intro p hp
    rw [weakPass, List.mem_singleton] at hp
    exact ⟨prev, List.mem_cons_self, hp ▸ Relabels.refl prev⟩
  | cons this rest ih =>
    intro p hp
    rw [weakPass] at hp
    split_ifs at hp with he
    · exact ⟨p, hp, Relabels.refl p⟩
    · -- the link before takes its new type; this one goes on as the link before
      set r := weakRules ls prev.type this.type (rest.headD ⟨EOT, 0, 0, 0⟩).type this.len
      have hprev : Relabels prev { prev with type := r.1 } :=
        ⟨rfl, fun h => weakRules_fst_of_ends h⟩
      have hthis : Relabels this { this with type := r.2.1 } := by
        refine ⟨rfl, fun h => ?_⟩
        rcases h with h | h
        · simp only [r, h, weakRules_snd_of_sot]
        · exact absurd h he
      rcases List.mem_cons.mp hp with rfl | hp
      · exact ⟨prev, List.mem_cons_self, hprev⟩
      · obtain ⟨p', hp', hr⟩ := ih r.2.2 _ p hp
        rcases List.mem_cons.mp hp' with rfl | hp'
        · exact ⟨this, by simp, hthis.trans hr⟩
        · exact ⟨p', by simp [hp'], hr⟩

theorem weakStage_relabels (baseDir : BidirCharType) (xs : List BidirTypeLink) :
    ∀ p ∈ weakStage baseDir xs, ∃ p' ∈ xs, Relabels p' p := by
  cases xs with
  | nil => simp [weakStage]
  | cons sot rest => exact weakPass_relabels baseDir sot rest

theorem neutralCollapse_relabels (xs : List BidirTypeLink) :
    ∀ p ∈ neutralCollapse xs, ∃ p' ∈ xs, Relabels p' p := by
  induction xs with
  | nil => simp [neutralCollapse]
  | cons x rest ih =>
    intro p hp
    rw [neutralCollapse] at hp
    split_ifs at hp with he hn
    · exact ⟨p, hp, Relabels.refl p⟩
    · rcases List.mem_cons.mp hp with rfl | hp
      · -- a neutral is neither the start nor the end link
        refine ⟨x, List.mem_cons_self, Relabels.of_level rfl ?_ he⟩
        intro hs
        simp [hs] at hn
      · obtain ⟨p', hp', hr⟩ := ih p hp
        exact ⟨p', List.mem_cons_of_mem x hp', hr⟩
    · rcases List.mem_cons.mp hp with rfl | hp
      · exact ⟨p, List.mem_cons_self, Relabels.refl p⟩
      · obtain ⟨p', hp', hr⟩ := ih p hp
        exact ⟨p', List.mem_cons_of_mem x hp', hr⟩

theorem neutralPass_relabels (prevType : BidirCharType) (xs : List BidirTypeLink) :
    ∀ p ∈ neutralPass prevType xs, ∃ p' ∈ xs, Relabels p' p := by
  induction xs generalizing prevType with
  | nil => simp [neutralPass]
  | cons x rest ih =>
    intro p hp
    rw [neutralPass] at hp
    by_cases he : x.type = EOT
    · rw [if_pos he] at hp
      exact ⟨p, hp, Relabels.refl p⟩
    · rw [if_neg he] at hp
      dsimp only at hp
      rcases List.mem_cons.mp hp with rfl | hp
      · -- only a neutral run changes type, and it is neither the start nor the end link
        refine ⟨x, List.mem_cons_self, rfl, fun h => ?_⟩
        have hn : x.type ≠ N := by
          rcases h with h | h <;> rw [h] <;> decide
        exact if_neg hn
      · obtain ⟨p', hp', hr⟩ := ih _ p hp
        exact ⟨p', List.mem_cons_of_mem x hp', hr⟩

theorem neutralStage_relabels (xs : List BidirTypeLink) :
    ∀ p ∈ neutralStage xs, ∃ p' ∈ xs, Relabels p' p := by
  cases xs with
  | nil => simp [neutralStage]
  | cons sot rest =>
    intro p hp
    rcases List.mem_cons.mp hp with rfl | hp
    · exact ⟨p, List.mem_cons_self, Relabels.refl p⟩
    · obtain ⟨p', hp', hr⟩ := neutralPass_relabels sot.type rest p hp
      exact ⟨p', List.mem_cons_of_mem sot hp', hr⟩

/-- I1 and I2 raise a level by at most 2. -/
theorem implicitLevel_bounds (prevType type : BidirCharType) (level : Nat) :
    level ≤ implicitLevel prevType type level ∧ implicitLevel prevType type level ≤ level + 2 := by
  unfold implicitLevel
  split_ifs <;> omega

/-- The implicit pass keeps the types and raises each level by at most 2. -/
theorem implicitPass_levels (prevType : BidirCharType) (maxLevel : Nat)
    (xs : List BidirTypeLink) :
    ∀ p ∈ (implicitPass prevType maxLevel xs).1, ∃ p' ∈ xs,
      p.type = p'.type ∧ p'.level ≤ p.level ∧ p.level ≤ p'.level + 2 := by
  induction xs generalizing prevType maxLevel with
  | nil => simp [implicitPass]
  | cons x rest ih =>
    intro p hp
    rw [implicitPass] at hp
    split_ifs at hp with he
    · exact ⟨p, hp, rfl, le_rfl, Nat.le_add_right _ _⟩
    · rcases List.mem_cons.mp hp with rfl | hp
      · exact ⟨x, List.mem_cons_self, rfl, implicitLevel_bounds _ _ _⟩
      · obtain ⟨p', hp', h⟩ := ih _ _ p hp
        exact ⟨p', List.mem_cons_of_mem x hp', h⟩

theorem LevelsIn.implicit {lo hi : Nat} {xs : List BidirTypeLink} (h : LevelsIn lo hi xs)
    (baseLevel : Nat) : LevelsIn lo (hi + 2) (implicitStage baseLevel xs).1 := by
  cases xs with
  | nil => simp [implicitStage, LevelsIn]
  | cons sot rest =>
    intro p hp hs he
    rcases List.mem_cons.mp hp with rfl | hp
    · have := h p List.mem_cons_self hs he
      omega
    · obtain ⟨p', hp', ht, hlo, hhi⟩ := implicitPass_levels sot.type baseLevel rest p hp
      have := h p' (List.mem_cons_of_mem sot hp') (ht ▸ hs) (ht ▸ he)
      omega

/-- The passes after the explicit one keep the levels of the links, but for the implicit
pass, which raises them by at most 2. -/
theorem bidirAnalyzeString_levelsIn {list : List BidirTypeLink} {baseDir : BidirCharType}
    {lo hi : Nat}
    (h : LevelsIn lo hi (afterStart (explicitPass ⟨(bidirBase list baseDir).2, N, []⟩) list)) :
    LevelsIn lo (hi + 2) (bidirAnalyzeString list baseDir).1 := by
  have hweak := (h.compact.of_relabels (weakStage_relabels (bidirBase list baseDir).1 _)).compact
  have hcollapse := (hweak.of_relabels (afterStart_relabels neutralCollapse_relabels _)).compact
  have hneutral := (hcollapse.of_relabels (neutralStage_relabels _)).compact
  exact (hneutral.implicit (bidirBase list baseDir).2).compact

/-- Without embedding controls, the explicit pass gives every link up to the end link the
current level. -/
theorem explicitPass_of_no_controls (level : Nat) (stack : List (Nat × BidirCharType))
    (ys : List BidirTypeLink) (e : BidirTypeLink) (he : e.type = EOT)
    (hys : ∀ p ∈ ys, ¬IsExplicitControl p.type ∧ p.type ≠ EOT) :
    explicitPass ⟨level, N, stack⟩ (ys ++ [e]) =
      ys.map (fun p => { p with level }) ++ [e] := by
  induction ys with
  | nil =>
    rw [List.nil_append, explicitPass, if_pos he]
    rfl
  | cons y ys ih =>
    obtain ⟨hc, hy⟩ := hys y List.mem_cons_self
    have hpush : ¬(y.type = LRE ∨ y.type = RLE ∨ y.type = LRO ∨ y.type = RLO) :=
      fun h => hc (by unfold IsExplicitControl; tauto)
    have hpdf : y.type ≠ PDF := fun h => hc (by unfold IsExplicitControl; tauto)
    rw [List.cons_append, explicitPass, if_neg hy, if_neg hpush, if_neg hpdf,
      ih (fun p hp => hys p (List.mem_cons_of_mem y hp))]
    simp

/-- The links `bidir_compute_attributes` writes: the start link, possibly with characters
counted in it, and after it links of the types of the characters. -/
theorem computeAttrLoop_shape (getType : UInt32 → BidirCharType) (P : BidirCharType → Prop)
    (line : List (Nat × UInt32)) (hline : ∀ x ∈ line, P (getType x.2)) :
    ∀ (left : Nat) (ltype : BidirCharType) (rest0 : List BidirTypeLink) (n : Nat),
      (∀ p ∈ rest0, P p.type) →
      ∃ rest n', computeAttrLoop getType left ltype (rest0 ++ [{ sotLink with len := n }]) line =
        rest ++ [{ sotLink with len := n' }] ∧ ∀ p ∈ rest, P p.type := by
  induction line with
  | nil => exact fun _ _ rest0 n h => ⟨rest0, n, rfl, h⟩
  | cons x line ih =>
    intro left ltype rest0 n h0
    have hx := hline x List.mem_cons_self
    have ih := ih (fun y hy => hline y (List.mem_cons_of_mem x hy))
    obtain ⟨offset1, c⟩ := x
    simp only [computeAttrLoop]
    split_ifs with hnew
    · -- a new link of the type of `c`
      rw [← List.cons_append]
      refine ih _ _ _ n ?_
      intro p hp
      rcases List.mem_cons.mp hp with rfl | hp
      · exact hx
      · exact h0 p hp
    · -- `c` is counted in the last link
      cases rest0 with
      | nil => exact ih left ltype [] (n + 1) (by simp)
      | cons p ps =>
        rw [List.cons_append]
        refine ih left ltype ({ p with len := p.len + 1 } :: ps) n ?_
        intro q hq
        rcases List.mem_cons.mp hq with rfl | hq
        · exact h0 p List.mem_cons_self
        · exact h0 q (List.mem_cons_of_mem p hq)

set_option maxRecDepth 20000 in
/-- `bidir_get_type` never gives the end type. -/
theorem bidirGetType_ne_EOT (ch : UInt32) : bidirGetType ch ≠ EOT := by
  unfold bidirGetType
  rw [List.getD_eq_getElem?_getD]
  cases h : bidirCharTypeVal[bidirGetTypeLoop ch 9 0 bidirCharTypeStart.length]? with
  | none => simp
  | some t =>
    have hmem : t ∈ bidirCharTypeVal := List.mem_of_getElem? h
    have hnot : EOT ∉ bidirCharTypeVal := by decide
    rw [Option.getD_some]
    rintro rfl
    exact hnot hmem

/-- Without embedding controls in the line, and with character types that are never the
end type, every run ends with a level between the base level and 2 above it. -/
theorem bidirAnalyzeString_levels_of_no_controls (getType : UInt32 → BidirCharType)
    (hEOT : ∀ c, getType c ≠ EOT) (maxSize : Nat) (line : List (Nat × UInt32))
    (endOffset : Nat) (baseDir : BidirCharType)
    (hline : ∀ x ∈ line, ¬IsExplicitControl (getType x.2)) :
    LevelsIn (bidirBase (bidirComputeAttributes getType maxSize line endOffset) baseDir).2
      ((bidirBase (bidirComputeAttributes getType maxSize line endOffset) baseDir).2 + 2)
      (bidirAnalyzeString (bidirComputeAttributes getType maxSize line endOffset) baseDir).1 := by
  set list := bidirComputeAttributes getType maxSize line endOffset
  set b := (bidirBase list baseDir).2
  obtain ⟨rest, n, hloop, hrest⟩ := computeAttrLoop_shape getType
    (fun t => ¬IsExplicitControl t ∧ t ≠ EOT) line (fun x _ => ⟨hline x ‹_›, hEOT x.2⟩)
    (maxSize - 2) SOT [] 0 (by simp)
  have hlist : list = { sotLink with len := n } :: (rest.reverse ++ [⟨EOT, endOffset, 0, 0⟩]) := by
    simp only [list, bidirComputeAttributes]
    rw [show [sotLink] = [] ++ [{ sotLink with len := 0 }] from rfl, hloop]
    simp
  -- the explicit pass gives every link the base level
  have h1 : LevelsIn b b (afterStart (explicitPass ⟨b, N, []⟩) list) := by
    rw [hlist, afterStart, explicitPass_of_no_controls b [] _ _ rfl
      (fun p hp => hrest p (List.mem_reverse.mp hp))]
    intro p hp hs he
    rcases List.mem_cons.mp hp with rfl | hp
    · exact absurd rfl hs
    · rcases List.mem_append.mp hp with hp | hp
      · obtain ⟨q, -, rfl⟩ := List.mem_map.mp hp
        exact ⟨le_rfl, le_rfl⟩
      · rw [List.mem_singleton] at hp
        exact absurd (hp ▸ rfl) he
  exact bidirAnalyzeString_levelsIn h1

set_option maxRecDepth 20000 in
/-- `a` then alef, base `WL`, with the types of `bidir_get_type`. -/
theorem bidirAnalyzeString_levels_a_alef :
    LevelsIn (bidirBase (bidirComputeAttributes bidirGetType RLE_EMBEDDINGS_SIZE
        [(0, 0x61), (1, 0x627)] 2) WL).2
      ((bidirBase (bidirComputeAttributes bidirGetType RLE_EMBEDDINGS_SIZE
        [(0, 0x61), (1, 0x627)] 2) WL).2 + 2)
      (bidirAnalyzeString (bidirComputeAttributes bidirGetType RLE_EMBEDDINGS_SIZE
        [(0, 0x61), (1, 0x627)] 2) WL).1 :=
  bidirAnalyzeString_levels_of_no_controls bidirGetType bidirGetType_ne_EOT RLE_EMBEDDINGS_SIZE
    [(0, 0x61), (1, 0x627)] 2 WL (by decide)

end Qemacs
