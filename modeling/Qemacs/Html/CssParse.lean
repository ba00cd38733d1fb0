import Qemacs.Script.Token

/-!
# The CSS style sheet parser

`css_parse_style_sheet` (libqhtml/cssparse.c) and its readers: `bgetc`, which
folds `/* */` comments out of the text, `read_string`, `read_ident`,
`bskip_spaces`, `beat` and `parse_simple_selector`. The parser keeps the
current character `ch` ahead of the text `b->ptr`; `EOF` is -1, and reading at
the end of the text gives `EOF` again without moving.

The loops that read `ch` only while it is a space, an identifier character or
not `}` end at `EOF` and are one reader, `readWhile`. The others are written
with `fuel` and give `none` when it runs out. Two of them need not end: the
loop of `read_string` stops only at its quote and reads `EOF` as a character,
and the medium list of `@media` consumes nothing at a character that is no
space, no identifier character and none of `,`, `{` and `EOF`
(`cssParseStyleSheet_media_paren`).

The properties between braces are kept as their text: `css_parse_properties`
is left out. Identifiers are their names, as `css_new_ident` interns them.
-/

namespace Qemacs.Css

/-- `EOF`. -/
abbrev EOF : Int := -1

/-- `CSSParseState`: the text left to read, whether case is ignored, and the
messages `css_error1` reported. -/
structure CSSParseState where
  ptr : List UInt8
  ignoreCase : Bool
  errors : List String
deriving DecidableEq, Repr

/-! ## Reading characters -/

/-- `bgetc1`: the next byte, or `EOF` at the NUL, which is not passed. -/
def bgetc1 (p : List UInt8) : Int × List UInt8 :=
  match p with
  | [] => (EOF, [])
  | c :: q => if c = 0 then (EOF, p) else (c.toNat, q)

/-- The comment loop of `bgetc` after `/*`, `last` the byte read before: whether
the comment was closed, and the text after it, or the end of the text. -/
def skipComment : List UInt8 → Int → Bool × List UInt8
  | [], _ => (false, [])
  | c :: q, last =>
    if c = 0 then (false, c :: q)
    else if c = 0x2f ∧ last = 0x2a then (true, q)
    else skipComment q c.toNat

theorem skipComment_length_le (p : List UInt8) (last : Int) :
    (skipComment p last).2.length ≤ p.length := by
  induction p generalizing last with
  | nil => simp [skipComment]
  | cons c q ih =>
    simp only [skipComment]
    split
    · exact Nat.le_refl _
    · split
      · simp
      · exact Nat.le_succ_of_le (ih _)

/-- `bgetc`: the next character, comments left out. A `/` not followed by `*`
is a character; an unterminated comment runs to `EOF`. -/
def bgetc (p : List UInt8) : Int × List UInt8 :=
  match p with
  | 0x2f :: 0x2a :: r =>
    let s := skipComment r 0
    if s.1 then bgetc s.2 else (EOF, s.2)
  | 0x2f :: q => (0x2f, q)
  | p => bgetc1 p
termination_by p.length
decreasing_by
  have := skipComment_length_le r 0
  simp only [List.length_cons]
  omega

/-- The bytes left, the current character counted as one unless it is `EOF`. -/
def unreadCss (ch : Int) (p : List UInt8) : Nat := p.length + if ch = EOF then 0 else 1

/-- A byte read is never `EOF`. -/
@[simp] theorem natCast_ne_EOF (n : Nat) : (n : Int) ≠ EOF := by
  simp only [EOF]
  omega

theorem bgetc1_progress (p : List UInt8) : unreadCss (bgetc1 p).1 (bgetc1 p).2 ≤ p.length := by
  unfold bgetc1 unreadCss
  split
  · simp
  · rename_i c q
    by_cases hc : c = 0
    · simp [hc]
    · simp [hc]

/-- Every character but `EOF` takes at least one byte. -/
theorem bgetc_progress (p : List UInt8) : unreadCss (bgetc p).1 (bgetc p).2 ≤ p.length := by
  fun_induction bgetc p with
  | case1 r s _ ih =>
    -- a closed comment: the rest of the text is read again
    have := skipComment_length_le r 0
    simp only [s, List.length_cons] at *
    have : unreadCss (bgetc (skipComment r 0).2).1 (bgetc (skipComment r 0).2).2 ≤ r.length :=
      Nat.le_trans ih this
    omega
  | case2 r s _ =>
    have := skipComment_length_le r 0
    simp only [s, unreadCss, ite_true, List.length_cons]
    omega
  | case3 q => simp [unreadCss, EOF]
  | case4 p _ _ => exact bgetc1_progress p

/-! ## Character classes and the reading loops -/

/-- A class test of util.h applied to the parser's character, which the C
passes as a `char32_t`: `EOF` becomes `0xFFFFFFFF`, in none of the classes used
here. -/
def onByte (test : UInt8 → Bool) (ch : Int) : Bool :=
  decide (0 ≤ ch ∧ ch < 256) && test (UInt8.ofInt ch)

/-- `qe_tolower`. -/
def qeTolower (c : UInt8) : UInt8 := if 0x41 ≤ c ∧ c ≤ 0x5a then c + 0x20 else c

/-- `qe_strtolower` on a name that fits its buffer. -/
def qeStrtolower (s : List UInt8) : List UInt8 := s.map qeTolower

/-- A class of characters without `EOF`: a loop that reads while its character
is in one ends at the end of the text. -/
structure CharClass where
  test : Int → Bool
  not_eof : ∀ c, test c = true → c ≠ EOF

/-- The loop of `read_ident`, of `bskip_spaces` and of the properties text:
read while `ch` is in the class, keeping what fits in a buffer of `size` bytes
with its NUL. The result is the text kept, the first character out of the
class and the text after it. -/
def readWhile (cls : CharClass) (size : Nat) (acc : List UInt8) (ch : Int) (p : List UInt8) :
    List UInt8 × Int × List UInt8 :=
  if _h : cls.test ch then
    readWhile cls size (if acc.length + 1 < size then acc ++ [UInt8.ofInt ch] else acc)
      (bgetc p).1 (bgetc p).2
  else (acc, ch, p)
termination_by unreadCss ch p
decreasing_by
  have hp := bgetc_progress p
  have hne := cls.not_eof ch _h
  unfold unreadCss at *
  simp only [if_neg hne]
  omega

/-- The characters of `read_ident`: `qe_isalnum_`, `*` and `-`. -/
def identClass : CharClass where
  test c := onByte qeIsalnum_ c || c = 0x2a || c = 0x2d
  not_eof c h := by
    simp only [onByte, Bool.or_eq_true, Bool.and_eq_true, decide_eq_true_eq] at h
    simp only [EOF]
    omega

/-- The characters `bskip_spaces` passes: `qe_isspace`. -/
def spaceClass : CharClass where
  test := onByte qeIsspace
  not_eof c h := by
    simp only [onByte, Bool.and_eq_true, decide_eq_true_eq] at h
    simp only [EOF]
    omega

/-- The characters of a block of properties: all up to `}`. -/
def propsClass : CharClass where
  test c := c ≠ 0x7d ∧ c ≠ EOF
  not_eof c h := by
    simp only [ne_eq, decide_eq_true_eq] at h
    exact h.2

/-- `read_ident` into a buffer of `size` bytes. -/
def readIdent (size : Nat) (ch : Int) (p : List UInt8) : List UInt8 × Int × List UInt8 :=
  readWhile identClass size [] ch p

/-- `bskip_spaces`. -/
def bskipSpaces (ch : Int) (p : List UInt8) : Int × List UInt8 :=
  (readWhile spaceClass 0 [] ch p).2

/-- The loop of `read_string` after the opening `quote`: it stops only at the
quote, and keeps `EOF` as the byte `0xFF` when there is room. `none` when the
fuel runs out. -/
def readStringLoop (quote : Int) (size : Nat) : Nat → List UInt8 → List UInt8 →
    Option (List UInt8 × List UInt8)
  | 0, _, _ => none
  | fuel + 1, p, acc =>
    match bgetc p with
    | (ch, q) =>
      if ch = quote then some (acc, q)
      else readStringLoop quote size fuel q
        (if acc.length + 1 < size then acc ++ [UInt8.ofInt ch] else acc)

/-- `read_string`: the quoted text and the character after the closing quote. -/
def readString (fuel : Nat) (size : Nat) (ch : Int) (p : List UInt8) :
    Option (List UInt8 × Int × List UInt8) :=
  match readStringLoop ch size fuel p [] with
  | none => none
  | some (value, q) => some (value, (bgetc q).1, (bgetc q).2)

/-- `beat`: pass the characters of `str` as long as the text has them. -/
def beat (ch : Int) (p : List UInt8) : List UInt8 → Int × List UInt8
  | [] => (ch, p)
  | c :: str => if ch = EOF ∨ ch ≠ c.toNat then (ch, p) else beat (bgetc p).1 (bgetc p).2 str

/-- `css_get_enum`: the index of `str` in the comma separated list `enumStr`,
or `-1`. -/
def cssGetEnum (str enumStr : List UInt8) : Int :=
  match (enumStr.splitOn 0x2c).findIdx? (· = str) with
  | some i => i
  | none => -1

/-! ## Selectors -/

/-- `CSS_ATTR_OP_*`. -/
inductive CSSAttrOp
  | set | equal | inList | inHlist
deriving DecidableEq, Repr

/-- `CSS_TREE_OP_*`: how a simple selector stands to the one before it. -/
inductive CSSTreeOp
  | none | descendant | child | preceeded
deriving DecidableEq, Repr

/-- `CSSStyleSheetAttributeEntry`; identifiers are their names. -/
structure CSSAttributeEntry where
  attr : List UInt8
  op : CSSAttrOp
  value : List UInt8
deriving DecidableEq, Repr

/-- `CSSSimpleSelector` without its `next` link, which the entry holds as a
list. A `tagId` of no bytes is `CSS_ID_NIL`. -/
structure CSSSimpleSelector where
  treeOp : CSSTreeOp
  pclasses : Nat
  tag : List UInt8
  tagId : List UInt8
  attrs : List CSSAttributeEntry
deriving DecidableEq, Repr

/-- A selector as `memset` leaves it. -/
def CSSSimpleSelector.zero : CSSSimpleSelector := ⟨.none, 0, [], [], []⟩

/-- The locals of `parse_simple_selector` that its loop writes. -/
structure SelectorScan where
  tagId : List UInt8
  value : List UInt8
  attrs : List CSSAttributeEntry
  pclass : Nat
deriving DecidableEq, Repr

/-- How the loop of `parse_simple_selector` ends: at a character that starts no
class, id, attribute or pseudo class, or at an attribute operator it does not
know, where the function returns at once. -/
inductive ScanEnd
  | done (sc : SelectorScan) (ch : Int) (p : List UInt8)
  | badOp (p : List UInt8)

/-- The pseudo classes `parse_simple_selector` knows, bit `i` for the `i`th. -/
def pseudoClasses : List UInt8 :=
  cstr "first-child,link,visited,active,hover,focus,first-line,first-letter,before,after"

/-- The value after an attribute operator, from the character after it: a
quoted string or an identifier. -/
def getValue (fuel : Nat) (ch : Int) (p : List UInt8) : Option (List UInt8 × Int × List UInt8) :=
  if ch = 0x22 ∨ ch = 0x27 then readString fuel 1024 ch p else some (readIdent 1024 ch p)

/-- The loop of `parse_simple_selector` over `.class`, `#id`, `[attr]` and
`:pseudo`, one of them each pass. -/
def selectorLoop (ignoreCase : Bool) : Nat → SelectorScan → Int → List UInt8 → Option ScanEnd
  | 0, _, _, _ => none
  | fuel + 1, sc, ch, p =>
    match bskipSpaces ch p with
    | (ch, p) =>
      if ch = 0x2e then
        -- '.': the class is an attribute
        match readIdent 1024 (bgetc p).1 (bgetc p).2 with
        | (value, ch, p) =>
          selectorLoop ignoreCase fuel
            { sc with value, attrs := sc.attrs ++ [⟨cstr "class", .equal, value⟩] } ch p
      else if ch = 0x23 then
        -- '#'
        match readIdent 64 (bgetc p).1 (bgetc p).2 with
        | (tagId, ch, p) => selectorLoop ignoreCase fuel { sc with tagId } ch p
      else if ch = 0x5b then
        -- '['
        match readIdent 64 (bgetc p).1 (bgetc p).2 with
        | (attrName, ch, p) =>
          let attrName := if ignoreCase then qeStrtolower attrName else attrName
          if ch = 0x7e ∨ ch = 0x3d ∨ ch = 0x7c then
            let op := if ch = 0x7e then CSSAttrOp.inList
              else if ch = 0x3d then CSSAttrOp.equal else CSSAttrOp.inHlist
            -- '~' and '|' pass one more character, the '=' after them
            let q := if ch = 0x3d then p else (bgetc p).2
            match getValue fuel (bgetc q).1 (bgetc q).2 with
            | none => none
            | some (value, ch, p) =>
              let (ch, p) := if ch = 0x5d then bgetc p else (ch, p)
              selectorLoop ignoreCase fuel
                { sc with value, attrs := sc.attrs ++ [⟨attrName, op, value⟩] } ch p
          else if ch = 0x5d then
            selectorLoop ignoreCase fuel
              { sc with value := [], attrs := sc.attrs ++ [⟨attrName, .set, []⟩] }
              (bgetc p).1 (bgetc p).2
          else some (.badOp p)
      else if ch = 0x3a then
        -- ':'
        match readIdent 1024 (bgetc p).1 (bgetc p).2 with
        | (value, ch, p) =>
          let val := cssGetEnum value pseudoClasses
          selectorLoop ignoreCase fuel
            { sc with value, pclass := if 0 ≤ val then sc.pclass ||| 1 <<< val.toNat else sc.pclass }
            ch p
      else some (.done sc ch p)

/-- `parse_simple_selector`: the selector and the character after it. At an
attribute operator it does not know it returns early and writes neither, so
the caller keeps its `ss` and `ch` while the text has moved on. The id is also
added as an attribute, with the last value read rather than the id; `value`
starts out as no bytes where the C leaves it uninitialized. -/
def parseSimpleSelector (fuel : Nat) (ignoreCase : Bool) (ss : CSSSimpleSelector) (ch : Int)
    (p : List UInt8) : Option (CSSSimpleSelector × Int × List UInt8) :=
  match readIdent 64 ch p with
  | (tag, ch1, p) =>
    let tag := if ignoreCase then qeStrtolower tag else tag
    match selectorLoop ignoreCase fuel ⟨[], [], [], 0⟩ ch1 p with
    | none => none
    | some (.badOp p) => some (ss, ch, p)
    | some (.done sc ch p) =>
      let attrs := if sc.tagId = [] then sc.attrs
        else sc.attrs ++ [⟨cstr "id", .equal, sc.value⟩]
      some (⟨.none, sc.pclass, if tag = [] then cstr "*" else tag, sc.tagId, attrs⟩, ch, p)

/-! ## The style sheet -/

/-- `CSS_MEDIA_ALL`. -/
abbrev CSS_MEDIA_ALL : Nat := 0xffff

/-- `CSSStyleSheetEntry`: a selector, the selectors it is chained to (its
`next` list, the nearest first), its media, and the text of its properties,
`none` until a block of properties is read for it. -/
structure CSSStyleSheetEntry where
  sel : CSSSimpleSelector
  next : List CSSSimpleSelector
  media : Nat
  props : Option (List UInt8)
deriving DecidableEq, Repr

/-- The locals of `css_parse_style_sheet` that live from one pass of its loop to
the next: the character ahead, the media of the entries, `ss2`, which
`parse_simple_selector` may leave as it was, the `tag_id` buffer, which `@page`
may read without writing it, and the entries of the style sheet. -/
structure CSSParser extends CSSParseState where
  ch : Int
  media : Nat
  ss : CSSSimpleSelector
  tagId : List UInt8
  entries : List CSSStyleSheetEntry
deriving DecidableEq, Repr

/-- The media `@media` knows, bit `i` for the `i`th; `all` is every one. -/
def mediaTypes : List UInt8 := cstr "tty,screen,print,tv,speech,all"

/-- The medium list of `@media` up to its `{`. It leaves only at `{` or `EOF`,
and passes a character only as a space, an identifier or a `,`. -/
def mediaLoop : Nat → Nat → Int → List UInt8 → Option (Nat × Int × List UInt8)
  | 0, _, _, _ => none
  | fuel + 1, media, ch, p =>
    match readIdent 64 (bskipSpaces ch p).1 (bskipSpaces ch p).2 with
    | (tag, ch, p) =>
      let val := cssGetEnum tag mediaTypes
      let media := if val < 0 ∨ val = 5 then CSS_MEDIA_ALL else media ||| 1 <<< val.toNat
      match bskipSpaces ch p with
      | (ch, p) =>
        if ch = 0x2c then mediaLoop fuel media (bgetc p).1 (bgetc p).2
        else if ch = 0x7b ∨ ch = EOF then some (media, (bgetc p).1, (bgetc p).2)
        else mediaLoop fuel media ch p

/-- The name after `@page` up to its `{`. Without one, `tag_id` is what the last
`@page` left in it. -/
def pageName (tagId : List UInt8) (ch : Int) (p : List UInt8) : List UInt8 × Int × List UInt8 :=
  match bskipSpaces ch p with
  | (ch, p) =>
    if ch ≠ 0x7b then
      match readIdent 64 ch p with
      | (tagId, ch, p) => (tagId, bskipSpaces ch p)
    else (tagId, ch, p)

/-- The loop over simple selectors joined by `+`, `>` or a space: the last
one, the ones before it (the nearest first) and the character after them. -/
def selectorChain (ignoreCase : Bool) : Nat → CSSSimpleSelector → List CSSSimpleSelector →
    CSSTreeOp → Int → List UInt8 → Option (CSSSimpleSelector × List CSSSimpleSelector × Int × List UInt8)
  | 0, _, _, _, _, _ => none
  | fuel + 1, ss, lastSs, lastTreeOp, ch, p =>
    match parseSimpleSelector fuel ignoreCase ss (bskipSpaces ch p).1 (bskipSpaces ch p).2 with
    | none => none
    | some (ss, ch, p) =>
      match bskipSpaces ch p with
      | (ch, p) =>
        let ss := { ss with treeOp := lastTreeOp }
        if ch = 0x2b then
          selectorChain ignoreCase fuel ss (ss :: lastSs) .preceeded (bgetc p).1 (bgetc p).2
        else if ch = 0x3e then
          selectorChain ignoreCase fuel ss (ss :: lastSs) .child (bgetc p).1 (bgetc p).2
        else if onByte qeIsalpha ch then
          selectorChain ignoreCase fuel ss (ss :: lastSs) .descendant ch p
        else some (ss, lastSs, ch, p)

/-- The selector list: an entry for each selector up to a character other
than `,`. -/
def selectorList : Nat → CSSParser → Option CSSParser
  | 0, _ => none
  | fuel + 1, st =>
    match selectorChain st.ignoreCase fuel st.ss [] .none st.ch st.ptr with
    | none => none
    | some (ss, next, ch, p) =>
      let st := { st with ss, ch, ptr := p, entries := st.entries ++ [⟨ss, next, st.media, none⟩] }
      if ch = 0x2c then selectorList fuel { st with ch := (bgetc p).1, ptr := (bgetc p).2 }
      else some st

/-- The properties given to every entry from the `first`th on. -/
def setProps (first : Nat) (value : List UInt8) (entries : List CSSStyleSheetEntry) :
    List CSSStyleSheetEntry :=
  entries.take first ++ (entries.drop first).map fun e => { e with props := some value }

/-- `parse_props`: the text from `{` to `}`, given to the entries added since
`first`; `none` where there is no `{`, and the parse ends. -/
def parseProps (first : Nat) (st : CSSParser) : Option CSSParser :=
  if st.ch ≠ 0x7b then none
  else
    match readWhile propsClass 1024 [] (bgetc st.ptr).1 (bgetc st.ptr).2 with
    | (value, ch, p) =>
      let (ch, p) := if ch = 0x7d then bgetc p else (ch, p)
      some { st with ch, ptr := p, entries := setProps first value st.entries }

/-- Where a pass of the main loop goes: back to `redo`, or out of the loop. -/
inductive Pass
  | redo (st : CSSParser)
  | stop (st : CSSParser)

/-- After `parse_props`: on to the next pass, or the end of the parse. -/
def propsPass (first : Nat) (st : CSSParser) : Pass :=
  match parseProps first st with
  | none => .stop st
  | some st => .redo st

/-- A selector list and its properties. -/
def rulePass (fuel first : Nat) (st : CSSParser) : Option Pass :=
  (selectorList fuel st).map (propsPass first)

/-- The message of `css_error1` at an `@` rule it does not know. -/
def unrecognizedDirective (tag : List UInt8) : String :=
  "unrecognized css directive '@" ++ cfgStr tag ++ "'"

/-- One pass of the loop of `css_parse_style_sheet`, from `redo`. An `@` rule
other than `@media` and `@page` is reported and then read as a selector. -/
def parsePass (fuel : Nat) (st : CSSParser) : Option Pass :=
  -- first_eprops: the entries from here on get the next block of properties
  let first := st.entries.length
  match bskipSpaces st.ch st.ptr with
  | (ch, p) =>
    let st := { st with ch, ptr := p }
    if ch = EOF then some (.stop st)
    -- the "<!--" and "-->" around the text of a STYLE element
    else if ch = 0x3c then
      match beat ch p (cstr "<!--") with
      | (ch, p) => some (.redo { st with ch, ptr := p })
    else if ch = 0x2d then
      match beat ch p (cstr "-->") with
      | (ch, p) => some (.redo { st with ch, ptr := p })
    else if ch = 0x40 then
      match readIdent 64 (bgetc p).1 (bgetc p).2 with
      | (tag, ch, p) =>
        let dir := cssGetEnum tag (cstr "media,page")
        if dir = 0 then
          match mediaLoop fuel 0 ch p with
          | none => none
          | some (media, ch, p) => some (.redo { st with media, ch, ptr := p })
        else if dir = 1 then
          match pageName st.tagId ch p with
          | (tagId, ch, p) =>
            let ss : CSSSimpleSelector := ⟨.none, 0, cstr "@page", tagId, []⟩
            let entries := st.entries ++ [⟨ss, [], st.media, none⟩]
            some (propsPass first { st with ch, ptr := p, tagId, ss, entries })
        else
          rulePass fuel first
            { st with ch, ptr := p, errors := st.errors ++ [unrecognizedDirective tag] }
    else if ch = 0x7d then
      -- the end of an @media block: the media are kept
      some (.redo { st with ch := (bgetc p).1, ptr := (bgetc p).2 })
    else rulePass fuel first st

/-- The loop of `css_parse_style_sheet`, one pass each unit of fuel. -/
def parseLoop : Nat → CSSParser → Option CSSParser
  | 0, _ => none
  | fuel + 1, st =>
    match parsePass fuel st with
    | none => none
    | some (.stop st) => some st
    | some (.redo st) => parseLoop fuel st

/-- `css_parse_style_sheet`: the entries of the style sheet after those it had,
and the messages. `ss2` and `tag_id` start as zeros where the C leaves them
uninitialized. -/
def cssParseStyleSheet (fuel : Nat) (entries : List CSSStyleSheetEntry) (b : CSSParseState) :
    Option (List CSSStyleSheetEntry × CSSParseState) :=
  let st : CSSParser :=
    { b with ptr := (bgetc b.ptr).2, ch := (bgetc b.ptr).1, media := CSS_MEDIA_ALL,
             ss := .zero, tagId := [], entries }
  (parseLoop fuel st).map fun st => (st.entries, st.toCSSParseState)

/-- `css_parse_style_sheet_str`. -/
def cssParseStyleSheetStr (fuel : Nat) (entries : List CSSStyleSheetEntry) (buffer : List UInt8)
    (ignoreCase : Bool) : Option (List CSSStyleSheetEntry × CSSParseState) :=
  cssParseStyleSheet fuel entries ⟨buffer, ignoreCase, []⟩

example : (cssParseStyleSheetStr 8 [] (cstr "h1, h2 { b }") false).map (·.1.length) = some 2 := by
  decide +kernel

/-! ## How the readers move -/

theorem skipComment_suffix (p : List UInt8) (last : Int) : (skipComment p last).2 <:+ p := by
  induction p generalizing last with
  | nil => simp [skipComment]
  | cons c q ih =>
    simp only [skipComment]
    split
    · exact List.suffix_refl _
    · split
      · exact List.suffix_cons c q
      · exact (ih _).trans (List.suffix_cons c q)

theorem bgetc1_suffix (p : List UInt8) : (bgetc1 p).2 <:+ p := by
  unfold bgetc1
  split
  · exact List.suffix_refl _
  · split
    · exact List.suffix_refl _
    · exact List.suffix_cons _ _

/-- `bgetc` only moves forward in the text. -/
theorem bgetc_suffix (p : List UInt8) : (bgetc p).2 <:+ p := by
  fun_induction bgetc p with
  | case1 r s _ ih =>
    have h := skipComment_suffix r 0
    exact ih.trans (h.trans ((List.suffix_cons _ _).trans (List.suffix_cons _ _)))
  | case2 r s _ =>
    exact (skipComment_suffix r 0).trans ((List.suffix_cons _ _).trans (List.suffix_cons _ _))
  | case3 q => exact List.suffix_cons _ _
  | case4 p _ _ => exact bgetc1_suffix p

theorem bgetc1_mem {p : List UInt8} (h : (bgetc1 p).1 ≠ EOF) : ∃ c ∈ p, (bgetc1 p).1 = c.toNat := by
  unfold bgetc1 at *
  split at *
  · exact absurd rfl h
  · rename_i c q
    by_cases hc : c = 0
    · simp [hc] at h
    · exact ⟨c, List.mem_cons_self, by simp [hc]⟩

/-- A character `bgetc` reads is a byte of the text. -/
theorem bgetc_mem {p : List UInt8} (h : (bgetc p).1 ≠ EOF) : ∃ c ∈ p, (bgetc p).1 = c.toNat := by
  fun_induction bgetc p with
  | case1 r s _ ih =>
    obtain ⟨c, hc, hch⟩ := ih h
    have hsub := (skipComment_suffix r 0).subset
    exact ⟨c, List.mem_cons_of_mem _ (List.mem_cons_of_mem _ (hsub hc)), hch⟩
  | case2 r s _ => exact absurd rfl h
  | case3 q => exact ⟨0x2f, List.mem_cons_self, rfl⟩
  | case4 p _ _ => exact bgetc1_mem h

theorem bgetc_cons {c : UInt8} (q : List UInt8) (h0 : c ≠ 0) (hs : c ≠ 0x2f) :
    bgetc (c :: q) = ((c.toNat : Int), q) := by
  rw [bgetc.eq_def]
  split
  · next heq => exact absurd (List.cons.inj heq).1 hs
  · next heq => exact absurd (List.cons.inj heq).1 hs
  · simp [bgetc1, h0]

theorem readWhile_stop {cls : CharClass} {ch : Int} (h : cls.test ch = false) (size : Nat)
    (acc p : List UInt8) : readWhile cls size acc ch p = (acc, ch, p) := by
  rw [readWhile]
  simp [h]

theorem readWhile_step {cls : CharClass} {ch : Int} (h : cls.test ch = true) (size : Nat)
    (acc p : List UInt8) :
    readWhile cls size acc ch p =
      readWhile cls size (if acc.length + 1 < size then acc ++ [UInt8.ofInt ch] else acc)
        (bgetc p).1 (bgetc p).2 := by
  rw [readWhile]
  simp [h]

theorem bskipSpaces_stop {ch : Int} (h : spaceClass.test ch = false) (p : List UInt8) :
    bskipSpaces ch p = (ch, p) := by
  simp [bskipSpaces, readWhile_stop h]

theorem readIdent_stop {ch : Int} (h : identClass.test ch = false) (size : Nat) (p : List UInt8) :
    readIdent size ch p = ([], ch, p) :=
  readWhile_stop h size [] p

/-- Once the spaces are passed, at a character that is no space, no identifier
character and none of `,`, `{` and `EOF`, the medium list of `@media` reads
nothing more and never ends. -/
theorem mediaLoop_stuck {ch c : Int} {p q : List UInt8} (hsk : bskipSpaces ch p = (c, q))
    (hs : spaceClass.test c = false) (hi : identClass.test c = false) (hc : c ≠ 0x2c)
    (hb : ¬(c = 0x7b ∨ c = EOF)) (fuel media : Nat) : mediaLoop fuel media ch p = none := by
  induction fuel generalizing media ch p with
  | zero => rfl
  | succ fuel ih =>
    rw [mediaLoop]
    simp only [hsk, readIdent_stop hi, bskipSpaces_stop hs, if_neg hc, if_neg hb]
    exact ih (bskipSpaces_stop hs q) _

/-- `read_string` stops only at its quote: in a text without that byte it reads
on past the end, where `EOF` comes back for ever. -/
theorem readStringLoop_unterminated {quote : UInt8} (size fuel : Nat) (p acc : List UInt8)
    (hp : quote ∉ p) : readStringLoop quote.toNat size fuel p acc = none := by
  induction fuel generalizing p acc with
  | zero => rfl
  | succ fuel ih =>
    have hne : (bgetc p).1 ≠ quote.toNat := by
      by_cases he : (bgetc p).1 = EOF
      · rw [he]
        exact Ne.symm (natCast_ne_EOF _)
      · obtain ⟨c, hc, hch⟩ := bgetc_mem he
        rw [hch]
        intro heq
        exact hp (UInt8.toNat_inj.mp (Int.ofNat_inj.mp heq) ▸ hc)
    have hrest : quote ∉ (bgetc p).2 := fun hq => hp ((bgetc_suffix p).subset hq)
    rcases hb : bgetc p with ⟨ch, q⟩
    rw [hb] at hne hrest
    simp only [readStringLoop, hb, if_neg hne]
    exact ih q _ hrest

/-! ## Two texts the parser never finishes -/

/-- `@media (`, as in `@media (max-width: 600px)`: the medium list stops at the
`(` and reads it no more. -/
theorem cssParseStyleSheetStr_media_paren (fuel : Nat) (entries : List CSSStyleSheetEntry)
    (rest : List UInt8) (ignoreCase : Bool) :
    cssParseStyleSheetStr fuel entries (cstr "@media (" ++ rest) ignoreCase = none := by
  rcases fuel with _ | fuel
  · rfl
  · have hp : cstr "@media (" ++ rest =
        0x40 :: 0x6d :: 0x65 :: 0x64 :: 0x69 :: 0x61 :: 0x20 :: 0x28 :: rest := rfl
    have hident : readIdent 64 0x6d (0x65 :: 0x64 :: 0x69 :: 0x61 :: 0x20 :: 0x28 :: rest) =
        (cstr "media", 0x20, 0x28 :: rest) := by
      simp +decide only [readIdent, readWhile_step, readWhile_stop, bgetc_cons, ite_true]
      rfl
    have hspace : bskipSpaces 0x20 (0x28 :: rest) = (0x28, rest) := by
      simp +decide only [bskipSpaces, readWhile_step, readWhile_stop, bgetc_cons]
      rfl
    have hmedia : cssGetEnum (cstr "media") (cstr "media,page") = 0 := by decide
    -- from the `(` on, the medium list goes round without reading
    have hloop := mediaLoop_stuck hspace (by decide) (by decide) (by decide) (by decide) fuel 0
    simp +decide [cssParseStyleSheetStr, cssParseStyleSheet, hp, bgetc_cons, parseLoop, parsePass,
      bskipSpaces_stop, hident, hmedia, hloop]

/-- An attribute value whose quote is not closed: `read_string` reads `EOF` for
ever at the end of the text. -/
theorem cssParseStyleSheetStr_open_quote (fuel : Nat) (entries : List CSSStyleSheetEntry)
    (rest : List UInt8) (ignoreCase : Bool) (h : (0x22 : UInt8) ∉ rest) :
    cssParseStyleSheetStr fuel entries (cstr "a[b=\"" ++ rest) ignoreCase = none := by
  have hp : cstr "a[b=\"" ++ rest = 0x61 :: 0x5b :: 0x62 :: 0x3d :: 0x22 :: rest := rfl
  have hstr : ∀ fuel, readStringLoop 0x22 1024 fuel rest [] = none := fun fuel =>
    readStringLoop_unterminated 1024 fuel rest [] h
  have htag : readIdent 64 0x61 (0x5b :: 0x62 :: 0x3d :: 0x22 :: rest) =
      ([0x61], 0x5b, 0x62 :: 0x3d :: 0x22 :: rest) := by
    simp +decide only [readIdent, readWhile_step, readWhile_stop, bgetc_cons, ite_true]
    rfl
  have hattr : readIdent 64 0x62 (0x3d :: 0x22 :: rest) = ([0x62], 0x3d, 0x22 :: rest) := by
    simp +decide only [readIdent, readWhile_step, readWhile_stop, bgetc_cons, ite_true]
    rfl
  -- the main loop, the selector list, the selector chain and the selector's own
  -- loop each take one unit of fuel before `read_string` is reached
  rcases fuel with _ | _ | _ | _ | fuel
  all_goals simp +decide [cssParseStyleSheetStr, cssParseStyleSheet, hp, bgetc_cons, parseLoop,
    parsePass, bskipSpaces_stop, rulePass, selectorList, selectorChain, parseSimpleSelector,
    selectorLoop, getValue, readString, htag, hattr, hstr]

/-- `css_parse_style_sheet` does not return on every text: for no amount of fuel
does it finish `@media (` or an attribute value whose quote is not closed. -/
theorem cssParseStyleSheetStr_hangs (fuel : Nat) (entries : List CSSStyleSheetEntry)
    (ignoreCase : Bool) :
    (∀ rest, cssParseStyleSheetStr fuel entries (cstr "@media (" ++ rest) ignoreCase = none) ∧
      ∀ rest, (0x22 : UInt8) ∉ rest →
        cssParseStyleSheetStr fuel entries (cstr "a[b=\"" ++ rest) ignoreCase = none :=
  ⟨fun rest => cssParseStyleSheetStr_media_paren fuel entries rest ignoreCase,
   fun rest h => cssParseStyleSheetStr_open_quote fuel entries rest ignoreCase h⟩

theorem cssParseStyleSheetStr_hangs_at_open_quote :
    (0x22 : UInt8) ∉ cstr "x]" ∧
      cssParseStyleSheetStr 4096 [] (cstr "a[b=\"" ++ cstr "x]") false = none :=
  ⟨by decide, (cssParseStyleSheetStr_hangs 4096 [] false).2 (cstr "x]") (by decide)⟩

end Qemacs.Css
