import Qemacs.Buffer.Readers
import Qemacs.Script.Lexer

/-!
# `eb_search`

The search of search.c: a pattern of code points looked for from
`start_offset`, forward up to `end_offset` or backward, as bytes (`[Hex]`), as
a regular expression (`[Regex]`), or character by character with `eb_nextc`,
folding case with `qe_wtoupper` and testing word boundaries with `qe_isword`.

The regular expression engine (libregexp's `lre_compile` and `lre_exec`) and
the Unicode tables behind `qe_wtoupper` and `qe_iswlower` are parameters. The
loops stop on what `eb_nextc` and `eb_prevc` read: each turn takes one unit of
`fuel`, and `none` is a search that has not stopped.
-/

namespace Qemacs

/-! ## Flags -/

def SEARCH_FLAG_EXACTCASE : Nat := 0x0000
def SEARCH_FLAG_IGNORECASE : Nat := 0x0001
/-- Case fold unless upper case present. -/
def SEARCH_FLAG_SMARTCASE : Nat := 0x0002
def SEARCH_FLAG_CASE_MASK : Nat := 0x0003
def SEARCH_FLAG_WORD : Nat := 0x0004
def SEARCH_FLAG_REGEX : Nat := 0x0008
def SEARCH_FLAG_HEX : Nat := 0x0010
def SEARCH_FLAG_UNIHEX : Nat := 0x0020
def SEARCH_FLAG_HEX_MASK : Nat := 0x0030
def SEARCH_FLAG_DEFAULT : Nat := SEARCH_FLAG_SMARTCASE

/-- `SEARCH_LENGTH`. -/
def SEARCH_LENGTH : Nat := 2048

/-- `flags & bit` is not zero. -/
def hasFlag (flags bit : Nat) : Bool := flags &&& bit != 0

/-! ## Character classes (util.h) -/

/-- The tables of unicode_join.c past ASCII: `qe_wcunaccent` and
`qe_wctoupper`. -/
structure CaseTables where
  wcunaccent : UInt32 → UInt32
  wctoupper : UInt32 → UInt32

/-- `qe_isupper`. -/
def qeIsupper (c : UInt32) : Bool := 0x41 ≤ c ∧ c ≤ 0x5a

/-- `qe_islower`. -/
def qeIslower (c : UInt32) : Bool := 0x61 ≤ c ∧ c ≤ 0x7a

/-- `qe_toupper`. -/
def qeToupper (c : UInt32) : UInt32 := if qeIslower c then c + 0x41 - 0x61 else c

/-- `qe_unaccent`. -/
def qeUnaccent (t : CaseTables) (c : UInt32) : UInt32 := if 0x80 ≤ c then t.wcunaccent c else c

/-- `qe_iswlower`. -/
def qeIswlower (t : CaseTables) (c : UInt32) : Bool := qeIslower (qeUnaccent t c)

/-- `qe_iswupper`. -/
def qeIswupper (t : CaseTables) (c : UInt32) : Bool := qeIsupper (qeUnaccent t c)

/-- `qe_wtoupper`. -/
def qeWtoupper (t : CaseTables) (c : UInt32) : UInt32 :=
  if 0x80 ≤ c then t.wctoupper c else qeToupper c

/-- `qe_isword`: a letter, a digit, an underscore or any code point past
ASCII. -/
def qeIsword (c : UInt32) : Bool :=
  (c < 128 && qeDigitValue c.toUInt8 < 36) || c == 0x5f || 128 ≤ c

/-! ## The regular expression engine -/

def LRE_FLAG_IGNORECASE : Nat := 1 <<< 1
def LRE_FLAG_MULTILINE : Nat := 1 <<< 2
def LRE_FLAG_STICKY : Nat := 1 <<< 5

/-- What `eb_search` asks of libregexp: `lre_compile` of the UTF-8 source with
the flags, giving `lre_get_capture_count` of the program or `none` for a
pattern that does not compile; and `lre_exec` of it over the buffer's code
points from `cindex` up to `clen`, given the characters before `cindex` and at
`clen`: `(found, start, end)`, with `start` and `end` the first capture. -/
structure RegexEngine where
  compile : List UInt8 → Nat → Option Nat
  exec : List UInt8 → Nat → EditBuffer → Int → Int → UInt32 → UInt32 → Int × Int × Int

/-! ## The three searches -/

/-- What `eb_search` returns: the result (`1` found, `0` not found, `-1`
stopped), `found_offset`, `found_end`, and the buffer, whose page cache the
reads move. -/
abbrev SearchResult := Int × Int × Int × EditBuffer

/-- What a caller of `eb_search` sees of its run: the result, `found_offset`
and `found_end`. -/
def searchOutcome (r : SearchResult) : Int × Int × Int := (r.1, r.2.1, r.2.2.1)

/-- The search could stop here, every megabyte (`mask` `0xfffff`) or every
64K (`0xffff`): `abort_func` is called at an offset whose low bits are zero.
`abort` is what it answers; it is `false` for no `abort_func`. -/
def abortHere (abort : Bool) (mask : Nat) (offset : Int) : Bool :=
  abort && offset.toNat &&& mask == 0

section Search

variable (dir : Int) (startOffset endOffset : Int) (buf : List UInt32) (abort : Bool)

/-! ### `[Hex]` -/

/-- The byte comparison of the `[Hex]` search from `offset2`, with `pos` bytes
of the pattern matched: `some offset2` past a match, `none` at the first
difference or at `total_size`. Past the pattern, its array reads as 0. -/
def hexMatch (totalSize : Int) (b : EditBuffer) (pos : Nat) (offset2 : Int) :
    Option Int × EditBuffer :=
  if offset2 < totalSize then
    let (c, b) := ebReadOneByte b offset2
    let offset2 := offset2 + 1
    if UInt32.ofInt c ≠ buf.getD pos 0 then (none, b)
    else if buf.length ≤ pos + 1 ∧ (0 ≤ dir ∨ offset2 ≤ startOffset) then (some offset2, b)
    else hexMatch totalSize b (pos + 1) offset2
  else (none, b)
termination_by (totalSize - offset2).toNat

/-- The `for (;;)` loop of the `[Hex]` search: one offset a turn, backward
from `start_offset` or forward from it up to `end_offset`. -/
def hexLoop (totalSize : Int) : Nat → EditBuffer → Int → Option SearchResult
  | 0, _, _ => none
  | fuel + 1, b, offset =>
    let next := if dir < 0 then if offset = 0 then none else some (offset - 1)
      else if endOffset ≤ offset + 1 then none else some (offset + 1)
    match next with
    | none => some (0, -1, -1, b)
    | some offset =>
      -- check for search abort every megabyte
      if abortHere abort 0xfffff offset then some (-1, -1, -1, b)
      else
        match hexMatch dir startOffset buf totalSize b 0 offset with
        | (some offset2, b) => some (1, offset, offset2, b)
        | (none, b) => hexLoop totalSize fuel b offset

/-! ### `[Regex]` -/

/-- The loop of the `[Regex]` search, from `offset` with `offset1` the next
character: a single `lre_exec` forward, a sticky match tried at each character
boundary backward. -/
def regexLoop (re : RegexEngine) (flags : Nat) (source : List UInt8) (reFlags : Nat) :
    Nat → EditBuffer → Int → Int → Option SearchResult
  | 0, _, _, _ => none
  | fuel + 1, b, offset, offset1 =>
    let next : Option (Int × Int × EditBuffer) :=
      if dir < 0 then
        if offset = 0 then none
        else let (_, offset, b) := ebPrevc b offset; some (offset, offset1, b)
      else
        if endOffset ≤ offset1 then none
        else let (_, o1, b) := ebNextc b offset1; some (offset1, o1, b)
    match next with
    | none => some (0, -1, -1, b)
    | some (offset, offset1, b) =>
      -- check for search abort every 64K
      if abortHere abort 0xffff offset then some (-1, -1, -1, b)
      else
        -- pass boundary characters to match `$` and `\b` or `\B`
        let (cp, _, b) := ebPrevc b offset
        let (cn, _, b) := ebNextc b endOffset
        let (found, start, stop) := re.exec source reFlags b offset endOffset cp cn
        if found < 0 then some (-1, -1, -1, b)
        else
          let (ok, b) :=
            if 0 < found ∧ (0 ≤ dir ∨ stop ≤ endOffset) then
              if hasFlag flags SEARCH_FLAG_WORD then
                let (c1, _, b) := ebPrevc b start
                if qeIsword c1 then
                  let (c2, _, b) := ebNextc b stop
                  (qeIsword c2, b)
                else (false, b)
              else (true, b)
            else (false, b)
          if ok then some (1, start, stop, b)
          else if 0 ≤ dir then some (0, -1, -1, b)
          else regexLoop re flags source reFlags fuel b offset offset1

/-! ### Character by character -/

/-- The inner loop of the plain search at `offset`: the pattern from `pos`
against the character `c`, which ends at `offset2`. `some (some e)` is a match
ending at `e`, `some none` a difference. Past the pattern, its array reads as
0. -/
def matchLoop (t : CaseTables) (flags : Nat) (totalSize : Int) (offset : Int) :
    Nat → EditBuffer → UInt32 → Nat → Int → Option (Option Int × EditBuffer)
  | 0, _, _, _, _ => none
  | fuel + 1, b, c, pos, offset2 =>
    let c2 := buf.getD pos 0
    let pos := pos + 1
    if c ≠ c2 ∧ (!hasFlag flags SEARCH_FLAG_IGNORECASE || qeWtoupper t c ≠ qeWtoupper t c2) then
      some (none, b)
    else
      -- check for word boundaries
      let (wordEdge, b) :=
        if buf.length ≤ pos ∧ hasFlag flags SEARCH_FLAG_WORD then
          let (c1, _, b) := ebPrevc b offset
          if qeIsword c1 then (true, b)
          else let (c3, _, b) := ebNextc b offset2; (qeIsword c3, b)
        else (false, b)
      if wordEdge then some (none, b)
      else if buf.length ≤ pos ∧ (0 ≤ dir ∨ offset2 ≤ startOffset) then some (some offset2, b)
      else if totalSize ≤ offset2 then some (none, b)
      else
        let (c, offset2, b) := ebNextc b offset2
        matchLoop t flags totalSize offset fuel b c pos offset2

/-- The outer loop of the plain search: the next offset, backward with
`eb_prev` or forward to the `offset1` the last `eb_nextc` reached, and the
pattern compared from there. -/
def plainLoop (t : CaseTables) (flags : Nat) (totalSize : Int) :
    Nat → EditBuffer → Int → Int → Option SearchResult
  | 0, _, _, _ => none
  | fuel + 1, b, offset, offset1 =>
    let next : Option (Int × EditBuffer) :=
      if dir < 0 then
        if offset = 0 then none else let (_, offset, b) := ebPrevc b offset; some (offset, b)
      else if endOffset ≤ offset1 then none else some (offset1, b)
    match next with
    | none => some (0, -1, -1, b)
    | some (offset, b) =>
      -- check for search abort every megabyte
      if abortHere abort 0xfffff offset then some (-1, -1, -1, b)
      else
        -- get first char separately to compute offset1
        let (c, offset1, b) := ebNextc b offset
        match matchLoop dir startOffset buf t flags totalSize offset fuel b c 0 offset1 with
        | none => none
        | some (some offset2, b) => some (1, offset, offset2, b)
        | some (none, b) => plainLoop t flags totalSize fuel b offset offset1

/-! ### What the tables are read for -/

section Tables

variable {flags : Nat} (t t' : CaseTables)

/-- Without `IGNORECASE` the comparison of the plain search reads no case
table. -/
theorem matchLoop_tables (hfold : hasFlag flags SEARCH_FLAG_IGNORECASE = false)
    (totalSize offset : Int) (fuel : Nat) :
    ∀ b c pos offset2, matchLoop dir startOffset buf t flags totalSize offset fuel b c pos offset2 =
      matchLoop dir startOffset buf t' flags totalSize offset fuel b c pos offset2 := by
  induction fuel with
  | zero => intro b c pos offset2; rfl
  | succ fuel ih =>
    intro b c pos offset2
    simp only [matchLoop, hfold, Bool.not_false, Bool.true_or, ih]

theorem plainLoop_tables (hfold : hasFlag flags SEARCH_FLAG_IGNORECASE = false)
    (totalSize : Int) (fuel : Nat) :
    ∀ b offset offset1, plainLoop dir startOffset endOffset buf abort t flags totalSize fuel b offset offset1 =
      plainLoop dir startOffset endOffset buf abort t' flags totalSize fuel b offset offset1 := by
  induction fuel with
  | zero => intro b offset offset1; rfl
  | succ fuel ih =>
    intro b offset offset1
    simp only [plainLoop, matchLoop_tables dir startOffset buf t t' hfold, ih]

end Tables

end Search

/-- The smart case of `eb_search`: case folding when the pattern has a lower
case letter and no upper case one. -/
def smartCaseFlags (t : CaseTables) (flags : Nat) (buf : List UInt32) : Nat :=
  if flags &&& SEARCH_FLAG_CASE_MASK = SEARCH_FLAG_SMARTCASE then
    let lower := (buf.filter (qeIswlower t)).length
    let upper := (buf.filter (qeIswupper t)).length
    if 0 < lower ∧ upper = 0 then flags ||| SEARCH_FLAG_IGNORECASE else flags
  else flags

/-- `eb_search`: search `buf` in `b` in direction `dir` from `start_offset`,
forward up to `end_offset`. With an empty pattern the C returns 0 before
setting `*found_offset`; no caller modelled here reads it then. -/
def ebSearch (t : CaseTables) (re : RegexEngine) (abort : Bool) (fuel : Nat) (b : EditBuffer)
    (dir : Int) (flags : Nat) (startOffset endOffset : Int) (buf : List UInt32) :
    Option SearchResult :=
  let totalSize : Int := b.totalSize
  if buf.length = 0 then some (0, -1, -1, b)
  else
    let endOffset := if dir < 0 then startOffset else endOffset
    let endOffset := if totalSize < endOffset then totalSize else endOffset
    -- analyze buffer if smart case
    let flags := smartCaseFlags t flags buf
    if hasFlag flags SEARCH_FLAG_HEX then
      -- handle buffer as single bytes
      hexLoop dir startOffset endOffset buf abort totalSize fuel b
        (if 0 ≤ dir then startOffset - 1 else startOffset)
    else if hasFlag flags SEARCH_FLAG_REGEX then
      let reFlags := LRE_FLAG_MULTILINE |||
        (if hasFlag flags SEARCH_FLAG_IGNORECASE then LRE_FLAG_IGNORECASE else 0) |||
        (if dir < 0 then LRE_FLAG_STICKY else 0)
      let source := (buf.map utf8Encode).flatten
      if SEARCH_LENGTH ≤ source.length then some (-1, -1, -1, b)
      else
        match re.compile source reFlags with
        | none | some 0 => some (-1, -1, -1, b)
        | some _ => regexLoop dir endOffset abort re flags source reFlags fuel b startOffset startOffset
    else
      plainLoop dir startOffset endOffset buf abort t flags totalSize fuel b startOffset startOffset

/-- A search that neither folds case nor is a regular expression reads neither
the Unicode tables nor the regular expression engine. -/
theorem ebSearch_tables (t t' : CaseTables) (re re' : RegexEngine) {flags : Nat}
    (hcase : flags &&& SEARCH_FLAG_CASE_MASK ≠ SEARCH_FLAG_SMARTCASE)
    (hfold : hasFlag flags SEARCH_FLAG_IGNORECASE = false)
    (hre : hasFlag flags SEARCH_FLAG_REGEX = false)
    (abort : Bool) (fuel : Nat) (b : EditBuffer) (dir : Int) (startOffset endOffset : Int)
    (buf : List UInt32) :
    ebSearch t re abort fuel b dir flags startOffset endOffset buf =
      ebSearch t' re' abort fuel b dir flags startOffset endOffset buf := by
  have hsmart : ∀ t : CaseTables, smartCaseFlags t flags buf = flags := fun t => by
    simp [smartCaseFlags, hcase]
  simp only [ebSearch, hsmart, hre, Bool.false_eq_true, ↓reduceIte, plainLoop_tables _ _ _ _ _ t t' hfold]

open EditBuffer in
/-- With `[Word]`, the `[Regex]` search keeps a match only when word
characters stand on both sides of it, where the plain search keeps it only when
none does. In the file " a ", a whole-word search for `a` finds the plain match
at 1, while the regular expression search, given the leftmost match at 1 that
`lre_exec` returns for the literal, rejects it and, going forward, stops. -/
theorem ebSearch_regex_word_disagrees (t : CaseTables) (re : RegexEngine)
    (hcompile : ∃ n, 0 < n ∧ re.compile [0x61] LRE_FLAG_MULTILINE = some n)
    (hexec : ∀ b cp cn,
      (ebMmapBuffer (EditBuffer.empty charset_utf8 .unix) [0x20, 0x61, 0x20]).SameText b →
        re.exec [0x61] LRE_FLAG_MULTILINE b 0 3 cp cn = (1, 1, 2))
    (fuel : Nat) :
    (ebSearch t re false (fuel + 3)
        (ebMmapBuffer (EditBuffer.empty charset_utf8 .unix) [0x20, 0x61, 0x20])
        1 SEARCH_FLAG_WORD 0 3 [0x61]).map searchOutcome = some (1, 1, 2) ∧
      (ebSearch t re false (fuel + 3)
        (ebMmapBuffer (EditBuffer.empty charset_utf8 .unix) [0x20, 0x61, 0x20])
        1 (SEARCH_FLAG_WORD ||| SEARCH_FLAG_REGEX) 0 3 [0x61]).map searchOutcome =
        some (0, -1, -1) := by
  have h0 := SameText.refl (mmap_wf charset_utf8 .unix [0x20, 0x61, 0x20])
  obtain ⟨n, hn, hc⟩ := hcompile
  obtain ⟨n, rfl⟩ : ∃ k, n = k + 1 := ⟨n - 1, by omega⟩
  -- the reads of the plain search, each through the cache the one before left
  obtain ⟨B1, e1, h1⟩ := ebNextc_trace h0 0 0x20 1 (by decide)
  obtain ⟨B2, e2, h2⟩ := ebNextc_trace h1 1 0x61 2 (by decide)
  obtain ⟨B3, e3, h3⟩ := ebPrevc_trace h2 1 0x20 0 (by decide)
  obtain ⟨B4, e4, -⟩ := ebNextc_trace h3 2 0x20 3 (by decide)
  -- and those of the regular expression search, which reads the boundary characters first
  obtain ⟨R2, r2, hr2⟩ := ebPrevc_trace h1 0 10 0 (by decide)
  obtain ⟨R3, r3, hr3⟩ := ebNextc_trace hr2 3 10 3 (by decide)
  obtain ⟨R4, r4, -⟩ := ebPrevc_trace hr3 1 0x20 0 (by decide)
  constructor
  · simp +decide [ebSearch, smartCaseFlags, hasFlag, SEARCH_FLAG_HEX, SEARCH_FLAG_REGEX,
      SEARCH_FLAG_WORD, SEARCH_FLAG_IGNORECASE, plainLoop, matchLoop, e1, e2, e3, e4, searchOutcome]
  · simp +decide [ebSearch, smartCaseFlags, hasFlag, SEARCH_FLAG_HEX, SEARCH_FLAG_REGEX,
      SEARCH_FLAG_WORD, regexLoop, e1, r2, r3, r4, hexec R3 10 10 hr3, hc, searchOutcome, utf8Encode]

theorem ebSearch_regex_word_disagrees_space_a :
    (ebSearch ⟨id, id⟩ ⟨fun _ _ => some 1, fun _ _ _ _ _ _ _ => (1, 1, 2)⟩ false 3
        (ebMmapBuffer (EditBuffer.empty charset_utf8 .unix) [0x20, 0x61, 0x20])
        1 SEARCH_FLAG_WORD 0 3 [0x61]).map searchOutcome = some (1, 1, 2) ∧
      (ebSearch ⟨id, id⟩ ⟨fun _ _ => some 1, fun _ _ _ _ _ _ _ => (1, 1, 2)⟩ false 3
        (ebMmapBuffer (EditBuffer.empty charset_utf8 .unix) [0x20, 0x61, 0x20])
        1 (SEARCH_FLAG_WORD ||| SEARCH_FLAG_REGEX) 0 3 [0x61]).map searchOutcome =
        some (0, -1, -1) :=
  ebSearch_regex_word_disagrees ⟨id, id⟩ _ ⟨1, by decide, rfl⟩ (fun _ _ _ _ => rfl) 0

end Qemacs
