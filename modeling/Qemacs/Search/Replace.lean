import Qemacs.Search.Basic
import Qemacs.Command.Basic
import Qemacs.Script.Token

/-!
# Search strings and query-replace

The search tags a search string starts with (`[Regex] `, `[Word] `, ...), its
conversion to code points, and `query_replace_run`: search forward from the
last match, then, replacing all, delete the match, insert the replacement, and
search again from the end of the replacement.

The loop goes on while the search succeeds, and nothing in it needs the match
to be non-empty. A regular expression that matches the empty string matches it
at the offset the search starts from; with an empty replacement the loop then
comes back to the same offset of a buffer that reads the same, and never stops
(`queryReplace_empty_match_loops`).
-/

namespace Qemacs

/-! ## Search strings -/

/-- An entry of `search_tags`: a tag, the flag bits it sets and the bits it
clears first. -/
structure SearchTag where
  tag : List UInt8
  bits : Nat
  mask : Nat

/-- `search_tags`. -/
def searchTags : List SearchTag := [
  ⟨cstr "[Unihex] ", SEARCH_FLAG_UNIHEX, SEARCH_FLAG_HEX_MASK⟩,
  ⟨cstr "[Hex] ", SEARCH_FLAG_HEX, SEARCH_FLAG_HEX_MASK⟩,
  ⟨cstr "[Folding] ", SEARCH_FLAG_IGNORECASE, SEARCH_FLAG_CASE_MASK⟩,
  ⟨cstr "[Exact] ", SEARCH_FLAG_EXACTCASE, SEARCH_FLAG_CASE_MASK⟩,
  ⟨cstr "[Regex] ", SEARCH_FLAG_REGEX, SEARCH_FLAG_REGEX⟩,
  ⟨cstr "[Word] ", SEARCH_FLAG_WORD, SEARCH_FLAG_WORD⟩]

/-- `strstart`: the rest of `str` past `val`, when `str` starts with it. -/
def strstart (str val : List UInt8) : Option (List UInt8) :=
  if val.isPrefixOf str then some (str.drop val.length) else none

/-- `search_string_get_flags`: the tags at the start of `str`, each looked for
once in the order of the table; returns the flags and the rest of `str`. -/
def searchStringGetFlags (str : List UInt8) (flags : Nat) : Nat × List UInt8 :=
  searchTags.foldl
    (fun (flags, str) t =>
      match strstart str t.tag with
      | some str => (clearBits flags t.mask ||| t.bits, str)
      | none => (flags, str))
    (flags, str)

/-- The loop of `utf8_to_char32`, with room for `n` more code points. The end
of `p` is the string's NUL, which `utf8_decode` reads as 0. -/
def utf8ToChar32Loop : Nat → List UInt8 → List UInt32
  | 0, _ => []
  | n + 1, p =>
    let (c, len) := utf8Decode p
    if c = 0 then [] else c :: utf8ToChar32Loop n (p.drop len)

/-- `utf8_to_char32`: the code points of the UTF-8 string `str`, at most
`dest_length - 1` of them. -/
def utf8ToChar32 (destLength : Nat) (str : List UInt8) : List UInt32 :=
  if destLength = 0 then [] else utf8ToChar32Loop (destLength - 1) str

/-- The loop of `search_to_u32` in hex modes: hex digits gathered `max_nibble`
at a time, a space ending a shorter group; `hex_nibble` and `hc` hold the group
read so far. -/
def hexToU32Loop (size maxNibble : Nat) : List UInt8 → Nat → UInt32 → List UInt32 → List UInt32
  | s, hexNibble, hc, out =>
    if size ≤ out.length then out
    else
      match s with
      | [] => if 2 ≤ hexNibble then out ++ [hc] else out
      | c :: s =>
        let h := qeDigitValue c
        if h < 16 then
          let hc := (hc <<< 4) ||| h.toUInt32
          if hexNibble + 1 = maxNibble then hexToU32Loop size maxNibble s 0 0 (out ++ [hc])
          else hexToU32Loop size maxNibble s (hexNibble + 1) hc out
        else if c = 0x20 ∧ hexNibble ≠ 0 then hexToU32Loop size maxNibble s 0 0 (out ++ [hc])
        else hexToU32Loop size maxNibble s hexNibble hc out

/-- `search_to_u32`: the code points a search string stands for, at most
`size`. -/
def searchToU32 (size : Nat) (str : List UInt8) (flags : Nat) : List UInt32 :=
  if hasFlag flags (SEARCH_FLAG_HEX ||| SEARCH_FLAG_UNIHEX) then
    hexToU32Loop size (if hasFlag flags SEARCH_FLAG_UNIHEX then 6 else 2) str 0 0 []
  else utf8ToChar32 size str

/-! ## `query_replace` -/

/-- The fields of `QueryReplaceState` the replacement loop reads and writes. -/
structure QueryReplaceState where
  s : EditState
  searchFlags : Nat
  startOffset : Int
  foundOffset : Int
  foundEnd : Int
  replaceAll : Bool
  nbReps : Nat
  lastOffset : Int
  searchStr : List UInt8
  searchU32 : List UInt32
  replaceStr : List UInt8
  replaceU32 : List UInt32

/-- The setup of `query_replace`, before it runs the loop: nothing on a
read-only buffer; the strings are copied into arrays of `SEARCH_LENGTH * 3`
bytes. -/
def queryReplaceInit (s : EditState) (searchStr replaceStr : List UInt8) (all : Bool)
    (flags : Nat) : Option QueryReplaceState :=
  if s.b.readOnly then none
  else
    let (flags, searchStr) := searchStringGetFlags searchStr flags
    some {
      s, searchFlags := flags, startOffset := s.offset, foundOffset := s.offset,
      foundEnd := s.offset, replaceAll := all, nbReps := 0, lastOffset := s.offset,
      searchStr := searchStr.take (SEARCH_LENGTH * 3 - 1), searchU32 := [],
      replaceStr := replaceStr.take (SEARCH_LENGTH * 3 - 1), replaceU32 := [] }

/-- `query_replace_replace`: the match deleted, the replacement inserted in
its place, and the search to resume past it. The point and the mark follow the
two changes. -/
def queryReplaceReplace (is : QueryReplaceState) : QueryReplaceState :=
  let (_, b) := ebDeleteRange is.s.b is.foundOffset is.foundEnd
  let (n, b) := ebInsertChar32Buf b is.foundOffset is.replaceU32
  { is with s := is.s.withBuffer b, nbReps := is.nbReps + 1, foundOffset := is.foundOffset + n }

/-- `query_replace_abort`, as far as the buffer and the window go: the mark
back where the replacement started, and no highlighting. -/
def queryReplaceAbort (is : QueryReplaceState) : QueryReplaceState :=
  { is with s := { is.s with mark := is.startOffset, regionStyle := 0 } }

/-- The `for (;;)` loop of `query_replace_run`: `true` when a search failed,
`false` at a match to ask about. The searches take the loop's fuel. -/
def queryReplaceLoop (t : CaseTables) (re : RegexEngine) :
    Nat → QueryReplaceState → Option (Bool × QueryReplaceState)
  | 0, _ => none
  | fuel + 1, is =>
    match ebSearch t re false fuel is.s.b 1 is.searchFlags is.foundOffset is.s.b.totalSize
        is.searchU32 with
    | none => none
    | some (res, foundOffset, foundEnd, b) =>
      let is := { is with s := { is.s with b }, foundOffset, foundEnd }
      if res ≤ 0 then some (true, is)
      else if is.replaceAll then queryReplaceLoop t re fuel (queryReplaceReplace is)
      else some (false, is)

/-- `query_replace_run`: the strings converted, the loop, then the end of the
replacement or the match shown for the question. -/
def queryReplaceRun (t : CaseTables) (re : RegexEngine) (fuel : Nat) (is : QueryReplaceState) :
    Option (Bool × QueryReplaceState) :=
  let is := { is with
    lastOffset := is.foundOffset,
    searchU32 := searchToU32 SEARCH_LENGTH is.searchStr is.searchFlags,
    replaceU32 := searchToU32 SEARCH_LENGTH is.replaceStr is.searchFlags }
  (queryReplaceLoop t re fuel is).map fun (done, is) =>
    if done then (true, queryReplaceAbort is)
    else (false, { is with s := { is.s with
      offset := is.foundEnd, mark := is.foundOffset, regionStyle := QE_STYLE_SEARCH_MATCH } })

/-! ## Replacing all on an empty match -/

section EmptyMatch

variable {t : CaseTables} {re : RegexEngine}

/-- The replace-all loop with an empty replacement, at a found offset `o`
whose search keeps returning an empty match at `o` on a buffer of the family
`I`, never stops: deleting the empty match and inserting nothing leave the
buffer and the offset as they were. -/
theorem queryReplaceLoop_empty_match (I : EditBuffer → Prop) (flags : Nat) (o : Int)
    (u : List UInt32)
    (hsearch : ∀ k b, I b →
      ebSearch t re false k b 1 flags o b.totalSize u = none ∨
        ∃ r b', 0 < r ∧ I b' ∧ ebSearch t re false k b 1 flags o b.totalSize u = some (r, o, o, b'))
    (k : Nat) :
    ∀ is : QueryReplaceState, I is.s.b → is.foundOffset = o → is.searchFlags = flags →
      is.searchU32 = u → is.replaceU32 = [] → is.replaceAll = true →
      queryReplaceLoop t re k is = none := by
  induction k with
  | zero => intro is _ _ _ _ _ _; rfl
  | succ k ih =>
    intro is hb hfo hfl hsu hru hall
    rw [queryReplaceLoop, hfo, hfl, hsu]
    rcases hsearch k is.s.b hb with hnone | ⟨r, b', hr, hb', hsome⟩
    · rw [hnone]
    · rw [hsome]
      simp only [show ¬ r ≤ 0 by omega, ↓reduceIte, hall]
      -- the replacement: an empty deletion and an empty insertion
      exact ih _ (by simpa [queryReplaceReplace, hru] using hb')
        (by simp [queryReplaceReplace, hru]) rfl rfl hru rfl

end EmptyMatch

open EditBuffer in
/-- Replacing all matches of `x*` by nothing in the file "ab" never stops:
`lre_exec` finds the empty match at the offset the search starts from, and the
loop searches again from the same offset. -/
theorem queryReplace_empty_match_loops (t : CaseTables) (re : RegexEngine)
    (hcompile : ∃ n, 0 < n ∧
      re.compile (cstr "x*") (LRE_FLAG_MULTILINE ||| LRE_FLAG_IGNORECASE) = some n)
    (hexec : ∀ b cp cn,
      (ebMmapBuffer (EditBuffer.empty charset_utf8 .unix) (cstr "ab")).SameText b →
        re.exec (cstr "x*") (LRE_FLAG_MULTILINE ||| LRE_FLAG_IGNORECASE) b 0 2 cp cn = (1, 0, 0))
    (fuel : Nat) :
    ∃ is, queryReplaceInit ⟨ebMmapBuffer (EditBuffer.empty charset_utf8 .unix) (cstr "ab"), 0, 0, 0⟩
        (cstr "[Regex] x*") [] true SEARCH_FLAG_SMARTCASE = some is ∧
      queryReplaceRun t re fuel is = none := by
  obtain ⟨n, hn, hc⟩ := hcompile
  obtain ⟨n, rfl⟩ : ∃ k, n = k + 1 := ⟨n - 1, by omega⟩
  have hsrc : utf8Encode 0x78 ++ utf8Encode 0x2a = cstr "x*" := by decide
  -- a search from 0 finds the empty match at 0, on a buffer that reads as "ab" again
  have hsearch : ∀ k b,
      (ebMmapBuffer (EditBuffer.empty charset_utf8 .unix) (cstr "ab")).SameText b →
      ebSearch t re false k b 1 10 0 b.totalSize [0x78, 0x2a] = none ∨
        ∃ r b', 0 < r ∧ (ebMmapBuffer (EditBuffer.empty charset_utf8 .unix) (cstr "ab")).SameText b' ∧
          ebSearch t re false k b 1 10 0 b.totalSize [0x78, 0x2a] = some (r, 0, 0, b') := by
    intro k b h0
    have hsize : b.totalSize = 2 := h0.totalSize
    cases k with
    | zero =>
      left
      simp +decide [ebSearch, smartCaseFlags, hasFlag, SEARCH_FLAG_HEX, SEARCH_FLAG_REGEX,
        SEARCH_FLAG_IGNORECASE, hc, regexLoop, qeIswlower, qeIswupper, qeIslower, qeIsupper,
        qeUnaccent, hsrc]
    | succ k =>
      right
      obtain ⟨b1, e1, h1⟩ := ebNextc_trace h0 0 0x61 1 (by decide)
      obtain ⟨b2, e2, h2⟩ := ebPrevc_trace h1 0 10 0 (by decide)
      obtain ⟨b3, e3, h3⟩ := ebNextc_trace h2 2 10 2 (by decide)
      refine ⟨1, b3, by decide, h3, ?_⟩
      simp +decide [ebSearch, hsize, smartCaseFlags, hasFlag, SEARCH_FLAG_HEX, SEARCH_FLAG_REGEX,
        SEARCH_FLAG_IGNORECASE, hc, regexLoop, qeIswlower, qeIswupper, qeIslower, qeIsupper,
        qeUnaccent, hsrc, e1, e2, e3, hexec b3 10 10 h3]
  refine ⟨_, rfl, ?_⟩
  simp only [queryReplaceRun, Option.map_eq_none_iff]
  exact queryReplaceLoop_empty_match _ 10 0 [0x78, 0x2a] hsearch fuel _
    (SameText.refl (mmap_wf charset_utf8 .unix (cstr "ab"))) rfl (by decide) (by decide) (by decide)
    rfl

theorem queryReplace_empty_match_loops_empty_engine :
    ∃ is, queryReplaceInit ⟨ebMmapBuffer (EditBuffer.empty charset_utf8 .unix) (cstr "ab"), 0, 0, 0⟩
        (cstr "[Regex] x*") [] true SEARCH_FLAG_SMARTCASE = some is ∧
      queryReplaceRun ⟨id, id⟩ ⟨fun _ _ => some 1, fun _ _ _ _ _ _ _ => (1, 0, 0)⟩ 5 is = none :=
  queryReplace_empty_match_loops ⟨id, id⟩ _ ⟨1, by decide, rfl⟩ (fun _ _ _ _ => rfl) 5

end Qemacs
