import Qemacs.Search.Replace
import Qemacs.Command.Kill

/-!
# `do_search_string`

The non-incremental searches and the line filters of search.c: search forward
or backward, count the matches, and delete, copy, kill or list the lines that
hold a match (`CMD_DELETE_NON_MATCHING_LINES` keeps them and deletes the
others). With a highlighted region the search is restricted to it: the matches
must start in `[min_offset, max_offset)`.

The loop deletes while it searches, and moves `offset`, `last` and
`max_offset` after each deletion. `CMD_DELETE_NON_MATCHING_LINES` ends by
deleting from the offset past the last line it kept to the end of the buffer,
not to the end of the region: with a region, the lines past it are deleted too
(`deleteNonMatchingLines_deletes_past_region`).
-/

namespace Qemacs

/-- The modes of `do_search_string`. -/
inductive SearchCmd where
  | searchBackward
  | countMatches
  | searchForward
  | deleteMatchingLines
  | deleteNonMatchingLines
  | copyMatchingLines
  | killMatchingLines
  | listMatchingLines
deriving DecidableEq, Repr

/-- The value of the mode in the C enumeration, which the line modes are told
by (`mode > CMD_SEARCH_FORWARD`). -/
def SearchCmd.toInt : SearchCmd → Int
  | .searchBackward => -1
  | .countMatches => 0
  | .searchForward => 1
  | .deleteMatchingLines => 2
  | .deleteNonMatchingLines => 3
  | .copyMatchingLines => 4
  | .killMatchingLines => 5
  | .listMatchingLines => 6

/-- What the loop of `do_search_string` carries: the state, the next offset to
search from, the end of the search, the start of the text after the last line
kept, the count of matches and the `*occur*` buffer. -/
structure SearchLoopState where
  qs : QEmacsState
  s : EditState
  offset : Int
  maxOffset : Int
  last : Int
  count : Nat
  occur : Option EditBuffer

/-- The lines of a match from `found_offset` to `found_end`: from the start of
the line of its first character, to the end of the line of its last character,
end of line included. -/
def matchLines (fuel : Nat) (b : EditBuffer) (foundOffset foundEnd : Int) :
    Option (Int × Int × EditBuffer) :=
  (ebGotoBol fuel b foundOffset).bind fun (p1, b) =>
    let (c, _, b) := ebPrevc b foundEnd
    if c ≠ 10 then (ebNextLine fuel b foundEnd).map fun (p2, b) => (p1, p2, b)
    else some (p1, foundEnd, b)

/-- The `while` loop of `do_search_string`. Returns the state and whether a
search command returned from inside it. -/
def searchStringLoop (t : CaseTables) (re : RegexEngine) (mode : SearchCmd) (flags : Nat)
    (u : List UInt32) (minOffset : Int) : Nat → SearchLoopState → Option (SearchLoopState × Bool)
  | 0, _ => none
  | fuel + 1, st =>
    let dir : Int := if mode = .searchBackward then -1 else 1
    match ebSearch t re false fuel st.s.b dir flags st.offset st.maxOffset u with
    | none => none
    | some (res, foundOffset, foundEnd, b) =>
      let st := { st with s := { st.s with b } }
      if ¬ (0 < res ∧ minOffset ≤ foundOffset) then some (st, false)
      else
        let st := { st with count := st.count + 1 }
        let lines :=
          if SearchCmd.searchForward.toInt < mode.toInt then matchLines fuel st.s.b foundOffset foundEnd
          else some (0, 0, st.s.b)
        match lines with
        | none => none
        | some (p1, p2, b) =>
          -- handle match and update offset carefully, accounting for buffer modification
          let st := { st with s := { st.s with b } }
          match mode with
          | .countMatches =>
            searchStringLoop t re mode flags u minOffset fuel { st with offset := foundEnd }
          | .searchBackward => some ({ st with s := { st.s with offset := foundOffset } }, true)
          | .searchForward => some ({ st with s := { st.s with offset := foundEnd } }, true)
          | .deleteMatchingLines =>
            let (n, b) := ebDeleteRange st.s.b p1 p2
            searchStringLoop t re mode flags u minOffset fuel
              { st with s := st.s.withBuffer b, maxOffset := st.maxOffset - n, offset := p1 }
          | .deleteNonMatchingLines =>
            let (n, b) := ebDeleteRange st.s.b st.last p1
            let last := st.last + (p2 - p1)
            searchStringLoop t re mode flags u minOffset fuel
              { st with s := st.s.withBuffer b, maxOffset := st.maxOffset - n, last, offset := last }
          | .copyMatchingLines =>
            match doKill fuel st.qs st.s p1 p2 1 true with
            | none => none
            | some (qs, s) => searchStringLoop t re mode flags u minOffset fuel { st with qs, s, offset := p2 }
          | .killMatchingLines =>
            match doKill fuel st.qs st.s p1 p2 1 false with
            | none => none
            | some (qs, s) =>
              searchStringLoop t re mode flags u minOffset fuel
                { st with qs, s, maxOffset := st.maxOffset - (p2 - p1), offset := p1 }
          | .listMatchingLines =>
            match st.occur with
            | none => none
            | some b1 =>
              match ebInsertBufferConvert fuel b1 b1.totalSize st.s.b p1 (p2 - p1) with
              | none => none
              | some (_, b1, src) =>
                searchStringLoop t re mode flags u minOffset fuel
                  { st with s := { st.s with b := src }, occur := some b1, offset := p2 }

/-- What `do_search_string` leaves: the state, the count of matches its status
line reports, and the `*occur*` buffer of `CMD_LIST_MATCHING_LINES`. -/
structure SearchStringResult where
  qs : QEmacsState
  s : EditState
  count : Nat
  occur : Option EditBuffer

/-- `do_search_string`. The `*occur*` buffer is new, in UTF-8 and Unix end of
lines. -/
def doSearchString (t : CaseTables) (re : RegexEngine) (fuel : Nat) (qs : QEmacsState)
    (s : EditState) (searchStr : List UInt8) (mode : SearchCmd) : Option SearchStringResult :=
  -- get the flags from search_str
  let (flags, str) := searchStringGetFlags searchStr SEARCH_FLAG_DEFAULT
  let u := searchToU32 SEARCH_LENGTH str flags
  -- empty string matches
  if u.length = 0 then some ⟨qs, s, 0, none⟩
  else
    let (s, minOffset, maxOffset, offset) :=
      if s.regionStyle ≠ 0 then
        -- restrict the search to the current region
        let (lo, hi) := if s.mark > s.offset then (s.offset, s.mark) else (s.mark, s.offset)
        ({ s with regionStyle := 0 }, lo, hi, if mode = .searchBackward then hi else lo)
      else (s, 0, (s.b.totalSize : Int), s.offset)
    let lineMode := mode = .deleteMatchingLines ∨ mode = .deleteNonMatchingLines ∨
      mode = .killMatchingLines
    if lineMode ∧ s.b.readOnly then some ⟨qs, s, 0, none⟩
    else
      match (if lineMode then ebGotoBol fuel s.b offset else some (offset, s.b)) with
      | none => none
      | some (last, b) =>
        let occur := if mode = .listMatchingLines then some (systemBuffer charset_utf8 .unix) else none
        match searchStringLoop t re mode flags u minOffset fuel
            ⟨qs, { s with b }, offset, maxOffset, last, 0, occur⟩ with
        | none => none
        | some (st, true) => some ⟨st.qs, st.s, st.count, st.occur⟩
        | some (st, false) =>
          let s :=
            if mode = .deleteNonMatchingLines then
              st.s.withBuffer (ebDeleteRange st.s.b st.offset st.s.b.totalSize).2
            else st.s
          some ⟨st.qs, s, st.count, st.occur⟩

/-! ## What the tables are read for -/

section Tables

variable (t t' : CaseTables) (re re' : RegexEngine)

/-- The loop reads the Unicode tables and the regular expression engine only
through `eb_search`: a search that neither folds case nor is a regular
expression reads neither. -/
theorem searchStringLoop_tables {flags : Nat}
    (hcase : flags &&& SEARCH_FLAG_CASE_MASK ≠ SEARCH_FLAG_SMARTCASE)
    (hfold : hasFlag flags SEARCH_FLAG_IGNORECASE = false)
    (hre : hasFlag flags SEARCH_FLAG_REGEX = false)
    (mode : SearchCmd) (u : List UInt32) (minOffset : Int) (fuel : Nat) :
    ∀ st, searchStringLoop t re mode flags u minOffset fuel st =
      searchStringLoop t' re' mode flags u minOffset fuel st := by
  induction fuel with
  | zero => intro st; rfl
  | succ fuel ih =>
    intro st
    simp only [searchStringLoop, ebSearch_tables t t' re re' hcase hfold hre, ih]

theorem doSearchString_tables (fuel : Nat) (qs : QEmacsState) (s : EditState)
    (searchStr : List UInt8) (mode : SearchCmd)
    (hcase : (searchStringGetFlags searchStr SEARCH_FLAG_DEFAULT).1 &&& SEARCH_FLAG_CASE_MASK ≠
      SEARCH_FLAG_SMARTCASE)
    (hfold : hasFlag (searchStringGetFlags searchStr SEARCH_FLAG_DEFAULT).1
      SEARCH_FLAG_IGNORECASE = false)
    (hre : hasFlag (searchStringGetFlags searchStr SEARCH_FLAG_DEFAULT).1
      SEARCH_FLAG_REGEX = false) :
    doSearchString t re fuel qs s searchStr mode = doSearchString t' re' fuel qs s searchStr mode := by
  unfold doSearchString
  generalize searchStringGetFlags searchStr SEARCH_FLAG_DEFAULT = p at hcase hfold hre ⊢
  obtain ⟨flags, str⟩ := p
  simp only [searchStringLoop_tables t t' re re' hcase hfold hre]

end Tables

unseal lineScan hexMatch deleteLoop shiftLoop utf8Cols in
/-- With a highlighted region, `CMD_DELETE_NON_MATCHING_LINES` deletes the
lines past the region too: its last `eb_delete_range` runs from the line after
the last one kept to `total_size`, not to `max_offset`. In "a\nb\nc\n" with
the region over the first two lines, keeping the lines with an "a" leaves "a\n",
where the line "c\n" past the region should stay. -/
theorem deleteNonMatchingLines_deletes_past_region (t : CaseTables) (re : RegexEngine) :
    (doSearchString t re 20 QEmacsState.init
        ⟨ebMmapBuffer (EditBuffer.empty charset_utf8 .unix) (cstr "a\nb\nc\n"), 4, 0, 1⟩
        (cstr "[Exact] a") .deleteNonMatchingLines).map (fun r => r.s.b.content) =
      some (cstr "a\n") := by
  rw [doSearchString_tables t ⟨id, id⟩ re ⟨fun _ _ => none, fun _ _ _ _ _ _ _ => (0, 0, 0)⟩ _ _ _ _ _
    (by decide) (by decide) (by decide)]
  decide

end Qemacs
