import Qemacs.Command.Kill

/-!
# Lines, paragraphs and sentences

The motions of buffer.c and extras.c that commands on paragraphs and sentences
share: `eb_is_blank_line`, `eb_prev_line`, `eb_skip_whitespace`,
`eb_skip_blank_lines`, `eb_next_paragraph` and `eb_prev_paragraph`,
`eb_next_sentence` and `eb_prev_sentence`. Each loop takes a fuel argument; the
C loops stop at the ends of the buffer, where `eb_nextc` and `eb_prevc` return
a line feed.

The motions only read the buffer: each returns it with its cache moved
(`ebNextParagraph_frame`, `ebPrevSentence_frame` and the others).

A paragraph is a run of lines that are not blank, a blank line holding blanks
only. A sentence ends at `.`, `?` or `!`, after any closers, when two spaces or
the end of the paragraph follow.
-/

namespace Qemacs

/-! ## Character classes -/

/-- `qe_isspace`. -/
def qeIsspaceChar (c : UInt32) : Bool := c = 0x20 ∨ c = 9 ∨ c = 10 ∨ c = 13 ∨ c = 160

/-- `qe_isblank`. -/
def qeIsblankChar (c : UInt32) : Bool := c = 0x20 ∨ c = 9 ∨ c = 160

/-- A sentence end: `.`, `?` or `!`. -/
def isSentenceEnd (c : UInt32) : Bool := c = 0x2e ∨ c = 0x3f ∨ c = 0x21

/-- What may close a sentence after its end: `]`, `"`, `'`, `)`, `}`. -/
def isSentenceCloser (c : UInt32) : Bool := c = 0x5d ∨ c = 0x22 ∨ c = 0x27 ∨ c = 0x29 ∨ c = 0x7d

/-- `qe_findchar(".?! \t\n", c)`. -/
def isSentenceGap (c : UInt32) : Bool := isSentenceEnd c ∨ c = 0x20 ∨ c = 9 ∨ c = 10

/-! ## Lines and paragraphs -/

/-- `eb_is_blank_line`: the line from `offset` holds blanks only; then the
offset of the next line. -/
def ebIsBlankLine : Nat → EditBuffer → Int → Option (Option Int × EditBuffer)
  | 0, _, _ => none
  | fuel + 1, b, offset =>
    let (c, offset, b) := ebNextc b offset
    if c = 10 then some (some offset, b)
    else if !qeIsblankChar c then some (none, b)
    else ebIsBlankLine fuel b offset

/-- `eb_prev_line`: back past the second end of line met, to the start of the
line before. -/
def ebPrevLine : Nat → EditBuffer → Int → Bool → Option (Int × EditBuffer)
  | 0, _, _, _ => none
  | fuel + 1, b, offset, seenNl =>
    let (c, offset1, b) := ebPrevc b offset
    if c = 10 ∧ seenNl then some (offset, b)
    else ebPrevLine fuel b offset1 (seenNl || c = 10)

/-- `eb_skip_whitespace`: forward for `dir > 0`, backward for `dir < 0`. -/
def ebSkipWhitespace : Nat → EditBuffer → Int → Int → Option (Int × EditBuffer)
  | 0, _, _, _ => none
  | fuel + 1, b, offset, dir =>
    if 0 < dir ∧ offset < b.totalSize then
      let (c, p1, b) := ebNextc b offset
      if qeIsspaceChar c then ebSkipWhitespace fuel b p1 dir else some (offset, b)
    else if dir < 0 ∧ 0 < offset then
      let (c, p1, b) := ebPrevc b offset
      if qeIsspaceChar c then ebSkipWhitespace fuel b p1 dir else some (offset, b)
    else some (offset, b)

/-- The forward loop of `eb_skip_blank_lines`. -/
def skipBlankFwd : Nat → EditBuffer → Int → Option (Int × EditBuffer)
  | 0, _, _ => none
  | fuel + 1, b, offset =>
    if offset < b.totalSize then
      match ebIsBlankLine fuel b offset with
      | none => none
      | some (some offset1, b) => skipBlankFwd fuel b offset1
      | some (none, b) => some (offset, b)
    else some (offset, b)

/-- The backward loop of `eb_skip_blank_lines`, from the line at `pos`. -/
def skipBlankBwd : Nat → EditBuffer → Int → Int → Option (Int × EditBuffer)
  | 0, _, _, _ => none
  | fuel + 1, b, pos, offset =>
    match ebIsBlankLine fuel b pos with
    | none => none
    | some (none, b) => some (offset, b)
    | some (some _, b) =>
      if 0 < pos then
        match ebPrevLine fuel b pos false with
        | none => none
        | some (pos', b) => skipBlankBwd fuel b pos' pos
      else some (pos, b)

/-- `eb_skip_blank_lines`: forward to the next line that is not blank, or
backward to the first of the blank lines before. -/
def ebSkipBlankLines (fuel : Nat) (b : EditBuffer) (offset dir : Int) : Option (Int × EditBuffer) :=
  if 0 < dir then skipBlankFwd fuel b offset
  else (ebGotoBol fuel b offset).bind fun (pos, b) => skipBlankBwd fuel b pos offset

/-- The loop of `eb_next_paragraph` over the lines that are not blank. -/
def nextParagraphLoop : Nat → EditBuffer → Int → Option (Int × EditBuffer)
  | 0, _, _ => none
  | fuel + 1, b, offset =>
    if offset < b.totalSize then
      match ebIsBlankLine fuel b offset with
      | none => none
      | some (some _, b) => some (offset, b)
      | some (none, b) =>
        match ebNextLine fuel b offset with
        | none => none
        | some (offset, b) => nextParagraphLoop fuel b offset
    else some (offset, b)

/-- `eb_next_paragraph`: past the blank lines, then to the start of the blank
line after the text. -/
def ebNextParagraph (fuel : Nat) (b : EditBuffer) (offset : Int) : Option (Int × EditBuffer) :=
  (ebSkipBlankLines fuel b offset 1).bind fun (offset, b) => nextParagraphLoop fuel b offset

/-- The loop of `eb_prev_paragraph`, a line back at a time. -/
def prevParagraphLoop : Nat → EditBuffer → Int → Option (Int × EditBuffer)
  | 0, _, _ => none
  | fuel + 1, b, offset =>
    if 0 < offset then
      match ebPrevLine fuel b offset false with
      | none => none
      | some (offset, b) =>
        match ebIsBlankLine fuel b offset with
        | none => none
        | some (some _, b) => some (offset, b)
        | some (none, b) => prevParagraphLoop fuel b offset
    else some (offset, b)

/-- `eb_prev_paragraph`: back past the blank lines, then to the start of the
blank line before the text. -/
def ebPrevParagraph (fuel : Nat) (b : EditBuffer) (offset : Int) : Option (Int × EditBuffer) :=
  (ebSkipBlankLines fuel b offset (-1)).bind fun (offset, b) => prevParagraphLoop fuel b offset

/-! ## Sentences -/

/-- The `for` loop after a sentence end: past the closers. The offset after
them, the character that follows and the offset after it. -/
def skipClosers : Nat → EditBuffer → Int → Option (Int × UInt32 × Int × EditBuffer)
  | 0, _, _ => none
  | fuel + 1, b, offset =>
    let (c, p1, b) := ebNextc b offset
    if isSentenceCloser c then skipClosers fuel b p1 else some (offset, c, p1, b)

/-- The loop of `eb_next_sentence`, up to the end of the paragraph `parEnd`:
a sentence ends after its closers when a space and another space follow, or
the end of the line and the end of the paragraph. -/
def nextSentenceLoop (start parEnd : Int) : Nat → EditBuffer → Int → Option (Int × EditBuffer)
  | 0, _, _ => none
  | fuel + 1, b, offset =>
    if offset < parEnd then
      let (c, offset, b) := ebNextc b offset
      if !isSentenceEnd c then nextSentenceLoop start parEnd fuel b offset
      else
        match skipClosers fuel b offset with
        | none => none
        | some (offset, c, p1, b) =>
          let (c2, p2, b) := ebNextc b p1
          if (c = 0x20 ∧ qeIsspaceChar c2) ∨ (c = 10 ∧ parEnd ≤ p2) then some (offset, b)
          else nextSentenceLoop start parEnd fuel b offset
    else (ebSkipWhitespace fuel b offset (-1)).map fun (o, b) => (max start o, b)

/-- `eb_next_sentence`. -/
def ebNextSentence (fuel : Nat) (b : EditBuffer) (offset : Int) : Option (Int × EditBuffer) :=
  (ebNextParagraph fuel b offset).bind fun (parEnd, b) =>
    nextSentenceLoop offset parEnd fuel b offset

/-- The first loop of `eb_prev_sentence`: back over sentence ends and blanks,
and over the character that stops it. -/
def prevSentenceGap : Nat → EditBuffer → Int → Option (Int × EditBuffer)
  | 0, _, _ => none
  | fuel + 1, b, offset =>
    if 0 < offset then
      let (c, offset, b) := ebPrevc b offset
      if isSentenceGap c then prevSentenceGap fuel b offset else some (offset, b)
    else some (offset, b)

/-- The second loop of `eb_prev_sentence`, down to `parStart`: the offset after
the closers of the sentence end before, when a space and another space follow
them. -/
def prevSentenceLoop (parStart : Int) : Nat → EditBuffer → Int → Option (Int × EditBuffer)
  | 0, _, _ => none
  | fuel + 1, b, offset =>
    let p1 := offset
    if parStart < p1 then
      let (c, offset, b) := ebPrevc b offset
      if !isSentenceEnd c then prevSentenceLoop parStart fuel b offset
      else
        match skipClosers fuel b p1 with
        | none => none
        | some (p1, c, p2, b) =>
          let (c2, _, b) := ebNextc b p2
          if c = 0x20 ∧ qeIsspaceChar c2 then some (p1, b)
          else prevSentenceLoop parStart fuel b offset
    else some (p1, b)

/-- `eb_prev_sentence`: the first character that is not a space after the
end of the sentence before, within the paragraph. -/
def ebPrevSentence (fuel : Nat) (b : EditBuffer) (offset : Int) : Option (Int × EditBuffer) := do
  let (offset, b) ← prevSentenceGap fuel b offset
  let (parStart, b) ← ebPrevParagraph fuel b offset
  let (parStart, b) ← ebSkipBlankLines fuel b parStart 1
  let (p1, b) ← prevSentenceLoop parStart fuel b offset
  ebSkipWhitespace fuel b p1 1

/-! ## The motions only read

Each motion threads the buffer through its reads and returns it with its cache
moved: the buffer it returns holds the text it was given. -/

section Frames

open EditBuffer

variable {b b' : EditBuffer} {offset o : Int}

theorem ebIsBlankLine_frame {r : Option Int} (fuel : Nat) (hwf : b.WF)
    (h : ebIsBlankLine fuel b offset = some (r, b')) : b.SameText b' := by
  induction fuel generalizing b offset with
  | zero => cases h
  | succ fuel ih =>
    unfold ebIsBlankLine at h
    have h₁ := ebNextc_frame hwf offset
    generalize ebNextc b offset = r at h h₁
    obtain ⟨c, offset1, b₁⟩ := r
    dsimp only at h h₁
    split at h
    · cases h
      exact h₁
    split at h
    · cases h
      exact h₁
    · exact h₁.trans (ih h₁.right h)

theorem ebPrevLine_frame {seenNl : Bool} (fuel : Nat) (hwf : b.WF)
    (h : ebPrevLine fuel b offset seenNl = some (o, b')) : b.SameText b' := by
  induction fuel generalizing b offset seenNl with
  | zero => cases h
  | succ fuel ih =>
    unfold ebPrevLine at h
    have h₁ := ebPrevc_frame hwf offset
    generalize ebPrevc b offset = r at h h₁
    obtain ⟨c, offset1, b₁⟩ := r
    dsimp only at h h₁
    split at h
    · cases h
      exact h₁
    · exact h₁.trans (ih h₁.right h)

theorem ebSkipWhitespace_frame {dir : Int} (fuel : Nat) (hwf : b.WF)
    (h : ebSkipWhitespace fuel b offset dir = some (o, b')) : b.SameText b' := by
  induction fuel generalizing b offset with
  | zero => cases h
  | succ fuel ih =>
    unfold ebSkipWhitespace at h
    split at h
    · -- forward
      have h₁ := ebNextc_frame hwf offset
      generalize ebNextc b offset = r at h h₁
      obtain ⟨c, p1, b₁⟩ := r
      dsimp only at h h₁
      split at h
      · exact h₁.trans (ih h₁.right h)
      · cases h
        exact h₁
    split at h
    · -- backward
      have h₁ := ebPrevc_frame hwf offset
      generalize ebPrevc b offset = r at h h₁
      obtain ⟨c, p1, b₁⟩ := r
      dsimp only at h h₁
      split at h
      · exact h₁.trans (ih h₁.right h)
      · cases h
        exact h₁
    · cases h
      exact SameText.refl hwf

theorem skipBlankFwd_frame (fuel : Nat) (hwf : b.WF) (h : skipBlankFwd fuel b offset = some (o, b')) :
    b.SameText b' := by
  induction fuel generalizing b offset with
  | zero => cases h
  | succ fuel ih =>
    unfold skipBlankFwd at h
    split at h
    · split at h
      · cases h
      · rename_i offset1 b₁ hblank
        have h₁ := ebIsBlankLine_frame fuel hwf hblank
        exact h₁.trans (ih h₁.right h)
      · rename_i b₁ hblank
        cases h
        exact ebIsBlankLine_frame fuel hwf hblank
    · cases h
      exact SameText.refl hwf

theorem skipBlankBwd_frame {pos : Int} (fuel : Nat) (hwf : b.WF)
    (h : skipBlankBwd fuel b pos offset = some (o, b')) : b.SameText b' := by
  induction fuel generalizing b pos offset with
  | zero => cases h
  | succ fuel ih =>
    unfold skipBlankBwd at h
    split at h
    · cases h
    · rename_i b₁ hblank
      cases h
      exact ebIsBlankLine_frame fuel hwf hblank
    · rename_i offset1 b₁ hblank
      have h₁ := ebIsBlankLine_frame fuel hwf hblank
      split at h
      · split at h
        · cases h
        · rename_i pos' b₂ hprev
          have h₂ := ebPrevLine_frame fuel h₁.right hprev
          exact h₁.trans (h₂.trans (ih h₂.right h))
      · cases h
        exact h₁

theorem ebSkipBlankLines_frame {dir : Int} (fuel : Nat) (hwf : b.WF)
    (h : ebSkipBlankLines fuel b offset dir = some (o, b')) : b.SameText b' := by
  unfold ebSkipBlankLines at h
  split at h
  · exact skipBlankFwd_frame fuel hwf h
  · obtain ⟨⟨pos, b₁⟩, hbol, h⟩ := Option.bind_eq_some_iff.mp h
    have h₁ := ebGotoBol_frame fuel hwf hbol
    exact h₁.trans (skipBlankBwd_frame fuel h₁.right h)

theorem nextParagraphLoop_frame (fuel : Nat) (hwf : b.WF)
    (h : nextParagraphLoop fuel b offset = some (o, b')) : b.SameText b' := by
  induction fuel generalizing b offset with
  | zero => cases h
  | succ fuel ih =>
    unfold nextParagraphLoop at h
    split at h
    · split at h
      · cases h
      · rename_i offset1 b₁ hblank
        cases h
        exact ebIsBlankLine_frame fuel hwf hblank
      · rename_i b₁ hblank
        have h₁ := ebIsBlankLine_frame fuel hwf hblank
        split at h
        · cases h
        · rename_i offset2 b₂ hnext
          have h₂ := ebNextLine_frame fuel h₁.right hnext
          exact h₁.trans (h₂.trans (ih h₂.right h))
    · cases h
      exact SameText.refl hwf

theorem ebNextParagraph_frame (fuel : Nat) (hwf : b.WF)
    (h : ebNextParagraph fuel b offset = some (o, b')) : b.SameText b' := by
  unfold ebNextParagraph at h
  obtain ⟨⟨offset1, b₁⟩, hskip, h⟩ := Option.bind_eq_some_iff.mp h
  have h₁ := ebSkipBlankLines_frame fuel hwf hskip
  exact h₁.trans (nextParagraphLoop_frame fuel h₁.right h)

theorem prevParagraphLoop_frame (fuel : Nat) (hwf : b.WF)
    (h : prevParagraphLoop fuel b offset = some (o, b')) : b.SameText b' := by
  induction fuel generalizing b offset with
  | zero => cases h
  | succ fuel ih =>
    unfold prevParagraphLoop at h
    split at h
    · split at h
      · cases h
      · rename_i offset1 b₁ hprev
        have h₁ := ebPrevLine_frame fuel hwf hprev
        split at h
        · cases h
        · rename_i offset2 b₂ hblank
          cases h
          exact h₁.trans (ebIsBlankLine_frame fuel h₁.right hblank)
        · rename_i b₂ hblank
          have h₂ := ebIsBlankLine_frame fuel h₁.right hblank
          exact h₁.trans (h₂.trans (ih h₂.right h))
    · cases h
      exact SameText.refl hwf

theorem ebPrevParagraph_frame (fuel : Nat) (hwf : b.WF)
    (h : ebPrevParagraph fuel b offset = some (o, b')) : b.SameText b' := by
  unfold ebPrevParagraph at h
  obtain ⟨⟨offset1, b₁⟩, hskip, h⟩ := Option.bind_eq_some_iff.mp h
  have h₁ := ebSkipBlankLines_frame fuel hwf hskip
  exact h₁.trans (prevParagraphLoop_frame fuel h₁.right h)

theorem skipClosers_frame {c : UInt32} {p1 : Int} (fuel : Nat) (hwf : b.WF)
    (h : skipClosers fuel b offset = some (o, c, p1, b')) : b.SameText b' := by
  induction fuel generalizing b offset with
  | zero => cases h
  | succ fuel ih =>
    unfold skipClosers at h
    have h₁ := ebNextc_frame hwf offset
    generalize ebNextc b offset = r at h h₁
    obtain ⟨c₁, offset1, b₁⟩ := r
    dsimp only at h h₁
    split at h
    · exact h₁.trans (ih h₁.right h)
    · cases h
      exact h₁

theorem nextSentenceLoop_frame {start parEnd : Int} (fuel : Nat) (hwf : b.WF)
    (h : nextSentenceLoop start parEnd fuel b offset = some (o, b')) : b.SameText b' := by
  induction fuel generalizing b offset with
  | zero => cases h
  | succ fuel ih =>
    unfold nextSentenceLoop at h
    split at h
    · have h₁ := ebNextc_frame hwf offset
      generalize ebNextc b offset = r at h h₁
      obtain ⟨c, offset1, b₁⟩ := r
      dsimp only at h h₁
      split at h
      · exact h₁.trans (ih h₁.right h)
      split at h
      · cases h
      · rename_i offset2 c₂ p1 b₂ hclose
        have h₂ := skipClosers_frame fuel h₁.right hclose
        have h₃ := ebNextc_frame h₂.right p1
        generalize ebNextc b₂ p1 = r at h h₃
        obtain ⟨c₃, p2, b₃⟩ := r
        dsimp only at h h₃
        split at h
        · cases h
          exact h₁.trans (h₂.trans h₃)
        · exact h₁.trans (h₂.trans (h₃.trans (ih h₃.right h)))
    · obtain ⟨⟨o₁, b₁⟩, hskip, h⟩ := Option.map_eq_some_iff.mp h
      cases h
      exact ebSkipWhitespace_frame fuel hwf hskip

theorem ebNextSentence_frame (fuel : Nat) (hwf : b.WF)
    (h : ebNextSentence fuel b offset = some (o, b')) : b.SameText b' := by
  unfold ebNextSentence at h
  obtain ⟨⟨parEnd, b₁⟩, hpar, h⟩ := Option.bind_eq_some_iff.mp h
  have h₁ := ebNextParagraph_frame fuel hwf hpar
  exact h₁.trans (nextSentenceLoop_frame fuel h₁.right h)

theorem prevSentenceGap_frame (fuel : Nat) (hwf : b.WF)
    (h : prevSentenceGap fuel b offset = some (o, b')) : b.SameText b' := by
  induction fuel generalizing b offset with
  | zero => cases h
  | succ fuel ih =>
    unfold prevSentenceGap at h
    split at h
    · have h₁ := ebPrevc_frame hwf offset
      generalize ebPrevc b offset = r at h h₁
      obtain ⟨c, offset1, b₁⟩ := r
      dsimp only at h h₁
      split at h
      · exact h₁.trans (ih h₁.right h)
      · cases h
        exact h₁
    · cases h
      exact SameText.refl hwf

theorem prevSentenceLoop_frame {parStart : Int} (fuel : Nat) (hwf : b.WF)
    (h : prevSentenceLoop parStart fuel b offset = some (o, b')) : b.SameText b' := by
  induction fuel generalizing b offset with
  | zero => cases h
  | succ fuel ih =>
    unfold prevSentenceLoop at h
    dsimp only at h
    split at h
    · have h₁ := ebPrevc_frame hwf offset
      generalize ebPrevc b offset = r at h h₁
      obtain ⟨c, offset1, b₁⟩ := r
      dsimp only at h h₁
      split at h
      · exact h₁.trans (ih h₁.right h)
      split at h
      · cases h
      · rename_i p1 c₂ p2 b₂ hclose
        have h₂ := skipClosers_frame fuel h₁.right hclose
        have h₃ := ebNextc_frame h₂.right p2
        generalize ebNextc b₂ p2 = r at h h₃
        obtain ⟨c₃, p3, b₃⟩ := r
        dsimp only at h h₃
        split at h
        · cases h
          exact h₁.trans (h₂.trans h₃)
        · exact h₁.trans (h₂.trans (h₃.trans (ih h₃.right h)))
    · cases h
      exact SameText.refl hwf

theorem ebPrevSentence_frame (fuel : Nat) (hwf : b.WF)
    (h : ebPrevSentence fuel b offset = some (o, b')) : b.SameText b' := by
  unfold ebPrevSentence at h
  obtain ⟨⟨offset1, b₁⟩, hgap, h⟩ := Option.bind_eq_some_iff.mp h
  have h₁ := prevSentenceGap_frame fuel hwf hgap
  obtain ⟨⟨parStart, b₂⟩, hpar, h⟩ := Option.bind_eq_some_iff.mp h
  have h₂ := ebPrevParagraph_frame fuel h₁.right hpar
  obtain ⟨⟨parStart', b₃⟩, hskip, h⟩ := Option.bind_eq_some_iff.mp h
  have h₃ := ebSkipBlankLines_frame fuel h₂.right hskip
  obtain ⟨⟨p1, b₄⟩, hloop, h⟩ := Option.bind_eq_some_iff.mp h
  have h₄ := prevSentenceLoop_frame fuel h₃.right hloop
  exact h₁.trans (h₂.trans (h₃.trans (h₄.trans (ebSkipWhitespace_frame fuel h₄.right h))))

end Frames

end Qemacs
