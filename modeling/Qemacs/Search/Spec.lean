import Qemacs.Search.Basic

/-!
# What the plain search finds

The plain `eb_search`, neither `[Hex]` nor `[Regex]`, against what it is for:
the nearest character boundary at which the buffer reads the pattern, forward
from `start_offset` and before `end_offset`, or backward from `start_offset`
with the match ending at or before it.

The search reads the buffer through `eb_nextc` and `eb_prevc`, which move its
page cache; a buffer that reads the same (`SameText`) gives the same
characters and offsets, so the specification reads the buffer the search
starts with. The character boundaries are the offsets `eb_nextc` reaches from
`start_offset`, and backward those `eb_prev` reaches. The loops end when the
decoders move: `eb_nextc` forward from each offset before `total_size`, and
`eb_prev` down from each boundary it reaches above 0.
-/

namespace Qemacs

open EditBuffer

/-! ## The specification -/

/-- One character of the pattern read in the buffer: equal, or equal in upper
case when case folding is in effect. -/
def charMatches (t : CaseTables) (fold : Bool) (c c2 : UInt32) : Bool :=
  c == c2 || (fold && qeWtoupper t c == qeWtoupper t c2)

/-- The characters `eb_nextc` reads from `o`, each from an offset before
`total_size`, against `pat`: the offset after the last of them, when they are
the pattern's. -/
def readMatch (b : EditBuffer) (t : CaseTables) (fold : Bool) : List UInt32 → Int → Option Int
  | [], o => some o
  | c2 :: pat, o =>
    if o < b.totalSize ∧ charMatches t fold (ebNextc b o).1 c2 then
      readMatch b t fold pat (ebNextc b o).2.1
    else none

/-- With `[Word]`, the characters before `o` and at `e` are not word
characters. -/
def wordOk (b : EditBuffer) (word : Bool) (o e : Int) : Bool :=
  !(word && (qeIsword (ebPrevc b o).1 || qeIsword (ebNextc b e).1))

/-- The pattern matches at `o`, up to the offset returned. -/
def matchAt (b : EditBuffer) (t : CaseTables) (fold word : Bool) (pat : List UInt32) (o : Int) :
    Option Int :=
  (readMatch b t fold pat o).filter (wordOk b word o)

theorem readMatch_cons_of_lt (b : EditBuffer) (t : CaseTables) (fold : Bool) {c2 : UInt32}
    (pat : List UInt32) {o : Int} (ho : o < b.totalSize)
    (hc : charMatches t fold (ebNextc b o).1 c2 = true) :
    readMatch b t fold (c2 :: pat) o = readMatch b t fold pat (ebNextc b o).2.1 := by
  rw [readMatch, if_pos ⟨ho, hc⟩]

theorem readMatch_cons_of_false (b : EditBuffer) (t : CaseTables) (fold : Bool) {c2 : UInt32}
    (pat : List UInt32) {o : Int} (hc : charMatches t fold (ebNextc b o).1 c2 = false) :
    readMatch b t fold (c2 :: pat) o = none := by
  rw [readMatch, if_neg (by simp [hc])]

theorem readMatch_cons_of_ge (b : EditBuffer) (t : CaseTables) (fold : Bool) (c2 : UInt32)
    (pat : List UInt32) {o : Int} (ho : (b.totalSize : Int) ≤ o) :
    readMatch b t fold (c2 :: pat) o = none := by
  rw [readMatch, if_neg (fun h => by omega)]

/-- Case folding is in effect: `[Folding]`, or the smart case with a lower
case letter in the pattern and no upper case one. -/
def foldsCase (t : CaseTables) (flags : Nat) (pat : List UInt32) : Bool :=
  if flags &&& SEARCH_FLAG_CASE_MASK = SEARCH_FLAG_SMARTCASE then
    pat.any (qeIswlower t) && !pat.any (qeIswupper t)
  else hasFlag flags SEARCH_FLAG_IGNORECASE

/-- The character boundary `k` steps of `eb_nextc` after `start`. -/
def fwdBoundary (b : EditBuffer) (start : Int) : Nat → Int
  | 0 => start
  | k + 1 => (ebNextc b (fwdBoundary b start k)).2.1

/-- The character boundary `k` steps of `eb_prev` before `start`. -/
def bwdBoundary (b : EditBuffer) (start : Int) : Nat → Int
  | 0 => start
  | k + 1 => (ebPrevc b (bwdBoundary b start k)).2.1

/-! ## The boundaries

Forward the boundaries grow while they are inside the buffer, and stay at
`total_size` past it; backward they shrink while above 0 and stay at 0. -/

/-- `eb_nextc` at or past the end returns `total_size`. -/
theorem ebNextc_of_ge (b : EditBuffer) {o : Int} (ho : (b.totalSize : Int) ≤ o) :
    (ebNextc b o).2.1 = b.totalSize := by
  have hr : ebReadOneByte b o = (-1, b) := by simp [ebReadOneByte, ho]
  simp only [ebNextc, hr]
  simp
  omega

/-- `eb_prevc` at or before the start returns 0. -/
theorem ebPrevc_of_nonpos (b : EditBuffer) {o : Int} (ho : o ≤ 0) : (ebPrevc b o).2.1 = 0 := by
  simp [ebPrevc, ho]

/-- The UTF-8 walk back over trailing bytes stays at or above 0 and below where it starts. -/
theorem prevcCollect_offset (b : EditBuffer) :
    ∀ (room : Nat) (offset : Int) (ch : UInt8) (q : List UInt8), 0 ≤ offset →
      0 ≤ (prevcCollect b room offset ch q).1 ∧ (prevcCollect b room offset ch q).1 ≤ offset
  | 0, offset, _, _, h0 => ⟨h0, le_refl _⟩
  | room + 1, offset, ch, q, h0 => by
    unfold prevcCollect
    split
    · cases hr : ebReadOneByte b (offset - 1) with
      | mk c b' =>
        have := prevcCollect_offset b' room (offset - 1) (UInt8.ofInt c) (UInt8.ofInt c :: q)
          (by omega)
        dsimp only
        omega
    · exact ⟨h0, le_refl _⟩

theorem prevcUtf8_offset (b : EditBuffer) {o : Int} (ho : 0 < o) :
    0 ≤ (prevcUtf8 b o).2.1 ∧ (prevcUtf8 b o).2.1 < o := by
  unfold prevcUtf8
  dsimp only
  generalize ebReadOneByte b (o - 1) = r
  split
  · have hc := prevcCollect_offset r.2 (MAX_CHAR_BYTES - 1) (o - 1) (UInt8.ofInt r.1)
      [UInt8.ofInt r.1, 0] (by omega)
    generalize prevcCollect r.2 (MAX_CHAR_BYTES - 1) (o - 1) (UInt8.ofInt r.1) [UInt8.ofInt r.1, 0]
      = p at hc ⊢
    -- a decoded sequence starts where the walk stopped, a decoding error at the last byte
    split <;> dsimp only <;> split <;> (dsimp only; omega)
  · dsimp only
    omega

/-- `eb_prev` steps back by whole characters from `o`: the buffer is in UTF-8, whose branch
walks back over trailing bytes, or the size of its fixed width characters divides `o`. -/
def PrevAligned (b : EditBuffer) (o : Int) : Prop :=
  b.charset.name = charset_utf8.name ∨
    (0 < b.charsetState.charSize ∧ (b.charsetState.charSize : Int) ∣ o)

/-- From an aligned offset above 0, `eb_prevc` moves down to an aligned offset at or above
0. The fixed width branch steps back `char_size` bytes, and the DOS end of line as many
again; from an offset `char_size` does not divide it can step below 0. -/
theorem ebPrevc_aligned (b : EditBuffer) {o : Int} (ho : 0 < o) (h : PrevAligned b o) :
    0 ≤ (ebPrevc b o).2.1 ∧ (ebPrevc b o).2.1 < o ∧ PrevAligned b (ebPrevc b o).2.1 := by
  unfold ebPrevc
  rw [if_neg (by omega)]
  by_cases hu : b.charset.name = charset_utf8.name
  · rw [if_pos hu]
    have hr := prevcUtf8_offset b ho
    generalize prevcUtf8 b o = r at hr ⊢
    dsimp only
    repeat' split
    all_goals dsimp only
    all_goals exact ⟨by omega, by omega, .inl hu⟩
  · rw [if_neg hu]
    obtain ⟨hcs, hdvd⟩ := h.resolve_left hu
    have hle : (b.charsetState.charSize : Int) ≤ o := Int.le_of_dvd ho hdvd
    have hstep := hdvd.sub (dvd_refl _)
    dsimp only
    repeat' split
    all_goals dsimp only
    -- one character back, or two for a DOS line end
    all_goals first
      | exact ⟨by omega, by omega, .inr ⟨hcs, hstep⟩⟩
      | exact ⟨by omega, by omega, .inr ⟨hcs, hstep.sub (dvd_refl _)⟩⟩

section Boundaries

variable {B : EditBuffer} {start : Int}

/-- From a boundary `k` inside the buffer, every later one is at or past it,
or at `total_size`. -/
theorem fwdBoundary_ge (hnext : ∀ o : Int, 0 ≤ o → o < B.totalSize → o < (ebNextc B o).2.1)
    {k : Nat} (h0 : 0 ≤ fwdBoundary B start k) :
    ∀ i, k ≤ i → min (fwdBoundary B start k) B.totalSize ≤ fwdBoundary B start i := by
  intro i hi
  obtain ⟨d, rfl⟩ := Nat.exists_eq_add_of_le hi
  induction d with
  | zero => exact Int.min_le_left _ _
  | succ d ih =>
    show _ ≤ (ebNextc B (fwdBoundary B start (k + d))).2.1
    have ih := ih (by omega)
    by_cases hlt : fwdBoundary B start (k + d) < B.totalSize
    · have := hnext _ (by omega) hlt
      omega
    · rw [ebNextc_of_ge B (by omega)]
      omega

/-- After a boundary inside the buffer, every later one is past it. -/
theorem fwdBoundary_lt (hnext : ∀ o : Int, 0 ≤ o → o < B.totalSize → o < (ebNextc B o).2.1)
    {k : Nat} (h0 : 0 ≤ fwdBoundary B start k) (hk : fwdBoundary B start k < B.totalSize) :
    ∀ i, k < i → fwdBoundary B start k < fwdBoundary B start i := by
  intro i hi
  have hstep : fwdBoundary B start k < fwdBoundary B start (k + 1) := hnext _ h0 hk
  have := fwdBoundary_ge hnext (show 0 ≤ fwdBoundary B start (k + 1) by omega) i hi
  omega

/-- From an aligned start every boundary `eb_prev` reaches is at or above 0 and aligned:
induction on the steps, each by `ebPrevc_aligned`, and 0 once a boundary reaches it. -/
theorem bwdBoundary_aligned (h0 : 0 ≤ start) (ha : PrevAligned B start) :
    ∀ k, 0 ≤ bwdBoundary B start k ∧ PrevAligned B (bwdBoundary B start k)
  | 0 => ⟨h0, ha⟩
  | k + 1 => by
    obtain ⟨hk0, hka⟩ := bwdBoundary_aligned h0 ha k
    show 0 ≤ (ebPrevc B (bwdBoundary B start k)).2.1 ∧
      PrevAligned B (ebPrevc B (bwdBoundary B start k)).2.1
    by_cases hk : 0 < bwdBoundary B start k
    · obtain ⟨h1, -, h2⟩ := ebPrevc_aligned B hk hka
      exact ⟨h1, h2⟩
    · rw [ebPrevc_of_nonpos B (by omega)]
      exact ⟨le_refl 0, hka.imp id fun ⟨hc, _⟩ => ⟨hc, dvd_zero _⟩⟩

/-- From an aligned start, `eb_prev` moves down and stays at or above 0 from every boundary
above 0. -/
theorem bwdBoundary_prev_of_aligned (h0 : 0 ≤ start) (ha : PrevAligned B start) (k : Nat)
    (hk : 0 < bwdBoundary B start k) :
    0 ≤ bwdBoundary B start (k + 1) ∧ bwdBoundary B start (k + 1) < bwdBoundary B start k :=
  have hstep := ebPrevc_aligned B hk (bwdBoundary_aligned h0 ha k).2
  ⟨hstep.1, hstep.2.1⟩

variable (hprev : ∀ k, 0 < bwdBoundary B start k →
  0 ≤ bwdBoundary B start (k + 1) ∧ bwdBoundary B start (k + 1) < bwdBoundary B start k)
include hprev

theorem bwdBoundary_nonneg (h0 : 0 ≤ start) : ∀ k, 0 ≤ bwdBoundary B start k
  | 0 => h0
  | k + 1 => by
    by_cases hk : 0 < bwdBoundary B start k
    · exact (hprev k hk).1
    · show 0 ≤ (ebPrevc B (bwdBoundary B start k)).2.1
      have h := ebPrevc_of_nonpos B (show bwdBoundary B start k ≤ 0 by omega)
      omega

/-- Every boundary after `k` is at or below it. -/
theorem bwdBoundary_le (h0 : 0 ≤ start) {k : Nat} :
    ∀ i, k ≤ i → bwdBoundary B start i ≤ bwdBoundary B start k := by
  intro i hi
  obtain ⟨d, rfl⟩ := Nat.exists_eq_add_of_le hi
  induction d with
  | zero => exact Int.le_refl _
  | succ d ih =>
    have ih := ih (by omega)
    show bwdBoundary B start (k + d + 1) ≤ _
    by_cases hk : 0 < bwdBoundary B start (k + d)
    · have := hprev (k + d) hk
      omega
    · show (ebPrevc B (bwdBoundary B start (k + d))).2.1 ≤ _
      rw [ebPrevc_of_nonpos B (by omega)]
      exact bwdBoundary_nonneg hprev h0 k

/-- Down to a boundary whose predecessors are all above 0, each is below the
one before. -/
theorem bwdBoundary_lt_of_pos {k : Nat} (hpos : ∀ j < k, 0 < bwdBoundary B start j) :
    ∀ i, i < k → bwdBoundary B start k < bwdBoundary B start i := by
  induction k with
  | zero => intro i hi; omega
  | succ k ih =>
    intro i hi
    have hk := hprev k (hpos k (by omega))
    by_cases hik : i = k
    · subst hik
      exact hk.2
    · have := ih (fun j hj => hpos j (by omega)) i (by omega)
      omega

end Boundaries

section Nearest

variable (b : EditBuffer) (t : CaseTables) (fold word : Bool) (pat : List UInt32)

/-- The forward search's answer: `o` is the smallest character boundary in
`[start, endOffset)` where the pattern matches, up to `e`. -/
def NearestForward (start endOffset o e : Int) : Prop :=
  (∃ k, fwdBoundary b start k = o) ∧ start ≤ o ∧ o < endOffset ∧
    matchAt b t fold word pat o = some e ∧
    ∀ k, start ≤ fwdBoundary b start k → fwdBoundary b start k < o →
      matchAt b t fold word pat (fwdBoundary b start k) = none

/-- The backward search's answer: `o` is the largest character boundary
before `start` where the pattern matches up to `e ≤ start`. -/
def NearestBackward (start o e : Int) : Prop :=
  (∃ k, bwdBoundary b start k = o) ∧ o < start ∧ matchAt b t fold word pat o = some e ∧
    e ≤ start ∧
    ∀ k e', o < bwdBoundary b start k → bwdBoundary b start k < start →
      matchAt b t fold word pat (bwdBoundary b start k) = some e' → start < e'

/-- What the forward loop answers: the first boundary before `endOffset` at
which the pattern matches, every boundary before it having no match; or `0`
at the first boundary at or past `endOffset`. -/
def ForwardOutcome (start endOffset : Int) (r : Int × Int × Int) : Prop :=
  ∃ k, (∀ j < k, fwdBoundary b start j < endOffset ∧
      matchAt b t fold word pat (fwdBoundary b start j) = none) ∧
    ((fwdBoundary b start k < endOffset ∧ ∃ e,
        matchAt b t fold word pat (fwdBoundary b start k) = some e ∧
          r = (1, fwdBoundary b start k, e)) ∨
      (endOffset ≤ fwdBoundary b start k ∧ r = (0, -1, -1)))

/-- What the backward loop answers: the first boundary below `start` at which
the pattern matches up to `start` at most, every boundary passed before it
being above 0 and having no such match; or `0` once a boundary is 0. -/
def BackwardOutcome (start : Int) (r : Int × Int × Int) : Prop :=
  ∃ k, (∀ j < k, bwdBoundary b start j ≠ 0 ∧
      ∀ e, matchAt b t fold word pat (bwdBoundary b start (j + 1)) = some e → start < e) ∧
    ((bwdBoundary b start k ≠ 0 ∧ ∃ e,
        matchAt b t fold word pat (bwdBoundary b start (k + 1)) = some e ∧ e ≤ start ∧
          r = (1, bwdBoundary b start (k + 1), e)) ∨
      (bwdBoundary b start k = 0 ∧ r = (0, -1, -1)))

end Nearest

/-! ## One turn of each loop

Each loop turn read on a buffer that reads as `B` does: what it decides,
stated with `B`'s characters, and a buffer that still reads as `B`. -/

section Turns

variable {B b : EditBuffer} (dir startOffset endOffset : Int) (buf : List UInt32)
  (t : CaseTables) (flags : Nat)

theorem charMatches_eq_false_iff (fold : Bool) (c c2 : UInt32) :
    charMatches t fold c c2 = false ↔
      (c ≠ c2 ∧ (!fold || decide (qeWtoupper t c ≠ qeWtoupper t c2)) = true) := by
  cases fold <;> simp [charMatches]

/-- The word boundary test of the plain search: at most an `eb_prevc` and an
`eb_nextc`, which read what `B` holds. -/
theorem wordEdge_read (h : B.SameText b) (q : Prop) [Decidable q] (word : Bool)
    (offset offset2 : Int) :
    ∃ b₁, B.SameText b₁ ∧
      (if q ∧ word = true then
        if qeIsword (ebPrevc b offset).1 = true then (true, (ebPrevc b offset).2.2)
        else (qeIsword (ebNextc (ebPrevc b offset).2.2 offset2).1,
          (ebNextc (ebPrevc b offset).2.2 offset2).2.2)
      else (false, b)) = (decide (q ∧ wordOk B word offset offset2 = false), b₁) := by
  obtain ⟨b₁, e₁, h₁⟩ := ebPrevc_trace h offset _ _ ⟨rfl, rfl⟩
  obtain ⟨b₂, e₂, h₂⟩ := ebNextc_trace h₁ offset2 _ _ ⟨rfl, rfl⟩
  rw [e₁]
  dsimp only
  rw [e₂]
  by_cases hq : q ∧ word = true
  · by_cases hw : qeIsword (ebPrevc B offset).1 = true
    · exact ⟨b₁, h₁, by simp [hq, hw, wordOk]⟩
    · exact ⟨b₂, h₂, by simp [hq, hw, wordOk]⟩
  · refine ⟨b, h, ?_⟩
    rw [if_neg hq]
    cases word <;> simp_all [wordOk]

theorem matchLoop_succ (h : B.SameText b) (offset : Int) (fuel : Nat) (c : UInt32) (pos : Nat)
    (offset2 : Int) :
    ∃ b', B.SameText b' ∧
      matchLoop dir startOffset buf t flags B.totalSize offset (fuel + 1) b c pos offset2 =
        if charMatches t (hasFlag flags SEARCH_FLAG_IGNORECASE) c (buf.getD pos 0) = false then
          some (none, b')
        else if buf.length ≤ pos + 1 ∧
            wordOk B (hasFlag flags SEARCH_FLAG_WORD) offset offset2 = false then some (none, b')
        else if buf.length ≤ pos + 1 ∧ (0 ≤ dir ∨ offset2 ≤ startOffset) then
          some (some offset2, b')
        else if (B.totalSize : Int) ≤ offset2 then some (none, b')
        else matchLoop dir startOffset buf t flags B.totalSize offset fuel b'
          (ebNextc B offset2).1 (pos + 1) (ebNextc B offset2).2.1 := by
  rw [matchLoop]
  dsimp only
  obtain ⟨b₁, h₁, hw⟩ := wordEdge_read h (buf.length ≤ pos + 1)
    (hasFlag flags SEARCH_FLAG_WORD) offset offset2
  rw [hw]
  dsimp only
  obtain ⟨b₂, e₂, h₂⟩ := ebNextc_trace h₁ offset2 _ _ ⟨rfl, rfl⟩
  rw [e₂]
  dsimp only
  simp only [← charMatches_eq_false_iff, decide_eq_true_eq]
  -- the buffer returned is the one of the branch taken
  by_cases hm : charMatches t (hasFlag flags SEARCH_FLAG_IGNORECASE) c (buf.getD pos 0) = false
  · exact ⟨b, h, by simp only [hm, ↓reduceIte]⟩
  by_cases hwd : buf.length ≤ pos + 1 ∧ wordOk B (hasFlag flags SEARCH_FLAG_WORD) offset offset2 = false
  · exact ⟨b₁, h₁, by simp only [hm, hwd, Bool.true_eq_false, and_self, ↓reduceIte]⟩
  by_cases hf : buf.length ≤ pos + 1 ∧ (0 ≤ dir ∨ offset2 ≤ startOffset)
  · exact ⟨b₁, h₁, by simp only [hm, hf, Bool.true_eq_false, and_self, ↓reduceIte]⟩
  by_cases he : (B.totalSize : Int) ≤ offset2
  · exact ⟨b₁, h₁, by simp only [hm, hwd, hf, he, Bool.true_eq_false, ↓reduceIte]⟩
  · exact ⟨b₂, h₂, by simp only [hm, hwd, hf, he, Bool.true_eq_false, ↓reduceIte]⟩

theorem plainLoop_succ_forward (hdir : 0 ≤ dir) (h : B.SameText b) (fuel : Nat)
    (offset offset1 : Int) :
    ∃ b', B.SameText b' ∧
      plainLoop dir startOffset endOffset buf false t flags B.totalSize (fuel + 1) b offset offset1 =
        if endOffset ≤ offset1 then some (0, -1, -1, b')
        else
          match matchLoop dir startOffset buf t flags B.totalSize offset1 fuel b'
              (ebNextc B offset1).1 0 (ebNextc B offset1).2.1 with
          | none => none
          | some (some offset2, b) => some (1, offset1, offset2, b)
          | some (none, b) =>
            plainLoop dir startOffset endOffset buf false t flags B.totalSize fuel b offset1
              (ebNextc B offset1).2.1 := by
  rw [plainLoop]
  dsimp only
  have hneg : ¬ dir < 0 := Int.not_lt.mpr hdir
  by_cases he : endOffset ≤ offset1
  · exact ⟨b, h, by simp only [hneg, he, ↓reduceIte]⟩
  · obtain ⟨b₁, e₁, h₁⟩ := ebNextc_trace h offset1 _ _ ⟨rfl, rfl⟩
    refine ⟨b₁, h₁, ?_⟩
    simp only [hneg, he, ↓reduceIte, abortHere, Bool.false_and, Bool.false_eq_true, e₁]
    -- built as a module, the definition and this lemma match on the comparison with matchers
    -- of their own, which agree once unfolded; where both are elaborated in one file they
    -- share one matcher and `simp` has already closed the goal
    try rfl

theorem plainLoop_succ_backward (hdir : dir < 0) (h : B.SameText b) (fuel : Nat)
    (offset offset1 : Int) :
    ∃ b', B.SameText b' ∧
      plainLoop dir startOffset endOffset buf false t flags B.totalSize (fuel + 1) b offset offset1 =
        if offset = 0 then some (0, -1, -1, b')
        else
          match matchLoop dir startOffset buf t flags B.totalSize (ebPrevc B offset).2.1 fuel b'
              (ebNextc B (ebPrevc B offset).2.1).1 0 (ebNextc B (ebPrevc B offset).2.1).2.1 with
          | none => none
          | some (some offset2, b) => some (1, (ebPrevc B offset).2.1, offset2, b)
          | some (none, b) =>
            plainLoop dir startOffset endOffset buf false t flags B.totalSize fuel b
              (ebPrevc B offset).2.1 (ebNextc B (ebPrevc B offset).2.1).2.1 := by
  rw [plainLoop]
  dsimp only
  by_cases h0 : offset = 0
  · exact ⟨b, h, by simp only [hdir, h0, ↓reduceIte]⟩
  · obtain ⟨b₁, e₁, h₁⟩ := ebPrevc_trace h offset _ _ ⟨rfl, rfl⟩
    obtain ⟨b₂, e₂, h₂⟩ := ebNextc_trace h₁ (ebPrevc B offset).2.1 _ _ ⟨rfl, rfl⟩
    refine ⟨b₂, h₂, ?_⟩
    simp only [hdir, h0, ↓reduceIte, e₁, abortHere, Bool.false_and, Bool.false_eq_true, e₂]
    -- the matchers of the definition and of this lemma, as in `plainLoop_succ_forward`
    try rfl

end Turns

/-! ## Whole comparisons

The comparison loop of one offset, from a character read at `o1`, run to its
end: what `readMatch` and the word test say, kept when the match ends at or
before `start_offset` going backward. Backward, a match that ends past it
goes on comparing the characters after it with the array past the pattern,
until a difference or `total_size`. -/

section Runs

variable {B : EditBuffer} {dir startOffset : Int} {buf : List UInt32} {t : CaseTables}
  {flags : Nat}

/-- Past the pattern, going backward, the comparison finds nothing: each turn
moves past `start_offset` or stops. -/
theorem matchLoop_tail (hnext : ∀ o : Int, 0 ≤ o → o < B.totalSize → o < (ebNextc B o).2.1)
    (hdir : dir < 0) (offset : Int) (fuel : Nat) :
    ∀ pos offset2 b c, B.SameText b → buf.length ≤ pos → startOffset < offset2 → 0 ≤ offset2 →
      (B.totalSize - offset2).toNat + 1 ≤ fuel →
      ∃ b', B.SameText b' ∧
        matchLoop dir startOffset buf t flags B.totalSize offset fuel b c pos offset2 =
          some (none, b') := by
  induction fuel with
  | zero => intro pos offset2 b c _ _ _ _ hf; omega
  | succ fuel ih =>
    intro pos offset2 b c h hpos hs h0 hf
    obtain ⟨b', h', e⟩ := matchLoop_succ dir startOffset buf t flags h offset fuel c pos offset2
    rw [e]
    by_cases hm : charMatches t (hasFlag flags SEARCH_FLAG_IGNORECASE) c (buf.getD pos 0) = false
    · exact ⟨b', h', by rw [if_pos hm]⟩
    rw [if_neg hm]
    by_cases hw : buf.length ≤ pos + 1 ∧
        wordOk B (hasFlag flags SEARCH_FLAG_WORD) offset offset2 = false
    · exact ⟨b', h', by rw [if_pos hw]⟩
    rw [if_neg hw, if_neg (by omega)]
    by_cases he : (B.totalSize : Int) ≤ offset2
    · exact ⟨b', h', by rw [if_pos he]⟩
    rw [if_neg he]
    have hlt := hnext offset2 h0 (by omega)
    exact ih (pos + 1) _ b' _ h' (by omega) (by omega) (by omega) (by omega)

/-- The comparison of one offset run to its end, given the fuel for the
pattern and for the tail after it. -/
theorem matchLoop_run (hnext : ∀ o : Int, 0 ≤ o → o < B.totalSize → o < (ebNextc B o).2.1)
    (offset : Int) (fuel : Nat) :
    ∀ pos (o1 : Int) b, B.SameText b → pos < buf.length → 0 ≤ o1 → o1 < B.totalSize →
      buf.length - pos + B.totalSize + 1 ≤ fuel →
      ∃ b', B.SameText b' ∧
        matchLoop dir startOffset buf t flags B.totalSize offset fuel b (ebNextc B o1).1 pos
            (ebNextc B o1).2.1 =
          some ((readMatch B t (hasFlag flags SEARCH_FLAG_IGNORECASE) (buf.drop pos) o1).filter
            (fun e => wordOk B (hasFlag flags SEARCH_FLAG_WORD) offset e &&
              decide (0 ≤ dir ∨ e ≤ startOffset)), b') := by
  induction fuel with
  | zero => intro pos o1 b _ _ _ _ hf; omega
  | succ fuel ih =>
    intro pos o1 b h hpos h0 h1 hf
    obtain ⟨b', h', e⟩ := matchLoop_succ dir startOffset buf t flags h offset fuel
      (ebNextc B o1).1 pos (ebNextc B o1).2.1
    rw [e, List.drop_eq_getElem_cons hpos, List.getD_eq_getElem?_getD,
      List.getElem?_eq_getElem hpos, Option.getD_some]
    have hlt := hnext o1 h0 h1
    by_cases hm : charMatches t (hasFlag flags SEARCH_FLAG_IGNORECASE) (ebNextc B o1).1 buf[pos] = false
    · exact ⟨b', h', by rw [if_pos hm, readMatch_cons_of_false _ _ _ _ hm]; rfl⟩
    have hc : charMatches t (hasFlag flags SEARCH_FLAG_IGNORECASE) (ebNextc B o1).1 buf[pos] = true := by
      simpa using hm
    rw [if_neg hm, readMatch_cons_of_lt _ _ _ _ h1 hc]
    by_cases hlast : buf.length ≤ pos + 1
    · -- the last character of the pattern: the match ends here or not at all
      rw [List.drop_eq_nil_of_le hlast, readMatch, Option.filter_some]
      by_cases hw : wordOk B (hasFlag flags SEARCH_FLAG_WORD) offset (ebNextc B o1).2.1 = false
      · exact ⟨b', h', by simp [hlast, hw]⟩
      rw [if_neg (fun h => hw h.2)]
      by_cases hd : 0 ≤ dir ∨ (ebNextc B o1).2.1 ≤ startOffset
      · exact ⟨b', h', by simp [hlast, hw, hd]⟩
      rw [if_neg (fun h => hd h.2)]
      have hr : (wordOk B (hasFlag flags SEARCH_FLAG_WORD) offset (ebNextc B o1).2.1 &&
          decide (0 ≤ dir ∨ (ebNextc B o1).2.1 ≤ startOffset)) = false := by simp [hd]
      rw [hr, if_neg Bool.false_ne_true]
      by_cases he : (B.totalSize : Int) ≤ (ebNextc B o1).2.1
      · exact ⟨b', h', by rw [if_pos he]⟩
      rw [if_neg he]
      -- going backward past `start_offset`: the tail finds nothing
      have hlt' := hnext (ebNextc B o1).2.1 (by omega) (by omega)
      exact matchLoop_tail hnext (by omega) offset fuel (pos + 1) _ b' _ h' (by omega) (by omega)
        (by omega) (by omega)
    · -- more of the pattern to read
      rw [if_neg (fun h => hlast h.1), if_neg (fun h => hlast h.1)]
      by_cases he : (B.totalSize : Int) ≤ (ebNextc B o1).2.1
      · refine ⟨b', h', ?_⟩
        rw [if_pos he, List.drop_eq_getElem_cons (by omega), readMatch_cons_of_ge _ _ _ _ _ he]
        rfl
      rw [if_neg he]
      exact ih (pos + 1) _ b' h' (by omega) (by omega) (by omega) (by omega)

/-- Forward, a comparison is kept when `readMatch` and the word test keep it. -/
theorem matchFilter_forward (hdir : 0 ≤ dir) (o : Int) :
    (readMatch B t (hasFlag flags SEARCH_FLAG_IGNORECASE) (buf.drop 0) o).filter
        (fun e => wordOk B (hasFlag flags SEARCH_FLAG_WORD) o e &&
          decide (0 ≤ dir ∨ e ≤ startOffset)) =
      matchAt B t (hasFlag flags SEARCH_FLAG_IGNORECASE) (hasFlag flags SEARCH_FLAG_WORD) buf o := by
  simp [matchAt, hdir]

/-- Backward, it is kept when besides it ends at or before `start_offset`. -/
theorem matchFilter_backward (hdir : dir < 0) (o : Int) :
    (readMatch B t (hasFlag flags SEARCH_FLAG_IGNORECASE) (buf.drop 0) o).filter
        (fun e => wordOk B (hasFlag flags SEARCH_FLAG_WORD) o e &&
          decide (0 ≤ dir ∨ e ≤ startOffset)) =
      (matchAt B t (hasFlag flags SEARCH_FLAG_IGNORECASE) (hasFlag flags SEARCH_FLAG_WORD) buf o).filter
        (fun e => decide (e ≤ startOffset)) := by
  rw [List.drop_zero, matchAt]
  cases readMatch B t (hasFlag flags SEARCH_FLAG_IGNORECASE) buf o with
  | none => rfl
  | some e =>
    have hd : ¬ 0 ≤ dir := Int.not_le.mpr hdir
    simp [hd]

end Runs

/-! ## Whole searches

The outer loop run to its end from the boundary `k`, with fuel for the
boundaries left and for the comparison at each. -/

section Loops

variable {B : EditBuffer} {dir startOffset endOffset : Int} {buf : List UInt32} {t : CaseTables}
  {flags : Nat}

theorem plainLoop_forward (hnext : ∀ o : Int, 0 ≤ o → o < B.totalSize → o < (ebNextc B o).2.1)
    (hdir : 0 ≤ dir) (hend : endOffset ≤ B.totalSize) (hlen : 0 < buf.length) (fuel : Nat) :
    ∀ k b offset, B.SameText b → 0 ≤ fwdBoundary B startOffset k →
      (∀ j < k, fwdBoundary B startOffset j < endOffset ∧
        matchAt B t (hasFlag flags SEARCH_FLAG_IGNORECASE) (hasFlag flags SEARCH_FLAG_WORD) buf
          (fwdBoundary B startOffset j) = none) →
      (endOffset - fwdBoundary B startOffset k).toNat + buf.length + B.totalSize + 2 ≤ fuel →
      ∃ r, (plainLoop dir startOffset endOffset buf false t flags B.totalSize fuel b offset
          (fwdBoundary B startOffset k)).map searchOutcome = some r ∧
        ForwardOutcome B t (hasFlag flags SEARCH_FLAG_IGNORECASE) (hasFlag flags SEARCH_FLAG_WORD)
          buf startOffset endOffset r := by
  induction fuel with
  | zero => intro k b offset _ _ _ hf; omega
  | succ fuel ih =>
    intro k b offset h h0 hpre hf
    obtain ⟨b', h', e⟩ := plainLoop_succ_forward dir startOffset endOffset buf t flags hdir h fuel
      offset (fwdBoundary B startOffset k)
    rw [e]
    by_cases he : endOffset ≤ fwdBoundary B startOffset k
    · exact ⟨_, by rw [if_pos he]; rfl, k, hpre, .inr ⟨he, rfl⟩⟩
    rw [if_neg he]
    have hlt : fwdBoundary B startOffset k < fwdBoundary B startOffset (k + 1) :=
      hnext _ h0 (by omega)
    obtain ⟨b'', h'', em⟩ := @matchLoop_run B dir startOffset buf t flags hnext
      (fwdBoundary B startOffset k) fuel 0 _ b' h' hlen h0 (by omega) (by omega)
    rw [em, matchFilter_forward hdir]
    cases hm : matchAt B t (hasFlag flags SEARCH_FLAG_IGNORECASE) (hasFlag flags SEARCH_FLAG_WORD)
        buf (fwdBoundary B startOffset k) with
    | some e => exact ⟨_, rfl, k, hpre, .inl ⟨by omega, e, hm, rfl⟩⟩
    | none =>
      -- no match at this boundary: the loop goes on from the next one
      have hpre' : ∀ j < k + 1, fwdBoundary B startOffset j < endOffset ∧
          matchAt B t (hasFlag flags SEARCH_FLAG_IGNORECASE) (hasFlag flags SEARCH_FLAG_WORD) buf
            (fwdBoundary B startOffset j) = none := by
        intro j hj
        by_cases hjk : j < k
        · exact hpre j hjk
        · obtain rfl : j = k := by omega
          exact ⟨by omega, hm⟩
      exact ih (k + 1) b'' _ h'' (by omega) hpre' (by omega)

theorem plainLoop_backward (hnext : ∀ o : Int, 0 ≤ o → o < B.totalSize → o < (ebNextc B o).2.1)
    (hprev : ∀ k, 0 < bwdBoundary B startOffset k → 0 ≤ bwdBoundary B startOffset (k + 1) ∧
      bwdBoundary B startOffset (k + 1) < bwdBoundary B startOffset k)
    (hdir : dir < 0) (hlen : 0 < buf.length) (fuel : Nat) :
    ∀ k b offset1, B.SameText b → 0 ≤ bwdBoundary B startOffset k →
      bwdBoundary B startOffset k ≤ B.totalSize →
      (∀ j < k, bwdBoundary B startOffset j ≠ 0 ∧
        ∀ e, matchAt B t (hasFlag flags SEARCH_FLAG_IGNORECASE) (hasFlag flags SEARCH_FLAG_WORD) buf
          (bwdBoundary B startOffset (j + 1)) = some e → startOffset < e) →
      (bwdBoundary B startOffset k).toNat + buf.length + B.totalSize + 2 ≤ fuel →
      ∃ r, (plainLoop dir startOffset endOffset buf false t flags B.totalSize fuel b
          (bwdBoundary B startOffset k) offset1).map searchOutcome = some r ∧
        BackwardOutcome B t (hasFlag flags SEARCH_FLAG_IGNORECASE) (hasFlag flags SEARCH_FLAG_WORD)
          buf startOffset r := by
  induction fuel with
  | zero => intro k b offset1 _ _ _ _ hf; omega
  | succ fuel ih =>
    intro k b offset1 h h0 h1 hpre hf
    obtain ⟨b', h', e⟩ := plainLoop_succ_backward dir startOffset endOffset buf t flags hdir h fuel
      (bwdBoundary B startOffset k) offset1
    rw [e]
    by_cases hz : bwdBoundary B startOffset k = 0
    · exact ⟨_, by rw [if_pos hz]; rfl, k, hpre, .inr ⟨hz, rfl⟩⟩
    rw [if_neg hz]
    have hk := hprev k (by omega)
    obtain ⟨b'', h'', em⟩ := @matchLoop_run B dir startOffset buf t flags hnext
      (bwdBoundary B startOffset (k + 1)) fuel 0 _ b' h' hlen hk.1 (by omega) (by omega)
    rw [show (ebPrevc B (bwdBoundary B startOffset k)).2.1 = bwdBoundary B startOffset (k + 1) from rfl,
      em, matchFilter_backward hdir]
    -- a match kept ends at or before `start_offset`; any other lets the loop go on
    cases hm : matchAt B t (hasFlag flags SEARCH_FLAG_IGNORECASE) (hasFlag flags SEARCH_FLAG_WORD)
        buf (bwdBoundary B startOffset (k + 1)) with
    | some e =>
      by_cases hs : e ≤ startOffset
      · rw [Option.filter_some, if_pos (decide_eq_true hs)]
        exact ⟨_, rfl, k, hpre, .inl ⟨hz, e, hm, hs, rfl⟩⟩
      · rw [Option.filter_some, if_neg (by simpa using hs)]
        have hpre' : ∀ j < k + 1, bwdBoundary B startOffset j ≠ 0 ∧
            ∀ e', matchAt B t (hasFlag flags SEARCH_FLAG_IGNORECASE) (hasFlag flags SEARCH_FLAG_WORD)
              buf (bwdBoundary B startOffset (j + 1)) = some e' → startOffset < e' := by
          intro j hj
          by_cases hjk : j < k
          · exact hpre j hjk
          · obtain rfl : j = k := by omega
            refine ⟨hz, fun e' he' => ?_⟩
            rw [hm] at he'
            cases he'
            omega
        exact ih (k + 1) b'' _ h'' hk.1 (by omega) hpre' (by omega)
    | none =>
      have hpre' : ∀ j < k + 1, bwdBoundary B startOffset j ≠ 0 ∧
          ∀ e', matchAt B t (hasFlag flags SEARCH_FLAG_IGNORECASE) (hasFlag flags SEARCH_FLAG_WORD)
            buf (bwdBoundary B startOffset (j + 1)) = some e' → startOffset < e' := by
        intro j hj
        by_cases hjk : j < k
        · exact hpre j hjk
        · obtain rfl : j = k := by omega
          exact ⟨hz, fun e' he' => by rw [hm] at he'; cases he'⟩
      exact ih (k + 1) b'' _ h'' hk.1 (by omega) hpre' (by omega)

end Loops

/-! ## The loops' answers are the nearest matches -/

/-- An answer `(1, o, e)` for the one `(o, e)` that satisfies `N`, or `0` when
none does, is the answer that says "1 iff `N`, 0 otherwise". -/
theorem answer_iff {N : Int → Int → Prop} {r : Int × Int × Int}
    (h : (∃ o e, N o e ∧ (∀ o' e', N o' e' → o' = o ∧ e' = e) ∧ r = (1, o, e)) ∨
      ((∀ o e, ¬ N o e) ∧ r = (0, -1, -1))) :
    (∀ o e, r = (1, o, e) ↔ N o e) ∧ (r = (0, -1, -1) ↔ ∀ o e, ¬ N o e) := by
  rcases h with ⟨o, e, hN, huniq, rfl⟩ | ⟨hno, rfl⟩
  · constructor
    · intro o' e'
      constructor
      · intro h'
        simp only [Prod.mk.injEq] at h'
        obtain ⟨-, rfl, rfl⟩ := h'
        exact hN
      · intro h'
        obtain ⟨rfl, rfl⟩ := huniq o' e' h'
        rfl
    · constructor
      · intro h'
        simp at h'
      · intro hall
        exact (hall o e hN).elim
  · constructor
    · intro o e
      constructor
      · intro h'
        simp at h'
      · intro h'
        exact (hno o e h').elim
    · exact ⟨fun _ => hno, fun _ => rfl⟩

section Answers

variable {B : EditBuffer} {t : CaseTables} {fold word : Bool} {pat : List UInt32} {start : Int}

theorem matchAt_of_ge (hpat : pat ≠ []) {o : Int} (ho : (B.totalSize : Int) ≤ o) :
    matchAt B t fold word pat o = none := by
  cases pat with
  | nil => contradiction
  | cons c2 pat => rw [matchAt, readMatch_cons_of_ge B t fold c2 pat ho]; rfl

/-- The forward loop's answer is the nearest match in `[start, endOffset)`:
the loop stops at `end'`, which is `endOffset` or `total_size`, and past
`total_size` nothing matches. -/
theorem ForwardOutcome.nearest (hnext : ∀ o : Int, 0 ≤ o → o < B.totalSize → o < (ebNextc B o).2.1)
    (hpat : pat ≠ []) (h0 : 0 ≤ start) {endOffset end' : Int} (hle : end' ≤ endOffset)
    (hlt : end' ≤ B.totalSize) (hclamp : end' = endOffset ∨ end' = B.totalSize)
    {r : Int × Int × Int} (hr : ForwardOutcome B t fold word pat start end' r) :
    (∃ o e, NearestForward B t fold word pat start endOffset o e ∧
        (∀ o' e', NearestForward B t fold word pat start endOffset o' e' → o' = o ∧ e' = e) ∧
        r = (1, o, e)) ∨
      ((∀ o e, ¬ NearestForward B t fold word pat start endOffset o e) ∧ r = (0, -1, -1)) := by
  obtain ⟨k, hpre, ⟨hk, e, hm, rfl⟩ | ⟨hk, rfl⟩⟩ := hr
  all_goals
    have hge : ∀ i, min start B.totalSize ≤ fwdBoundary B start i :=
      fun i => fwdBoundary_ge hnext (show 0 ≤ fwdBoundary B start 0 from h0) i (Nat.zero_le i)
  · -- the loop stopped at a match: every boundary before it has none, every one after is past it
    have hk0 : 0 ≤ fwdBoundary B start k := by have := hge k; omega
    have hafter := fwdBoundary_lt hnext hk0 (by omega)
    have hbefore : ∀ i, fwdBoundary B start i < fwdBoundary B start k →
        matchAt B t fold word pat (fwdBoundary B start i) = none := by
      intro i hi
      by_cases hik : i < k
      · exact (hpre i hik).2
      · by_cases hki : k < i
        · have := hafter i hki; omega
        · obtain rfl : i = k := by omega
          omega
    have hnear : NearestForward B t fold word pat start endOffset (fwdBoundary B start k) e :=
      ⟨⟨k, rfl⟩, by have := hge k; omega, by omega, hm, fun i _ hi => hbefore i hi⟩
    refine .inl ⟨_, e, hnear, fun o' e' ⟨⟨i, hi⟩, hs, _, hm', hmin⟩ => ?_, rfl⟩
    subst hi
    -- neither can be before the other
    have hle' : fwdBoundary B start i ≤ fwdBoundary B start k := by
      by_cases hlt' : fwdBoundary B start k < fwdBoundary B start i
      · have := hmin k (by have := hge k; omega) hlt'
        rw [hm] at this
        cases this
      · omega
    have heq : fwdBoundary B start i = fwdBoundary B start k := by
      by_cases hlt' : fwdBoundary B start i < fwdBoundary B start k
      · rw [hbefore i hlt'] at hm'
        cases hm'
      · omega
    rw [heq, hm] at hm'
    cases hm'
    exact ⟨heq, rfl⟩
  · -- the loop stopped past `end'`: a boundary before it has no match, one after is past `end'`
    refine .inr ⟨fun o e' ⟨⟨i, hi⟩, _, hlo, hm', _⟩ => ?_, rfl⟩
    subst hi
    by_cases hik : i < k
    · rw [(hpre i hik).2] at hm'
      cases hm'
    · have hk0 : 0 ≤ fwdBoundary B start k := by have := hge k; omega
      have := fwdBoundary_ge hnext hk0 i (by omega)
      by_cases htot : (B.totalSize : Int) ≤ fwdBoundary B start i
      · rw [matchAt_of_ge hpat htot] at hm'
        cases hm'
      · omega

/-- The backward loop's answer is the nearest match before `start`: the
boundaries it passed are above the one it stops at, and those after it are at
or below it. -/
theorem BackwardOutcome.nearest (hprev : ∀ k, 0 < bwdBoundary B start k →
      0 ≤ bwdBoundary B start (k + 1) ∧ bwdBoundary B start (k + 1) < bwdBoundary B start k)
    (h0 : 0 ≤ start) {r : Int × Int × Int} (hr : BackwardOutcome B t fold word pat start r) :
    (∃ o e, NearestBackward B t fold word pat start o e ∧
        (∀ o' e', NearestBackward B t fold word pat start o' e' → o' = o ∧ e' = e) ∧
        r = (1, o, e)) ∨
      ((∀ o e, ¬ NearestBackward B t fold word pat start o e) ∧ r = (0, -1, -1)) := by
  have hnn := bwdBoundary_nonneg hprev h0
  obtain ⟨k, hpre, ⟨hk, e, hm, hs, rfl⟩ | ⟨hk, rfl⟩⟩ := hr
  · -- the loop stopped at a match: the boundaries passed are above it
    have hpos : ∀ j < k + 1, 0 < bwdBoundary B start j := by
      intro j hj
      have := hnn j
      by_cases hjk : j < k
      · have := (hpre j hjk).1
        omega
      · obtain rfl : j = k := by omega
        omega
    have hbelow := bwdBoundary_lt_of_pos hprev hpos
    have hbetween : ∀ i e', bwdBoundary B start (k + 1) < bwdBoundary B start i →
        bwdBoundary B start i < start →
        matchAt B t fold word pat (bwdBoundary B start i) = some e' → start < e' := by
      intro i e' hlo hhi hm'
      have hi : i < k + 1 := by
        by_cases hki : k + 1 ≤ i
        · have := bwdBoundary_le hprev h0 i hki
          omega
        · omega
      cases i with
      | zero => exact absurd hhi (Int.lt_irrefl _)
      | succ j => exact (hpre j (by omega)).2 e' hm'
    have hnear : NearestBackward B t fold word pat start (bwdBoundary B start (k + 1)) e :=
      ⟨⟨k + 1, rfl⟩, hbelow 0 (by omega), hm, hs, hbetween⟩
    refine .inl ⟨_, e, hnear, fun o' e' ⟨⟨i, hi⟩, hlt, hm', hs', hmax⟩ => ?_, rfl⟩
    subst hi
    -- neither can be above the other
    have hle' : bwdBoundary B start i ≤ bwdBoundary B start (k + 1) := by
      by_cases hgt : bwdBoundary B start (k + 1) < bwdBoundary B start i
      · have := hbetween i e' hgt hlt hm'
        omega
      · omega
    have heq : bwdBoundary B start i = bwdBoundary B start (k + 1) := by
      by_cases hne : bwdBoundary B start i < bwdBoundary B start (k + 1)
      · have := hmax (k + 1) e hne (hbelow 0 (by omega)) hm
        omega
      · omega
    rw [heq, hm] at hm'
    cases hm'
    exact ⟨heq, rfl⟩
  · -- the loop reached 0: a boundary it passed has no match, and past it all are 0
    refine .inr ⟨fun o e' ⟨⟨i, hi⟩, hlt, hm', hs', _⟩ => ?_, rfl⟩
    subst hi
    cases i with
    | zero => exact Int.lt_irrefl _ hlt
    | succ j =>
      by_cases hjk : j < k
      · have := (hpre j hjk).2 e' hm'
        omega
      · have hle0 := bwdBoundary_le hprev h0 (j + 1) (show k ≤ j + 1 by omega)
        have := hnn (j + 1)
        cases k with
        | zero =>
          have hs0 : start = 0 := hk
          omega
        | succ k =>
          have hz : bwdBoundary B start (k + 1) = bwdBoundary B start (j + 1) := by omega
          have := (hpre k (by omega)).2 e' (by rw [hz]; exact hm')
          omega

end Answers

/-! ## The flags of the plain search -/

section Flags

variable (t : CaseTables) (flags : Nat) (pat : List UInt32)

/-- The smart case sets `IGNORECASE` and leaves every other flag. -/
theorem smartCaseFlags_flag {bit : Nat} (h : SEARCH_FLAG_IGNORECASE &&& bit = 0) :
    hasFlag (smartCaseFlags t flags pat) bit = hasFlag flags bit := by
  unfold smartCaseFlags
  dsimp only
  split_ifs
  · simp only [hasFlag, Nat.and_or_distrib_right, h, Nat.or_zero]
  all_goals rfl

/-- The search folds case exactly as `foldsCase` says. -/
theorem smartCaseFlags_fold :
    hasFlag (smartCaseFlags t flags pat) SEARCH_FLAG_IGNORECASE = foldsCase t flags pat := by
  unfold smartCaseFlags foldsCase
  by_cases hs : flags &&& SEARCH_FLAG_CASE_MASK = SEARCH_FLAG_SMARTCASE
  · -- the smart case leaves `IGNORECASE` clear, and sets it on a lower case pattern
    have hclear : flags &&& SEARCH_FLAG_IGNORECASE = 0 := by
      have : flags &&& 1 = (flags &&& 3) &&& 1 := by rw [Nat.and_assoc]; rfl
      exact this.trans (by rw [show flags &&& 3 = 2 from hs]; rfl)
    have hset : (flags ||| SEARCH_FLAG_IGNORECASE) &&& SEARCH_FLAG_IGNORECASE = 1 := by
      rw [Nat.and_or_distrib_right]
      rcases Nat.mod_two_eq_zero_or_one flags with h | h <;> simp [SEARCH_FLAG_IGNORECASE, h]
    rw [if_pos hs, if_pos hs]
    by_cases hl : 0 < (pat.filter (qeIswlower t)).length ∧ (pat.filter (qeIswupper t)).length = 0
    · rw [if_pos hl]
      simp only [List.length_filter_pos_iff, List.length_eq_zero_iff, List.filter_eq_nil_iff] at hl
      simpa [hasFlag, hset] using hl
    · rw [if_neg hl]
      simp only [List.length_filter_pos_iff, List.length_eq_zero_iff, List.filter_eq_nil_iff] at hl
      simp only [hasFlag, hclear, bne_self_eq_false]
      by_cases hlow : ∃ x ∈ pat, qeIswlower t x = true
      · have hup : ∃ x ∈ pat, qeIswupper t x = true := by
          by_contra hno
          exact hl ⟨hlow, fun x hx hu => hno ⟨x, hx, by simpa using hu⟩⟩
        simp [List.any_eq_true, hup]
      · simp [List.any_eq_true, hlow]
  · rw [if_neg hs, if_neg hs]

/-- With neither `[Hex]` nor `[Regex]`, `eb_search` is the loop of the plain
search from `start_offset`, with the smart case decided. -/
theorem ebSearch_eq_plainLoop (re : RegexEngine) (abort : Bool) (fuel : Nat) (b : EditBuffer)
    (dir startOffset endOffset : Int) (hhex : hasFlag flags SEARCH_FLAG_HEX = false)
    (hre : hasFlag flags SEARCH_FLAG_REGEX = false) (hpat : pat ≠ []) :
    ebSearch t re abort fuel b dir flags startOffset endOffset pat =
      plainLoop dir startOffset
        (if (b.totalSize : Int) < (if dir < 0 then startOffset else endOffset) then b.totalSize
          else if dir < 0 then startOffset else endOffset)
        pat abort t (smartCaseFlags t flags pat) b.totalSize fuel b startOffset startOffset := by
  have hlen : pat.length ≠ 0 := by simpa using hpat
  simp only [ebSearch, hlen, ↓reduceIte, smartCaseFlags_flag t flags pat (show
      SEARCH_FLAG_IGNORECASE &&& SEARCH_FLAG_HEX = 0 by rfl), smartCaseFlags_flag t flags pat (show
      SEARCH_FLAG_IGNORECASE &&& SEARCH_FLAG_REGEX = 0 by rfl), hhex, hre, Bool.false_eq_true]

end Flags

/-! ## The plain search finds the nearest match -/

open EditBuffer in
/-- The plain `eb_search`, given the fuel for every boundary and every
comparison, answers 1 with the nearest match and 0 when there is none: going
forward, the smallest character boundary in `[start_offset, end_offset)` at
which the buffer reads the pattern, and going backward the largest one below
`start_offset` whose match ends at or before it. It needs `eb_nextc` to move
forward inside the buffer, and `eb_prev` to step back by whole characters from
`start_offset`: in UTF-8, or in a fixed width charset from a start its character
size divides. -/
theorem ebSearch_plain_nearest (t : CaseTables) (re : RegexEngine) (B : EditBuffer) (hwf : B.WF)
    (flags : Nat) (hhex : hasFlag flags SEARCH_FLAG_HEX = false)
    (hre : hasFlag flags SEARCH_FLAG_REGEX = false) (pat : List UInt32) (hpat : pat ≠ [])
    (start endOffset : Int) (h0 : 0 ≤ start) (h1 : start ≤ B.totalSize)
    (hnext : ∀ o : Int, 0 ≤ o → o < B.totalSize → o < (ebNextc B o).2.1)
    (hal : PrevAligned B start) (fuel : Nat) (hfuel : 2 * B.totalSize + pat.length + 2 ≤ fuel) :
    (∀ o e, (ebSearch t re false fuel B 1 flags start endOffset pat).map searchOutcome =
        some (1, o, e) ↔
      NearestForward B t (foldsCase t flags pat) (hasFlag flags SEARCH_FLAG_WORD) pat start
        endOffset o e) ∧
    ((ebSearch t re false fuel B 1 flags start endOffset pat).map searchOutcome =
        some (0, -1, -1) ↔
      ∀ o e, ¬ NearestForward B t (foldsCase t flags pat) (hasFlag flags SEARCH_FLAG_WORD) pat
        start endOffset o e) ∧
    (∀ o e, (ebSearch t re false fuel B (-1) flags start endOffset pat).map searchOutcome =
        some (1, o, e) ↔
      NearestBackward B t (foldsCase t flags pat) (hasFlag flags SEARCH_FLAG_WORD) pat start o e) ∧
    ((ebSearch t re false fuel B (-1) flags start endOffset pat).map searchOutcome =
        some (0, -1, -1) ↔
      ∀ o e, ¬ NearestBackward B t (foldsCase t flags pat) (hasFlag flags SEARCH_FLAG_WORD) pat
        start o e) := by
  have hlen : 0 < pat.length := List.length_pos_iff.mpr hpat
  have hprev := bwdBoundary_prev_of_aligned h0 hal
  have hfold := smartCaseFlags_fold t flags pat
  have hword := smartCaseFlags_flag t flags pat (show SEARCH_FLAG_IGNORECASE &&& SEARCH_FLAG_WORD = 0 by rfl)
  -- forward, the loop stops at the end clamped to `total_size`
  have hfwd := @plainLoop_forward B 1 start
    (if (B.totalSize : Int) < endOffset then B.totalSize else endOffset) pat t
    (smartCaseFlags t flags pat) hnext (by decide) (by split <;> omega) hlen fuel 0 B start
    (SameText.refl hwf) h0 (fun j hj => absurd hj (Nat.not_lt_zero j))
    (by rw [show fwdBoundary B start 0 = start from rfl]; split <;> omega)
  -- backward, from `start_offset` down
  have hbwd := @plainLoop_backward B (-1) start
    (if (B.totalSize : Int) < start then B.totalSize else start) pat t
    (smartCaseFlags t flags pat) hnext hprev (by decide) hlen fuel 0 B start (SameText.refl hwf)
    h0 h1 (fun j hj => absurd hj (Nat.not_lt_zero j))
    (by rw [show bwdBoundary B start 0 = start from rfl]; omega)
  rw [hfold, hword] at hfwd hbwd
  obtain ⟨rf, hrf, hof⟩ := hfwd
  obtain ⟨rb, hrb, hob⟩ := hbwd
  rw [show fwdBoundary B start 0 = start from rfl] at hrf
  rw [show bwdBoundary B start 0 = start from rfl] at hrb
  have hF := answer_iff (ForwardOutcome.nearest hnext hpat h0
    (show (if (B.totalSize : Int) < endOffset then (B.totalSize : Int) else endOffset) ≤ endOffset by
      split <;> omega)
    (by split <;> omega) (by split <;> simp_all) hof)
  have hB := answer_iff (BackwardOutcome.nearest hprev h0 hob)
  rw [ebSearch_eq_plainLoop t flags pat re false fuel B 1 start endOffset hhex hre hpat]
  rw [ebSearch_eq_plainLoop t flags pat re false fuel B (-1) start endOffset hhex hre hpat]
  simp only [show ¬ (1 : Int) < 0 by decide, show (-1 : Int) < 0 by decide, ↓reduceIte]
  rw [hrf, hrb]
  simp only [Option.some.injEq]
  exact ⟨hF.1, hF.2, hB.1, hB.2⟩

theorem ebSearch_plain_nearest_ab :
    ((ebSearch ⟨id, id⟩ ⟨fun _ _ => none, fun _ _ _ _ _ _ _ => (0, 0, 0)⟩ false 7
        (ebMmapBuffer (EditBuffer.empty charset_utf8 .unix) [0x61, 0x62]) (-1) SEARCH_FLAG_DEFAULT 2 2
        [0x61]).map searchOutcome = some (1, 0, 1) ↔
      NearestBackward (ebMmapBuffer (EditBuffer.empty charset_utf8 .unix) [0x61, 0x62]) ⟨id, id⟩
        (foldsCase ⟨id, id⟩ SEARCH_FLAG_DEFAULT [0x61]) (hasFlag SEARCH_FLAG_DEFAULT SEARCH_FLAG_WORD)
        [0x61] 2 0 1) :=
  (ebSearch_plain_nearest ⟨id, id⟩ ⟨fun _ _ => none, fun _ _ _ _ _ _ _ => (0, 0, 0)⟩
    (ebMmapBuffer (EditBuffer.empty charset_utf8 .unix) [0x61, 0x62]) (mmap_wf _ _ _)
    SEARCH_FLAG_DEFAULT (by decide) (by decide) [0x61] (by decide) 2 2 (by decide) (by decide)
    (fun o h0 h1 => by
      have h1' : o < 2 := h1
      rcases (show o = 0 ∨ o = 1 by omega) with rfl | rfl <;> decide)
    (.inl rfl) 7 (by decide)).2.2.1 0 1

/-- From an offset its character size does not divide, `eb_prev` in UCS-2 steps below 0:
on the bytes `0A 00 41` backward from 3 the boundaries are 3, 1 and -1, and from -1
`eb_nextc` reads the `'\n'` it returns before the buffer, then the `'\n'` at 0, so the
search reports a match at `found_offset` -1, outside the buffer. -/
theorem ebSearch_backward_ucs2_odd :
    (ebSearch ⟨id, id⟩ ⟨fun _ _ => none, fun _ _ _ _ _ _ _ => (0, 0, 0)⟩ false 12
        (ebMmapBuffer (EditBuffer.empty charset_ucs2le .unix) [0x0A, 0x00, 0x41]) (-1)
        SEARCH_FLAG_DEFAULT 3 3 [10, 10]).map searchOutcome = some (1, -1, 2) := by
  decide

end Qemacs
