import Qemacs.Command.Paragraph
import Qemacs.Buffer.Notify

/-!
# Transposition

`do_transpose` (extras.c) swaps two adjacent pieces of text around the point:
characters, words, lines, paragraphs or sentences. The four offsets of the
pieces, `offset0..offset1` and `offset2..offset3`, come from the motions of
buffer.c and extras.c, each computed on its own; nothing compares them. The
pieces are then put back in the other order, read into an array of 1024 bytes
and written over the old text when their sizes add up to at most 1024, or
copied through a temporary buffer otherwise.

Pieces in order inside the text are put back in the other order by either method
(`transposeSwap_spec`); the
motions only read the buffer, so `do_transpose` swaps whatever pieces they find in
order (`doTranspose_swaps`).
For sentences the four offsets come from `eb_prev_sentence` and
`eb_next_sentence` composed four times, each with its own paragraph bounds.
They need not be in order: on the text `"!\n."` the second piece starts before
the first ends, the middle size is negative, the reads overlap in the array,
and the text written back is no permutation of the old one
(`doTranspose_sentences_overlap`).

**Deliberate scope limit**: buffers without styles (`b_styles`), which take
the array path whenever the sizes allow.
-/

namespace Qemacs

/-! ## `do_transpose` -/

/-- The commands of `do_transpose`. -/
inductive TransposeCmd
  | chars
  | words
  | lines
  | paragraphs
  | sentences
deriving DecidableEq, Repr

/-- The pieces `offset0..offset1` and `offset2..offset3` to swap, and where the
point goes after. -/
structure TransposeRanges where
  offset0 : Int
  offset1 : Int
  offset2 : Int
  offset3 : Int
  endOffset : Int
deriving DecidableEq, Repr

/-- The `switch` of `do_transpose`. With `emulation_flags` 1 the point stays
between the pieces, otherwise it goes past the second, as in Emacs. -/
def transposeRanges (fuel emulationFlags : Nat) (s : EditState) :
    TransposeCmd → Option (TransposeRanges × EditBuffer)
  | .chars =>
    let (offset0, b) := ebPrev s.b s.offset
    let (c, offset3, b) := ebNextc b s.offset
    if c = 10 then
      -- at the end of a line, the two characters before the point
      let (offset00, b) := ebPrev b offset0
      some (⟨offset00, offset0, offset0, s.offset, s.offset⟩, b)
    else
      let endOffset := if emulationFlags = 1 then offset0 + offset3 - s.offset else offset3
      some (⟨offset0, s.offset, s.offset, offset3, endOffset⟩, b)
  | .words => do
    let (offset, b) ← ebWordRight true fuel s.b s.offset
    let (offset3, b) ← ebWordRight false fuel b offset
    let (offset2, b) ← ebWordLeft false fuel b offset3
    let (offset1, b) ← ebWordLeft true fuel b offset2
    let (offset0, b) ← ebWordLeft false fuel b offset1
    let endOffset := if emulationFlags = 1 then offset0 + offset3 - offset2 else offset3
    return (⟨offset0, offset1, offset2, offset3, endOffset⟩, b)
  | .lines => do
    let (offset3, b) ← ebGotoEol fuel s.b s.offset
    let (offset2, b) ← ebGotoBol fuel b offset3
    -- back over the line feed
    let (offset1, b) := ebPrev b offset2
    let (offset0, b) ← ebGotoBol fuel b offset1
    let endOffset := if emulationFlags = 1 then offset0 + offset3 - offset1 else offset3
    return (⟨offset0, offset1, offset2, offset3, endOffset⟩, b)
  | .paragraphs => do
    let (blank, b) ← ebIsBlankLine fuel s.b s.offset
    let (startOffset, b) ←
      if blank.isNone then ebNextParagraph fuel b s.offset else some (s.offset, b)
    let (offset2, b) ← ebSkipBlankLines fuel b startOffset 1
    let (offset3, b) ← ebNextParagraph fuel b offset2
    let (offset1, b) ← ebSkipBlankLines fuel b startOffset (-1)
    let (offset0, b) ← ebPrevParagraph fuel b offset1
    let endOffset := if emulationFlags = 1 then offset0 + offset3 - offset2 else offset3
    return (⟨offset0, offset1, offset2, offset3, endOffset⟩, b)
  | .sentences => do
    let (offset0, b) ← ebPrevSentence fuel s.b s.offset
    let (offset1, b) ← ebNextSentence fuel b offset0
    let (offset3, b) ← ebNextSentence fuel b offset1
    let (offset2, b) ← ebPrevSentence fuel b offset3
    let endOffset := if emulationFlags = 1 then offset0 + offset3 - offset2 else offset3
    return (⟨offset0, offset1, offset2, offset3, endOffset⟩, b)

/-- `eb_read` into the array of 1024 bytes at `pos`: the bytes read replace
those of the array from `pos`; `none` when they would fall outside it. -/
def readInto (b : EditBuffer) (buf : List UInt8) (pos offset size : Int) :
    Option (List UInt8 × EditBuffer) :=
  let (n, bytes, b) := ebRead b offset size
  if n = 0 then some (buf, b)
  else if pos < 0 ∨ 1024 < pos + n then none
  else some (buf.take pos.toNat ++ bytes ++ buf.drop (pos + n).toNat, b)

/-- The swap: the second piece, the middle and the first piece read into the
array in that order and written over the text from `offset0`; past 1024 bytes,
copied into a temporary buffer, deleted and inserted back. -/
def transposeSwap (fuel : Nat) (r : TransposeRanges) (b : EditBuffer) : Option EditBuffer := do
  let size0 := r.offset1 - r.offset0
  let size1 := r.offset2 - r.offset1
  let size2 := r.offset3 - r.offset2
  if size0 + size1 + size2 ≤ 1024 then
    -- the fast method, one undo record
    let (buf, b) ← readInto b (List.replicate 1024 0) 0 r.offset2 size2
    let (buf, b) ← readInto b buf size2 r.offset1 size1
    let (buf, b) ← readInto b buf (size2 + size1) r.offset0 size0
    return (ebWrite b r.offset0 buf (size0 + size1 + size2)).2
  else
    let b1 := systemBuffer b.charset b.eolType
    let (_, b1, b) ← ebInsertBufferConvert fuel b1 0 b r.offset2 size2
    let (_, b1, b) ← ebInsertBufferConvert fuel b1 size2 b r.offset1 size1
    let (_, b1, b) ← ebInsertBufferConvert fuel b1 (size2 + size1) b r.offset0 size0
    let (_, b) := ebDelete b r.offset0 (size0 + size1 + size2)
    let (_, b, _) ← ebInsertBufferConvert fuel b r.offset0 b1 0 b1.totalSize
    return b

/-- `do_transpose`: nothing in a read-only buffer; otherwise the pieces
swapped, the mark following the change and the point at `end_offset`. -/
def doTranspose (fuel emulationFlags : Nat) (s : EditState) (cmd : TransposeCmd) :
    Option EditState :=
  if s.b.readOnly then some s
  else do
    let (r, b) ← transposeRanges fuel emulationFlags s cmd
    let b ← transposeSwap fuel r b
    return { s.withBuffer b with offset := r.endOffset }

/-! ## The swap -/

namespace FlatText

/-- A piece inside the text has the size asked for. -/
theorem length_piece (t : List UInt8) {offset size : Int} (hoff : 0 ≤ offset) (hsize : 0 ≤ size)
    (hend : offset + size ≤ t.length) :
    (((t.drop offset.toNat).take size.toNat).length : Int) = size := by
  simp only [List.length_take, List.length_drop]
  omega

/-- The text with its pieces `[o0, o1)` and `[o2, o3)` swapped around the middle
`[o1, o2)`. -/
def transpose (t : List UInt8) (o0 o1 o2 o3 : Nat) : List UInt8 :=
  t.take o0 ++ ((t.drop o2).take (o3 - o2) ++ (t.drop o1).take (o2 - o1) ++
    (t.drop o0).take (o1 - o0)) ++ t.drop o3

end FlatText

section Swap

open EditBuffer

variable {b : EditBuffer}

/-- The pieces are in order and inside a text of `len` bytes. -/
structure TransposeRanges.Ordered (r : TransposeRanges) (len : Nat) : Prop where
  nonneg : 0 ≤ r.offset0
  le01 : r.offset0 ≤ r.offset1
  le12 : r.offset1 ≤ r.offset2
  le23 : r.offset2 ≤ r.offset3
  le_len : r.offset3 ≤ len

/-- The transposition at ranges in order, its pieces cut by their sizes as `do_transpose`
reads them. -/
theorem transpose_ranges (t : List UInt8) {r : TransposeRanges} (hr : r.Ordered t.length) :
    FlatText.transpose t r.offset0.toNat r.offset1.toNat r.offset2.toNat r.offset3.toNat =
      t.take r.offset0.toNat ++ ((t.drop r.offset2.toNat).take (r.offset3 - r.offset2).toNat ++
        (t.drop r.offset1.toNat).take (r.offset2 - r.offset1).toNat ++
        (t.drop r.offset0.toNat).take (r.offset1 - r.offset0).toNat) ++ t.drop r.offset3.toNat := by
  obtain ⟨h0, h01, h12, h23, -⟩ := hr
  have e32 : (r.offset3 - r.offset2).toNat = r.offset3.toNat - r.offset2.toNat := by omega
  have e21 : (r.offset2 - r.offset1).toNat = r.offset2.toNat - r.offset1.toNat := by omega
  have e10 : (r.offset1 - r.offset0).toNat = r.offset1.toNat - r.offset0.toNat := by omega
  rw [e32, e21, e10]
  rfl

/-- `eb_read` of bytes inside the text into the array after its first `pos` bytes: the
piece follows them, over what was there, and the buffer only moves its cache. -/
theorem readInto_spec (hwf : b.WF) (pre rest : List UInt8) (pos offset size : Int)
    (hpos : pos = pre.length) (hoff : 0 ≤ offset) (hsize : 0 ≤ size)
    (hend : offset + size ≤ b.totalSize) (hfit : pos + size ≤ 1024) :
    ∃ b', readInto b (pre ++ rest) pos offset size =
        some (pre ++ (b.content.drop offset.toNat).take size.toNat ++ rest.drop size.toNat, b') ∧
      b.SameText b' := by
  obtain ⟨hn, hbytes⟩ := ebRead_spec hwf offset size
  have hframe := ebRead_frame' hwf offset size
  -- the whole piece is read
  have hcount : (ebRead b offset size).1 = size := by
    rw [hn]
    split <;> omega
  unfold readInto
  generalize ebRead b offset size = r at hcount hbytes hframe
  obtain ⟨n, bytes, b'⟩ := r
  dsimp only at hcount hbytes hframe ⊢
  subst hcount hbytes hpos
  refine ⟨b', ?_, hframe⟩
  split
  · rename_i hzero
    simp [hzero]
  · rw [if_neg (by omega)]
    have hdrop : (pre.length + n).toNat = pre.length + n.toNat := by omega
    simp [hdrop, List.drop_append]

/-- The fast method: the pieces read into the array in their new order and written back
over them. -/
theorem transposeSwap_fast {r : TransposeRanges} (fuel : Nat) (hwf : b.WF) (hro : b.readOnly = false)
    (hr : r.Ordered b.totalSize) (hsmall : r.offset3 - r.offset0 ≤ 1024) :
    ∃ b', transposeSwap fuel r b = some b' ∧ b'.WF ∧
      b'.content = FlatText.transpose b.content r.offset0.toNat r.offset1.toNat r.offset2.toNat
        r.offset3.toNat := by
  have hlen := hwf.totalSize_eq
  rw [transpose_ranges _ (hlen ▸ hr)]
  obtain ⟨h0, h01, h12, h23, h3⟩ := hr
  -- the pieces as they are read: the second one, the middle and the first one
  obtain ⟨A, hA⟩ : ∃ A, (b.content.drop r.offset2.toNat).take (r.offset3 - r.offset2).toNat = A :=
    ⟨_, rfl⟩
  obtain ⟨B, hB⟩ : ∃ B, (b.content.drop r.offset1.toNat).take (r.offset2 - r.offset1).toNat = B :=
    ⟨_, rfl⟩
  obtain ⟨C, hC⟩ : ∃ C, (b.content.drop r.offset0.toNat).take (r.offset1 - r.offset0).toNat = C :=
    ⟨_, rfl⟩
  have hAl : (A.length : Int) = r.offset3 - r.offset2 :=
    hA ▸ FlatText.length_piece _ (by omega) (by omega) (by omega)
  have hBl : (B.length : Int) = r.offset2 - r.offset1 :=
    hB ▸ FlatText.length_piece _ (by omega) (by omega) (by omega)
  have hCl : (C.length : Int) = r.offset1 - r.offset0 :=
    hC ▸ FlatText.length_piece _ (by omega) (by omega) (by omega)
  rw [hA, hB, hC]
  unfold transposeSwap
  dsimp only
  rw [if_pos (by omega)]
  -- each read puts its piece after those already in the array
  obtain ⟨b₁, hread₁, hs₁⟩ := readInto_spec hwf [] (List.replicate 1024 0) 0 r.offset2
    (r.offset3 - r.offset2) (by simp) (by omega) (by omega) (by omega) (by omega)
  rw [List.nil_append, List.nil_append, hA] at hread₁
  rw [hread₁]
  simp only [Option.bind_eq_bind, Option.bind_some]
  obtain ⟨b₂, hread₂, hs₂⟩ := readInto_spec hs₁.right A _ (r.offset3 - r.offset2) r.offset1
    (r.offset2 - r.offset1) hAl.symm (by omega) (by omega) (by rw [hs₁.totalSize]; omega) (by omega)
  rw [hs₁.content, hB] at hread₂
  rw [hread₂]
  simp only [Option.bind_some]
  obtain ⟨b₃, hread₃, hs₃⟩ := readInto_spec hs₂.right (A ++ B) _
    (r.offset3 - r.offset2 + (r.offset2 - r.offset1)) r.offset0 (r.offset1 - r.offset0)
    (by simp; omega) (by omega) (by omega) (by rw [hs₂.totalSize, hs₁.totalSize]; omega) (by omega)
  rw [hs₂.content, hs₁.content, hC] at hread₃
  rw [hread₃]
  simp only [Option.bind_some]
  -- the array, written back from the start of the first piece
  have hs := hs₁.trans (hs₂.trans hs₃)
  obtain ⟨hwrite, hwf'⟩ := ebWrite_spec hs.right r.offset0 (A ++ B ++ C ++ _)
    (r.offset1 - r.offset0 + (r.offset2 - r.offset1) + (r.offset3 - r.offset2)) (by simp; omega)
  refine ⟨_, rfl, hwf', ?_⟩
  rw [hwrite, hs.readOnly, hro, hs.content, hs.totalSize]
  by_cases hempty : r.offset0 = r.offset3
  · -- nothing to swap: the text stays
    rw [if_pos (by omega)]
    have hA0 : A = [] := List.length_eq_zero_iff.mp (by omega)
    have hB0 : B = [] := List.length_eq_zero_iff.mp (by omega)
    have hC0 : C = [] := List.length_eq_zero_iff.mp (by omega)
    have e3 : r.offset3.toNat = r.offset0.toNat := by omega
    rw [hA0, hB0, hC0, e3]
    simp
  · rw [if_neg (by simp; omega), List.take_left' (by simp; omega)]
    have e3 : r.offset0.toNat +
        (r.offset1 - r.offset0 + (r.offset2 - r.offset1) + (r.offset3 - r.offset2)).toNat =
        r.offset3.toNat := by omega
    rw [e3]

/-- A sound, writable buffer in the charset and end of line type of `b`, holding `t`:
the temporary buffer the pieces are copied into. -/
structure Scratch (b dest : EditBuffer) (t : List UInt8) : Prop where
  wf : dest.WF
  readOnly : dest.readOnly = false
  charset : dest.charset = b.charset
  eolType : dest.eolType = b.eolType
  content : dest.content = t

theorem Scratch.system (b : EditBuffer) : Scratch b (systemBuffer b.charset b.eolType) [] :=
  ⟨systemBuffer_wf _ _, rfl, rfl, rfl, rfl⟩

/-- A piece of the text of `b`, read through a buffer with its cache elsewhere, appended to
the temporary buffer. -/
theorem Scratch.append {dest src : EditBuffer} {t : List UInt8} (h : Scratch b dest t)
    (hs : b.SameText src) (fuel : Nat) (offset size : Int) (hoff : 0 ≤ offset)
    (hsize : 0 ≤ size) (hend : offset + size ≤ b.totalSize) :
    ∃ n dest' src', ebInsertBufferConvert fuel dest t.length src offset size = some (n, dest', src') ∧
      Scratch b dest' (t ++ (b.content.drop offset.toNat).take size.toNat) ∧ b.SameText src' := by
  rw [ebInsertBufferConvert_of_same fuel _ _ _ (h.charset.trans hs.charset.symm)
    (h.eolType.trans hs.eolType.symm)]
  obtain ⟨hcontent, hwf, -, -⟩ := ebInsertBuffer_spec h.wf hs.right t.length offset size
  have hcache := (ebInsertBuffer_cachesFrom dest t.length src offset size).1
  have hsends := ebInsertBuffer_sends dest t.length src offset size
  have hsrc := ebInsertBuffer_src_frame dest hs.right t.length offset size
  generalize ebInsertBuffer dest t.length src offset size = res at hcontent hwf hcache hsends hsrc
  obtain ⟨n, dest', src'⟩ := res
  refine ⟨n, dest', src', rfl, ⟨hwf, ?_, ?_, ?_, ?_⟩, hs.trans hsrc⟩
  · rw [hsends.readOnly, h.readOnly]
  · rw [hcache.charset, h.charset]
  · rw [hcache.eolType, h.eolType]
  · have hlen := h.wf.totalSize_eq
    rw [hcontent, h.readOnly, h.content, hs.totalSize, hs.content]
    rw [h.content] at hlen
    by_cases hzero : size = 0
    · -- an empty piece leaves the buffer as it is
      rw [if_pos (by omega), hzero]
      simp
    · rw [if_neg (by simp; omega)]
      have hmin : min (t.length : Int) dest.totalSize = t.length := by omega
      have hsz : min size ((b.totalSize : Int) - offset) = size := by omega
      rw [hmin, hsz]
      simp

/-- The pieces deleted from the text of `b`, read through a buffer with its cache
elsewhere, and the temporary buffer inserted in their place. -/
theorem Scratch.putBack {dest src : EditBuffer} {t : List UInt8} (h : Scratch b dest t)
    (hs : b.SameText src) (hro : b.readOnly = false) (fuel : Nat) (offset : Int)
    (hoff : 0 ≤ offset) (hpos : 0 < t.length) (hend : offset + t.length ≤ b.totalSize) :
    ∃ n b' dest', ebInsertBufferConvert fuel (ebDelete src offset t.length).2 offset dest 0
        dest.totalSize = some (n, b', dest') ∧ b'.WF ∧
      b'.content = b.content.take offset.toNat ++ t ++ b.content.drop (offset + t.length).toNat := by
  have hlen := hs.left.totalSize_eq
  have hdel := ebDelete_refines hs.right offset t.length
  have hdwf := (ebDelete_spec hs.right offset t.length).2
  have hdro := ebDelete_readOnly hs.right offset t.length
  have hdcache := ebDelete_cachesFrom src offset t.length
  generalize (ebDelete src offset t.length).2 = d at hdel hdwf hdro hdcache
  rw [ebInsertBufferConvert_of_same fuel _ _ _
    (hdcache.charset.trans (hs.charset.trans h.charset.symm))
    (hdcache.eolType.trans (hs.eolType.trans h.eolType.symm))]
  obtain ⟨hcontent, hwf', -, -⟩ := ebInsertBuffer_spec hdwf h.wf offset 0 dest.totalSize
  generalize ebInsertBuffer d offset dest 0 dest.totalSize = res at hcontent hwf'
  obtain ⟨n, b', dest'⟩ := res
  refine ⟨n, b', dest', rfl, hwf', ?_⟩
  -- the text without the pieces
  have hd : d.content = b.content.take offset.toNat ++ b.content.drop (offset + t.length).toNat := by
    rw [hdel, hs.readOnly, hro, hs.content]
    unfold FlatText.delete
    rw [if_neg (by simp only [Bool.false_eq_true, false_or]; omega)]
  have htot := h.wf.totalSize_eq
  rw [h.content] at htot
  have hdlen := hdwf.totalSize_eq
  rw [hd] at hdlen
  simp only [List.length_append, List.length_take, List.length_drop] at hdlen
  rw [hcontent, hdro, hs.readOnly, hro, if_neg (by simp; omega)]
  have hmin : min offset d.totalSize = offset := by omega
  have hmin' : min (dest.totalSize : Int) (dest.totalSize - 0) = dest.totalSize := by omega
  have hpre : (b.content.take offset.toNat).length = offset.toNat := by simp; omega
  rw [hmin, hmin', hd, h.content, List.take_left' hpre, List.drop_left' hpre, htot,
    Int.toNat_natCast, Int.toNat_zero, List.drop_zero, List.take_length]

/-- Past 1024 bytes: the pieces copied in their new order into a temporary buffer, deleted
and inserted back from it. -/
theorem transposeSwap_slow {r : TransposeRanges} (fuel : Nat) (hwf : b.WF) (hro : b.readOnly = false)
    (hr : r.Ordered b.totalSize) (hlarge : 1024 < r.offset3 - r.offset0) :
    ∃ b', transposeSwap fuel r b = some b' ∧ b'.WF ∧
      b'.content = FlatText.transpose b.content r.offset0.toNat r.offset1.toNat r.offset2.toNat
        r.offset3.toNat := by
  have hlen := hwf.totalSize_eq
  rw [transpose_ranges _ (hlen ▸ hr)]
  obtain ⟨h0, h01, h12, h23, h3⟩ := hr
  obtain ⟨A, hA⟩ : ∃ A, (b.content.drop r.offset2.toNat).take (r.offset3 - r.offset2).toNat = A :=
    ⟨_, rfl⟩
  obtain ⟨B, hB⟩ : ∃ B, (b.content.drop r.offset1.toNat).take (r.offset2 - r.offset1).toNat = B :=
    ⟨_, rfl⟩
  obtain ⟨C, hC⟩ : ∃ C, (b.content.drop r.offset0.toNat).take (r.offset1 - r.offset0).toNat = C :=
    ⟨_, rfl⟩
  have hAl : (A.length : Int) = r.offset3 - r.offset2 :=
    hA ▸ FlatText.length_piece _ (by omega) (by omega) (by omega)
  have hBl : (B.length : Int) = r.offset2 - r.offset1 :=
    hB ▸ FlatText.length_piece _ (by omega) (by omega) (by omega)
  have hCl : (C.length : Int) = r.offset1 - r.offset0 :=
    hC ▸ FlatText.length_piece _ (by omega) (by omega) (by omega)
  rw [hA, hB, hC]
  unfold transposeSwap
  dsimp only
  rw [if_neg (by omega)]
  -- the pieces copied into a temporary buffer, in their new order
  obtain ⟨n₁, t₁, b₁, hins₁, ht₁, hs₁⟩ := (Scratch.system b).append (SameText.refl hwf) fuel
    r.offset2 (r.offset3 - r.offset2) (by omega) (by omega) (by omega)
  simp only [List.length_nil, Int.natCast_zero, List.nil_append, hA] at hins₁ ht₁
  rw [hins₁]
  simp only [Option.bind_eq_bind, Option.bind_some]
  obtain ⟨n₂, t₂, b₂, hins₂, ht₂, hs₂⟩ := ht₁.append hs₁ fuel r.offset1 (r.offset2 - r.offset1)
    (by omega) (by omega) (by omega)
  rw [hAl] at hins₂
  rw [hB] at ht₂
  rw [hins₂]
  simp only [Option.bind_some]
  obtain ⟨n₃, t₃, b₃, hins₃, ht₃, hs₃⟩ := ht₂.append hs₂ fuel r.offset0 (r.offset1 - r.offset0)
    (by omega) (by omega) (by omega)
  rw [List.length_append, Int.natCast_add, hAl, hBl] at hins₃
  rw [hC] at ht₃
  rw [hins₃]
  simp only [Option.bind_some]
  -- they are deleted from the text and the temporary buffer goes in their place
  have hsize : r.offset1 - r.offset0 + (r.offset2 - r.offset1) + (r.offset3 - r.offset2) =
      ((A ++ B ++ C).length : Int) := by simp; omega
  rw [hsize]
  obtain ⟨n, b', t', hput, hwf', hcontent⟩ := ht₃.putBack hs₃ hro fuel r.offset0 (by omega)
    (by simp; omega) (by simp; omega)
  rw [hput]
  simp only [Option.bind_some]
  refine ⟨b', rfl, hwf', ?_⟩
  have e3 : (r.offset0 + ((A ++ B ++ C).length : Int)).toNat = r.offset3.toNat := by simp; omega
  rw [hcontent, e3]

/-- Pieces in order inside the text of a writable buffer are swapped, by either method. -/
theorem transposeSwap_spec {r : TransposeRanges} (fuel : Nat) (hwf : b.WF)
    (hro : b.readOnly = false) (hr : r.Ordered b.totalSize) :
    ∃ b', transposeSwap fuel r b = some b' ∧ b'.WF ∧
      b'.content = FlatText.transpose b.content r.offset0.toNat r.offset1.toNat r.offset2.toNat
        r.offset3.toNat := by
  by_cases hsmall : r.offset3 - r.offset0 ≤ 1024
  · exact transposeSwap_fast fuel hwf hro hr hsmall
  · exact transposeSwap_slow fuel hwf hro hr (by omega)

/-- The motions that find the pieces only move the cache. -/
theorem transposeRanges_frame {fuel emulationFlags : Nat} {s : EditState} {cmd : TransposeCmd}
    {r : TransposeRanges} {b₁ : EditBuffer} (hwf : s.b.WF)
    (h : transposeRanges fuel emulationFlags s cmd = some (r, b₁)) : s.b.SameText b₁ := by
  cases cmd with
  | chars =>
    rw [transposeRanges] at h
    have h₁ := ebPrev_frame hwf s.offset
    generalize ebPrev s.b s.offset = q at h h₁
    obtain ⟨offset0, b₂⟩ := q
    dsimp only at h h₁
    have h₂ := ebNextc_frame h₁.right s.offset
    generalize ebNextc b₂ s.offset = q at h h₂
    obtain ⟨c, offset3, b₃⟩ := q
    dsimp only at h h₂
    split at h
    · -- at the end of a line, the character before too
      have h₃ := ebPrev_frame h₂.right offset0
      generalize ebPrev b₃ offset0 = q at h h₃
      obtain ⟨offset00, b₄⟩ := q
      cases h
      exact h₁.trans (h₂.trans h₃)
    · cases h
      exact h₁.trans h₂
  | words =>
    rw [transposeRanges] at h
    obtain ⟨⟨o₁, b₂⟩, hm₁, h⟩ := Option.bind_eq_some_iff.mp h
    have h₁ := ebWordRight_frame true fuel hwf hm₁
    obtain ⟨⟨o₂, b₃⟩, hm₂, h⟩ := Option.bind_eq_some_iff.mp h
    have h₂ := ebWordRight_frame false fuel h₁.right hm₂
    obtain ⟨⟨o₃, b₄⟩, hm₃, h⟩ := Option.bind_eq_some_iff.mp h
    have h₃ := ebWordLeft_frame false fuel h₂.right hm₃
    obtain ⟨⟨o₄, b₅⟩, hm₄, h⟩ := Option.bind_eq_some_iff.mp h
    have h₄ := ebWordLeft_frame true fuel h₃.right hm₄
    obtain ⟨⟨o₅, b₆⟩, hm₅, h⟩ := Option.bind_eq_some_iff.mp h
    have h₅ := ebWordLeft_frame false fuel h₄.right hm₅
    cases h
    exact h₁.trans (h₂.trans (h₃.trans (h₄.trans h₅)))
  | lines =>
    rw [transposeRanges] at h
    obtain ⟨⟨o₃, b₂⟩, hm₁, h⟩ := Option.bind_eq_some_iff.mp h
    have h₁ := ebGotoEol_frame fuel hwf hm₁
    obtain ⟨⟨o₂, b₃⟩, hm₂, h⟩ := Option.bind_eq_some_iff.mp h
    have h₂ := ebGotoBol_frame fuel h₁.right hm₂
    -- back over the line feed
    have h₃ := ebPrev_frame h₂.right o₂
    obtain ⟨⟨o₀, b₅⟩, hm₄, h⟩ := Option.bind_eq_some_iff.mp h
    have h₄ := ebGotoBol_frame fuel h₃.right hm₄
    cases h
    exact h₁.trans (h₂.trans (h₃.trans h₄))
  | paragraphs =>
    rw [transposeRanges] at h
    obtain ⟨⟨blank, b₂⟩, hm₁, h⟩ := Option.bind_eq_some_iff.mp h
    have h₁ := ebIsBlankLine_frame fuel hwf hm₁
    dsimp only at h
    -- past the paragraph at the point, or from the point itself on a blank line
    have hstart : ∀ start b₃, (if blank.isNone then ebNextParagraph fuel b₂ s.offset
        else some (s.offset, b₂)) = some (start, b₃) → b₂.SameText b₃ := by
      intro start b₃ hm₂
      split at hm₂
      · exact ebNextParagraph_frame fuel h₁.right hm₂
      · cases hm₂
        exact SameText.refl h₁.right
    split at h <;> obtain ⟨⟨start, b₃⟩, hm₂, h⟩ := Option.bind_eq_some_iff.mp h
    all_goals
      have h₂ := hstart start b₃ (by simp [*])
      obtain ⟨⟨o₂, b₄⟩, hm₃, h⟩ := Option.bind_eq_some_iff.mp h
      have h₃ := ebSkipBlankLines_frame fuel h₂.right hm₃
      obtain ⟨⟨o₃, b₅⟩, hm₄, h⟩ := Option.bind_eq_some_iff.mp h
      have h₄ := ebNextParagraph_frame fuel h₃.right hm₄
      obtain ⟨⟨o₁, b₆⟩, hm₅, h⟩ := Option.bind_eq_some_iff.mp h
      have h₅ := ebSkipBlankLines_frame fuel h₄.right hm₅
      obtain ⟨⟨o₀, b₇⟩, hm₆, h⟩ := Option.bind_eq_some_iff.mp h
      have h₆ := ebPrevParagraph_frame fuel h₅.right hm₆
      cases h
      exact h₁.trans (h₂.trans (h₃.trans (h₄.trans (h₅.trans h₆))))
  | sentences =>
    rw [transposeRanges] at h
    obtain ⟨⟨o₀, b₂⟩, hm₁, h⟩ := Option.bind_eq_some_iff.mp h
    have h₁ := ebPrevSentence_frame fuel hwf hm₁
    obtain ⟨⟨o₁, b₃⟩, hm₂, h⟩ := Option.bind_eq_some_iff.mp h
    have h₂ := ebNextSentence_frame fuel h₁.right hm₂
    obtain ⟨⟨o₃, b₄⟩, hm₃, h⟩ := Option.bind_eq_some_iff.mp h
    have h₃ := ebNextSentence_frame fuel h₂.right hm₃
    obtain ⟨⟨o₂, b₅⟩, hm₄, h⟩ := Option.bind_eq_some_iff.mp h
    have h₄ := ebPrevSentence_frame fuel h₃.right hm₄
    cases h
    exact h₁.trans (h₂.trans (h₃.trans h₄))

/-- `do_transpose` swaps the pieces the motions find, when they are in order, and puts the
point at `end_offset`. -/
theorem doTranspose_swaps {fuel emulationFlags : Nat} {s : EditState} {cmd : TransposeCmd}
    {r : TransposeRanges} {b₁ : EditBuffer} (hwf : s.b.WF) (hro : s.b.readOnly = false)
    (hranges : transposeRanges fuel emulationFlags s cmd = some (r, b₁))
    (hr : r.Ordered s.b.totalSize) :
    ∃ s', doTranspose fuel emulationFlags s cmd = some s' ∧ s'.offset = r.endOffset ∧
      s'.b.content = FlatText.transpose s.b.content r.offset0.toNat r.offset1.toNat
        r.offset2.toNat r.offset3.toNat := by
  have hs := transposeRanges_frame hwf hranges
  rw [← hs.totalSize] at hr
  obtain ⟨b', hswap, -, hcontent⟩ := transposeSwap_spec fuel hs.right (by rw [hs.readOnly, hro]) hr
  unfold doTranspose
  rw [if_neg (by simp [hro]), hranges]
  simp only [Option.bind_eq_bind, Option.bind_some, hswap]
  refine ⟨_, rfl, rfl, ?_⟩
  rw [EditState.withBuffer_b, hcontent, hs.content]

/-- `ab cd` with the point after `ab`: the two words change places and the point ends
after them. -/
theorem doTranspose_swaps_words :
    ∃ s', doTranspose 20 0 ⟨ebMmapBuffer (EditBuffer.empty charset_raw .unix)
        [0x61, 0x62, 0x20, 0x63, 0x64], 2, 0, 0⟩ .words = some s' ∧ s'.offset = 5 ∧
      s'.b.content = FlatText.transpose (ebMmapBuffer (EditBuffer.empty charset_raw .unix)
        [0x61, 0x62, 0x20, 0x63, 0x64]).content 0 2 3 5 := by
  obtain ⟨⟨r, b₁⟩, hranges, hr⟩ := Option.map_eq_some_iff.mp
    (show (transposeRanges 20 0 ⟨ebMmapBuffer (EditBuffer.empty charset_raw .unix)
      [0x61, 0x62, 0x20, 0x63, 0x64], 2, 0, 0⟩ .words).map (·.1) = some ⟨0, 2, 3, 5, 5⟩ by decide)
  obtain rfl : r = ⟨0, 2, 3, 5, 5⟩ := hr
  exact doTranspose_swaps (mmap_wf _ _ _) (by decide) hranges
    ⟨by decide, by decide, by decide, by decide, by decide⟩

end Swap

/-! ## Sentences out of order -/

/-- On `"!\n."` with the point at 0, the sentence before starts at 0 and ends
at 1, the one after ends at 3, and the sentence before that end starts at 0
again: the second piece starts before the first ends. The array path reads the
pieces over each other and writes back `"!\n!"`, which loses the `.`. -/
theorem doTranspose_sentences_overlap :
    ((transposeRanges 20 0 ⟨ebMmapBuffer (EditBuffer.empty charset_raw .unix) [0x21, 0x0a, 0x2e],
        0, 0, 0⟩ .sentences).map (·.1)) = some ⟨0, 1, 0, 3, 3⟩ ∧
      ((doTranspose 20 0 ⟨ebMmapBuffer (EditBuffer.empty charset_raw .unix) [0x21, 0x0a, 0x2e],
        0, 0, 0⟩ .sentences).map (·.b.content)) = some [0x21, 0x0a, 0x21] ∧
      ¬ List.Perm [0x21, 0x0a, 0x21] ([0x21, 0x0a, 0x2e] : List UInt8) := by
  refine ⟨?_, ?_, ?_⟩ <;> decide

end Qemacs
