import Qemacs.Buffer.Chars

/-!
# The readers and the page cache

`find_page` keeps the page it found last (`cur_page`, `cur_offset`), so every
reader of buffer.c moves that cache; what it reads does not depend on it.
`EditBuffer.SameText` relates a well-formed buffer to itself with its cache
elsewhere. It is an equivalence, `eb_read_one_byte`, `eb_read`, `eb_nextc`
and `eb_prevc` keep it, and two buffers it relates read alike. A search that
threads the buffer through its reads therefore sees the text of the buffer it
started from.
-/

namespace Qemacs

/-- `b'` is `b` with the page `find_page` caches moved, both well formed. -/
structure EditBuffer.SameText (b b' : EditBuffer) : Prop where
  left : b.WF
  right : b'.WF
  moved : ∃ cp co, b' = { b with curPage := cp, curOffset := co }

namespace EditBuffer.SameText

variable {b b' b'' : EditBuffer}

theorem refl (hwf : b.WF) : b.SameText b := ⟨hwf, hwf, b.curPage, b.curOffset, rfl⟩

theorem symm (h : b.SameText b') : b'.SameText b := by
  obtain ⟨hl, hr, cp, co, rfl⟩ := h
  exact ⟨hr, hl, b.curPage, b.curOffset, rfl⟩

theorem trans (h : b.SameText b') (h' : b'.SameText b'') : b.SameText b'' := by
  obtain ⟨hl, -, cp, co, rfl⟩ := h
  obtain ⟨-, hr, cp', co', rfl⟩ := h'
  exact ⟨hl, hr, cp', co', rfl⟩

theorem pages (h : b.SameText b') : b'.pages = b.pages := by
  obtain ⟨-, -, cp, co, rfl⟩ := h
  rfl

theorem content (h : b.SameText b') : b'.content = b.content := by
  rw [EditBuffer.content_eq_flat, EditBuffer.content_eq_flat, h.pages]

theorem totalSize (h : b.SameText b') : b'.totalSize = b.totalSize := by
  obtain ⟨-, -, cp, co, rfl⟩ := h
  rfl

theorem charset (h : b.SameText b') : b'.charset = b.charset := by
  obtain ⟨-, -, cp, co, rfl⟩ := h
  rfl

theorem charsetState (h : b.SameText b') : b'.charsetState = b.charsetState := by
  obtain ⟨-, -, cp, co, rfl⟩ := h
  rfl

theorem eolType (h : b.SameText b') : b'.eolType = b.eolType := by
  obtain ⟨-, -, cp, co, rfl⟩ := h
  rfl

theorem readOnly (h : b.SameText b') : b'.readOnly = b.readOnly := by
  obtain ⟨-, -, cp, co, rfl⟩ := h
  rfl

end EditBuffer.SameText

open EditBuffer

section Bytes

variable {b b' : EditBuffer}

/-- `eb_read_one_byte` moves only the cache. -/
theorem ebReadOneByte_frame (hwf : b.WF) (offset : Int) : b.SameText (ebReadOneByte b offset).2 := by
  unfold ebReadOneByte
  split
  · exact SameText.refl hwf
  · rename_i hin
    exact ⟨hwf, findPage_wf hwf (by omega), findPage_frame b offset.toNat⟩

/-- `eb_read_one_byte` reads the same byte through either cache. -/
theorem ebReadOneByte_sameText (h : b.SameText b') (offset : Int) :
    ∃ c b₁ b₁', ebReadOneByte b offset = (c, b₁) ∧ ebReadOneByte b' offset = (c, b₁') ∧
      b.SameText b₁ ∧ b.SameText b₁' := by
  have hc : (ebReadOneByte b' offset).1 = (ebReadOneByte b offset).1 := by
    rw [ebReadOneByte_spec h.right, ebReadOneByte_spec h.left, h.totalSize, h.content]
  exact ⟨(ebReadOneByte b offset).1, (ebReadOneByte b offset).2, (ebReadOneByte b' offset).2, rfl,
    Prod.ext hc rfl, ebReadOneByte_frame h.left offset, h.trans (ebReadOneByte_frame h.right offset)⟩

/-- `eb_read` moves only the cache. -/
theorem ebRead_frame' (hwf : b.WF) (offset size : Int) : b.SameText (ebRead b offset size).2.2 :=
  ⟨hwf, (ebRead_frame hwf offset size).2, (ebRead_frame hwf offset size).1⟩

/-- `eb_insert_buffer` only reads its source, through `find_page`. -/
theorem ebInsertBuffer_src_frame {src : EditBuffer} (dest : EditBuffer) (hs : src.WF)
    (destOffset srcOffset size : Int) :
    src.SameText (ebInsertBuffer dest destOffset src srcOffset size).2.2 := by
  unfold ebInsertBuffer
  split
  · exact SameText.refl hs
  split
  · exact SameText.refl hs
  rename_i hin
  dsimp only
  generalize (if (src.totalSize : Int) < srcOffset + size then (src.totalSize : Int) - srcOffset
    else size) = sz
  split
  · exact SameText.refl hs
  have hwf : (findPage src srcOffset.toNat).2.2.WF := findPage_wf hs (by omega)
  have hframe := findPage_frame src srcOffset.toNat
  generalize findPage src srcOffset.toNat = r at hwf hframe ⊢
  obtain ⟨i, po, src₁⟩ := r
  exact ⟨hs, hwf, hframe⟩

/-- `eb_read` reads the same count and bytes through either cache. -/
theorem ebRead_sameText (h : b.SameText b') (offset size : Int) :
    ∃ n bytes b₁ b₁', ebRead b offset size = (n, bytes, b₁) ∧
      ebRead b' offset size = (n, bytes, b₁') ∧ b.SameText b₁ ∧ b.SameText b₁' := by
  obtain ⟨hn', hs'⟩ := ebRead_spec h.right offset size
  obtain ⟨hn, hs⟩ := ebRead_spec h.left offset size
  have hcount : (ebRead b' offset size).1 = (ebRead b offset size).1 := by
    rw [hn', hn, h.totalSize]
  have hbytes : (ebRead b' offset size).2.1 = (ebRead b offset size).2.1 := by
    rw [hs', hs, hcount, h.content]
  exact ⟨(ebRead b offset size).1, (ebRead b offset size).2.1, (ebRead b offset size).2.2,
    (ebRead b' offset size).2.2, rfl, Prod.ext hcount (Prod.ext hbytes rfl),
    ebRead_frame' h.left offset size, h.trans (ebRead_frame' h.right offset size)⟩

end Bytes

section Chars

variable {b b' : EditBuffer}

/-! `eb_nextc` in three stages: the first byte, its decoding through the table
or `decode_func`, and the end of line conversions. -/

/-- The decoding of `eb_nextc`, from the byte `c` before `offset`. -/
def nextcDecode (b : EditBuffer) (c : Int) (offset : Int) : UInt32 × Int × EditBuffer :=
  let ch := b.charsetState.table (UInt8.ofInt c)
  if ch = ESCAPE_CHAR then
    let (_, bytes, b) := ebRead b (offset - 1) MAX_CHAR_BYTES
    let r := decodeAt b bytes
    (r.1, offset + r.2 - 1, b)
  else (ch, offset, b)

/-- The end of line conversions of `eb_nextc` on the character `ch` that ends
at `offset`. -/
def nextcEol (b : EditBuffer) (ch : UInt32) (offset : Int) : UInt32 × Int × EditBuffer :=
  if ch = 13 then
    match b.eolType with
    | .dos =>
      let (n, bytes, b) := ebRead b offset MAX_CHAR_BYTES
      if 1 ≤ n ∧ (decodeAt b bytes).1 = 10 then (10, offset + b.charsetState.charSize, b)
      else (13, offset, b)
    | .mac => (10, offset, b)
    | .unix => (13, offset, b)
  else if ch = 10 ∧ b.eolType = .mac then (13, offset, b)
  else (ch, offset, b)

theorem ebNextc_eq (b : EditBuffer) (offset : Int) :
    ebNextc b offset =
      let (c, b) := ebReadOneByte b offset
      if c < 0 then
        let offset := if offset < 0 then 0 else offset
        (10, if (b.totalSize : Int) ≤ offset then (b.totalSize : Int) else offset, b)
      else
        let (ch, offset, b) := nextcDecode b c (offset + 1)
        nextcEol b ch offset := rfl

theorem decodeAt_sameText (h : b.SameText b') (bytes : List UInt8) :
    decodeAt b' bytes = decodeAt b bytes := by
  simp only [decodeAt, h.charsetState]

theorem nextcDecode_sameText (h : b.SameText b') (c offset : Int) :
    ∃ ch o b₁ b₁', nextcDecode b c offset = (ch, o, b₁) ∧ nextcDecode b' c offset = (ch, o, b₁') ∧
      b.SameText b₁ ∧ b.SameText b₁' := by
  unfold nextcDecode
  rw [h.charsetState]
  dsimp only
  split_ifs
  · -- the escape to `decode_func`: the window is read on both sides
    obtain ⟨n, bytes, b₁, b₁', hr, hr', h₁, h₁'⟩ := ebRead_sameText h (offset - 1) MAX_CHAR_BYTES
    rw [hr, hr']
    dsimp only
    rw [decodeAt_sameText (h₁.symm.trans h₁')]
    exact ⟨_, _, _, _, rfl, rfl, h₁, h₁'⟩
  · exact ⟨_, _, _, _, rfl, rfl, SameText.refl h.left, h⟩

theorem nextcEol_sameText (h : b.SameText b') (ch : UInt32) (offset : Int) :
    ∃ c o b₁ b₁', nextcEol b ch offset = (c, o, b₁) ∧ nextcEol b' ch offset = (c, o, b₁') ∧
      b.SameText b₁ ∧ b.SameText b₁' := by
  have hself := SameText.refl h.left
  unfold nextcEol
  rw [h.eolType]
  split_ifs
  · cases b.eolType with
    | dos =>
      -- CR LF in DOS mode: the character after the CR is read on both sides
      obtain ⟨n, bytes, b₁, b₁', hr, hr', h₁, h₁'⟩ := ebRead_sameText h offset MAX_CHAR_BYTES
      have h₁₁ := h₁.symm.trans h₁'
      rw [hr, hr']
      dsimp only
      rw [decodeAt_sameText h₁₁, h₁₁.charsetState]
      split_ifs
      · exact ⟨_, _, _, _, rfl, rfl, h₁, h₁'⟩
      · exact ⟨_, _, _, _, rfl, rfl, h₁, h₁'⟩
    | mac => exact ⟨_, _, _, _, rfl, rfl, hself, h⟩
    | unix => exact ⟨_, _, _, _, rfl, rfl, hself, h⟩
  all_goals exact ⟨_, _, _, _, rfl, rfl, hself, h⟩

/-- `eb_nextc` reads the same character and offset through either cache, and
moves only the cache. -/
theorem ebNextc_sameText (h : b.SameText b') (offset : Int) :
    ∃ c o b₁ b₁', ebNextc b offset = (c, o, b₁) ∧ ebNextc b' offset = (c, o, b₁') ∧
      b.SameText b₁ ∧ b.SameText b₁' := by
  rw [ebNextc_eq, ebNextc_eq]
  obtain ⟨c, b₁, b₁', hr, hr', h₁, h₁'⟩ := ebReadOneByte_sameText h offset
  rw [hr, hr']
  dsimp only
  split
  · rw [(h₁.symm.trans h₁').totalSize]
    exact ⟨_, _, _, _, rfl, rfl, h₁, h₁'⟩
  obtain ⟨ch, o, b₂, b₂', hd, hd', h₂, h₂'⟩ := nextcDecode_sameText (h₁.symm.trans h₁') c (offset + 1)
  rw [hd, hd']
  obtain ⟨c, o, b₃, b₃', he, he', h₃, h₃'⟩ := nextcEol_sameText (h₂.symm.trans h₂') ch o
  exact ⟨_, _, _, _, he, he', h₁.trans (h₂.trans h₃), h₁.trans (h₂.trans h₃')⟩

/-! `eb_prevc` in two stages: the character before the offset, gathered as
UTF-8 or read as `char_size` bytes, and the end of line conversions. -/

/-- The character before `offset`, where it starts, and the `char_size` the
end of line conversions step back by. -/
def prevcDecode (b : EditBuffer) (offset : Int) : UInt32 × Int × Nat × EditBuffer :=
  if b.charset.name = charset_utf8.name then
    let r := prevcUtf8 b offset
    (r.1, r.2.1, (1 : Nat), r.2.2)
  else
    -- this only works for stateless charsets
    let charSize := b.charsetState.charSize
    let offset := offset - charSize
    let (_, bytes, b) := ebRead b offset charSize
    ((decodeAt b bytes).1, offset, charSize, b)

/-- The end of line conversions of `eb_prevc` on the character `ch` that
starts at `offset`. -/
def prevcEol (b : EditBuffer) (ch : UInt32) (offset : Int) (charSize : Nat) :
    UInt32 × Int × EditBuffer :=
  if ch = 13 then
    (if b.eolType = .mac then 10 else 13, offset, b)
  else if ch = 10 then
    match b.eolType with
    | .dos =>
      if (charSize : Int) ≤ offset then
        let (_, bytes, b) := ebRead b (offset - charSize) charSize
        if (decodeAt b bytes).1 = 13 then (10, offset - charSize, b) else (10, offset, b)
      else (10, offset, b)
    | .mac => (13, offset, b)
    | .unix => (10, offset, b)
  else (ch, offset, b)

theorem ebPrevc_eq (b : EditBuffer) (offset : Int) :
    ebPrevc b offset =
      if offset ≤ 0 then (10, 0, b)
      else
        let (ch, offset, charSize, b) := prevcDecode b offset
        prevcEol b ch offset charSize := rfl

theorem prevcCollect_sameText (room : Nat) :
    ∀ {b b' : EditBuffer} (offset : Int) (ch : UInt8) (q : List UInt8), b.SameText b' →
      ∃ o c q' b₁ b₁', prevcCollect b room offset ch q = (o, c, q', b₁) ∧
        prevcCollect b' room offset ch q = (o, c, q', b₁') ∧ b.SameText b₁ ∧ b.SameText b₁' := by
  induction room with
  | zero => intro b b' offset ch q h; exact ⟨_, _, _, _, _, rfl, rfl, SameText.refl h.left, h⟩
  | succ room ih =>
    intro b b' offset ch q h
    simp only [prevcCollect]
    split_ifs
    · -- one more trailing byte, read on both sides
      obtain ⟨c, b₁, b₁', hr, hr', h₁, h₁'⟩ := ebReadOneByte_sameText h (offset - 1)
      rw [hr, hr']
      obtain ⟨o, c', q', b₂, b₂', he, he', h₂, h₂'⟩ := ih (offset - 1) (UInt8.ofInt c)
        (UInt8.ofInt c :: q) (h₁.symm.trans h₁')
      exact ⟨_, _, _, _, _, he, he', h₁.trans h₂, h₁.trans h₂'⟩
    · exact ⟨_, _, _, _, _, rfl, rfl, SameText.refl h.left, h⟩

theorem prevcUtf8_sameText (h : b.SameText b') (offset : Int) :
    ∃ c o b₁ b₁', prevcUtf8 b offset = (c, o, b₁) ∧ prevcUtf8 b' offset = (c, o, b₁') ∧
      b.SameText b₁ ∧ b.SameText b₁' := by
  unfold prevcUtf8
  dsimp only
  obtain ⟨c, b₁, b₁', hr, hr', h₁, h₁'⟩ := ebReadOneByte_sameText h (offset - 1)
  rw [hr, hr']
  -- a trailing byte: the sequence it ends is gathered on both sides
  obtain ⟨o, c', q, b₂, b₂', he, he', h₂, h₂'⟩ := prevcCollect_sameText (MAX_CHAR_BYTES - 1)
    (offset - 1) (UInt8.ofInt c) [UInt8.ofInt c, 0] (h₁.symm.trans h₁')
  dsimp only
  rw [he, he']
  dsimp only
  split_ifs
  · exact ⟨_, _, _, _, rfl, rfl, h₁.trans h₂, h₁.trans h₂'⟩
  · exact ⟨_, _, _, _, rfl, rfl, h₁.trans h₂, h₁.trans h₂'⟩
  · exact ⟨_, _, _, _, rfl, rfl, h₁.trans h₂, h₁.trans h₂'⟩
  · exact ⟨_, _, _, _, rfl, rfl, h₁.trans h₂, h₁.trans h₂'⟩
  · exact ⟨_, _, _, _, rfl, rfl, h₁, h₁'⟩

theorem prevcDecode_sameText (h : b.SameText b') (offset : Int) :
    ∃ c o n b₁ b₁', prevcDecode b offset = (c, o, n, b₁) ∧ prevcDecode b' offset = (c, o, n, b₁') ∧
      b.SameText b₁ ∧ b.SameText b₁' := by
  unfold prevcDecode
  rw [h.charset, h.charsetState]
  split_ifs
  · obtain ⟨c, o, b₁, b₁', hr, hr', h₁, h₁'⟩ := prevcUtf8_sameText h offset
    rw [hr, hr']
    exact ⟨_, _, _, _, _, rfl, rfl, h₁, h₁'⟩
  · -- the `char_size` bytes before the offset, read on both sides
    obtain ⟨n, bytes, b₁, b₁', hr, hr', h₁, h₁'⟩ :=
      ebRead_sameText h (offset - b.charsetState.charSize) b.charsetState.charSize
    dsimp only
    rw [hr, hr']
    dsimp only
    rw [decodeAt_sameText (h₁.symm.trans h₁')]
    exact ⟨_, _, _, _, _, rfl, rfl, h₁, h₁'⟩

theorem prevcEol_sameText (h : b.SameText b') (ch : UInt32) (offset : Int) (charSize : Nat) :
    ∃ c o b₁ b₁', prevcEol b ch offset charSize = (c, o, b₁) ∧
      prevcEol b' ch offset charSize = (c, o, b₁') ∧ b.SameText b₁ ∧ b.SameText b₁' := by
  have hself := SameText.refl h.left
  unfold prevcEol
  rw [h.eolType]
  by_cases h13 : ch = 13
  · rw [if_pos h13, if_pos h13]
    exact ⟨_, _, _, _, rfl, rfl, hself, h⟩
  rw [if_neg h13, if_neg h13]
  by_cases h10 : ch = 10
  · rw [if_pos h10, if_pos h10]
    cases b.eolType with
    | dos =>
      dsimp only
      by_cases hsize : (charSize : Int) ≤ offset
      · -- LF in DOS mode: the character before it is read on both sides
        obtain ⟨n, bytes, b₁, b₁', hr, hr', h₁, h₁'⟩ :=
          ebRead_sameText h (offset - charSize) charSize
        rw [if_pos hsize, if_pos hsize, hr, hr']
        dsimp only
        rw [decodeAt_sameText (h₁.symm.trans h₁')]
        split_ifs
        · exact ⟨_, _, _, _, rfl, rfl, h₁, h₁'⟩
        · exact ⟨_, _, _, _, rfl, rfl, h₁, h₁'⟩
      · rw [if_neg hsize, if_neg hsize]
        exact ⟨_, _, _, _, rfl, rfl, hself, h⟩
    | mac => exact ⟨_, _, _, _, rfl, rfl, hself, h⟩
    | unix => exact ⟨_, _, _, _, rfl, rfl, hself, h⟩
  · rw [if_neg h10, if_neg h10]
    exact ⟨_, _, _, _, rfl, rfl, hself, h⟩

/-- `eb_prevc` reads the same character and offset through either cache, and
moves only the cache. -/
theorem ebPrevc_sameText (h : b.SameText b') (offset : Int) :
    ∃ c o b₁ b₁', ebPrevc b offset = (c, o, b₁) ∧ ebPrevc b' offset = (c, o, b₁') ∧
      b.SameText b₁ ∧ b.SameText b₁' := by
  rw [ebPrevc_eq, ebPrevc_eq]
  split_ifs
  · exact ⟨_, _, _, _, rfl, rfl, SameText.refl h.left, h⟩
  obtain ⟨c, o, n, b₁, b₁', hd, hd', h₁, h₁'⟩ := prevcDecode_sameText h offset
  rw [hd, hd']
  obtain ⟨c, o, b₂, b₂', he, he', h₂, h₂'⟩ := prevcEol_sameText (h₁.symm.trans h₁') c o n
  exact ⟨_, _, _, _, he, he', h₁.trans h₂, h₁.trans h₂'⟩

/-! A run that threads the buffer through its reads reads what the buffer it
started from holds: the values are those of the reads on that buffer. -/

theorem ebNextc_trace (h : b.SameText b') (offset : Int) (c : UInt32) (o : Int)
    (hc : (ebNextc b offset).1 = c ∧ (ebNextc b offset).2.1 = o) :
    ∃ b₁, ebNextc b' offset = (c, o, b₁) ∧ b.SameText b₁ := by
  obtain ⟨c', o', b₁, b₁', he, he', -, h₁'⟩ := ebNextc_sameText h offset
  rw [he] at hc
  obtain ⟨rfl, rfl⟩ := hc
  exact ⟨b₁', he', h₁'⟩

theorem ebPrevc_trace (h : b.SameText b') (offset : Int) (c : UInt32) (o : Int)
    (hc : (ebPrevc b offset).1 = c ∧ (ebPrevc b offset).2.1 = o) :
    ∃ b₁, ebPrevc b' offset = (c, o, b₁) ∧ b.SameText b₁ := by
  obtain ⟨c', o', b₁, b₁', he, he', -, h₁'⟩ := ebPrevc_sameText h offset
  rw [he] at hc
  obtain ⟨rfl, rfl⟩ := hc
  exact ⟨b₁', he', h₁'⟩

/-- `eb_nextc` only moves the cache. -/
theorem ebNextc_frame (hwf : b.WF) (offset : Int) : b.SameText (ebNextc b offset).2.2 := by
  obtain ⟨c, o, b₁, -, he, -, h₁, -⟩ := ebNextc_sameText (SameText.refl hwf) offset
  rw [he]
  exact h₁

/-- `eb_prevc` only moves the cache. -/
theorem ebPrevc_frame (hwf : b.WF) (offset : Int) : b.SameText (ebPrevc b offset).2.2 := by
  obtain ⟨c, o, b₁, -, he, -, h₁, -⟩ := ebPrevc_sameText (SameText.refl hwf) offset
  rw [he]
  exact h₁

end Chars

end Qemacs