import Qemacs.Buffer.Edit
import Qemacs.Charset.EightBit

/-!
# The paged buffer refines a flat byte list

The abstract buffer is a list of bytes and a read-only flag; `FlatText` gives
each edition function its meaning there, with the C conventions on `int`
arguments: negative offsets and sizes at most 0 are rejected, an insertion
past the end goes at the end, a deletion is clipped to the end, and a write
runs on past the end.

A buffer is `Reachable` from an empty or an mmap-loaded buffer by the edition
functions, `eb_insert_buffer` between two reachable buffers, and toggling the
read-only flag. Every reachable buffer keeps the page table invariant, so that
`find_page` answers as a walk from page 0, and every edition function on it
changes the bytes as `FlatText` says (`reachable_refinesFlat`).
-/

namespace Qemacs

/-! ## The abstract buffer -/

namespace FlatText

/-- Insertion of the first `size` bytes of `buf` at `offset`, clamped to the
end. -/
def insert (ro : Bool) (t : List UInt8) (offset : Int) (buf : List UInt8) (size : Int) :
    List UInt8 :=
  if ro ∨ offset < 0 ∨ size ≤ 0 then t
  else
    let o := (min offset t.length).toNat
    t.take o ++ buf.take size.toNat ++ t.drop o

/-- Deletion of the bytes in `[offset, offset + size)`, an offset inside the
text. -/
def delete (ro : Bool) (t : List UInt8) (offset size : Int) : List UInt8 :=
  if ro ∨ offset < 0 ∨ t.length ≤ offset ∨ size ≤ 0 then t
  else t.take offset.toNat ++ t.drop (offset + size).toNat

/-- The first `size` bytes of `buf` put at `offset`, over the bytes there and
past the end; the offset may be the end itself. -/
def write (ro : Bool) (t : List UInt8) (offset : Int) (buf : List UInt8) (size : Int) :
    List UInt8 :=
  if ro ∨ offset < 0 ∨ size ≤ 0 ∨ t.length < offset then t
  else t.take offset.toNat ++ buf.take size.toNat ++ t.drop (offset + size).toNat

/-- Insertion of the bytes of `s` in `[srcOffset, srcOffset + size)` at
`destOffset`, clamped to the end; the source offset must be inside `s`. -/
def insertBuffer (ro : Bool) (t : List UInt8) (destOffset : Int) (s : List UInt8)
    (srcOffset size : Int) : List UInt8 :=
  if ro ∨ destOffset < 0 ∨ srcOffset < 0 ∨ s.length ≤ srcOffset ∨ size ≤ 0 then t
  else
    let o := (min destOffset t.length).toNat
    t.take o ++ (s.drop srcOffset.toNat).take size.toNat ++ t.drop o

/-- A write when the sizes agree, a deletion and an insertion otherwise. -/
def replace (ro : Bool) (t : List UInt8) (offset size : Int) (buf : List UInt8) (size1 : Int) :
    List UInt8 :=
  if size = size1 then write ro t offset buf size1
  else insert ro (delete ro t offset size) offset buf size1

end FlatText

/-! ## Reachable buffers -/

/-- The pages `eb_mmap_buffer` builds over a file: read-only pages of
`MAX_PAGE_SIZE` bytes, the last one holding what is left. -/
def mmapPages (file : List UInt8) : List Page :=
  (newPages ((file.length + MAX_PAGE_SIZE - 1) / MAX_PAGE_SIZE) file).map
    fun p => { p with readOnly := true }

/-- `eb_mmap_buffer`: the buffer's pages become those mapped over the file.
The page cache is left as it is. -/
def ebMmapBuffer (b : EditBuffer) (file : List UInt8) : EditBuffer :=
  { b with pages := mmapPages file, totalSize := file.length }

/-- `do_toggle_read_only`. -/
def doToggleReadOnly (b : EditBuffer) : EditBuffer := { b with readOnly := !b.readOnly }

/-- The buffers reachable from a new or an mmap-loaded buffer. Both buffers of
`eb_insert_buffer` are reachable and distinct, and the source changes too: its
page cache moves. A `(buf, size)` argument holds `size` bytes. -/
inductive Reachable : EditBuffer → Prop
  | empty (charset : QECharset) (eolType : EOLType) : Reachable (EditBuffer.empty charset eolType)
  | mmap (charset : QECharset) (eolType : EOLType) (file : List UInt8) :
      Reachable (ebMmapBuffer (EditBuffer.empty charset eolType) file)
  | toggleReadOnly {b : EditBuffer} : Reachable b → Reachable (doToggleReadOnly b)
  | insert {b : EditBuffer} (offset : Int) (buf : List UInt8) (size : Int) :
      Reachable b → Reachable (ebInsert b offset buf size).2
  | delete {b : EditBuffer} (offset size : Int) :
      Reachable b → Reachable (ebDelete b offset size).2
  | write {b : EditBuffer} (offset : Int) (buf : List UInt8) (size : Int) :
      size ≤ buf.length → Reachable b → Reachable (ebWrite b offset buf size).2
  | insertBuffer {dest src : EditBuffer} (destOffset srcOffset size : Int) :
      Reachable dest → Reachable src →
        Reachable (ebInsertBuffer dest destOffset src srcOffset size).2.1
  | insertBufferSrc {dest src : EditBuffer} (destOffset srcOffset size : Int) :
      Reachable dest → Reachable src →
        Reachable (ebInsertBuffer dest destOffset src srcOffset size).2.2
  | replace {b : EditBuffer} (offset size : Int) (buf : List UInt8) (size1 : Int) :
      size1 ≤ buf.length → Reachable b → Reachable (ebReplace b offset size buf size1).2

/-! ## Each function refines its flat meaning -/

section Refines

variable {b : EditBuffer}

theorem mmap_wf (charset : QECharset) (eolType : EOLType) (file : List UInt8) :
    (ebMmapBuffer (EditBuffer.empty charset eolType) file).WF where
  pages_ok := by
    intro p hp
    obtain ⟨q, hq, rfl⟩ := List.mem_map.mp hp
    exact newPages_count_ok file q hq
  total := by
    show file.length = (flat (mmapPages file)).length
    have h := congrArg List.length (flat_newPages_count file)
    rw [← total_eq_length_flat] at h ⊢
    simp only [mmapPages, Chunks.total, List.map_map, Function.comp_def, Page.size] at h ⊢
    exact h.symm
  cache := by
    intro cp h
    cases h

theorem toggleReadOnly_wf (hwf : b.WF) : (doToggleReadOnly b).WF :=
  hwf.of_sizes rfl rfl rfl rfl

theorem ebDelete_readOnly (hwf : b.WF) (offset size : Int) :
    (ebDelete b offset size).2.readOnly = b.readOnly := by
  unfold ebDelete
  split
  · rfl
  split
  · rfl
  -- `find_page` and the log record leave the flag alone
  simp only [findPage_eq]
  exact (ebAddlog_frame hwf _ _ _).1.readOnly

theorem ebInsert_refines (hwf : b.WF) (offset : Int) (buf : List UInt8) (size : Int) :
    (ebInsert b offset buf size).2.content =
      FlatText.insert b.readOnly b.content offset buf size := by
  have hneg : min offset (b.totalSize : Int) < 0 ↔ offset < 0 := by omega
  rw [(ebInsert_spec hwf offset buf size).1, FlatText.insert, ← hwf.totalSize_eq]
  simp only [hneg]

theorem ebDelete_refines (hwf : b.WF) (offset size : Int) :
    (ebDelete b offset size).2.content = FlatText.delete b.readOnly b.content offset size := by
  rw [(ebDelete_spec hwf offset size).1, FlatText.delete, ← hwf.totalSize_eq]
  split
  · rfl
  · -- past the end, the clipped and the unclipped deletion drop the same bytes
    congr 1
    apply List.drop_eq_drop_iff.mpr
    have := hwf.totalSize_eq
    omega

theorem ebWrite_refines (hwf : b.WF) (offset : Int) (buf : List UInt8) (size : Int)
    (hbuf : size ≤ buf.length) :
    (ebWrite b offset buf size).2.content = FlatText.write b.readOnly b.content offset buf size := by
  rw [(ebWrite_spec hwf offset buf size hbuf).1, FlatText.write, ← hwf.totalSize_eq]
  split
  · rfl
  · congr 2
    omega

theorem ebInsertBuffer_refines {dest src : EditBuffer} (hd : dest.WF) (hs : src.WF)
    (destOffset srcOffset size : Int) :
    (ebInsertBuffer dest destOffset src srcOffset size).2.1.content =
      FlatText.insertBuffer dest.readOnly dest.content destOffset src.content srcOffset size := by
  rw [(ebInsertBuffer_spec hd hs destOffset srcOffset size).1, FlatText.insertBuffer,
    ← hd.totalSize_eq, ← hs.totalSize_eq]
  -- inside the source, a size clipped to its end reads the same bytes
  by_cases hin : srcOffset < 0 ∨ (src.totalSize : Int) ≤ srcOffset
  · have h1 : dest.readOnly = true ∨ destOffset < 0 ∨ srcOffset < 0 ∨
        (src.totalSize : Int) ≤ srcOffset ∨ min size ((src.totalSize : Int) - srcOffset) ≤ 0 := by
      omega
    have h2 : dest.readOnly = true ∨ destOffset < 0 ∨ srcOffset < 0 ∨
        (src.totalSize : Int) ≤ srcOffset ∨ size ≤ 0 := by
      omega
    rw [if_pos h1, if_pos h2]
  · have hsz : min size ((src.totalSize : Int) - srcOffset) ≤ 0 ↔ size ≤ 0 := by omega
    simp only [hsz]
    split
    · rfl
    · congr 2
      apply List.take_eq_take_iff.mpr
      have := hs.totalSize_eq
      simp only [List.length_drop]
      omega

theorem ebReplace_refines (hwf : b.WF) (offset size : Int) (buf : List UInt8) (size1 : Int)
    (hbuf : size1 ≤ buf.length) :
    (ebReplace b offset size buf size1).2.content =
      FlatText.replace b.readOnly b.content offset size buf size1 := by
  unfold ebReplace FlatText.replace
  split
  · exact ebWrite_refines hwf offset buf size1 hbuf
  · have hwf' := (ebDelete_spec hwf offset size).2
    rw [ebInsert_refines hwf' offset buf size1, ebDelete_readOnly hwf offset size,
      ebDelete_refines hwf offset size]

theorem ebReplace_wf (hwf : b.WF) (offset size : Int) (buf : List UInt8) (size1 : Int)
    (hbuf : size1 ≤ buf.length) : (ebReplace b offset size buf size1).2.WF := by
  unfold ebReplace
  split
  · exact (ebWrite_spec hwf offset buf size1 hbuf).2
  · exact (ebInsert_spec (ebDelete_spec hwf offset size).2 offset buf size1).2

end Refines

/-! ## Every reachable buffer -/

/-- The page table invariant holds in every reachable buffer: one case per
function, each the invariant part of its specification. -/
theorem reachable_wf {b : EditBuffer} (h : Reachable b) : b.WF := by
  induction h with
  | empty charset eolType => exact EditBuffer.empty_wf charset eolType
  | mmap charset eolType file => exact mmap_wf charset eolType file
  | toggleReadOnly _ ih => exact toggleReadOnly_wf ih
  | insert offset buf size _ ih => exact (ebInsert_spec ih offset buf size).2
  | delete offset size _ ih => exact (ebDelete_spec ih offset size).2
  | write offset buf size hbuf _ ih => exact (ebWrite_spec ih offset buf size hbuf).2
  | insertBuffer destOffset srcOffset size _ _ ihd ihs =>
    exact (ebInsertBuffer_spec ihd ihs destOffset srcOffset size).2.1
  | insertBufferSrc destOffset srcOffset size _ _ ihd ihs =>
    exact (ebInsertBuffer_spec ihd ihs destOffset srcOffset size).2.2.1
  | replace offset size buf size1 hbuf _ ih => exact ebReplace_wf ih offset size buf size1 hbuf

/-- The refinement at one buffer: the page table invariant, `find_page`
answering as a walk from page 0, and each edition function changing the bytes
as its flat meaning says. -/
structure EditBuffer.RefinesFlat (b : EditBuffer) : Prop where
  wf : b.WF
  findPage_walk : ∀ offset,
    ((findPage b offset).1, (findPage b offset).2.1) = Chunks.walk Page.size b.pages offset
  insert : ∀ offset buf size,
    (ebInsert b offset buf size).2.content = FlatText.insert b.readOnly b.content offset buf size
  delete : ∀ offset size,
    (ebDelete b offset size).2.content = FlatText.delete b.readOnly b.content offset size
  write : ∀ offset buf size, size ≤ buf.length →
    (ebWrite b offset buf size).2.content = FlatText.write b.readOnly b.content offset buf size
  insertBuffer : ∀ src, Reachable src → ∀ destOffset srcOffset size,
    (ebInsertBuffer b destOffset src srcOffset size).2.1.content =
      FlatText.insertBuffer b.readOnly b.content destOffset src.content srcOffset size
  replace : ∀ offset size buf size1, size1 ≤ buf.length →
    (ebReplace b offset size buf size1).2.content =
      FlatText.replace b.readOnly b.content offset size buf size1

theorem reachable_refinesFlat {b : EditBuffer} (h : Reachable b) : b.RefinesFlat where
  wf := reachable_wf h
  findPage_walk _ := findPage_eq_walk (reachable_wf h).cache
  insert := ebInsert_refines (reachable_wf h)
  delete := ebDelete_refines (reachable_wf h)
  write := ebWrite_refines (reachable_wf h)
  insertBuffer _ hs := ebInsertBuffer_refines (reachable_wf h) (reachable_wf hs)
  replace := ebReplace_refines (reachable_wf h)

/-- A buffer after an insertion of three bytes into the empty buffer, then the deletion of
the middle one and an overwrite at its end. -/
theorem edits_refinesFlat :
    (ebWrite (ebDelete (ebInsert (EditBuffer.empty charset_raw .unix) 0 [1, 2, 3] 3).2 1 1).2
      2 [4, 5] 2).2.RefinesFlat :=
  reachable_refinesFlat
    (.write 2 [4, 5] 2 le_rfl (.delete 1 1 (.insert 0 [1, 2, 3] 3 (.empty charset_raw .unix))))

unseal lineScan shiftLoop in
/-- An insertion past the end of a reachable buffer is not rejected: the bytes
go at the end. -/
theorem ebInsert_past_end :
    Reachable (ebInsert (EditBuffer.empty charset_raw .unix) 0 [1] 1).2 ∧
      (ebInsert (EditBuffer.empty charset_raw .unix) 0 [1] 1).2.content = [1] ∧
      (ebInsert (ebInsert (EditBuffer.empty charset_raw .unix) 0 [1] 1).2 5 [2] 1).2.content =
        [1, 2] :=
  ⟨.insert 0 [1] 1 (.empty charset_raw .unix), by decide, by decide⟩

end Qemacs
