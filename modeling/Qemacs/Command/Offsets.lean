import Qemacs.Command.Kill
import Qemacs.Buffer.Notify
import Qemacs.Lib.Splice

/-!
# Offsets that follow their character

`eb_offset_callback` (buffer.c) keeps an offset registered on a buffer, such
as the point, the mark, a window's first line or the shell cursor, in step
with the text: each change of the buffer notifies the callbacks of an
insertion or a deletion, and the offset moves on past inserted text and back
over deleted text. An overwrite notifies a write, which moves nothing.

The abstract layer says what a notification means: where each byte of the text
goes (`EditEvent.moveByte`, `none` for a byte deleted or overwritten) and the
size of the text after it. A list of notifications describes the change of a
text into another when each fits the text of its time and each byte kept is
read where its notification puts it (`Describes`). Over any such list the
offset stays inside the text and moves with its byte, except that an insertion
right at it leaves an offset registered without `edge` in front of the
inserted text (`Describes.follows`).

Each function that changes a buffer sends notifications that describe its
change: `eb_insert`, `eb_delete`, `eb_write`, `eb_replace`,
`eb_insert_buffer`, `eb_insert_buffer_convert`, and the replays of `do_undo`
and `do_redo` of a record that fits the buffer.
-/

namespace Qemacs

/-! ## What a notification says -/

namespace EditEvent

/-- The bytes the change takes out of the text, from its offset. -/
def removed (e : EditEvent) : Int :=
  match e.op with
  | .delete | .write => e.size
  | .insert | .free => 0

/-- The bytes the change puts in their place. -/
def added (e : EditEvent) : Int :=
  match e.op with
  | .insert | .write => e.size
  | .delete | .free => 0

/-- Where the byte at `q` is after the change notified; `none` for a byte
the change deletes or overwrites. -/
def moveByte (e : EditEvent) (q : Int) : Option Int :=
  if q < e.offset then some q
  else if q < e.offset + e.removed then none
  else some (q - e.removed + e.added)

/-- The size of a text of `n` bytes after the change notified. -/
def resize (e : EditEvent) (n : Int) : Int := n - e.removed + e.added

/-- The change notified fits a text of `n` bytes: the bytes it takes out are
bytes of the text. -/
def Fits (e : EditEvent) (n : Int) : Prop :=
  0 ≤ e.offset ∧ 0 ≤ e.size ∧ e.offset + e.removed ≤ n

/-- The notification describes the change of `t` into `t'`. -/
structure Describes (e : EditEvent) (t t' : List UInt8) : Prop where
  fits : e.Fits t.length
  length : (t'.length : Int) = e.resize t.length
  bytes : ∀ p q : Int, 0 ≤ p → p < t.length → e.moveByte p = some q → t'[q.toNat]? = t[p.toNat]?

theorem removed_nonneg {e : EditEvent} (hs : 0 ≤ e.size) : 0 ≤ e.removed := by
  unfold removed
  split <;> omega

theorem added_nonneg {e : EditEvent} (hs : 0 ≤ e.size) : 0 ≤ e.added := by
  unfold added
  split <;> omega

/-- The text with the bytes the change takes out replaced by those it puts
in, at the offset notified: a splice, described by the notification. -/
theorem Describes.splice {e : EditEvent} {t m : List UInt8} {i j : Nat} (hfit : e.Fits t.length)
    (hm : (m.length : Int) = e.added) (hi : (i : Int) = e.offset)
    (hj : (j : Int) = e.offset + e.removed) : e.Describes t (t.take i ++ m ++ t.drop j) where
  fits := hfit
  length := by
    obtain ⟨ho, hs, hend⟩ := hfit
    have := removed_nonneg hs
    rw [Splice.length t m (by omega) (by omega)]
    unfold resize
    omega
  bytes := by
    intro p q h0 hn hq
    obtain ⟨ho, hs, hend⟩ := hfit
    have := removed_nonneg hs
    unfold moveByte at hq
    split_ifs at hq with h1 h2
    · -- before the change
      cases hq
      exact Splice.getElem?_lt t m (by omega) (by omega)
    · -- after it, moved by what it adds and takes out
      cases hq
      have h := Splice.getElem?_ge t m (show i ≤ j by omega) (show j ≤ p.toNat by omega)
        (show p.toNat < t.length by omega)
      rw [← h]
      congr 1
      omega

/-- An insertion of `m` at an offset of the text. -/
theorem Describes.insert {t m : List UInt8} {offset size : Int} {i : Nat} (hi : (i : Int) = offset)
    (hle : offset ≤ t.length) (hm : (m.length : Int) = size) :
    EditEvent.Describes ⟨.insert, offset, size⟩ t (t.take i ++ m ++ t.drop i) :=
  .splice ⟨by dsimp only; omega, by dsimp only; omega, by simp only [removed]; omega⟩
    (by simp only [added]; omega) hi (by simp only [removed]; omega)

/-- A deletion of bytes of the text. -/
theorem Describes.delete {t : List UInt8} {offset size : Int} {i j : Nat} (hi : (i : Int) = offset)
    (hj : (j : Int) = offset + size) (hs : 0 ≤ size) (hle : offset + size ≤ t.length) :
    EditEvent.Describes ⟨.delete, offset, size⟩ t (t.take i ++ t.drop j) := by
  rw [← List.append_nil (t.take i)]
  exact .splice ⟨by dsimp only; omega, hs, by simp only [removed]; omega⟩
    (by simp only [added, List.length_nil]; omega) hi (by simp only [removed]; omega)

/-- A write of `m` over as many bytes of the text. -/
theorem Describes.write {t m : List UInt8} {offset size : Int} {i j : Nat} (hi : (i : Int) = offset)
    (hj : (j : Int) = offset + size) (hle : offset + size ≤ t.length) (hm : (m.length : Int) = size) :
    EditEvent.Describes ⟨.write, offset, size⟩ t (t.take i ++ m ++ t.drop j) :=
  .splice ⟨by dsimp only; omega, by dsimp only; omega, by simp only [removed]; omega⟩
    (by simp only [added]; omega) hi (by simp only [removed]; omega)

theorem moveByte_nonneg {e : EditEvent} {n p q : Int} (hfit : e.Fits n) (hp : 0 ≤ p)
    (hq : e.moveByte p = some q) : 0 ≤ q := by
  obtain ⟨ho, hs, -⟩ := hfit
  have := removed_nonneg hs
  have := added_nonneg hs
  unfold moveByte at hq
  split_ifs at hq <;> cases hq <;> omega

end EditEvent

/-- Where the byte at `q` is after the notifications `es`, in order. -/
def moveBytes : List EditEvent → Int → Option Int
  | [], q => some q
  | e :: es, q => (e.moveByte q).bind (moveBytes es)

/-- The notifications `es` describe the change of `t` into `t'`, through the
text of each time. -/
inductive Describes : List EditEvent → List UInt8 → List UInt8 → Prop
  | nil (t : List UInt8) : Describes [] t t
  | cons {e : EditEvent} {es : List EditEvent} {t t₁ t₂ : List UInt8} :
      e.Describes t t₁ → Describes es t₁ t₂ → Describes (e :: es) t t₂

theorem Describes.append {es es' : List EditEvent} {t t₁ t₂ : List UInt8}
    (h : Describes es t t₁) (h' : Describes es' t₁ t₂) : Describes (es ++ es') t t₂ := by
  induction h with
  | nil => exact h'
  | cons he _ ih => exact .cons he (ih h')

/-- No insertion is made right at the byte while an offset registered without
`edge` points at it. -/
def NotPushed (edge : Bool) : List EditEvent → Int → Prop
  | [], _ => True
  | e :: es, q => (edge = true ∨ ¬ (e.op = .insert ∧ e.offset = q ∧ 0 < e.size)) ∧
      ∀ q', e.moveByte q = some q' → NotPushed edge es q'

/-! ## One notification -/

section Callback

variable (edge : Bool) {e : EditEvent} {n p : Int}

/-- The offset stays inside the text. -/
theorem ebOffsetCallback_bounds (hfit : e.Fits n) (h0 : 0 ≤ p) (hn : p ≤ n) :
    0 ≤ ebOffsetCallback edge p e ∧ ebOffsetCallback edge p e ≤ e.resize n := by
  obtain ⟨ho, hs, hend⟩ := hfit
  unfold ebOffsetCallback EditEvent.resize
  unfold EditEvent.removed at hend
  unfold EditEvent.removed EditEvent.added
  cases h : e.op <;> simp only [h] at hend ⊢ <;> (try split_ifs) <;> exact ⟨by omega, by omega⟩

/-- The offset goes where its byte goes, unless an insertion is made right at
it and `edge` is not set. -/
theorem ebOffsetCallback_moveByte (hfit : e.Fits n) {q : Int} (hq : e.moveByte p = some q)
    (hpush : edge = true ∨ ¬ (e.op = .insert ∧ e.offset = p ∧ 0 < e.size)) :
    ebOffsetCallback edge p e = q := by
  obtain ⟨ho, hs, -⟩ := hfit
  unfold ebOffsetCallback
  unfold EditEvent.moveByte EditEvent.removed EditEvent.added at hq
  cases h : e.op with
  | insert =>
    simp only [h, Int.add_zero, Int.sub_zero] at hq hpush ⊢
    -- at the offset itself, only `edge` moves it
    cases edge <;>
      simp only [Bool.false_eq_true, false_or, true_or, and_true, and_false, ↓reduceIte,
        true_and] at hpush ⊢ <;>
      split_ifs at hq ⊢ <;> simp only [Option.some.injEq] at hq <;> omega
  | delete =>
    simp only [h, Int.add_zero] at hq ⊢
    split_ifs at hq <;> simp only [Option.some.injEq] at hq <;> subst hq <;>
      split_ifs <;> omega
  | write =>
    simp only [h] at hq ⊢
    split_ifs at hq <;> simp only [Option.some.injEq] at hq <;> omega
  | free =>
    simp only [h, Int.add_zero, Int.sub_zero] at hq ⊢
    split_ifs at hq <;> simp only [Option.some.injEq] at hq <;> omega

end Callback

/-! ## A run of notifications -/

section Run

variable {es : List EditEvent} {t t' : List UInt8}

theorem Describes.trackOffset_bounds (h : Describes es t t') (edge : Bool) :
    ∀ p : Int, 0 ≤ p → p ≤ t.length →
      0 ≤ trackOffset edge es p ∧ trackOffset edge es p ≤ t'.length := by
  induction h with
  | nil t => intro p h0 hn; exact ⟨h0, hn⟩
  | cons he _ ih =>
    intro p h0 hn
    have hb := ebOffsetCallback_bounds edge he.fits h0 hn
    exact ih _ hb.1 (by have := he.length; omega)

theorem Describes.follows (h : Describes es t t') (edge : Bool) :
    ∀ p q : Int, 0 ≤ p → p < t.length → moveBytes es p = some q → NotPushed edge es p →
      trackOffset edge es p = q ∧ t'[q.toNat]? = t[p.toNat]? := by
  induction h with
  | nil t =>
    intro p q _ _ hq _
    cases hq
    exact ⟨rfl, rfl⟩
  | @cons e es t t₁ t₂ he _ ih =>
    intro p q h0 hn hq hpush
    obtain ⟨q₁, hq₁, hrest⟩ := Option.bind_eq_some_iff.mp hq
    -- the byte is at `q₁` in the next text, and the offset with it
    have hcb := ebOffsetCallback_moveByte edge he.fits hq₁ hpush.1
    have hbyte := he.bytes p q₁ h0 hn hq₁
    have h0' := EditEvent.moveByte_nonneg he.fits h0 hq₁
    have hn' : q₁ < t₁.length := by
      have : t[p.toNat]?.isSome := by simp; omega
      rw [← hbyte] at this
      simp at this
      omega
    obtain ⟨htrack, hread⟩ := ih q₁ q h0' hn' hrest (hpush.2 q₁ hq₁)
    refine ⟨?_, hread.trans hbyte⟩
    show trackOffset edge es (ebOffsetCallback edge p e) = q
    rw [hcb, htrack]

end Run

/-! ## Each function notifies its change -/

open EditBuffer

/-- `b'` is `b` changed with the callbacks on: the notifications sent since
describe the change of the text, and `b'` keeps the page invariant. -/
structure Notifies (b b' : EditBuffer) : Prop where
  wf : b'.WF
  callbacks : b'.saveLog &&& 2 = 0
  describes : ∃ es, b'.events = b.events ++ es ∧ Describes es b.content b'.content

namespace Notifies

variable {b b₁ b₂ : EditBuffer}

theorem refl (hwf : b.WF) (hon : b.saveLog &&& 2 = 0) : Notifies b b :=
  ⟨hwf, hon, [], (List.append_nil _).symm, .nil _⟩

theorem trans (h : Notifies b b₁) (h' : Notifies b₁ b₂) : Notifies b b₂ := by
  obtain ⟨es, hev, hd⟩ := h.describes
  obtain ⟨es', hev', hd'⟩ := h'.describes
  exact ⟨h'.wf, h'.callbacks, es ++ es', by rw [hev', hev, List.append_assoc], hd.append hd'⟩

/-- What a function sends, when it describes its change. -/
theorem of_sends {es : List EditEvent} (h : b.Sends b₁ es) (hwf : b₁.WF)
    (hon : b.saveLog &&& 2 = 0) (hd : Describes es b.content b₁.content) : Notifies b b₁ :=
  ⟨hwf, h.saveLog ▸ hon, es, h.events, hd⟩

end Notifies

theorem Describes.single {e : EditEvent} {t t' : List UInt8} (h : e.Describes t t') :
    Describes [e] t t' :=
  .cons h (.nil _)

section Functions

variable {b : EditBuffer}

/-- `eb_insert` notifies the insertion of the bytes it puts in. -/
theorem ebInsert_notifies (hwf : b.WF) (hon : b.saveLog &&& 2 = 0) (offset : Int)
    (buf : List UInt8) (size : Int) (hbuf : size ≤ buf.length) :
    Notifies b (ebInsert b offset buf size).2 := by
  obtain ⟨hc, hwf'⟩ := ebInsert_spec hwf offset buf size
  refine .of_sends (ebInsert_sends b offset buf size) hwf' hon ?_
  rw [hc]
  split
  · exact .nil _
  · rename_i hcond
    have htot := hwf.totalSize_eq
    rw [notify_of_on hon]
    exact .single (.insert (by omega) (by omega) (by simp only [List.length_take]; omega))

/-- `eb_delete` notifies the deletion of the bytes it takes out. -/
theorem ebDelete_notifies (hwf : b.WF) (hon : b.saveLog &&& 2 = 0) (offset size : Int) :
    Notifies b (ebDelete b offset size).2 := by
  obtain ⟨hc, hwf'⟩ := ebDelete_spec hwf offset size
  refine .of_sends (ebDelete_sends b offset size) hwf' hon ?_
  rw [hc]
  split
  · exact .nil _
  · rename_i hcond
    have htot := hwf.totalSize_eq
    rw [notify_of_on hon]
    exact .single (.delete (by omega) (by omega) (by omega) (by omega))

/-- `eb_insert_buffer` notifies the insertion of the bytes it copies. -/
theorem ebInsertBuffer_notifies (hwf : b.WF) (hon : b.saveLog &&& 2 = 0) {src : EditBuffer}
    (hs : src.WF) (destOffset srcOffset size : Int) :
    Notifies b (ebInsertBuffer b destOffset src srcOffset size).2.1 := by
  obtain ⟨hc, hwf', -⟩ := ebInsertBuffer_spec hwf hs destOffset srcOffset size
  refine .of_sends (ebInsertBuffer_sends b destOffset src srcOffset size) hwf' hon ?_
  rw [hc]
  split
  · exact .nil _
  · rename_i hcond
    have htot := hwf.totalSize_eq
    have hstot := hs.totalSize_eq
    rw [notify_of_on hon]
    exact .single (.insert (by omega) (by omega)
      (by simp only [List.length_take, List.length_drop]; omega))

/-- `eb_write` notifies a write of the bytes it overwrites, then an insertion
of the rest at the end. -/
theorem ebWrite_notifies (hwf : b.WF) (hon : b.saveLog &&& 2 = 0) (offset : Int)
    (buf : List UInt8) (size : Int) (hbuf : size ≤ buf.length) :
    Notifies b (ebWrite b offset buf size).2 := by
  obtain ⟨hc, hwf'⟩ := ebWrite_spec hwf offset buf size hbuf
  refine .of_sends (ebWrite_sends b hwf offset buf size) hwf' hon ?_
  rw [hc]
  split
  · exact .nil _
  rename_i hcond
  have htot := hwf.totalSize_eq
  simp only [notify_of_on hon]
  have hws : 0 ≤ min size ((b.totalSize : Int) - offset) := by omega
  have hend : offset + min size ((b.totalSize : Int) - offset) ≤ b.content.length := by omega
  have hle : min size ((b.totalSize : Int) - offset) ≤ size := by omega
  -- past the end, the write stops at the end
  have hfull : min size ((b.totalSize : Int) - offset) < size →
      offset + min size ((b.totalSize : Int) - offset) = b.content.length := by omega
  generalize min size ((b.totalSize : Int) - offset) = ws at hws hend hle hfull ⊢
  -- the text between the two notifications: the bytes there are overwritten
  have hw1 : Describes (if 0 < ws then [⟨.write, offset, ws⟩] else []) b.content
      (b.content.take offset.toNat ++ buf.take ws.toNat ++
        b.content.drop (offset.toNat + ws.toNat)) := by
    split
    · exact .single (.write (by omega) (by omega) (by omega) (by simp only [List.length_take]; omega))
    · rw [show ws.toNat = 0 by omega, List.take_zero, List.append_nil, Nat.add_zero,
        List.take_append_drop]
      exact .nil _
  have hw2 : Describes (if ws < size then [⟨.insert, offset + ws, size - ws⟩] else [])
      (b.content.take offset.toNat ++ buf.take ws.toNat ++
        b.content.drop (offset.toNat + ws.toNat))
      (b.content.take offset.toNat ++ buf.take size.toNat ++
        b.content.drop (offset.toNat + size.toNat)) := by
    split
    · rename_i hlt
      have hnil : b.content.drop (offset.toNat + ws.toNat) = [] :=
        List.drop_eq_nil_of_le (by have := hfull hlt; omega)
      have hnil' : b.content.drop (offset.toNat + size.toNat) = [] :=
        List.drop_eq_nil_of_le (by have := hfull hlt; omega)
      have hlen : (b.content.take offset.toNat ++ buf.take ws.toNat).length =
          offset.toNat + ws.toNat := by
        simp only [List.length_append, List.length_take]
        omega
      -- the rest of `buf` goes at the end of the text
      have hsplit : b.content.take offset.toNat ++ buf.take size.toNat =
          (b.content.take offset.toNat ++ buf.take ws.toNat).take (offset.toNat + ws.toNat) ++
            (buf.drop ws.toNat).take (size - ws).toNat ++
            (b.content.take offset.toNat ++ buf.take ws.toNat).drop (offset.toNat + ws.toNat) := by
        rw [← hlen, List.take_length, List.drop_length, List.append_nil, List.append_assoc,
          ← List.take_add, show ws.toNat + (size - ws).toNat = size.toNat by omega]
      rw [hnil, hnil', List.append_nil, List.append_nil, hsplit]
      exact .single (.insert (by omega) (by rw [hlen]; omega)
        (by simp only [List.length_take, List.length_drop]; omega))
    · rw [show ws = size by omega]
      exact .nil _
  exact hw1.append hw2

/-- `eb_replace` notifies a write when the sizes agree, and otherwise the
deletion and the insertion it makes. -/
theorem ebReplace_notifies (hwf : b.WF) (hon : b.saveLog &&& 2 = 0) (offset size : Int)
    (buf : List UInt8) (size1 : Int) (hbuf : size1 ≤ buf.length) :
    Notifies b (ebReplace b offset size buf size1).2 := by
  unfold ebReplace
  split
  · exact ebWrite_notifies hwf hon offset buf size1 hbuf
  · have hd := ebDelete_notifies hwf hon offset size
    exact hd.trans (ebInsert_notifies hd.wf hd.callbacks offset buf size1 hbuf)

/-- The conversion loop of `eb_insert_buffer_convert` inserts each character
it encodes: one insertion notified for each. -/
theorem convertLoop_notifies (offsetMax offset1 : Int) :
    ∀ (fuel : Nat) (b src : EditBuffer) (offset size : Int) (r : Int × EditBuffer × EditBuffer),
      b.WF → b.saveLog &&& 2 = 0 →
        convertLoop offsetMax offset1 fuel b src offset size = some r → Notifies b r.2.1 := by
  intro fuel
  induction fuel with
  | zero =>
    intro b src offset size r _ _ h
    cases h
  | succ fuel ih =>
    intro b src offset size r hwf hon h
    unfold convertLoop at h
    split at h
    · generalize ebNextc src offset = x at h
      obtain ⟨c, offset', src'⟩ := x
      dsimp only at h
      have hi := ebInsert_notifies hwf hon (offset1 + size) (ebEncodeChar32 b c)
        (ebEncodeChar32 b c).length (Int.le_refl _)
      exact hi.trans (ih _ _ _ _ r hi.wf hi.callbacks h)
    · cases h
      exact .refl hwf hon

/-- `eb_insert_buffer_convert` notifies the insertions it makes in `dest`: one
per character when it converts in place, and one of the whole converted text
when it converts through a temporary buffer. -/
theorem ebInsertBufferConvert_notifies (hwf : b.WF) (hon : b.saveLog &&& 2 = 0)
    {src : EditBuffer} (hs : src.WF) (fuel : Nat) (destOffset srcOffset size : Int)
    (r : Int × EditBuffer × EditBuffer)
    (h : ebInsertBufferConvert fuel b destOffset src srcOffset size = some r) :
    Notifies b r.2.1 := by
  unfold ebInsertBufferConvert at h
  split at h
  · cases h
    exact ebInsertBuffer_notifies hwf hon hs _ _ _
  dsimp only at h
  split at h
  · cases h
  rename_i n b₁ src₁ hloop
  split at h
  · -- through a temporary buffer of the system, copied in at the end
    rename_i htmp
    rw [if_pos htmp, if_pos htmp] at hloop
    have ht := convertLoop_notifies _ _ fuel _ src srcOffset 0 _
      (systemBuffer_wf b.charset b.eolType) (show (0 : Nat) &&& 2 = 0 by decide) hloop
    cases h
    exact ebInsertBuffer_notifies hwf hon ht.wf _ _ _
  · rename_i htmp
    rw [if_neg htmp, if_neg htmp] at hloop
    cases h
    exact convertLoop_notifies _ _ fuel b src srcOffset 0 _ hwf hon hloop

end Functions

/-! ## The replays of `do_undo` and `do_redo` -/

/-- The record fits the buffer it is replayed on: the bytes a deletion record
puts back are those it saved, at an offset of a writable text, and the bytes a
write record puts back replace as many bytes of the text. -/
def LogRecord.FitsIn (lb : LogRecord) (b : EditBuffer) : Prop :=
  match lb.op with
  | .delete =>
    b.readOnly = false ∧ 0 ≤ lb.offset ∧ lb.offset ≤ b.totalSize ∧ (lb.data.length : Int) = lb.size
  | .write => 0 ≤ lb.offset ∧ lb.offset + lb.size ≤ b.totalSize ∧ (lb.data.length : Int) = lb.size
  | .insert | .free => True

/-- Every record of the log fits the buffer. -/
def LogFits (b : EditBuffer) : Prop := ∀ lb ∈ b.logBuffer.getD [], lb.FitsIn b

section Replay

variable {b b₁ b₂ : EditBuffer}

theorem logSource_wf (lb : LogRecord) : (logSource lb).WF where
  pages_ok := newPages_count_ok lb.data
  total := by
    show lb.data.length = (flat (newPages _ lb.data)).length
    rw [flat_newPages_count]
  cache := by
    intro cp h
    cases h

theorem logSource_content (lb : LogRecord) : (logSource lb).content = lb.data :=
  flat_newPages_count lb.data

theorem insertFromLog_wf (hwf : b.WF) (lb : LogRecord) : (insertFromLog b lb).WF :=
  (ebInsertBuffer_spec hwf (logSource_wf lb) lb.offset 0 lb.size).2.1

/-- The saved bytes of a record go back at its offset. -/
theorem insertFromLog_content (hwf : b.WF) (lb : LogRecord) (hro : b.readOnly = false)
    (h0 : 0 ≤ lb.offset) (hle : lb.offset ≤ b.totalSize) (hsize : (lb.data.length : Int) = lb.size) :
    (insertFromLog b lb).content =
      b.content.take lb.offset.toNat ++ lb.data ++ b.content.drop lb.offset.toNat := by
  unfold insertFromLog
  rw [(ebInsertBuffer_spec hwf (logSource_wf lb) lb.offset 0 lb.size).1, logSource_content]
  have htot : ((logSource lb).totalSize : Int) = lb.data.length := rfl
  split
  · -- nothing saved: nothing put back
    rename_i hcond
    simp only [hro, Bool.false_eq_true, false_or] at hcond
    have hnil : lb.data = [] := List.eq_nil_of_length_eq_zero (by omega)
    rw [hnil, List.append_nil, List.take_append_drop]
  · rw [Int.min_eq_left hle, Int.toNat_zero, List.drop_zero,
      show (min lb.size ((logSource lb).totalSize - 0)).toNat = lb.data.length by omega,
      List.take_length]

/-- A record updated in its log fields, its modified flag or its log bit only
notifies nothing more. -/
theorem Notifies.quiet (h : Notifies b b₁) {b₂ : EditBuffer} (hp : b₂.pages = b₁.pages)
    (ht : b₂.totalSize = b₁.totalSize) (hcp : b₂.curPage = b₁.curPage)
    (hco : b₂.curOffset = b₁.curOffset) (hev : b₂.events = b₁.events)
    (hon : b₂.saveLog &&& 2 = 0) : Notifies b b₂ := by
  obtain ⟨es, hes, hd⟩ := h.describes
  refine ⟨h.wf.of_sizes (by rw [hp]) ht hcp hco, hon, es, by rw [hev, hes], ?_⟩
  rwa [EditBuffer.content_eq_flat b₂, hp]

/-- A change made with the callbacks off, sent as one notification once they
are on again. -/
theorem Notifies.of_silent (e : EditEvent) (hwf₁ : b₁.WF) (hev : b₁.events = b.events) {m : Nat}
    (hon : m &&& 2 = 0) (hd : e.Describes b.content b₁.content) :
    Notifies b (ebAddlog { b₁ with saveLog := m } e.op e.offset e.size) := by
  have hwf₂ : ({ b₁ with saveLog := m } : EditBuffer).WF := hwf₁.of_sizes rfl rfl rfl rfl
  obtain ⟨hsame, hwf'⟩ := ebAddlog_frame hwf₂ e.op e.offset e.size
  have hs := ebAddlog_sends { b₁ with saveLog := m } e.op e.offset e.size
  rw [notify_of_on hon] at hs
  refine ⟨hwf', hsame.saveLog ▸ hon, [e], by rw [hs.events]; exact congrArg (· ++ [e]) hev, ?_⟩
  rw [EditBuffer.content_eq_flat (ebAddlog { b₁ with saveLog := m } e.op e.offset e.size),
    hsame.pages]
  exact .single hd

/-- With the callbacks off, the bytes a deletion record saved go back at its
offset, and the insertion is sent afterwards. -/
theorem putBack_notifies (hwf : b.WF) {lb : LogRecord} (hop : lb.op = .delete)
    (hfit : lb.FitsIn b) {m : Nat} (hon : m &&& 2 = 0) :
    Notifies b (ebAddlog { insertFromLog { b with saveLog := b.saveLog ||| 2 } lb with saveLog := m }
      .insert lb.offset lb.size) := by
  simp only [LogRecord.FitsIn, hop] at hfit
  obtain ⟨hro, h0, hle, hsize⟩ := hfit
  have hwf₁ : ({ b with saveLog := b.saveLog ||| 2 } : EditBuffer).WF := hwf.of_sizes rfl rfl rfl rfl
  have hoff : ({ b with saveLog := b.saveLog ||| 2 } : EditBuffer).saveLog &&& 2 ≠ 0 :=
    or_two_off b.saveLog
  have hs := insertFromLog_sends_off _ hoff lb
  have hc := insertFromLog_content hwf₁ lb hro h0 hle hsize
  have hev : (insertFromLog { b with saveLog := b.saveLog ||| 2 } lb).events = b.events :=
    hs.events.trans (List.append_nil _)
  refine Notifies.of_silent ⟨.insert, lb.offset, lb.size⟩ (insertFromLog_wf hwf₁ lb) hev hon ?_
  rw [hc]
  have htot := hwf.totalSize_eq
  exact .insert (by omega) (by omega) hsize

/-- `eb_delete` of bytes of a writable text takes them out. -/
theorem ebDelete_content_of_le (hwf : b.WF) (hro : b.readOnly = false) {offset size : Int}
    (h0 : 0 ≤ offset) (hs : 0 ≤ size) (hle : offset + size ≤ b.totalSize) :
    (ebDelete b offset size).2.content =
      b.content.take offset.toNat ++ b.content.drop (offset + size).toNat := by
  rw [(ebDelete_spec hwf offset size).1]
  split
  · -- nothing to take out: the text is cut and put together again
    rename_i hcond
    simp only [hro, Bool.false_eq_true, false_or] at hcond
    rw [show (offset + size).toNat = offset.toNat by omega, List.take_append_drop]
  · rw [show offset.toNat + (min size ((b.totalSize : Int) - offset)).toNat = (offset + size).toNat
      by omega]

/-- With the callbacks off, the bytes a write record saved replace those at its
offset, and the write is sent afterwards. -/
theorem rewrite_notifies (hwf : b.WF) {lb : LogRecord} (hop : lb.op = .write)
    (hfit : lb.FitsIn b) {m : Nat} (hon : m &&& 2 = 0) :
    Notifies b (ebAddlog { insertFromLog (ebDelete { b with saveLog := b.saveLog ||| 2 }
      lb.offset lb.size).2 lb with saveLog := m } .write lb.offset lb.size) := by
  simp only [LogRecord.FitsIn, hop] at hfit
  obtain ⟨h0, hle, hsize⟩ := hfit
  have htot := hwf.totalSize_eq
  have hwf₁ : ({ b with saveLog := b.saveLog ||| 2 } : EditBuffer).WF := hwf.of_sizes rfl rfl rfl rfl
  have hoff : ({ b with saveLog := b.saveLog ||| 2 } : EditBuffer).saveLog &&& 2 ≠ 0 :=
    or_two_off b.saveLog
  -- the deletion and the insertion, both silent
  have hs₂ := ebDelete_sends_off _ hoff lb.offset lb.size
  have hwf₂ := (ebDelete_spec hwf₁ lb.offset lb.size).2
  have hs₃ := insertFromLog_sends_off _ (hs₂.saveLog ▸ hoff) lb
  have hev : (insertFromLog (ebDelete { b with saveLog := b.saveLog ||| 2 }
      lb.offset lb.size).2 lb).events = b.events := by
    rw [hs₃.events, hs₂.events, List.append_nil, List.append_nil]
  refine Notifies.of_silent ⟨.write, lb.offset, lb.size⟩ (insertFromLog_wf hwf₂ lb) hev hon ?_
  rcases Bool.eq_false_or_eq_true b.readOnly with hro | hro
  swap
  · -- the saved bytes are put back in place of those there
    have hc₂ := ebDelete_content_of_le hwf₁ hro h0 (by omega) hle
    rw [show ({ b with saveLog := b.saveLog ||| 2 } : EditBuffer).content = b.content from rfl] at hc₂
    have hro₂ : (ebDelete { b with saveLog := b.saveLog ||| 2 } lb.offset lb.size).2.readOnly =
        false := hs₂.readOnly.trans hro
    have htot₂ := hwf₂.totalSize_eq
    rw [hc₂] at htot₂
    simp only [List.length_append, List.length_take, List.length_drop] at htot₂
    rw [insertFromLog_content hwf₂ lb hro₂ h0 (by omega) hsize, hc₂]
    have hlen : (b.content.take lb.offset.toNat).length = lb.offset.toNat := by
      simp only [List.length_take]
      omega
    rw [List.take_left' hlen, List.drop_left' hlen]
    exact .write (by omega) (by omega) (by omega) hsize
  · -- a read-only text keeps its bytes, and a write moves none
    have hc₂ : (ebDelete { b with saveLog := b.saveLog ||| 2 } lb.offset lb.size).2.content =
        b.content := by
      rw [(ebDelete_spec hwf₁ lb.offset lb.size).1, if_pos (Or.inl hro)]
      rfl
    have hc₃ : (insertFromLog (ebDelete { b with saveLog := b.saveLog ||| 2 }
        lb.offset lb.size).2 lb).content = b.content := by
      unfold insertFromLog
      rw [(ebInsertBuffer_spec hwf₂ (logSource_wf lb) lb.offset 0 lb.size).1,
        if_pos (Or.inl (hs₂.readOnly.trans hro)), hc₂]
    rw [hc₃]
    have hsplit : b.content = b.content.take lb.offset.toNat ++
        (b.content.drop lb.offset.toNat).take lb.size.toNat ++
          b.content.drop (lb.offset + lb.size).toNat := by
      rw [← List.take_add, show lb.offset.toNat + lb.size.toNat = (lb.offset + lb.size).toNat by
        omega, List.take_append_drop]
    have hd : EditEvent.Describes ⟨.write, lb.offset, lb.size⟩ b.content
        (b.content.take lb.offset.toNat ++ (b.content.drop lb.offset.toNat).take lb.size.toNat ++
          b.content.drop (lb.offset + lb.size).toNat) := by
      exact .write (by omega) (by omega) (by omega)
        (by simp only [List.length_take, List.length_drop]; omega)
    rwa [← hsplit] at hd

theorem Notifies.of_start (h : Notifies b₁ b₂) (hev : b₁.events = b.events)
    (hc : b₁.content = b.content) : Notifies b b₂ := by
  obtain ⟨es, hes, hd⟩ := h.describes
  exact ⟨h.wf, h.callbacks, es, by rw [hes, hev], hc ▸ hd⟩

/-- The log bit set again after a redo notifies nothing. -/
theorem Notifies.setLogBit (h : Notifies b b₁) :
    Notifies b { b₁ with saveLog := b₁.saveLog ||| 1 } :=
  h.quiet rfl rfl rfl rfl rfl (by
    show (b₁.saveLog ||| 1) &&& 2 = 0
    rw [or_one_and_two]
    exact h.callbacks)

theorem LogRecord.FitsIn.of_flags {lb : LogRecord} (h : lb.FitsIn b) (hro : b₁.readOnly = b.readOnly)
    (ht : b₁.totalSize = b.totalSize) : lb.FitsIn b₁ := by
  unfold LogRecord.FitsIn at h ⊢
  rw [hro, ht]
  exact h

theorem logStarts_mem {log : List LogRecord} {pos : Int} {e : Int × LogRecord}
    (h : e ∈ logStarts log pos) : e.2 ∈ log := by
  induction log generalizing pos with
  | nil => cases h
  | cons r rs ih =>
    simp only [logStarts, List.mem_cons] at h
    rcases h with rfl | h
    · exact List.mem_cons_self
    · exact List.mem_cons_of_mem _ (ih h)

theorem recordBefore_mem {log : List LogRecord} {index start : Int} {lb : LogRecord}
    (h : recordBefore log index = some (start, lb)) : lb ∈ log :=
  logStarts_mem (List.mem_of_find?_eq_some h)

/-- A replay of `do_undo` notifies the inverse of the record, when the record
fits the buffer. -/
theorem undoPlay_notifies (hwf : b.WF) (hon : b.saveLog &&& 2 = 0) {lb : LogRecord}
    (hfit : lb.FitsIn b) {r : EditBuffer × Int} (h : undoPlay b lb = some r) : Notifies b r.1 := by
  unfold undoPlay at h
  cases hop : lb.op with
  | write =>
    simp only [hop] at h
    cases h
    exact rewrite_notifies hwf hop hfit (clearBits_two_on _)
  | delete =>
    simp only [hop] at h
    cases h
    exact putBack_notifies hwf hop hfit (clearBits_two_on _)
  | insert =>
    simp only [hop] at h
    cases h
    exact ebDelete_notifies hwf hon _ _
  | free =>
    simp only [hop] at h
    cases h

/-- A replay of `do_redo` notifies the record itself, when it fits the buffer. -/
theorem redoPlay_notifies (hwf : b.WF) (hon : b.saveLog &&& 2 = 0) {lb : LogRecord}
    (hfit : lb.FitsIn b) {r : EditBuffer × Int} (h : redoPlay b lb = some r) : Notifies b r.1 := by
  unfold redoPlay at h
  cases hop : lb.op with
  | write =>
    simp only [hop] at h
    cases h
    exact (rewrite_notifies hwf hop hfit (clearBits_three_on _)).setLogBit
  | delete =>
    simp only [hop] at h
    cases h
    exact (putBack_notifies hwf hop hfit (clearBits_three_on _)).setLogBit
  | insert =>
    simp only [hop] at h
    cases h
    -- the log bit is cleared, the callbacks stay on
    have hon₁ : ({ b with saveLog := clearBits b.saveLog 1 } : EditBuffer).saveLog &&& 2 = 0 := by
      show clearBits b.saveLog 1 &&& 2 = 0
      rw [clearBits_one_and_two]
      exact hon
    have hwf₁ : ({ b with saveLog := clearBits b.saveLog 1 } : EditBuffer).WF :=
      hwf.of_sizes rfl rfl rfl rfl
    have h1 : Notifies b (ebDelete { b with saveLog := clearBits b.saveLog 1 } lb.offset lb.size).2 :=
      (ebDelete_notifies hwf₁ hon₁ _ _).of_start rfl rfl
    exact h1.setLogBit
  | free =>
    simp only [hop] at h
    cases h

/-- Moving the log position notifies nothing. -/
theorem Notifies.setLogCurrent (h : Notifies b b₁) (n : Int) :
    Notifies b { b₁ with logCurrent := n } :=
  h.quiet rfl rfl rfl rfl rfl h.callbacks

/-- The log position at the start of `do_undo` and `do_redo`: kept after an
undo or a redo, reset otherwise. -/
theorem Notifies.resetLog (hwf : b.WF) (hon : b.saveLog &&& 2 = 0) (lastUndoRedo : Bool) :
    ∃ b₁, (if lastUndoRedo then b else { b with logCurrent := 0 }) = b₁ ∧ Notifies b b₁ ∧
      b₁.readOnly = b.readOnly ∧ b₁.totalSize = b.totalSize ∧ b₁.logBuffer = b.logBuffer := by
  split
  · exact ⟨b, rfl, .refl hwf hon, rfl, rfl, rfl⟩
  · exact ⟨_, rfl, (Notifies.refl hwf hon).setLogCurrent 0, rfl, rfl, rfl⟩

/-- `do_undo` notifies the inverse of the record it replays, when the records
of the log fit the buffer. -/
theorem doUndo_notifies (hwf : b.WF) (hon : b.saveLog &&& 2 = 0) (hfit : LogFits b)
    (lastUndoRedo : Bool) : Notifies b (doUndo b lastUndoRedo).1 := by
  unfold doUndo
  split
  · exact .refl hwf hon
  rename_i log hlog
  obtain ⟨b₁, hb₁, h1, hro₁, ht₁, -⟩ := Notifies.resetLog hwf hon lastUndoRedo
  dsimp only
  rw [hb₁]
  generalize (if b₁.logCurrent = 0 then b₁.logNewIndex else b₁.logCurrent - 1) = logIndex
  split
  · exact h1
  split
  · exact h1
  rename_i start lb hrec
  have h2 : Notifies b { b₁ with logCurrent := start + 1, lastLog := .free } :=
    h1.quiet rfl rfl rfl rfl rfl h1.callbacks
  have hfit₂ : lb.FitsIn { b₁ with logCurrent := start + 1, lastLog := .free } :=
    (hfit lb (by rw [hlog, Option.getD_some]; exact recordBefore_mem hrec)).of_flags hro₁ ht₁
  split
  · exact h2
  · rename_i b₃ offset hplay
    have h3 := h2.trans (undoPlay_notifies h2.wf h2.callbacks hfit₂ hplay)
    exact h3.quiet rfl rfl rfl rfl rfl h3.callbacks

/-- `do_redo` notifies the record it replays, when the records of the log fit
the buffer. -/
theorem doRedo_notifies (hwf : b.WF) (hon : b.saveLog &&& 2 = 0) (hfit : LogFits b)
    (lastUndoRedo : Bool) : Notifies b (doRedo b lastUndoRedo).1 := by
  unfold doRedo
  split
  · exact .refl hwf hon
  rename_i log hlog
  obtain ⟨b₁, hb₁, h1, hro₁, ht₁, -⟩ := Notifies.resetLog hwf hon lastUndoRedo
  dsimp only
  rw [hb₁]
  split
  · exact h1
  split
  · rename_i cur start lb hcur hrec
    have hfit₁ : lb.FitsIn b₁ :=
      (hfit lb (by rw [hlog, Option.getD_some]; exact recordBefore_mem hrec)).of_flags hro₁ ht₁
    split
    · exact h1.setLogCurrent _
    · rename_i b₃ offset hplay
      obtain ⟨n, hn⟩ : ∃ n, redoPlay { b₁ with logCurrent := n } lb = some (b₃, offset) :=
        ⟨_, hplay⟩
      have h3 := (h1.setLogCurrent n).trans (redoPlay_notifies (h1.setLogCurrent n).wf
        (h1.setLogCurrent n).callbacks (hfit₁.of_flags rfl rfl) hn)
      -- the undo record goes, and the log position with it
      split <;> exact h3.quiet rfl rfl rfl rfl rfl h3.callbacks
  · exact h1

end Replay

/-! ## Runs of functions -/

/-- The notifications `b'` sent since it was `b`. -/
def EditBuffer.sentSince (b b' : EditBuffer) : List EditEvent := b'.events.drop b.events.length

/-- The functions of a buffer that an offset follows. -/
inductive BufferOp
  | insert (offset : Int) (buf : List UInt8) (size : Int)
  | delete (offset size : Int)
  | write (offset : Int) (buf : List UInt8) (size : Int)
  | replace (offset size : Int) (buf : List UInt8) (size1 : Int)
  | insertBufferConvert (fuel : Nat) (destOffset : Int) (src : EditBuffer) (srcOffset size : Int)
  | undo (lastUndoRedo : Bool)
  | redo (lastUndoRedo : Bool)

namespace BufferOp

/-- The buffer after the function; `none` where the conversion runs out of
fuel. -/
def run : BufferOp → EditBuffer → Option EditBuffer
  | insert offset buf size, b => some (ebInsert b offset buf size).2
  | delete offset size, b => some (ebDelete b offset size).2
  | write offset buf size, b => some (ebWrite b offset buf size).2
  | replace offset size buf size1, b => some (ebReplace b offset size buf size1).2
  | insertBufferConvert fuel destOffset src srcOffset size, b =>
    (ebInsertBufferConvert fuel b destOffset src srcOffset size).map (·.2.1)
  | undo lastUndoRedo, b => some (doUndo b lastUndoRedo).1
  | redo lastUndoRedo, b => some (doRedo b lastUndoRedo).1

/-- What the function asks of its arguments: a `(buf, size)` argument holds
`size` bytes, a source buffer keeps the page invariant, and the records an
undo or a redo may replay fit the buffer. -/
def Ok : BufferOp → EditBuffer → Prop
  | insert _ buf size, _ => size ≤ buf.length
  | delete _ _, _ => True
  | write _ buf size, _ => size ≤ buf.length
  | replace _ _ buf size1, _ => size1 ≤ buf.length
  | insertBufferConvert _ _ src _ _, _ => src.WF
  | undo _, b => LogFits b
  | redo _, b => LogFits b

variable {b b' : EditBuffer}

/-- One function: its notifications describe its change. -/
theorem run_notifies (hwf : b.WF) (hon : b.saveLog &&& 2 = 0) {op : BufferOp} (hok : op.Ok b)
    (h : op.run b = some b') : Notifies b b' := by
  cases op with
  | insert offset buf size =>
    cases h
    exact ebInsert_notifies hwf hon offset buf size hok
  | delete offset size =>
    cases h
    exact ebDelete_notifies hwf hon offset size
  | write offset buf size =>
    cases h
    exact ebWrite_notifies hwf hon offset buf size hok
  | replace offset size buf size1 =>
    cases h
    exact ebReplace_notifies hwf hon offset size buf size1 hok
  | insertBufferConvert fuel destOffset src srcOffset size =>
    obtain ⟨r, hr, rfl⟩ := Option.map_eq_some_iff.mp h
    exact ebInsertBufferConvert_notifies hwf hon hok fuel destOffset srcOffset size r hr
  | undo lastUndoRedo =>
    cases h
    exact doUndo_notifies hwf hon hok lastUndoRedo
  | redo lastUndoRedo =>
    cases h
    exact doRedo_notifies hwf hon hok lastUndoRedo

end BufferOp

/-- The functions in turn; `none` where one of them fails. -/
def runOps : List BufferOp → EditBuffer → Option EditBuffer
  | [], b => some b
  | op :: ops, b => (op.run b).bind (runOps ops)

/-- Each function of the run may run on the buffer it meets. -/
def OpsOk : List BufferOp → EditBuffer → Prop
  | [], _ => True
  | op :: ops, b => op.Ok b ∧ ∀ b', op.run b = some b' → OpsOk ops b'

/-- A whole run: its notifications describe its change. -/
theorem runOps_notifies :
    ∀ (ops : List BufferOp) (b b' : EditBuffer), b.WF → b.saveLog &&& 2 = 0 → OpsOk ops b →
      runOps ops b = some b' → Notifies b b'
  | [], b, b', hwf, hon, _, h => by
    cases h
    exact .refl hwf hon
  | op :: ops, b, b', hwf, hon, hok, h => by
    obtain ⟨b₁, h₁, hrest⟩ := Option.bind_eq_some_iff.mp h
    have hn := BufferOp.run_notifies hwf hon hok.1 h₁
    exact hn.trans (runOps_notifies ops b₁ b' hn.wf hn.callbacks (hok.2 b₁ h₁) hrest)

section Follow

variable {b b' : EditBuffer}

theorem Notifies.sentSince (h : Notifies b b') : Describes (b.sentSince b') b.content b'.content := by
  obtain ⟨es, hes, hd⟩ := h.describes
  rw [EditBuffer.sentSince, hes, List.drop_left]
  exact hd

/-- Over a run of the edition functions, undo and redo with the callbacks on,
an offset registered with `eb_offset_callback` stays inside the text, and an
offset at a byte that no function deletes or overwrites follows that byte,
unless an insertion is made right at it while `edge` is not set. -/
theorem runOps_offsets_follow (hwf : b.WF) (hon : b.saveLog &&& 2 = 0) (ops : List BufferOp)
    (hok : OpsOk ops b) (hrun : runOps ops b = some b') (edge : Bool) :
    (∀ p : Int, 0 ≤ p → p ≤ b.totalSize →
      0 ≤ trackOffset edge (b.sentSince b') p ∧ trackOffset edge (b.sentSince b') p ≤ b'.totalSize) ∧
    (∀ p q : Int, 0 ≤ p → p < b.totalSize → moveBytes (b.sentSince b') p = some q →
      NotPushed edge (b.sentSince b') p →
        trackOffset edge (b.sentSince b') p = q ∧ b'.content[q.toNat]? = b.content[p.toNat]?) := by
  have hn := runOps_notifies ops b b' hwf hon hok hrun
  have hd := hn.sentSince
  rw [hwf.totalSize_eq, hn.wf.totalSize_eq]
  exact ⟨hd.trackOffset_bounds edge, hd.follows edge⟩

/-- `abc`, an insertion of `x` at 1, then the deletion of the first byte. -/
theorem runOps_offsets_follow_abc :
    ∃ b', runOps [.insert 1 (cstr "x") 1, .delete 0 1]
        (ebMmapBuffer (EditBuffer.empty charset_raw .unix) (cstr "abc")) = some b' ∧
      (∀ p : Int, 0 ≤ p → p ≤ (ebMmapBuffer (EditBuffer.empty charset_raw .unix) (cstr "abc")).totalSize →
        0 ≤ trackOffset false ((ebMmapBuffer (EditBuffer.empty charset_raw .unix) (cstr "abc")).sentSince b') p ∧
        trackOffset false ((ebMmapBuffer (EditBuffer.empty charset_raw .unix) (cstr "abc")).sentSince b') p ≤
          b'.totalSize) ∧
      (∀ p q : Int, 0 ≤ p → p < (ebMmapBuffer (EditBuffer.empty charset_raw .unix) (cstr "abc")).totalSize →
        moveBytes ((ebMmapBuffer (EditBuffer.empty charset_raw .unix) (cstr "abc")).sentSince b') p = some q →
        NotPushed false ((ebMmapBuffer (EditBuffer.empty charset_raw .unix) (cstr "abc")).sentSince b') p →
          trackOffset false ((ebMmapBuffer (EditBuffer.empty charset_raw .unix) (cstr "abc")).sentSince b') p = q ∧
            b'.content[q.toNat]? =
              (ebMmapBuffer (EditBuffer.empty charset_raw .unix) (cstr "abc")).content[p.toNat]?) := by
  have hins : (1 : Int) ≤ (cstr "x").length := by decide
  exact ⟨_, rfl, runOps_offsets_follow (mmap_wf charset_raw .unix (cstr "abc")) (by decide)
    [.insert 1 (cstr "x") 1, .delete 0 1] ⟨hins, fun _ _ => ⟨trivial, fun _ _ => trivial⟩⟩ rfl false⟩

end Follow

/-- `do_undo` does not check that the buffer is writable: undoing a deletion in
a read-only buffer notifies an insertion that `eb_insert_buffer` refuses, and
an offset at the end of the text, registered with or without `edge`, is pushed
past the end. -/
theorem undo_readOnly_pushes_offset_past_end (edge : Bool) :
    (doUndo (doToggleReadOnly (ebDelete (ebMmapBuffer (EditBuffer.empty charset_raw .unix)
        [0x61, 0x62]) 0 1).2) false).1.totalSize = 1 ∧
      trackOffset edge ((doToggleReadOnly (ebDelete (ebMmapBuffer (EditBuffer.empty charset_raw .unix)
        [0x61, 0x62]) 0 1).2).sentSince (doUndo (doToggleReadOnly (ebDelete (ebMmapBuffer
          (EditBuffer.empty charset_raw .unix) [0x61, 0x62]) 0 1).2) false).1) 1 = 2 := by
  cases edge <;> decide

end Qemacs
