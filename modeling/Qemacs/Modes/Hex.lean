import Qemacs.Command.Basic
import Qemacs.Buffer.Notify
import Qemacs.Charset.Ucs
import Qemacs.Script.Lexer

/-!
# Typing hex digits in hex mode

In hex mode a key that is a hex digit edits the nibble of the byte at point that
`hex_nibble` names (hex.c, `hex_write_char`). The first digit of a byte, at the end of
the buffer or outside overwrite mode, inserts a new byte holding the digit in its high
nibble; every other digit reads the byte at point and replaces one of its nibbles. After
the last nibble the point moves over the byte.

The insertion goes through `eb_encode_char32` when the buffer's charset has code units of
more than one byte, and inserts the whole unit; the next digit still edits one byte. In a
UCS-2 buffer two digits therefore insert two bytes, not one
(`hexWriteChar_two_digits_ucs2be`).

Only the branch for `hex_mode` set is modelled; the other calls `text_write_char`.
-/

namespace Qemacs

/-! ## The model -/

/-- The fields of the window hex mode reads and writes besides those of `EditState`. -/
structure HexState where
  es : EditState
  unihexMode : Nat
  hexNibble : Nat
  overwrite : Bool

/-- `qe_digit_value` of a key: the value of an ASCII digit or letter, 255 otherwise. -/
def hexKeyValue (key : UInt32) : Nat := if key < 128 then qeDigitValue key.toUInt8 else 255

/-- The edit of the buffer: the buffer after it and the length of the bytes written. The
first nibble outside overwrite mode inserts; any other reads the character or byte at
point, and `stale` is the byte the array `buf` holds when `eb_read` reads nothing. -/
def hexEdit (stale : UInt8) (s : HexState) (h : Nat) : EditBuffer × Nat :=
  let b := s.es.b
  let offset := s.es.offset
  let hsize := if s.unihexMode ≠ 0 then s.unihexMode else 2
  if (s.overwrite = false ∨ (b.totalSize : Int) ≤ offset) ∧ s.hexNibble = 0 then
    let ch : UInt32 := h.toUInt32 <<< ((hsize - 1) * 4).toUInt32
    let buf := if s.unihexMode ≠ 0 ∨ 1 < b.charset.charSize then ebEncodeChar32 b ch
      else [ch.toUInt8]
    ((ebInsert b offset buf buf.length).2, buf.length)
  else
    let (curCh, curLen, b) : UInt32 × Int × EditBuffer :=
      if s.unihexMode ≠ 0 then
        let (c, next, b) := ebNextc b offset
        (c, next - offset, b)
      else
        let (_, bytes, b) := ebRead b offset 1
        ((bytes.headD stale).toUInt32, 1, b)
    let shift := ((hsize - s.hexNibble - 1) * 4).toUInt32
    let ch := (curCh &&& ~~~(0xf <<< shift)) ||| (h.toUInt32 <<< shift)
    let buf := if s.unihexMode ≠ 0 then ebEncodeChar32 b ch else [ch.toUInt8]
    ((ebReplace b offset curLen buf buf.length).2, buf.length)

/-- `hex_write_char` with `hex_mode` set. -/
def hexWriteChar (stale : UInt8) (s : HexState) (key : UInt32) : HexState :=
  let offset := s.es.offset
  let hsize := if s.unihexMode ≠ 0 then s.unihexMode else 2
  let h := hexKeyValue key
  if 16 ≤ h then s
  else
    let (b, len) := hexEdit stale s h
    -- the point is put back where it was, whatever the callbacks did with it
    let es := { s.es.withBuffer b with offset := offset }
    if s.hexNibble + 1 = hsize then
      { s with es := { es with offset := if offset < b.totalSize then offset + len else offset },
               hexNibble := 0 }
    else { s with es := es, hexNibble := s.hexNibble + 1 }

/-! ## One digit -/

section Steps

variable (stale : UInt8) {s : HexState} {h : Nat}

/-- The first nibble outside overwrite mode inserts the unit `eb_encode_char32` makes of the
digit in the high nibble, or that byte alone in a charset of one-byte units. -/
theorem hexEdit_insert (hu : s.unihexMode = 0) (hn : s.hexNibble = 0)
    (hpath : s.overwrite = false ∨ (s.es.b.totalSize : Int) ≤ s.es.offset) :
    hexEdit stale s h =
      let buf := if 1 < s.es.b.charset.charSize then ebEncodeChar32 s.es.b (h.toUInt32 <<< 4)
        else [(h.toUInt32 <<< 4).toUInt8]
      ((ebInsert s.es.b s.es.offset buf buf.length).2, buf.length) := by
  simp only [hexEdit, hu, hn, ne_eq, not_true_eq_false, if_false, and_true, if_pos hpath,
    false_or]
  rfl

/-- Every other nibble replaces one nibble of the byte at point. -/
theorem hexEdit_replace (hu : s.unihexMode = 0)
    (hpath : ¬((s.overwrite = false ∨ (s.es.b.totalSize : Int) ≤ s.es.offset) ∧ s.hexNibble = 0)) :
    hexEdit stale s h =
      let r := ebRead s.es.b s.es.offset 1
      let shift := ((2 - s.hexNibble - 1) * 4).toUInt32
      let ch := ((r.2.1.headD stale).toUInt32 &&& ~~~(0xf <<< shift)) ||| (h.toUInt32 <<< shift)
      ((ebReplace r.2.2 s.es.offset 1 [ch.toUInt8] 1).2, 1) := by
  simp only [hexEdit, hu, ne_eq, not_true_eq_false, if_false, if_neg hpath]
  rfl

/-- A digit in hex mode, edit by edit: the point goes back to where it was and moves over the
byte after its last nibble. -/
theorem hexWriteChar_of_digit {key : UInt32} (hu : s.unihexMode = 0) (hk : hexKeyValue key < 16) :
    hexWriteChar stale s key =
      let e := hexEdit stale s (hexKeyValue key)
      let es := { s.es.withBuffer e.1 with offset := s.es.offset }
      if s.hexNibble + 1 = 2 then
        let offset := if s.es.offset < e.1.totalSize then s.es.offset + e.2 else s.es.offset
        { s with es := { es with offset := offset }, hexNibble := 0 }
      else { s with es := es, hexNibble := s.hexNibble + 1 } := by
  simp only [hexWriteChar, hu, ne_eq, not_true_eq_false, if_false, if_neg (Nat.not_le.mpr hk)]

/-- The nibble shifts of a byte: 4 for the high nibble, none for the low one. -/
theorem hexShift_high : ((2 - 0 - 1) * 4 : Nat).toUInt32 = 4 := rfl

theorem hexShift_low : ((2 - 1 - 1) * 4 : Nat).toUInt32 = 0 := rfl

/-- The first digit of a byte outside overwrite mode. -/
theorem hexWriteChar_high_insert {key : UInt32} (hu : s.unihexMode = 0) (hn : s.hexNibble = 0)
    (hpath : s.overwrite = false ∨ (s.es.b.totalSize : Int) ≤ s.es.offset)
    (hk : hexKeyValue key < 16) :
    let buf := if 1 < s.es.b.charset.charSize then
        ebEncodeChar32 s.es.b ((hexKeyValue key).toUInt32 <<< 4)
      else [((hexKeyValue key).toUInt32 <<< 4).toUInt8]
    let r := hexWriteChar stale s key
    r.es.b = (ebInsert s.es.b s.es.offset buf buf.length).2 ∧ r.es.offset = s.es.offset ∧
      r.hexNibble = 1 ∧ r.unihexMode = 0 ∧ r.overwrite = s.overwrite := by
  intro buf r
  have hr : r = { s with es := { s.es.withBuffer (ebInsert s.es.b s.es.offset buf buf.length).2
      with offset := s.es.offset }, hexNibble := 1 } := by
    simp only [r, hexWriteChar_of_digit stale hu hk, hexEdit_insert stale hu hn hpath, hn]
    rfl
  rw [hr]
  exact ⟨rfl, rfl, rfl, hu, rfl⟩

/-- The second digit of a byte: its low nibble, and the point moves over the byte. -/
theorem hexWriteChar_low {key : UInt32} (hu : s.unihexMode = 0) (hn : s.hexNibble = 1)
    (hk : hexKeyValue key < 16) :
    let rd := ebRead s.es.b s.es.offset 1
    let ch := ((rd.2.1.headD stale).toUInt32 &&& ~~~(0xf : UInt32)) ||| (hexKeyValue key).toUInt32
    let b' := (ebReplace rd.2.2 s.es.offset 1 [ch.toUInt8] 1).2
    let r := hexWriteChar stale s key
    r.es.b = b' ∧
      r.es.offset = (if s.es.offset < b'.totalSize then s.es.offset + 1 else s.es.offset) ∧
      r.hexNibble = 0 := by
  intro rd ch b' r
  have hpath : ¬((s.overwrite = false ∨ (s.es.b.totalSize : Int) ≤ s.es.offset) ∧
      s.hexNibble = 0) := by
    simp [hn]
  let o' := if s.es.offset < b'.totalSize then s.es.offset + 1 else s.es.offset
  have hr : r = { s with es := { s.es.withBuffer b' with offset := o' }, hexNibble := 0 } := by
    simp only [r, hexWriteChar_of_digit stale hu hk, hexEdit_replace stale hu hpath, hn, hexShift_low,
      UInt32.shiftLeft_zero]
    rfl
  rw [hr]
  exact ⟨rfl, rfl, rfl⟩

end Steps

/-! ## Nibbles of a byte -/

section Nibbles

/-- The second nibble: the high nibble is kept. -/
theorem hexLow_byte (c : UInt8) (h : Nat) :
    ((c.toUInt32 &&& ~~~(0xf : UInt32)) ||| h.toUInt32).toUInt8 = (c &&& 0xf0) ||| h.toUInt8 := by
  have hm : (~~~(0xf : UInt32)).toUInt8 = 0xf0 := by decide
  have hn : h.toUInt32.toUInt8 = h.toUInt8 := UInt32.toUInt8_ofNat' h
  rw [UInt32.toUInt8_or, UInt32.toUInt8_and, UInt8.toUInt8_toUInt32, hm, hn]

/-- `eb_encode_char32` in UCS-2 big endian of a digit in the high nibble: a NUL, then the
byte. -/
theorem ebEncodeChar32_ucs2be_digit {b : EditBuffer} (hcs : b.charset = charset_ucs2be) {h : Nat}
    (hh : h < 16) : ebEncodeChar32 b (h.toUInt32 <<< 4) = [0, (16 * h).toUInt8] := by
  have hne : ∀ h < 16, h.toUInt32 <<< (4 : UInt32) ≠ 10 := by decide
  have henc : ∀ h < 16, encodeUcs 2 true (h.toUInt32 <<< (4 : UInt32)) = [0, (16 * h).toUInt8] := by
    decide
  simp only [ebEncodeChar32, hne h hh, if_false, hcs, charset_ucs2be, charsetUcs, henc h hh,
    List.nil_append]

end Nibbles

/-! ## The bytes the edits leave -/

section Bytes

variable {b : EditBuffer} {o : Int}

/-- `eb_read` of one byte inside the text gives the byte at that offset. -/
theorem ebRead_one_headD (hwf : b.WF) (h0 : 0 ≤ o) (hlt : o < b.totalSize) (d : UInt8) :
    (ebRead b o 1).2.1.headD d = b.content.getD o.toNat 0 := by
  have hlen : o.toNat < b.content.length := by
    rw [← hwf.totalSize_eq]
    omega
  rw [(ebRead_spec hwf o 1).2, (ebRead_spec hwf o 1).1, if_neg (by omega)]
  rw [show (min 1 ((b.totalSize : Int) - o)).toNat = 1 by omega, List.drop_eq_getElem_cons hlen]
  simp only [List.take_succ_cons, List.take_zero, List.headD_cons, Option.getD_some,
    List.getD_eq_getElem?_getD, List.getElem?_eq_getElem hlen]

/-- `eb_replace` of the byte at an offset of the text by one byte. -/
theorem ebReplace_byte (hwf : b.WF) (hro : b.readOnly = false) (h0 : 0 ≤ o)
    (hlt : o < b.totalSize) (x : UInt8) :
    (ebReplace b o 1 [x] 1).2.WF ∧ (ebReplace b o 1 [x] 1).2.readOnly = false ∧
      (ebReplace b o 1 [x] 1).2.content = b.content.set o.toNat x := by
  have htot := hwf.totalSize_eq
  have hlen : o.toNat < b.content.length := by omega
  refine ⟨ebReplace_wf hwf o 1 [x] 1 (by simp), ?_, ?_⟩
  · -- the sizes agree: a write, which keeps the flags
    rw [ebReplace, if_pos rfl, (ebWrite_sends b hwf o [x] 1).readOnly, hro]
  · rw [ebReplace_refines hwf o 1 [x] 1 (by simp), FlatText.replace, if_pos rfl, FlatText.write,
      hro, ← hwf.totalSize_eq, if_neg (by simp only [Bool.false_eq_true, false_or]; omega),
      List.set_eq_take_append_cons_drop, if_pos hlen]
    rw [List.append_assoc, show (o + 1).toNat = o.toNat + 1 by omega]
    rfl

/-- Reading the byte at an offset of the text and writing back a function of it. -/
theorem ebReadReplace_byte (hwf : b.WF) (hro : b.readOnly = false) (h0 : 0 ≤ o)
    (hlt : o < b.totalSize) (d : UInt8) (f : UInt8 → UInt8) :
    let b' := (ebReplace (ebRead b o 1).2.2 o 1 [f ((ebRead b o 1).2.1.headD d)] 1).2
    b'.WF ∧ b'.readOnly = false ∧ b'.content = b.content.set o.toNat (f (b.content.getD o.toNat 0)) := by
  intro b'
  have hsame := ebRead_frame' hwf o 1
  obtain ⟨hwf', hro', hc⟩ := ebReplace_byte hsame.right (hsame.readOnly.trans hro) h0
    (hsame.totalSize ▸ hlt) (f ((ebRead b o 1).2.1.headD d))
  refine ⟨hwf', hro', ?_⟩
  rw [hc, hsame.content, ebRead_one_headD hwf h0 hlt]

/-- `eb_insert` of a unit at an offset of the text. -/
theorem ebInsert_unit (hwf : b.WF) (hro : b.readOnly = false) (h0 : 0 ≤ o)
    (hle : o ≤ b.totalSize) (buf : List UInt8) :
    (ebInsert b o buf buf.length).2.WF ∧ (ebInsert b o buf buf.length).2.readOnly = false ∧
      (ebInsert b o buf buf.length).2.content =
        b.content.take o.toNat ++ buf ++ b.content.drop o.toNat := by
  refine ⟨(ebInsert_spec hwf o buf buf.length).2, ?_, ?_⟩
  · rw [(ebInsert_sends b o buf buf.length).readOnly, hro]
  · rw [ebInsert_refines hwf, FlatText.insert, hro, ← hwf.totalSize_eq, Int.min_eq_left hle]
    split
    · -- an empty unit inserts nothing
      rename_i hc
      have hnil : buf = [] := by
        simp only [Bool.false_eq_true, false_or] at hc
        exact List.eq_nil_of_length_eq_zero (by omega)
      simp [hnil]
    · simp

end Bytes

/-! ## Two digits -/

section TwoDigits

variable {stale : UInt8} {s : HexState} {k1 k2 : UInt32}

/-- Outside overwrite mode, the first digit inserts a unit and the second replaces the low
nibble of the unit's first byte, then the point moves over that byte. -/
theorem hexWriteChar_insert_low (hwf : s.es.b.WF) (hro : s.es.b.readOnly = false)
    (hu : s.unihexMode = 0) (hn : s.hexNibble = 0)
    (hpath : s.overwrite = false ∨ (s.es.b.totalSize : Int) ≤ s.es.offset)
    (h0 : 0 ≤ s.es.offset) (hle : s.es.offset ≤ s.es.b.totalSize)
    (hk1 : hexKeyValue k1 < 16) (hk2 : hexKeyValue k2 < 16) :
    let buf := if 1 < s.es.b.charset.charSize then
        ebEncodeChar32 s.es.b ((hexKeyValue k1).toUInt32 <<< 4)
      else [((hexKeyValue k1).toUInt32 <<< 4).toUInt8]
    buf ≠ [] →
    let r := hexWriteChar stale (hexWriteChar stale s k1) k2
    r.es.b.content = s.es.b.content.take s.es.offset.toNat ++
        ((buf.headD 0 &&& 0xf0) ||| (hexKeyValue k2).toUInt8) :: buf.tail ++
          s.es.b.content.drop s.es.offset.toNat ∧
      r.es.offset = s.es.offset + 1 ∧ r.hexNibble = 0 := by
  intro buf hbuf
  dsimp only
  obtain ⟨a, rest, hbuf'⟩ := List.exists_cons_of_ne_nil hbuf
  -- the first digit: the unit goes in at point
  obtain ⟨hb1, ho1, hn1, hu1, -⟩ := hexWriteChar_high_insert stale hu hn hpath hk1
  obtain ⟨hwf1, hro1, hc1⟩ := ebInsert_unit hwf hro h0 hle buf
  rw [← hb1] at hwf1 hro1 hc1
  generalize hexWriteChar stale s k1 = s1 at hb1 ho1 hn1 hu1 hwf1 hro1 hc1 ⊢
  have hpre : (s.es.b.content.take s.es.offset.toNat).length = s.es.offset.toNat := by
    have := hwf.totalSize_eq
    simp only [List.length_take]
    omega
  have hlt1 : s1.es.offset < s1.es.b.totalSize := by
    rw [ho1, hwf1.totalSize_eq, hc1, hbuf']
    simp only [List.length_append, List.length_cons, hpre]
    omega
  -- the second digit: the low nibble of the unit's first byte
  obtain ⟨hb2, ho2, hn2⟩ := hexWriteChar_low stale hu1 hn1 hk2
  obtain ⟨hwf2, -, hc2⟩ := ebReadReplace_byte hwf1 hro1 (ho1 ▸ h0) hlt1 stale fun c =>
    ((c.toUInt32 &&& ~~~(0xf : UInt32)) ||| (hexKeyValue k2).toUInt32).toUInt8
  rw [← hb2] at hwf2 hc2
  have hread : (s.es.b.content.take s.es.offset.toNat ++ (a :: rest) ++
      s.es.b.content.drop s.es.offset.toNat).getD s.es.offset.toNat 0 = a := by
    rw [List.getD_eq_getElem?_getD, List.append_assoc,
      List.getElem?_append_right (by omega), hpre, Nat.sub_self]
    rfl
  have hset : ∀ x : UInt8, (s.es.b.content.take s.es.offset.toNat ++ (a :: rest) ++
      s.es.b.content.drop s.es.offset.toNat).set s.es.offset.toNat x =
        s.es.b.content.take s.es.offset.toNat ++ x :: rest ++
          s.es.b.content.drop s.es.offset.toNat := by
    intro x
    rw [List.append_assoc, List.set_append_right _ _ (by omega), hpre, Nat.sub_self]
    simp only [List.cons_append, List.set_cons_zero, List.append_assoc]
  rw [hexLow_byte, hc1, ho1, hbuf', hread, hset] at hc2
  refine ⟨by rw [hc2, hbuf']; rfl, ?_, hn2⟩
  rw [ho2, ← hb2, hwf2.totalSize_eq, hc2]
  simp only [List.length_append, List.length_cons, hpre, ho1]
  rw [if_pos (by omega)]

/-- In a UCS-2 big-endian buffer, outside overwrite mode, two digits insert two bytes: the
second digit alone, then the first digit's high nibble. -/
theorem hexWriteChar_two_digits_ucs2be (hwf : s.es.b.WF) (hro : s.es.b.readOnly = false)
    (hcs : s.es.b.charset = charset_ucs2be) (hu : s.unihexMode = 0) (hn : s.hexNibble = 0)
    (hpath : s.overwrite = false ∨ (s.es.b.totalSize : Int) ≤ s.es.offset)
    (h0 : 0 ≤ s.es.offset) (hle : s.es.offset ≤ s.es.b.totalSize)
    (hk1 : hexKeyValue k1 < 16) (hk2 : hexKeyValue k2 < 16) :
    let r := hexWriteChar stale (hexWriteChar stale s k1) k2
    r.es.b.content = s.es.b.content.take s.es.offset.toNat ++
        [(hexKeyValue k2).toUInt8, (16 * hexKeyValue k1).toUInt8] ++
          s.es.b.content.drop s.es.offset.toNat ∧
      r.es.offset = s.es.offset + 1 ∧ r.hexNibble = 0 := by
  have h := @hexWriteChar_insert_low stale s k1 k2 hwf hro hu hn hpath h0 hle hk1 hk2
  -- the unit is two bytes wide
  have hwide : 1 < s.es.b.charset.charSize := by
    rw [hcs]
    decide
  simp only [if_pos hwide, ebEncodeChar32_ucs2be_digit hcs hk1] at h
  obtain ⟨hc, ho, hn'⟩ := h (List.cons_ne_nil _ _)
  rw [List.headD_cons, List.tail_cons, UInt8.zero_and, UInt8.zero_or] at hc
  exact ⟨hc, ho, hn'⟩

/-- `4` then `1` at the start of an empty UCS-2 big-endian buffer: the bytes `01 40`, where
the digits spell `41`. -/
theorem hexWriteChar_two_digits_ucs2be_empty :
    let s : HexState := ⟨⟨EditBuffer.empty charset_ucs2be .unix, 0, 0, 0⟩, 0, 0, false⟩
    let r := hexWriteChar 0 (hexWriteChar 0 s 0x34) 0x31
    s.es.b.WF ∧ s.es.b.readOnly = false ∧ s.es.b.charset = charset_ucs2be ∧ s.unihexMode = 0 ∧
      s.hexNibble = 0 ∧ (s.overwrite = false ∨ (s.es.b.totalSize : Int) ≤ s.es.offset) ∧
      0 ≤ s.es.offset ∧ s.es.offset ≤ s.es.b.totalSize ∧ hexKeyValue 0x34 < 16 ∧
      hexKeyValue 0x31 < 16 ∧
      (r.es.b.content = s.es.b.content.take s.es.offset.toNat ++
          [(hexKeyValue 0x31).toUInt8, (16 * hexKeyValue 0x34).toUInt8] ++
            s.es.b.content.drop s.es.offset.toNat ∧
        r.es.offset = s.es.offset + 1 ∧ r.hexNibble = 0) := by
  intro s r
  have hwf : s.es.b.WF := EditBuffer.empty_wf _ _
  have hk1 : hexKeyValue 0x34 < 16 := by decide
  have hk2 : hexKeyValue 0x31 < 16 := by decide
  have h0 : (0 : Int) ≤ s.es.offset := Int.le_refl 0
  have hle : s.es.offset ≤ s.es.b.totalSize := Int.le_refl 0
  exact ⟨hwf, rfl, rfl, rfl, rfl, Or.inl rfl, h0, hle, hk1, hk2,
    hexWriteChar_two_digits_ucs2be hwf rfl rfl rfl rfl (Or.inl rfl) h0 hle hk1 hk2⟩

end TwoDigits

end Qemacs
