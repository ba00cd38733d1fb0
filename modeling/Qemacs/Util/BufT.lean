import Qemacs.Util.Keys
import Qemacs.Script.Lexer

/-!
# Fixed length output buffers: `buf_t`

A `buf_t` (util.h) writes into an array of `size` bytes. `pos` counts every byte of the
output, `len` the bytes that fit, and the array holds them followed by a NUL. The
writers handle overflow each their own way: `buf_put_byte` and `buf_write` copy at
`len` what fits of their bytes; `buf_printf` and `buf_quote_byte` let `snprintf` format at
`pos`; `buf_putc_utf8` writes a sequence whole or not at all; `buf_put_word` and
`buf_put_key` are made of the others.

`size`, `len` and `pos` are C `int`s, and their arithmetic wraps (`cInt`). While the whole
output is at most `INT_MAX` bytes, the array holds a truncated prefix of it (`BufT.Inv`):
`len < size`, a NUL at `len`, `pos` the length of the whole output, `len = pos` while the
output fits, and the bytes before `len` are the output's first bytes. Each call keeps it
(`BufOp.apply_inv`), so every run does (`bufRun_inv`). The writers that format at `pos` rely
on `len = pos` while there is room. Past `INT_MAX` bytes `pos` wraps below 0, and the
writers then take the array for empty and write past its end (`bufT_pos_wraps`).
-/

namespace Qemacs

/-! ## The model -/

/-- The result of `int` arithmetic: the exact value wrapped into `[-2^31, 2^31)`, as two's
complement arithmetic does. -/
def cInt (x : Int) : Int := x.bmod (2 ^ 32)

/-- Inside the range of `int`, the arithmetic is exact. -/
theorem cInt_of_lt {x : Int} (h0 : -2 ^ 31 ≤ x) (h : x < 2 ^ 31) : cInt x = x :=
  Int.bmod_eq_of_le (by norm_num; omega) (by norm_num; omega)

/-- `buf_t`: the destination array, its size, the length of the output it holds and the
position of the output, into or beyond the end of the array. -/
structure BufT where
  buf : List UInt8
  size : Nat
  len : Int
  pos : Int
  deriving DecidableEq, Repr

/-- `memcpy(buf + i, src, n)` of the `n` bytes of `src`. -/
def copyAt {α : Type} : List α → Nat → List α → List α
  | buf, _, [] => buf
  | buf, i, c :: src => copyAt (buf.set i c) (i + 1) src

/-- `buf_init` on an array of `size` bytes: a NUL at its start, or no array at all when
`size` is 0. -/
def bufInit (arr : List UInt8) : BufT :=
  if 0 < arr.length then ⟨arr.set 0 0, arr.length, 0, 0⟩ else ⟨[], 0, 0, 0⟩

/-- `buf_put_byte`. -/
def bufPutByte (b : BufT) (ch : UInt8) : BufT × Nat :=
  let pos := cInt (b.pos + 1)
  if pos < b.size then
    let len := cInt (b.len + 1)
    ({ b with buf := (b.buf.set b.len.toNat ch).set len.toNat 0, len := len, pos := pos }, 1)
  else ({ b with pos := pos }, 0)

/-- `buf_write`: what fits of `src` copied at `len`, and `pos` moved over all of it. -/
def bufWrite (b : BufT) (src : List UInt8) : BufT × Nat :=
  if b.pos < b.size then
    let n := min (cInt (b.size - b.pos - 1)) src.length
    let len := cInt (b.len + n)
    let buf := (copyAt b.buf b.len.toNat (src.take n.toNat)).set len.toNat 0
    ({ b with buf := buf, len := len, pos := cInt (b.pos + src.length) }, n.toNat)
  else ({ b with pos := cInt (b.pos + src.length) }, 0)

/-- `buf_puts` of a C string, the bytes before its NUL. -/
def bufPuts (b : BufT) (str : List UInt8) : BufT × Nat := bufWrite b str

/-- `buf_put_word`: a space first unless nothing was output yet. -/
def bufPutWord (b : BufT) (str : List UInt8) : BufT × Nat :=
  let (b, n) := if b.pos ≠ 0 then bufPutByte b 0x20 else (b, 0)
  let (b, m) := bufPuts b str
  (b, n + m)

/-- The `snprintf` of `buf_printf` and `buf_quote_byte`: the formatted `text` written at
`pos` as far as the room left allows, with its NUL, and `pos` moved over all of it. With
`pos` wrapped below 0 the C writes before the array, which the list does not hold; the
model writes from its start. -/
def bufSnprintf (b : BufT) (text : List UInt8) : BufT × Nat :=
  if b.pos < b.size then
    let size := cInt (b.size - b.pos)
    let written : Int := if (text.length : Int) < size then text.length else size - 1
    let buf := (copyAt b.buf b.pos.toNat (text.take written.toNat)).set (b.pos + written).toNat 0
    ({ b with buf := buf, len := cInt (b.len + written), pos := cInt (b.pos + text.length) },
      written.toNat)
  else ({ b with pos := cInt (b.pos + text.length) }, 0)

/-- `buf_printf`, of the text the format and its arguments give. -/
def bufPrintf (b : BufT) (text : List UInt8) : BufT × Nat := bufSnprintf b text

/-- `buf_quote_byte`: `strquote_byte` formats like `snprintf`, a printable byte included,
for which it writes the byte and its NUL as far as they fit. -/
def bufQuoteByte (b : BufT) (ch : UInt8) (flags : Nat) : BufT × Nat :=
  bufSnprintf b (strquoteByte ch flags)

/-- `buf_putc_utf8`: a sequence that does not fit in whole is not written. -/
def bufPutcUtf8 (b : BufT) (c : UInt32) : BufT × Nat :=
  if c < 0x80 then
    let pos := cInt (b.pos + 1)
    if pos < b.size then
      let len := cInt (b.len + 1)
      let buf := (b.buf.set b.len.toNat c.toUInt8).set len.toNat 0
      ({ b with buf := buf, len := len, pos := pos }, 1)
    else ({ b with pos := pos }, 0)
  else
    let s := utf8Encode c
    if cInt (b.pos + s.length) < b.size then
      let len := cInt (b.len + s.length)
      let buf := (copyAt b.buf b.len.toNat s).set len.toNat 0
      ({ b with buf := buf, pos := cInt (b.pos + s.length), len := len }, s.length)
    else ({ b with pos := cInt (b.pos + s.length) }, 0)

/-- The last cases of `buf_put_key`: a control character as `C-` and a lowercase letter,
any other key as its UTF-8 bytes. -/
def bufPutKeyTailT (b : BufT) (key : UInt32) : BufT :=
  if key ≤ KEY_CTRL 0x5f then (bufPrintf b [0x43, 0x2d, Css.qeTolower (key + 0x41 - 1).toUInt8]).1
  else (bufPutcUtf8 b key).1

/-- `buf_put_key` on a key below `0xE200`: the call the modifier branch makes, which does
not reach that branch again. -/
def bufPutKeyBaseT (b : BufT) (key : UInt32) : BufT :=
  match keyName key with
  | some s => (bufPuts b s).1
  | none => bufPutKeyTailT b key

/-- `buf_put_key`, and the number of bytes it added. -/
def bufPutKeyT (b : BufT) (key : UInt32) : BufT × Nat :=
  let b' :=
    match keyName key with
    | some s => (bufPuts b s).1
    | none =>
      if 0xe200 ≤ key ∧ key < 0xf000 then
        let b := if key &&& KEY_META 0 = KEY_META 0 then (bufPuts b (ascii "M-")).1 else b
        let b := if key &&& KEY_CONTROL 0 = KEY_CONTROL 0 then (bufPuts b (ascii "C-")).1 else b
        let b := if key &&& KEY_SHIFT 0 = KEY_SHIFT 0 then (bufPuts b (ascii "S-")).1 else b
        bufPutKeyBaseT b (if key &&& 0x100 ≠ 0 then key &&& ~~~0xe00 else key &&& 0xff)
      else bufPutKeyTailT b key
  (b', (cInt (b'.len - b.len)).toNat)

/-! ## `memcpy` -/

section Copy

variable {α : Type}

@[simp] theorem length_copyAt (buf : List α) (i : Nat) (src : List α) :
    (copyAt buf i src).length = buf.length := by
  induction src generalizing buf i with
  | nil => rfl
  | cons c src ih => simp [copyAt, ih]

/-- The bytes before the copy are kept, and the copy follows them. -/
theorem take_copyAt (buf : List α) (i : Nat) (src : List α) (h : i + src.length ≤ buf.length) :
    (copyAt buf i src).take (i + src.length) = buf.take i ++ src := by
  induction src generalizing buf i with
  | nil => simp [copyAt]
  | cons c src ih =>
    simp only [List.length_cons] at h
    rw [copyAt, List.length_cons, show i + (src.length + 1) = i + 1 + src.length by omega,
      ih _ _ (by simp; omega), take_succ_set buf c (by omega), List.append_assoc]
    rfl

/-- Writing at `j` leaves the bytes before `j`. -/
theorem take_set_self (l : List α) (j : Nat) (x : α) : (l.set j x).take j = l.take j := by
  rw [List.take_set, List.set_eq_of_length_le (by simp)]

end Copy

/-! ## The invariant -/

/-- What every call keeps, with `out` the whole output so far: the array holds a NUL at
`len`, before it a prefix of `out`, all of `out` while it fits, and `pos` counts `out`. -/
structure BufT.Inv (b : BufT) (out : List UInt8) : Prop where
  length_buf : b.buf.length = b.size
  size_lt : b.size < 2 ^ 31
  len_nonneg : 0 ≤ b.len
  len_lt : b.len < b.size
  nul : b.buf[b.len.toNat]? = some 0
  pos_eq : b.pos = out.length
  len_eq : b.pos < b.size → b.len = b.pos
  agrees : b.buf.take b.len.toNat <+: out

namespace BufT.Inv

variable {b : BufT} {out : List UInt8}

/-- While the output stays within `INT_MAX` bytes, moving `pos` over `text` is exact. -/
theorem cInt_pos (h : b.Inv out) {text : List UInt8} (hfit : (out ++ text).length < 2 ^ 31) :
    cInt (b.pos + text.length) = b.pos + text.length := by
  have := h.pos_eq
  simp only [List.length_append] at hfit
  exact cInt_of_lt (by omega) (by omega)

/-- An output that does not fit leaves the array as it is. -/
theorem skip (h : b.Inv out) (text : List UInt8) (hfit : (out ++ text).length < 2 ^ 31)
    (hn : b.size ≤ b.pos + text.length) :
    Inv { b with pos := cInt (b.pos + text.length) } (out ++ text) := by
  rw [h.cInt_pos hfit]
  exact {
    length_buf := h.length_buf
    size_lt := h.size_lt
    len_nonneg := h.len_nonneg
    len_lt := h.len_lt
    nul := h.nul
    pos_eq := by simp [h.pos_eq]
    len_eq := fun h' => absurd h' (by simp only; omega)
    agrees := h.agrees.trans (List.prefix_append _ _) }

/-- Writing the first `k` bytes of `text` at `len`, all of them if there is room, keeps the
invariant. -/
theorem append (h : b.Inv out) (hpos : b.pos < b.size) (text : List UInt8)
    (hfit : (out ++ text).length < 2 ^ 31) (k : Nat) (hk : k ≤ text.length)
    (hroom : b.pos + k < b.size) (hall : text.length < b.size - b.pos → k = text.length) :
    Inv { b with buf := (copyAt b.buf b.len.toNat (text.take k)).set (cInt (b.len + k)).toNat 0,
                 len := cInt (b.len + k), pos := cInt (b.pos + text.length) } (out ++ text) := by
  have hlen := h.len_eq hpos
  have hbl := h.length_buf
  have hl0 := h.len_nonneg
  have hsz := h.size_lt
  rw [h.cInt_pos hfit, cInt_of_lt (x := b.len + k) (by omega) (by omega)]
  -- while the output fits, the array holds all of it
  have hout : b.buf.take b.len.toNat = out :=
    h.agrees.eq_of_length (by rw [List.length_take, hbl]; have := h.pos_eq; omega)
  have hlk : b.len.toNat + (text.take k).length ≤ b.buf.length := by
    rw [List.length_take, hbl]
    omega
  have hidx : (b.len + k).toNat = b.len.toNat + (text.take k).length := by
    rw [List.length_take]
    omega
  refine ⟨by simp [hbl], hsz, by simp only; omega, by simp only; omega, ?_, by simp [h.pos_eq],
    ?_, ?_⟩
  · simp only
    rw [List.getElem?_set_self (by simp; omega)]
  · intro hfit'
    simp only at hfit' ⊢
    have := hall (by omega)
    omega
  · simp only
    have htake := take_copyAt b.buf b.len.toNat (text.take k) hlk
    rw [hidx, take_set_self, htake, hout]
    exact List.prefix_append_right_inj out |>.mpr (List.take_prefix k text)

end BufT.Inv

/-! ## Each writer keeps the invariant

Each writer is given that the output with its own text stays within `INT_MAX` bytes. -/

section Writers

variable {b : BufT} {out : List UInt8}

theorem bufPutByte_inv (h : b.Inv out) (ch : UInt8) (hfit : (out ++ [ch]).length < 2 ^ 31) :
    (bufPutByte b ch).1.Inv (out ++ [ch]) := by
  have hp : cInt (b.pos + 1) = b.pos + 1 := by simpa using h.cInt_pos hfit
  unfold bufPutByte
  dsimp only
  split
  · -- the byte fits
    rename_i hlt
    rw [hp] at hlt
    have := h.append (by omega) [ch] hfit 1 (by simp) (by omega) fun _ => rfl
    simpa [copyAt] using this
  · simpa using h.skip [ch] hfit (by simp; omega)

/-- The room `buf_write` computes is exact while `pos` is inside the array. -/
theorem cInt_room (h : b.Inv out) (hpos : b.pos < b.size) (d : Int) (hd : 0 ≤ d) (hd1 : d ≤ 1) :
    cInt (b.size - b.pos - d) = b.size - b.pos - d := by
  have := h.size_lt
  have := h.pos_eq
  exact cInt_of_lt (by omega) (by omega)

theorem bufWrite_inv (h : b.Inv out) (src : List UInt8) (hfit : (out ++ src).length < 2 ^ 31) :
    (bufWrite b src).1.Inv (out ++ src) := by
  unfold bufWrite
  dsimp only
  split
  · rename_i hpos
    have hpos0 : 0 ≤ b.pos := by rw [h.pos_eq]; omega
    -- the bytes copied, as many as fit before the NUL
    obtain ⟨k, hk⟩ : ∃ k : Nat, min (cInt (b.size - b.pos - 1)) (src.length : Int) = k :=
      ⟨(min (cInt (b.size - b.pos - 1)) (src.length : Int)).toNat, by
        rw [cInt_room h hpos 1 (by omega) le_rfl]; omega⟩
    rw [cInt_room h hpos 1 (by omega) le_rfl] at hk
    rw [cInt_room h hpos 1 (by omega) le_rfl, hk, Int.toNat_natCast]
    exact h.append hpos src hfit k (by omega) (by omega) fun hfit => by omega
  · exact h.skip src hfit (by omega)

/-- `snprintf` at `pos` writes where the output held in the array ends. -/
theorem bufSnprintf_inv (h : b.Inv out) (text : List UInt8) (hfit : (out ++ text).length < 2 ^ 31) :
    (bufSnprintf b text).1.Inv (out ++ text) := by
  unfold bufSnprintf
  dsimp only
  split
  · rename_i hpos
    have hpos0 : 0 ≤ b.pos := by rw [h.pos_eq]; omega
    rw [show cInt (b.size - b.pos) = b.size - b.pos by
      simpa using cInt_room h hpos 0 le_rfl (by omega)]
    -- `snprintf` writes all of `text` that fits before its NUL
    obtain ⟨k, hk⟩ : ∃ k : Nat, (if (text.length : Int) < b.size - b.pos then (text.length : Int)
        else b.size - b.pos - 1) = k :=
      ⟨(if (text.length : Int) < b.size - b.pos then (text.length : Int)
        else b.size - b.pos - 1).toNat, by split <;> omega⟩
    rw [hk, Int.toNat_natCast]
    have happ := h.append hpos text hfit k (by split at hk <;> omega) (by split at hk <;> omega)
      fun hfit => by rw [if_pos (by omega)] at hk; omega
    -- the array's output ends at `pos`
    have hlen := h.len_eq hpos
    rw [cInt_of_lt (x := b.len + k) (by have := h.len_nonneg; omega)
      (by have := h.len_lt; have := h.size_lt; omega)] at happ ⊢
    obtain ⟨buf, size, len, pos⟩ := b
    obtain rfl : len = pos := hlen
    exact happ
  · exact h.skip text hfit (by omega)

theorem utf8Encode_of_lt {c : UInt32} (h : c < 0x80) : utf8Encode c = [c.toUInt8] := by
  simp [utf8Encode, h]

theorem bufPutcUtf8_inv (h : b.Inv out) (c : UInt32) (hfit : (out ++ utf8Encode c).length < 2 ^ 31) :
    (bufPutcUtf8 b c).1.Inv (out ++ utf8Encode c) := by
  unfold bufPutcUtf8
  dsimp only
  split
  · -- one byte, as `buf_put_byte`
    rename_i hc
    rw [utf8Encode_of_lt hc] at hfit ⊢
    have hp : cInt (b.pos + 1) = b.pos + 1 := by simpa using h.cInt_pos hfit
    split
    · rename_i hlt
      rw [hp] at hlt
      have := h.append (by omega) [c.toUInt8] hfit 1 (by simp) (by omega) fun _ => rfl
      simpa [copyAt] using this
    · simpa using h.skip [c.toUInt8] hfit (by simp; omega)
  · rw [h.cInt_pos hfit]
    split
    · rename_i hlt
      have := h.append (by omega) (utf8Encode c) hfit (utf8Encode c).length le_rfl hlt
        fun _ => rfl
      simpa [h.cInt_pos hfit] using this
    · rw [← h.cInt_pos hfit]
      exact h.skip _ hfit (by omega)

theorem bufPutWord_inv (h : b.Inv out) (str : List UInt8)
    (hfit : (out ++ ((if b.pos ≠ 0 then [0x20] else []) ++ str)).length < 2 ^ 31) :
    (bufPutWord b str).1.Inv (out ++ ((if b.pos ≠ 0 then [0x20] else []) ++ str)) := by
  unfold bufPutWord bufPuts
  by_cases hp : b.pos ≠ 0
  · rw [if_pos hp, ← List.append_assoc] at hfit
    rw [if_pos hp, if_pos hp, ← List.append_assoc]
    exact bufWrite_inv (bufPutByte_inv h 0x20 (by simp at hfit ⊢; omega)) str hfit
  · rw [if_neg hp, List.nil_append] at hfit
    rw [if_neg hp, if_neg hp, List.nil_append]
    exact bufWrite_inv h str hfit

theorem bufPutKeyTailT_inv (h : b.Inv out) (key : UInt32)
    (hfit : (out ++ bufPutKeyTail key).length < 2 ^ 31) :
    (bufPutKeyTailT b key).Inv (out ++ bufPutKeyTail key) := by
  unfold bufPutKeyTailT
  unfold bufPutKeyTail at hfit ⊢
  split
  · rename_i hk
    rw [if_pos hk] at hfit
    exact bufSnprintf_inv h _ hfit
  · rename_i hk
    rw [if_neg hk] at hfit
    exact bufPutcUtf8_inv h key hfit

theorem bufPutKeyBaseT_inv (h : b.Inv out) (key : UInt32)
    (hfit : (out ++ bufPutKeyBase key).length < 2 ^ 31) :
    (bufPutKeyBaseT b key).Inv (out ++ bufPutKeyBase key) := by
  unfold bufPutKeyBaseT
  unfold bufPutKeyBase at hfit ⊢
  cases hk : keyName key with
  | some s =>
    rw [hk] at hfit
    exact bufWrite_inv h s hfit
  | none =>
    rw [hk] at hfit
    exact bufPutKeyTailT_inv h key hfit

/-- A modifier prefix written or not. -/
theorem bufPuts_ite_inv (h : b.Inv out) (p : Prop) [Decidable p] (s : List UInt8)
    (hfit : (out ++ if p then s else []).length < 2 ^ 31) :
    (if p then (bufPuts b s).1 else b).Inv (out ++ if p then s else []) := by
  split
  · rename_i hp
    rw [if_pos hp] at hfit
    exact bufWrite_inv h s hfit
  · simpa using h

/-- `buf_put_key` outputs the key's name as `bufPutKey` writes it. -/
theorem bufPutKeyT_inv (h : b.Inv out) (key : UInt32) (hfit : (out ++ bufPutKey key).length < 2 ^ 31) :
    (bufPutKeyT b key).1.Inv (out ++ bufPutKey key) := by
  unfold bufPutKeyT
  unfold bufPutKey at hfit ⊢
  dsimp only
  cases hk : keyName key with
  | some s =>
    rw [hk] at hfit
    dsimp only at hfit ⊢
    exact bufWrite_inv h s hfit
  | none =>
    rw [hk] at hfit
    dsimp only at hfit ⊢
    split
    · rename_i hr
      rw [if_pos hr] at hfit
      -- the prefixes are parts of the output, each within the bound
      simp only [List.append_assoc, List.length_append] at hfit
      have hm := bufPuts_ite_inv h (key &&& KEY_META 0 = KEY_META 0) (ascii "M-")
        (by simp only [List.length_append]; omega)
      have hc := bufPuts_ite_inv hm (key &&& KEY_CONTROL 0 = KEY_CONTROL 0) (ascii "C-")
        (by simp only [List.length_append]; omega)
      have hs := bufPuts_ite_inv hc (key &&& KEY_SHIFT 0 = KEY_SHIFT 0) (ascii "S-")
        (by simp only [List.length_append]; omega)
      simpa only [List.append_assoc] using bufPutKeyBaseT_inv hs _
        (by simp only [List.length_append]; omega)
    · rename_i hr
      rw [if_neg hr] at hfit
      exact bufPutKeyTailT_inv h key hfit

end Writers

/-! ## Runs of calls -/

/-- The calls that write into a `buf_t`, each with the arguments it formats. -/
inductive BufOp
  | putByte (ch : UInt8)
  | write (src : List UInt8)
  | puts (str : List UInt8)
  | printf (text : List UInt8)
  | putcUtf8 (c : UInt32)
  | quoteByte (ch : UInt8) (flags : Nat)
  | putKey (key : UInt32)
  | putWord (str : List UInt8)
  deriving DecidableEq, Repr

/-- The buffer after one call. -/
def BufOp.apply : BufOp → BufT → BufT
  | .putByte ch, b => (bufPutByte b ch).1
  | .write src, b => (bufWrite b src).1
  | .puts str, b => (bufPuts b str).1
  | .printf text, b => (bufPrintf b text).1
  | .putcUtf8 c, b => (bufPutcUtf8 b c).1
  | .quoteByte ch flags, b => (bufQuoteByte b ch flags).1
  | .putKey key, b => (bufPutKeyT b key).1
  | .putWord str, b => (bufPutWord b str).1

/-- The untruncated output of one call, as if the array had no end. -/
def BufOp.text : BufOp → BufT → List UInt8
  | .putByte ch, _ => [ch]
  | .write src, _ => src
  | .puts str, _ => str
  | .printf text, _ => text
  | .putcUtf8 c, _ => utf8Encode c
  | .quoteByte ch flags, _ => strquoteByte ch flags
  | .putKey key, _ => bufPutKey key
  | .putWord str, b => (if b.pos ≠ 0 then [0x20] else []) ++ str

/-- The buffer after a sequence of calls. -/
def bufRun (b : BufT) : List BufOp → BufT
  | [] => b
  | op :: ops => bufRun (op.apply b) ops

/-- The untruncated output of a sequence of calls. -/
def bufOutput (b : BufT) : List BufOp → List UInt8
  | [] => []
  | op :: ops => op.text b ++ bufOutput (op.apply b) ops

/-- Every call keeps the invariant, its output appended, while the output stays within
`INT_MAX` bytes. -/
theorem BufOp.apply_inv {b : BufT} {out : List UInt8} (h : b.Inv out) :
    ∀ op : BufOp, (out ++ op.text b).length < 2 ^ 31 → (op.apply b).Inv (out ++ op.text b)
  | .putByte ch => bufPutByte_inv h ch
  | .write src => bufWrite_inv h src
  | .puts str => bufWrite_inv h str
  | .printf text => bufSnprintf_inv h text
  | .putcUtf8 c => bufPutcUtf8_inv h c
  | .quoteByte _ _ => bufSnprintf_inv h _
  | .putKey key => bufPutKeyT_inv h key
  | .putWord str => bufPutWord_inv h str

/-- Every run whose whole output stays within `INT_MAX` bytes keeps the invariant, the run's
output appended: induction on the calls, each step by `BufOp.apply_inv`. -/
theorem bufRun_inv {b : BufT} {out : List UInt8} (h : b.Inv out) (ops : List BufOp)
    (hfit : (out ++ bufOutput b ops).length < 2 ^ 31) :
    (bufRun b ops).Inv (out ++ bufOutput b ops) := by
  induction ops generalizing b out with
  | nil => simpa [bufRun, bufOutput] using h
  | cons op ops ih =>
    have hfit' : (out ++ op.text b ++ bufOutput (op.apply b) ops).length < 2 ^ 31 := by
      simpa [bufOutput, List.append_assoc] using hfit
    have hop := BufOp.apply_inv h op (by simp only [List.length_append] at hfit' ⊢; omega)
    simpa [bufRun, bufOutput, List.append_assoc] using ih hop hfit'

/-- `buf_init` on an array of at least one byte, and at most `INT_MAX`, holds the empty
output. -/
theorem bufInit_inv {arr : List UInt8} (h : 0 < arr.length) (hsize : arr.length < 2 ^ 31) :
    (bufInit arr).Inv [] where
  length_buf := by simp [bufInit, h]
  size_lt := by simp [bufInit, h]; omega
  len_nonneg := by simp [bufInit, h]
  len_lt := by simp [bufInit, h]
  nul := by simp [bufInit, h]
  pos_eq := by simp [bufInit, h]
  len_eq := fun _ => by simp [bufInit, h]
  agrees := by simp [bufInit, h]

/-- `buf_putc_utf8` adds to the array all of the character's encoding or nothing. -/
theorem bufPutcUtf8_whole {b : BufT} {out : List UInt8} (h : b.Inv out) (c : UInt32)
    (hfit : (out ++ utf8Encode c).length < 2 ^ 31) :
    let r := bufPutcUtf8 b c
    (r.2 = 0 ∧ r.1.len = b.len ∧ r.1.buf = b.buf) ∨
      (r.2 = (utf8Encode c).length ∧ r.1.len = b.len + (utf8Encode c).length ∧
        r.1.buf.take r.1.len.toNat = b.buf.take b.len.toNat ++ utf8Encode c) := by
  have hbl := h.length_buf
  have hl0 := h.len_nonneg
  have hlt := h.len_lt
  have hsz := h.size_lt
  unfold bufPutcUtf8
  dsimp only
  split
  · rename_i hc
    rw [utf8Encode_of_lt hc] at hfit ⊢
    have hp : cInt (b.pos + 1) = b.pos + 1 := by simpa using h.cInt_pos hfit
    rw [hp]
    split
    · right
      have hl : cInt (b.len + 1) = b.len + 1 := cInt_of_lt (by omega) (by omega)
      have htake := take_copyAt b.buf b.len.toNat [c.toUInt8] (by simp; omega)
      refine ⟨rfl, by rw [hl]; simp, ?_⟩
      rw [hl, show (b.len + 1).toNat = b.len.toNat + [c.toUInt8].length by simp; omega]
      simpa [take_set_self, copyAt] using htake
    · left
      exact ⟨rfl, rfl, rfl⟩
  · rw [h.cInt_pos hfit]
    split
    · right
      rename_i hroom
      have hlen := h.len_eq (by omega)
      have hl : cInt (b.len + (utf8Encode c).length) = b.len + (utf8Encode c).length :=
        cInt_of_lt (by omega) (by omega)
      have htake := take_copyAt b.buf b.len.toNat (utf8Encode c) (by omega)
      refine ⟨rfl, hl, ?_⟩
      rw [hl, show (b.len + (utf8Encode c).length).toNat = b.len.toNat + (utf8Encode c).length by
        omega]
      simpa [take_set_self] using htake
    · left
      exact ⟨rfl, rfl, rfl⟩

/-- After `buf_init` of an array of at least one byte and any calls whose whole output is at
most `INT_MAX` bytes, the array holds a truncated prefix of the output, and a
`buf_putc_utf8` that keeps the output within that bound then writes all of its sequence or
none of it. -/
theorem bufT_truncated_prefix (arr : List UInt8) (harr : 1 ≤ arr.length)
    (hsize : arr.length < 2 ^ 31) (ops : List BufOp)
    (hout : (bufOutput (bufInit arr) ops).length < 2 ^ 31) :
    let b := bufRun (bufInit arr) ops
    let out := bufOutput (bufInit arr) ops
    (0 ≤ b.len ∧ b.len ≤ b.size - 1 ∧ b.buf[b.len.toNat]? = some 0 ∧ b.pos = out.length ∧
      (b.pos < b.size → b.len = b.pos) ∧ b.buf.take b.len.toNat <+: out) ∧
    ∀ c : UInt32, out.length + (utf8Encode c).length < 2 ^ 31 →
      let r := bufPutcUtf8 b c
      (r.2 = 0 ∧ r.1.len = b.len ∧ r.1.buf = b.buf) ∨
        (r.2 = (utf8Encode c).length ∧ r.1.len = b.len + (utf8Encode c).length ∧
          r.1.buf.take r.1.len.toNat = b.buf.take b.len.toNat ++ utf8Encode c) := by
  intro b out
  have h : b.Inv out := by
    simpa using bufRun_inv (bufInit_inv harr hsize) ops (by simpa using hout)
  exact ⟨⟨h.len_nonneg, by have := h.len_lt; omega, h.nul, h.pos_eq, h.len_eq, h.agrees⟩,
    fun c hc => bufPutcUtf8_whole h c (by simpa using hc)⟩

/-- A four byte array, `"ab"` and a euro sign: the sign does not fit after `"ab"` and its
NUL, and is not written. -/
theorem bufT_truncated_prefix_euro :
    1 ≤ ([0, 0, 0, 0] : List UInt8).length ∧ ([0, 0, 0, 0] : List UInt8).length < 2 ^ 31 ∧
    (bufOutput (bufInit [0, 0, 0, 0]) [.puts [0x61, 0x62], .putcUtf8 0x20ac]).length < 2 ^ 31 ∧
    let b := bufRun (bufInit [0, 0, 0, 0]) [.puts [0x61, 0x62], .putcUtf8 0x20ac]
    let out := bufOutput (bufInit [0, 0, 0, 0]) [.puts [0x61, 0x62], .putcUtf8 0x20ac]
    (0 ≤ b.len ∧ b.len ≤ b.size - 1 ∧ b.buf[b.len.toNat]? = some 0 ∧ b.pos = out.length ∧
      (b.pos < b.size → b.len = b.pos) ∧ b.buf.take b.len.toNat <+: out) ∧
    ∀ c : UInt32, out.length + (utf8Encode c).length < 2 ^ 31 →
      let r := bufPutcUtf8 b c
      (r.2 = 0 ∧ r.1.len = b.len ∧ r.1.buf = b.buf) ∨
        (r.2 = (utf8Encode c).length ∧ r.1.len = b.len + (utf8Encode c).length ∧
          r.1.buf.take r.1.len.toNat = b.buf.take b.len.toNat ++ utf8Encode c) :=
  ⟨by decide, by decide, by decide, bufT_truncated_prefix _ (by decide) (by decide) _ (by decide)⟩

example : (bufRun (bufInit [0, 0, 0, 0]) [.puts [0x61, 0x62], .putcUtf8 0x20ac]) =
    ⟨[0x61, 0x62, 0, 0], 4, 2, 5⟩ := by decide

/-- Two writes of `2^30` bytes each into a one byte array, then a `buf_put_byte`: only the
count of the bytes matters. -/
theorem bufRun_wraps_of_length (s : List UInt8) (hl : s.length = 2 ^ 30) :
    let b := bufRun (bufInit [0]) [.write s, .write s, .putByte 0x62]
    b.size = 1 ∧ b.len = 1 ∧ b.pos = -2 ^ 31 + 1 ∧
      (bufOutput (bufInit [0]) [.write s, .write s, .putByte 0x62]).length = 2 ^ 31 + 1 := by
  have h0 : bufInit [0] = ⟨[0], 1, 0, 0⟩ := rfl
  have c0 : cInt 0 = 0 := cInt_of_lt (by norm_num) (by norm_num)
  have c1 : cInt (0 + 1) = 1 := cInt_of_lt (by norm_num) (by norm_num)
  have c30 : cInt 1073741824 = 1073741824 := cInt_of_lt (by norm_num) (by norm_num)
  have cwrap : cInt (2 ^ 30 + (2 ^ 30 : Nat)) = -2 ^ 31 := by norm_num [cInt, Int.bmod]
  have cpos : cInt (-2 ^ 31 + 1) = -2 ^ 31 + 1 := cInt_of_lt (by norm_num) (by norm_num)
  -- the first write finds no room before the NUL and moves `pos` to `2^30`
  have h1 : (bufWrite ⟨[0], 1, 0, 0⟩ s).1 = ⟨[0], 1, 0, 2 ^ 30⟩ := by
    simp only [bufWrite, hl]
    simp [c0, c30, copyAt]
  -- the second one moves it to `2^31`, which wraps
  have h2 : (bufWrite ⟨[0], 1, 0, 2 ^ 30⟩ s).1 = ⟨[0], 1, 0, -2 ^ 31⟩ := by
    simp only [bufWrite, hl]
    rw [if_neg (by norm_num), cwrap]
  -- `pos < size` again: the byte goes to `buf[0]` and its NUL to `buf[1]`, past the end
  have h3 : (bufPutByte ⟨[0], 1, 0, -2 ^ 31⟩ 0x62).1 = ⟨[0x62], 1, 1, -2 ^ 31 + 1⟩ := by
    simp only [bufPutByte, cpos, c1]
    rw [if_pos (by norm_num)]
    rfl
  -- the run's equations one call at a time; `simp` would reduce the calls' matches deeply
  have hrun : bufRun (bufInit [0]) [.write s, .write s, .putByte 0x62] =
      ⟨[0x62], 1, 1, -2 ^ 31 + 1⟩ := by
    rw [bufRun, bufRun, bufRun, bufRun, BufOp.apply, BufOp.apply, BufOp.apply, h0, h1, h2, h3]
  refine ⟨by rw [hrun], by rw [hrun], by rw [hrun], ?_⟩
  rw [bufOutput, bufOutput, bufOutput, bufOutput, BufOp.text, BufOp.text, BufOp.text]
  simp [hl]

/-- Past `INT_MAX` bytes of output `pos` wraps: on a one byte array, two writes of `2^30`
bytes bring it to `2^31`, which as an `int` is `-2^31`; the next `buf_put_byte` then finds
`pos < size` and writes at `len` and its NUL after it, past the end of the array, leaving
`len` = 1 = `size` and `pos` far from the `2^31 + 1` bytes of the output. -/
theorem bufT_pos_wraps :
    let ops := [BufOp.write (List.replicate (2 ^ 30) 0x61), .write (List.replicate (2 ^ 30) 0x61),
      .putByte 0x62]
    let b := bufRun (bufInit [0]) ops
    b.size = 1 ∧ b.len = 1 ∧ b.pos = -2 ^ 31 + 1 ∧
      (bufOutput (bufInit [0]) ops).length = 2 ^ 31 + 1 :=
  bufRun_wraps_of_length _ List.length_replicate

end Qemacs
