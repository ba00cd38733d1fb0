import Qemacs.Charset.Utf8
import Mathlib.Data.Nat.Digits.Defs

/-!
# The keyboard reader: `tty_read_handler`

`tty_read_handler` (tty.c) reads one byte a call and runs the input state
machine of `TTYState`. IS_NORM decodes UTF-8 when the screen charset is UTF-8
and hands ESC on to IS_ESC, which opens the CSI, SS3 and OSC sequences. The
model stops where a complete sequence is looked up in the key tables: a CSI,
CSI2, SS3 or OSC sequence is handed on with its parameters (`TtyEvent`), and
only the keys of IS_NORM and IS_ESC are computed.

The UTF-8 decoder keeps the bytes of a sequence underway in the eight bytes of
`ts->buf`, indexed by `utf8_index`, and resets the index only when a byte that
is not a continuation byte arrives. On text whose every continuation byte
belongs to a complete sequence it emits exactly the keys of the reference
decoding (`ttyRun_keyText`). After a complete sequence the index stays at the
sequence's length: a continuation byte that follows is stored after it, the
buffer decodes to the same character again, and the index moves on
(`ttyReadHandler_repeats`), so that `k` such bytes emit the character `k` times
more until one is stored past the end of `ts->buf` (`ttyRun_repeats`).

The CSI parameters are accumulated digit by digit with no bound
(`ttyReadHandler_csiDigit`): a parameter is the number written, whatever its
size (`ttyRun_csiParam`), and the digit that takes it past `INT_MAX` overflows
the `int`.
-/

namespace Qemacs

/-! ## The state -/

/-- `KBS_CONTROL_H`, the bit of `term_flags` that makes `^H` the DEL key. -/
def KBS_CONTROL_H : Nat := 0x01

/-- `KEY_DEL`. -/
def KEY_DEL : UInt32 := 127

/-- `KEY_ESC`. -/
def KEY_ESC : UInt32 := 0x1b

/-- `KEY_META(c)`. -/
def keyMeta (c : UInt32) : UInt32 := c ||| 0xE200

/-- `CSI_PARAM_OMITTED`: the bit pattern `0x80000000` as an `int`. -/
def CSI_PARAM_OMITTED : Int := -0x80000000

/-- `params[k] &= ~CSI_PARAM_OMITTED` on an `int`: its sign bit cleared. -/
def clearOmitted (v : Int) : Int := v % 0x80000000

/-- The values of a C `int`. -/
def IntRange (v : Int) : Prop := -0x80000000 ≤ v ∧ v < 0x80000000

instance (v : Int) : Decidable (IntRange v) :=
  inferInstanceAs (Decidable (-0x80000000 ≤ v ∧ v < 0x80000000))

/-- `enum InputState`. -/
inductive InputState
  | norm
  | esc
  | csi
  | csi2
  | ss3
  | osc
  deriving DecidableEq, Repr

/-- The input fields of `TTYState`. The `int` parameters are mathematical
integers, so that an accumulation that leaves the `int` range shows as a value
outside `IntRange`. -/
structure TTYInput where
  inputState : InputState
  lastCh : UInt8
  thisCh : UInt8
  hasMeta : Bool
  nbParams : Nat
  params : Vector Int 3
  leader : UInt8
  interm : UInt8
  utf8Index : Nat
  buf : Vector UInt8 8
  deriving DecidableEq, Repr

/-- The state `qe_mallocz` leaves: every field zero. -/
def TTYInput.init : TTYInput where
  inputState := .norm
  lastCh := 0
  thisCh := 0
  hasMeta := false
  nbParams := 0
  params := Vector.replicate 3 0
  leader := 0
  interm := 0
  utf8Index := 0
  buf := Vector.replicate 8 0

/-- What a byte hands on: a key event, or a complete sequence for the key
tables, with the meta state of the ESC before it. -/
inductive TtyEvent
  | key (ch : UInt32)
  | csi (leader interm final : UInt8) (nbParams : Nat) (params : Vector Int 3) (hasMeta : Bool)
  | csi2 (final : UInt8) (hasMeta : Bool)
  | ss3 (param : Int) (final : UInt8) (hasMeta : Bool)
  | osc (final : UInt8)
  deriving DecidableEq, Repr

/-! ## One byte -/

/-- A continuation byte: `(ch ^ 0x80) <= 0x3f`. -/
def isCont (c : UInt8) : Bool := (c ^^^ 0x80) ≤ 0x3f

/-- The charset handling of IS_NORM for the UTF-8 screen charset: the index and
bytes of the sequence, and the character read, none while a sequence is
underway. `none` when the byte is stored past the end of `ts->buf`. -/
def utf8Step (index : Nat) (buf : Vector UInt8 8) (ch : UInt8) :
    Option (Nat × Vector UInt8 8 × Option UInt32) :=
  -- not a valid continuation byte: flush the stored prefix, restart from this byte
  let index := if index ≠ 0 ∧ isCont ch = false then 0 else index
  if h : index < 8 then
    let buf := buf.set index ch h
    let len := utf8_length buf[0]
    if len > 1 then
      if index + 1 < len then some (index + 1, buf, none)
      else some (index + 1, buf, some (utf8Decode buf.toList).1)
    else some (index, buf, some ch.toUInt32)
  else none

/-- `the_end`: the key event, back to IS_NORM. -/
def theEnd (ts : TTYInput) (ch : UInt32) : TTYInput × Option TtyEvent :=
  ({ ts with inputState := .norm, hasMeta := false }, some (.key ch))

/-- `the_end_meta`: the key, with META if an ESC came before. -/
def theEndMeta (ts : TTYInput) (ch : UInt32) : TTYInput × Option TtyEvent :=
  theEnd ts (if ts.hasMeta then keyMeta ch else ch)

/-- The key of a character read in IS_NORM: backspace is DEL under
`KBS_CONTROL_H`. -/
def normKey (termFlags : Nat) (ch : UInt32) : UInt32 :=
  if ch = 8 ∧ termFlags &&& KBS_CONTROL_H ≠ 0 then KEY_DEL else ch

/-- IS_NORM after the charset handling: ESC waits for what follows when more
input is pending, every other character is a key. -/
def normChar (termFlags : Nat) (pending : Bool) (ts : TTYInput) (ch : UInt32) :
    TTYInput × Option TtyEvent :=
  if ch = 0x1b then
    -- the ESC key alone, or the start of a sequence
    if pending then ({ ts with inputState := .esc }, none) else theEndMeta ts ch
  else theEndMeta ts (normKey termFlags ch)

/-- A CSI byte that is not a digit, a leader or an intermediate byte: it ends a
parameter, and all but `:` and `;` end the sequence. -/
def csiFinal (ts : TTYInput) (ch : UInt8) : TTYInput × Option TtyEvent :=
  let nb := ts.nbParams + 1
  let ts := { ts with
    nbParams := nb
    params := if h : nb < 3 then ts.params.set nb CSI_PARAM_OMITTED h else ts.params }
  if ch = 0x3a ∨ ch = 0x3b then (ts, none)
  -- cygwin/linux terminal: non standard sequence
  else if ts.leader = 0 ∧ ts.interm = 0 ∧ ch = 0x5b then ({ ts with inputState := .csi2 }, none)
  else ({ ts with inputState := .norm, hasMeta := false },
    some (.csi ts.leader ts.interm ch ts.nbParams ts.params ts.hasMeta))

/-- `tty_read_handler` on the byte `ch`, `pending` being what
`tty_dpy_is_user_input_pending` answers and `utf8` whether the screen charset
is `charset_utf8`. `none` when the byte is stored past the end of `ts->buf`. -/
def ttyReadHandler (termFlags : Nat) (utf8 pending : Bool) (ts : TTYInput) (ch : UInt8) :
    Option (TTYInput × Option TtyEvent) :=
  let ts := { ts with lastCh := ts.thisCh, thisCh := ch }
  match ts.inputState with
  | .norm =>
    let r := if utf8 then utf8Step ts.utf8Index ts.buf ch
      else some (ts.utf8Index, ts.buf, some ch.toUInt32)
    match r with
    | none => none
    | some (index, buf, c) =>
      let ts := { ts with utf8Index := index, buf := buf }
      match c with
      -- a UTF-8 sequence underway: wait for the next byte
      | none => some (ts, none)
      | some c => some (normChar termFlags pending ts c)
  | .esc =>
    if ch = 0x1b then
      -- alt-ESC, or the ESC prefix of a sequence
      if pending then some ({ ts with hasMeta := true }, none)
      else some (theEnd ts (keyMeta KEY_ESC))
    else if ch = 0x5b ∧ pending then
      let params := Vector.replicate 3 CSI_PARAM_OMITTED
      some ({ ts with inputState := .csi, nbParams := 0, params := params, leader := 0, interm := 0 },
        none)
    else if ch = 0x4f ∧ pending then
      let params := ts.params.set 0 0 (by omega)
      some ({ ts with inputState := .ss3, nbParams := 0, params := params, interm := 0 }, none)
    else if ch = 0x5d ∧ pending then some ({ ts with inputState := .osc, hasMeta := false }, none)
    else some (theEnd ts (keyMeta ch.toUInt32))
  | .csi =>
    -- intermediate and leader bytes: only the last one is kept
    if 0x20 ≤ ch ∧ ch ≤ 0x2f then some ({ ts with interm := ch }, none)
    else if 0x3c ≤ ch ∧ ch ≤ 0x3f then some ({ ts with leader := ch }, none)
    else if 0x30 ≤ ch ∧ ch ≤ 0x39 then
      -- a digit after an intermediate byte: the sequence is ignored
      if ts.interm ≠ 0 then some ({ ts with inputState := .norm, hasMeta := false }, none)
      else if h : ts.nbParams < 3 then
        let v := clearOmitted ts.params[ts.nbParams] * 10 + (ch - 0x30).toNat
        some ({ ts with params := ts.params.set ts.nbParams v h }, none)
      else some (ts, none)
    else some (csiFinal ts ch)
  | .csi2 => some ({ ts with inputState := .norm, hasMeta := false }, some (.csi2 ch ts.hasMeta))
  | .ss3 =>
    if 0x30 ≤ ch ∧ ch ≤ 0x39 then
      let v := ts.params[0] * 10 + (ch - 0x30).toNat
      some ({ ts with params := ts.params.set 0 v (by omega) }, none)
    else some ({ ts with inputState := .norm, hasMeta := false }, some (.ss3 ts.params[0] ch ts.hasMeta))
  | .osc =>
    -- the string ends at BEL, ST or ESC \
    if ch = 7 ∨ ch = 0x9c ∨ (ch = 0x5c ∧ ts.lastCh = 27) then
      some ({ ts with inputState := .norm, hasMeta := false }, some (.osc ch))
    else some (ts, none)

/-- The reader on a stream of bytes, with the same pending answer for each. -/
def ttyRun (termFlags : Nat) (utf8 pending : Bool) :
    TTYInput → List UInt8 → Option (TTYInput × List TtyEvent)
  | ts, [] => some (ts, [])
  | ts, ch :: rest => do
    let (ts₁, e) ← ttyReadHandler termFlags utf8 pending ts ch
    let (ts₂, es) ← ttyRun termFlags utf8 pending ts₁ rest
    pure (ts₂, e.toList ++ es)

/-! ## The reference decoding -/

/-- The decoding the keyboard reader is meant to perform: a lead byte followed
by all its continuation bytes is one key, of `utf8_decode`'s value; a lead byte
whose sequence is cut by another byte, or by the end, yields nothing, and the
byte that cuts it starts afresh; every other byte is the key of its value. -/
def refDecode : List UInt8 → List UInt32
  | [] => []
  | b :: rest =>
    if 1 < utf8_length b then
      let k := (rest.takeWhile isCont).length
      if utf8_length b - 1 ≤ k then
        (utf8Decode (b :: rest.take (utf8_length b - 1))).1 :: refDecode (rest.drop (utf8_length b - 1))
      else refDecode (rest.drop k)
    else b.toUInt32 :: refDecode rest
termination_by l => l.length
decreasing_by all_goals simp only [List.length_drop, List.length_cons]; omega

/-- A character as a keyboard sends it: a byte that starts no sequence and is
no continuation byte, or a lead byte with all its continuation bytes. -/
inductive KeyChar : List UInt8 → Prop
  | single {b : UInt8} : utf8_length b = 1 → isCont b = false → KeyChar [b]
  | seq {b : UInt8} {tail : List UInt8} : 1 < utf8_length b → tail.length + 1 = utf8_length b →
      (∀ c ∈ tail, isCont c = true) → KeyChar (b :: tail)

/-- Keyboard text: characters one after the other. -/
inductive KeyText : List UInt8 → Prop
  | nil : KeyText []
  | cons {c rest : List UInt8} : KeyChar c → KeyText rest → KeyText (c ++ rest)

set_option maxRecDepth 8000 in
theorem isCont_iff (c : UInt8) : isCont c = true ↔ 0x80 ≤ c.toNat ∧ c.toNat < 0xc0 := by
  have key : ∀ n < 256, (isCont (UInt8.ofNat n) = true ↔ 0x80 ≤ n ∧ n < 0xc0) := by decide
  have h := key c.toNat c.toNat_lt
  rwa [UInt8.ofNat_toNat] at h

theorem one_lt_utf8_length_iff (c : UInt8) :
    1 < utf8_length c ↔ 0xc0 ≤ c.toNat ∧ c.toNat < 0xfe := by
  unfold utf8_length
  simp only [UInt8.lt_iff_toNat_lt]
  split_ifs <;> simp_all <;> omega

theorem utf8_length_le (c : UInt8) : utf8_length c ≤ 6 := by
  unfold utf8_length
  split_ifs <;> omega

/-- A lead byte is no continuation byte. -/
theorem isCont_of_lead {c : UInt8} (h : 1 < utf8_length c) : isCont c = false := by
  have hc := (one_lt_utf8_length_iff c).mp h
  cases hb : isCont c
  · rfl
  · have := (isCont_iff c).mp hb
    omega

theorem utf8x_length_of_lead {c : UInt8} (h : 1 < utf8_length c) : utf8x_length c = utf8_length c := by
  have hc := (one_lt_utf8_length_iff c).mp h
  unfold utf8x_length utf8_length
  simp only [UInt8.lt_iff_toNat_lt]
  split_ifs <;> simp_all <;> omega

/-- The decoding loop reads no further than the length the lead byte announces. -/
theorem utf8DecodeLoop_append (lead : UInt8) (len : Nat) (extra : List UInt8) :
    ∀ (tail : List UInt8) (i : Nat) (c : UInt32), i + tail.length = len → i < len →
      utf8DecodeLoop lead len (tail ++ extra) i c = utf8DecodeLoop lead len tail i c
  | [], i, _, hlen, hi => by simp only [List.length_nil] at hlen; omega
  | x :: xs, i, c, hlen, _ => by
    simp only [List.cons_append, utf8DecodeLoop]
    split
    · rfl
    · split
      · rfl
      · -- the sequence goes on past `x`
        simp only [List.length_cons] at hlen
        exact utf8DecodeLoop_append lead len extra xs (i + 1) _ (by omega) (by omega)

/-- `utf8_decode` of a lead byte sees only the bytes of its sequence. -/
theorem utf8Decode_take {b : UInt8} (h : 1 < utf8_length b) (t : List UInt8) :
    utf8Decode (b :: t.take (utf8_length b - 1)) = utf8Decode (b :: t) := by
  have hb := (one_lt_utf8_length_iff b).mp h
  have hlt : ¬ b < 0xc0 := by simp only [UInt8.lt_iff_toNat_lt]; simp; omega
  by_cases ht : utf8_length b - 1 ≤ t.length
  · have hlen : 1 + (t.take (utf8_length b - 1)).length = utf8x_length b := by
      rw [List.length_take, utf8x_length_of_lead h]
      omega
    conv => rhs; rw [← List.take_append_drop (utf8_length b - 1) t]
    simp only [utf8Decode, hlt, if_false]
    rw [utf8DecodeLoop_append _ _ _ _ _ _ hlen (by rw [utf8x_length_of_lead h]; exact h)]
  · rw [List.take_of_length_le (by omega)]

/-- A byte alone decodes to itself. -/
theorem utf8Decode_single (b : UInt8) : (utf8Decode [b]).1 = b.toUInt32 := by
  simp only [utf8Decode]
  split_ifs
  · rfl
  · rfl

theorem refDecode_keyChar {c : List UInt8} (hc : KeyChar c) (rest : List UInt8) :
    refDecode (c ++ rest) = (utf8Decode c).1 :: refDecode rest := by
  cases hc with
  | single hlen _ =>
    rw [List.singleton_append, refDecode, if_neg (by omega), utf8Decode_single]
  | @seq b tail hlead hlen hcont =>
    have htake : (tail ++ rest).take (utf8_length b - 1) = tail := by
      rw [List.take_append_of_le_length (by omega), List.take_of_length_le (by omega)]
    have hdrop : (tail ++ rest).drop (utf8_length b - 1) = rest := by
      rw [List.drop_append_of_le_length (by omega), List.drop_of_length_le (by omega), List.nil_append]
    have hk : utf8_length b - 1 ≤ ((tail ++ rest).takeWhile isCont).length := by
      rw [List.takeWhile_append_of_pos hcont, List.length_append]
      omega
    rw [List.cons_append, refDecode, if_pos hlead]
    simp only [if_pos hk, htake, hdrop]

/-! ## The reader on keyboard text -/

/-- IS_NORM, with no ESC before. -/
structure TTYInput.Norm (ts : TTYInput) : Prop where
  state : ts.inputState = .norm
  noMeta : ts.hasMeta = false

theorem take_succ_set {α : Type} (l : List α) {k : Nat} (x : α) (h : k < l.length) :
    (l.set k x).take (k + 1) = l.take k ++ [x] := by
  rw [List.set_eq_take_append_cons_drop, if_pos h, List.take_append, List.length_take,
    Nat.min_eq_left (Nat.le_of_lt h), List.take_of_length_le (Nat.le_succ_of_le (List.length_take_le _ _)),
    Nat.add_sub_cancel_left, List.take_succ_cons, List.take_zero]

theorem utf8Decode_of_take {l : List UInt8} {b : UInt8} {p : List UInt8}
    (hlead : 1 < utf8_length b) (h : l.take (p.length + 1) = b :: p)
    (hp : p.length + 1 = utf8_length b) : utf8Decode l = utf8Decode (b :: p) := by
  cases l with
  | nil => simp at h
  | cons a t =>
    rw [List.take_succ_cons, List.cons.injEq] at h
    obtain ⟨rfl, ht⟩ := h
    rw [← utf8Decode_take hlead t, ← ht, show utf8_length a - 1 = p.length by omega]

theorem utf8Step_fresh (index : Nat) (buf : Vector UInt8 8) {ch : UInt8} (hc : isCont ch = false) :
    utf8Step index buf ch = some (if 1 < utf8_length ch then (1, buf.set 0 ch (by omega), none)
      else (0, buf.set 0 ch (by omega), some ch.toUInt32)) := by
  have h0 : (if index ≠ 0 ∧ isCont ch = false then 0 else index) = 0 := by
    by_cases hi : index = 0 <;> simp [hi, hc]
  unfold utf8Step
  simp only [h0, dif_pos (show 0 < 8 by omega), Vector.getElem_set_self]
  by_cases hl : 1 < utf8_length ch
  · simp [hl]
  · simp [hl]

theorem utf8Step_cont {index : Nat} {buf : Vector UInt8 8} {ch : UInt8} (hc : isCont ch = true)
    (hi : 0 < index) (h8 : index < 8) (hlead : 1 < utf8_length buf[0]) :
    utf8Step index buf ch = some (index + 1, buf.set index ch h8,
      if index + 1 < utf8_length buf[0] then none
      else some (utf8Decode (buf.set index ch h8).toList).1) := by
  have h0 : (if index ≠ 0 ∧ isCont ch = false then 0 else index) = index := by simp [hc]
  have hb : (buf.set index ch h8)[0] = buf[0] := Vector.getElem_set_ne _ _ (by omega)
  unfold utf8Step
  simp only [h0, dif_pos h8, hb, if_pos hlead]
  split_ifs <;> rfl

section Reader

variable (termFlags : Nat) (pending : Bool) {utf8 : Bool}

theorem ttyRun_cons_of {ts ts₁ : TTYInput} {ch : UInt8} {e : Option TtyEvent} (rest : List UInt8)
    (h : ttyReadHandler termFlags utf8 pending ts ch = some (ts₁, e)) :
    ttyRun termFlags utf8 pending ts (ch :: rest) =
      (ttyRun termFlags utf8 pending ts₁ rest).map fun r => (r.1, e.toList ++ r.2) := by
  simp only [ttyRun, h, Option.bind_eq_bind, Option.bind_some]
  cases ttyRun termFlags utf8 pending ts₁ rest <;> rfl

theorem ttyRun_append (ts : TTYInput) (l₁ l₂ : List UInt8) :
    ttyRun termFlags utf8 pending ts (l₁ ++ l₂) =
      (ttyRun termFlags utf8 pending ts l₁).bind fun r =>
        (ttyRun termFlags utf8 pending r.1 l₂).map fun r' => (r'.1, r.2 ++ r'.2) := by
  induction l₁ generalizing ts with
  | nil =>
    simp only [List.nil_append, ttyRun, Option.bind_some, List.nil_append]
    cases ttyRun termFlags utf8 pending ts l₂ <;> rfl
  | cons ch l₁ ih =>
    cases hstep : ttyReadHandler termFlags utf8 pending ts ch with
    | none => simp only [List.cons_append, ttyRun, hstep, Option.bind_eq_bind, Option.bind_none]
    | some r =>
      obtain ⟨ts₁, e⟩ := r
      rw [List.cons_append, ttyRun_cons_of termFlags pending _ hstep,
        ttyRun_cons_of termFlags pending _ hstep, ih]
      cases ttyRun termFlags utf8 pending ts₁ l₁ with
      | none => rfl
      | some r =>
        simp only [Option.bind_some, Option.map_some, Option.map_map]
        cases ttyRun termFlags utf8 pending r.1 l₂ <;> simp

theorem ttyRun_cons_none {ts : TTYInput} {ch : UInt8} (rest : List UInt8)
    (h : ttyReadHandler termFlags utf8 pending ts ch = none) :
    ttyRun termFlags utf8 pending ts (ch :: rest) = none := by
  simp only [ttyRun, h, Option.bind_eq_bind, Option.bind_none]

/-- A byte of a UTF-8 sequence underway hands nothing on. -/
theorem ttyReadHandler_wait {ts : TTYInput} {ch : UInt8} {i : Nat} {buf : Vector UInt8 8}
    (hts : ts.Norm) (hs : utf8Step ts.utf8Index ts.buf ch = some (i, buf, none)) :
    ∃ ts', ttyReadHandler termFlags true pending ts ch = some (ts', none) ∧ ts'.Norm ∧
      ts'.utf8Index = i ∧ ts'.buf = buf := by
  refine ⟨{ ts with lastCh := ts.thisCh, thisCh := ch, utf8Index := i, buf := buf }, ?_,
    ⟨hts.state, hts.noMeta⟩, rfl, rfl⟩
  simp only [ttyReadHandler, hts.state, if_true, hs]

/-- A character read in IS_NORM is a key, ESC too when no input is pending. -/
theorem ttyReadHandler_key {ts : TTYInput} {ch : UInt8} {i : Nat} {buf : Vector UInt8 8} {c : UInt32}
    (hts : ts.Norm) (hs : utf8Step ts.utf8Index ts.buf ch = some (i, buf, some c))
    (hesc : pending = true → c ≠ 0x1b) :
    ∃ ts', ttyReadHandler termFlags true pending ts ch = some (ts', some (.key (normKey termFlags c))) ∧
      ts'.Norm ∧ ts'.utf8Index = i ∧ ts'.buf = buf := by
  refine ⟨{ ts with
      lastCh := ts.thisCh
      thisCh := ch
      utf8Index := i
      buf := buf
      inputState := .norm
      hasMeta := false }, ?_, ⟨rfl, rfl⟩, rfl, rfl⟩
  simp only [ttyReadHandler, hts.state, if_true, hs, normChar, theEndMeta, theEnd, hts.noMeta]
  by_cases he : c = 0x1b
  · have hp : pending = false := by cases pending <;> simp_all
    simp [he, hp, normKey]
  · simp [he]

/-- The continuation bytes of a sequence underway: the last one emits the key of
the whole sequence. `pre` is what the buffer holds after the lead byte `b`. -/
theorem ttyRun_seqTail {b : UInt8} (hlead : 1 < utf8_length b) :
    ∀ (tail pre : List UInt8) (ts : TTYInput), ts.Norm → (∀ x ∈ tail, isCont x = true) →
      tail ≠ [] → pre.length + 1 + tail.length = utf8_length b →
      ts.utf8Index = pre.length + 1 → ts.buf[0] = b →
      ts.buf.toList.take (pre.length + 1) = b :: pre →
      (pending = true → (utf8Decode (b :: pre ++ tail)).1 ≠ 0x1b) →
      ∃ ts', ts'.Norm ∧ ∀ rest, ttyRun termFlags true pending ts (tail ++ rest) =
        (ttyRun termFlags true pending ts' rest).map
          fun r => (r.1, .key (normKey termFlags (utf8Decode (b :: pre ++ tail)).1) :: r.2)
  | [], _, _, _, _, hne, _, _, _, _, _ => absurd rfl hne
  | x :: xs, pre, ts, hts, hcont, _, hlen, hidx, hb, htake, hesc => by
    have hk8 : pre.length + 1 < 8 := by
      have := utf8_length_le b
      simp only [List.length_cons] at hlen
      omega
    have hs := utf8Step_cont (hcont x (by simp)) (by omega) (hidx ▸ hk8) (hb ▸ hlead)
    -- the byte is stored after the prefix, behind the same lead byte
    have hb' : (ts.buf.set ts.utf8Index x (hidx ▸ hk8))[0] = b := by
      rw [Vector.getElem_set_ne _ _ (by omega), hb]
    have htake' : (ts.buf.set ts.utf8Index x (hidx ▸ hk8)).toList.take ((pre ++ [x]).length + 1) =
        b :: (pre ++ [x]) := by
      rw [Vector.toList_set, List.length_append, List.length_singleton, hidx,
        take_succ_set _ _ (by simp; omega), htake, List.cons_append]
    cases xs with
    | nil =>
      -- the last byte of the sequence
      have hend : ¬ ts.utf8Index + 1 < utf8_length ts.buf[0] := by
        simp only [List.length_cons, List.length_nil] at hlen
        rw [hb]
        omega
      rw [if_neg hend] at hs
      have hdec := utf8Decode_of_take hlead htake' (by
        simp only [List.length_append, List.length_cons, List.length_nil] at hlen ⊢
        omega)
      rw [hdec] at hs
      obtain ⟨ts', hstep, hts', -, -⟩ := ttyReadHandler_key termFlags pending hts hs
        (by simpa using hesc)
      refine ⟨ts', hts', fun rest => ?_⟩
      rw [List.singleton_append, ttyRun_cons_of termFlags pending rest hstep]
      simp
    | cons y ys =>
      have hmid : ts.utf8Index + 1 < utf8_length ts.buf[0] := by
        simp only [List.length_cons] at hlen
        rw [hb]
        omega
      rw [if_pos hmid] at hs
      obtain ⟨ts₁, hstep, hts₁, hidx₁, hbuf₁⟩ := ttyReadHandler_wait termFlags pending hts hs
      obtain ⟨ts', hts', hrun⟩ := ttyRun_seqTail hlead (y :: ys) (pre ++ [x]) ts₁ hts₁
        (fun z hz => hcont z (List.mem_cons_of_mem _ hz)) (by simp)
        (by simp only [List.length_append, List.length_cons, List.length_nil] at hlen ⊢; omega)
        (by rw [hidx₁, hidx, List.length_append, List.length_singleton])
        (by rw [hbuf₁]; exact hb') (by rw [hbuf₁]; exact htake')
        (by simpa using hesc)
      refine ⟨ts', hts', fun rest => ?_⟩
      rw [List.cons_append, ttyRun_cons_of termFlags pending _ hstep, hrun, Option.map_map]
      simp [Function.comp_def]

/-- One character of keyboard text, from IS_NORM: one key, of its decoded value. -/
theorem ttyRun_keyChar {c : List UInt8} (hc : KeyChar c) {ts : TTYInput} (hts : ts.Norm)
    (hesc : pending = true → (utf8Decode c).1 ≠ 0x1b) :
    ∃ ts', ts'.Norm ∧ ∀ rest, ttyRun termFlags true pending ts (c ++ rest) =
      (ttyRun termFlags true pending ts' rest).map
        fun r => (r.1, .key (normKey termFlags (utf8Decode c).1) :: r.2) := by
  cases hc with
  | @single b hlen hcont =>
    have hs := utf8Step_fresh ts.utf8Index ts.buf hcont
    rw [if_neg (by omega)] at hs
    rw [utf8Decode_single] at hesc ⊢
    obtain ⟨ts', hstep, hts', -, -⟩ := ttyReadHandler_key termFlags pending hts hs hesc
    refine ⟨ts', hts', fun rest => ?_⟩
    rw [List.singleton_append, ttyRun_cons_of termFlags pending rest hstep]
    simp
  | @seq b tail hlead hlen hcont =>
    have hs := utf8Step_fresh ts.utf8Index ts.buf (isCont_of_lead hlead)
    rw [if_pos hlead] at hs
    obtain ⟨ts₁, hstep, hts₁, hidx₁, hbuf₁⟩ := ttyReadHandler_wait termFlags pending hts hs
    -- the lead byte is at the front of the buffer, and the tail follows it
    have hb : ts₁.buf[0] = b := by rw [hbuf₁, Vector.getElem_set_self]
    have htake : ts₁.buf.toList.take (([] : List UInt8).length + 1) = b :: [] := by
      rw [hbuf₁, Vector.toList_set, List.length_nil, Nat.zero_add,
        take_succ_set _ _ (by simp), List.take_zero, List.nil_append]
    have htail : tail ≠ [] := by
      rintro rfl
      simp only [List.length_nil] at hlen
      omega
    obtain ⟨ts', hts', hrun⟩ := ttyRun_seqTail termFlags pending hlead tail [] ts₁ hts₁ hcont htail
      (by simp only [List.length_nil]; omega) (by simpa using hidx₁) hb htake (by simpa using hesc)
    refine ⟨ts', hts', fun rest => ?_⟩
    rw [List.cons_append, ttyRun_cons_of termFlags pending _ hstep, hrun, Option.map_map]
    simp [Function.comp_def]

/-- On keyboard text, from IS_NORM, the reader emits the keys of the reference
decoding, backspace aside under `KBS_CONTROL_H`. -/
theorem ttyRun_keyText {bs : List UInt8} (hbs : KeyText bs) :
    ∀ {ts : TTYInput}, ts.Norm → (pending = true → 0x1b ∉ refDecode bs) →
      ∃ ts', ts'.Norm ∧ ttyRun termFlags true pending ts bs =
        some (ts', (refDecode bs).map fun c => .key (normKey termFlags c)) := by
  induction hbs with
  | nil =>
    intro ts hts _
    refine ⟨ts, hts, ?_⟩
    simp [ttyRun, refDecode]
  | @cons c rest hc _ ih =>
    intro ts hts hesc
    rw [refDecode_keyChar hc] at hesc ⊢
    obtain ⟨ts₁, hts₁, hrun⟩ := ttyRun_keyChar termFlags pending hc hts
      (fun hp h => hesc hp (h ▸ List.mem_cons_self))
    obtain ⟨ts', hts', hrest⟩ := ih hts₁ (fun hp h => hesc hp (List.mem_cons_of_mem _ h))
    refine ⟨ts', hts', ?_⟩
    rw [hrun, hrest]
    rfl

/-- `a` and then `é` in UTF-8, from the initial state. -/
theorem ttyRun_keyText_ae :
    ∃ ts', ts'.Norm ∧ ttyRun 0 true false TTYInput.init [0x61, 0xc3, 0xa9] =
      some (ts', (refDecode [0x61, 0xc3, 0xa9]).map fun c => .key (normKey 0 c)) :=
  ttyRun_keyText 0 false (.cons (.single (by decide) (by decide))
      (.cons (.seq (by decide) (by decide) (List.forall_mem_singleton.mpr (by decide))) .nil) :
        KeyText ([0x61] ++ ([0xc3, 0xa9] ++ [])))
    ⟨rfl, rfl⟩ (fun h => absurd h (by decide))

/-! ## After a complete sequence -/

/-- After a complete sequence the index is left at its end: a continuation byte
that follows is stored after it, and the buffer, whose first bytes are
unchanged, decodes to the same character again. -/
theorem ttyReadHandler_repeats {ts : TTYInput} {ch : UInt8} (hts : ts.Norm)
    (hlead : 1 < utf8_length ts.buf[0]) (hdone : utf8_length ts.buf[0] ≤ ts.utf8Index)
    (h8 : ts.utf8Index < 8) (hc : isCont ch = true)
    (hesc : pending = true → (utf8Decode ts.buf.toList).1 ≠ 0x1b) :
    ∃ ts', ttyReadHandler termFlags true pending ts ch =
        some (ts', some (.key (normKey termFlags (utf8Decode ts.buf.toList).1))) ∧
      ts'.Norm ∧ ts'.utf8Index = ts.utf8Index + 1 ∧ ts'.buf[0] = ts.buf[0] ∧
      utf8Decode ts'.buf.toList = utf8Decode ts.buf.toList := by
  have hs := utf8Step_cont hc (by omega) h8 hlead
  rw [if_neg (by omega)] at hs
  obtain ⟨b, t, hbt⟩ : ∃ b t, ts.buf.toList = b :: t := by
    cases h : ts.buf.toList with
    | nil => simp at h
    | cons b t => exact ⟨b, t, rfl⟩
  have hb : ts.buf[0] = b := by
    rw [← Vector.getElem_toList (by simp)]
    simp [hbt]
  -- the decoder reads the first bytes only, and the byte is stored after them
  have hsame : utf8Decode (ts.buf.set ts.utf8Index ch h8).toList = utf8Decode ts.buf.toList := by
    obtain ⟨k, hk⟩ : ∃ k, ts.utf8Index = k + 1 := ⟨ts.utf8Index - 1, by omega⟩
    rw [hb] at hlead hdone
    simp only [Vector.toList_set, hbt, hk, List.set_cons_succ]
    rw [← utf8Decode_take hlead (t.set k ch), List.take_set_of_le (by omega), utf8Decode_take hlead]
  rw [hsame] at hs
  obtain ⟨ts', hstep, hts', hidx, hbuf⟩ := ttyReadHandler_key termFlags pending hts hs hesc
  refine ⟨ts', hstep, hts', hidx, ?_, by rw [hbuf]; exact hsame⟩
  rw [hbuf]
  exact Vector.getElem_set_ne _ _ (by omega)

/-- A continuation byte when the index has reached the end of `ts->buf` is
stored past it. -/
theorem ttyReadHandler_overrun {ts : TTYInput} {ch : UInt8} (hnorm : ts.inputState = .norm)
    (h8 : 8 ≤ ts.utf8Index) (hc : isCont ch = true) :
    ttyReadHandler termFlags true pending ts ch = none := by
  have hs : utf8Step ts.utf8Index ts.buf ch = none := by
    unfold utf8Step
    simp only [hc, Bool.true_eq_false, and_false, if_false]
    rw [dif_neg (by omega)]
  simp only [ttyReadHandler, hnorm, if_true, hs]

/-- From the end of a complete sequence, `k` continuation bytes emit the same
character `k` times more as long as they fit in `ts->buf`; the first that does
not is stored past its end. -/
theorem ttyRun_repeats {ch : UInt8} (hc : isCont ch = true) :
    ∀ (k : Nat) (ts : TTYInput), ts.Norm → 1 < utf8_length ts.buf[0] →
      utf8_length ts.buf[0] ≤ ts.utf8Index → ts.utf8Index ≤ 8 →
      (pending = true → (utf8Decode ts.buf.toList).1 ≠ 0x1b) →
      (ttyRun termFlags true pending ts (List.replicate k ch)).map Prod.snd =
        if ts.utf8Index + k ≤ 8 then
          some (List.replicate k (.key (normKey termFlags (utf8Decode ts.buf.toList).1)))
        else none
  | 0, ts, _, _, _, h8, _ => by simp [ttyRun, h8]
  | k + 1, ts, hts, hlead, hdone, h8, hesc => by
    rw [List.replicate_succ]
    by_cases hfull : ts.utf8Index = 8
    · rw [ttyRun_cons_none termFlags pending _ (ttyReadHandler_overrun termFlags pending hts.state
        (by omega) hc), if_neg (by omega)]
      rfl
    · obtain ⟨ts', hstep, hts', hidx, hb, hdec⟩ :=
        ttyReadHandler_repeats termFlags pending hts hlead hdone (by omega) hc hesc
      have ih := ttyRun_repeats hc k ts' hts' (by rw [hb]; exact hlead) (by rw [hb, hidx]; omega)
        (by omega) (by rw [hdec]; exact hesc)
      rw [hdec, hidx] at ih
      -- the key goes in front of those of the rest
      have hfront : ∀ r : Option (TTYInput × List TtyEvent) , Option.map Prod.snd
          (r.map fun r => (r.1, (some (TtyEvent.key (normKey termFlags
            (utf8Decode ts.buf.toList).1))).toList ++ r.2)) =
          (r.map Prod.snd).map (.key (normKey termFlags (utf8Decode ts.buf.toList).1) :: ·) := by
        intro r
        cases r <;> rfl
      rw [ttyRun_cons_of termFlags pending _ hstep, hfront, ih,
        show ts.utf8Index + (k + 1) = ts.utf8Index + 1 + k by omega]
      split_ifs <;> rfl

/-- Two continuation bytes after `é`, whose sequence ends at index 2. -/
theorem ttyRun_repeats_two :
    (ttyRun 0 true false { TTYInput.init with buf := #v[0xc3, 0xa9, 0, 0, 0, 0, 0, 0], utf8Index := 2 }
        (List.replicate 2 0x80)).map Prod.snd =
      if 2 + 2 ≤ 8 then some (List.replicate 2 (.key (normKey 0 (utf8Decode [0xc3, 0xa9, 0, 0, 0, 0, 0, 0]).1)))
      else none :=
  ttyRun_repeats 0 false (by decide) 2 _ ⟨rfl, rfl⟩ (by decide) (by decide) (by decide)
    (fun h => absurd h (by decide))

end Reader

/-- A continuation byte after `é` (`C3 A9`) emits `é` again where the reference
decoding has the key `0x80`, and seven of them store the last past `ts->buf`. -/
theorem ttyRun_reemits_and_overruns :
    (ttyRun 0 true false TTYInput.init [0xC3, 0xA9, 0x80]).map Prod.snd =
      some [.key 0xE9, .key 0xE9] ∧
    refDecode [0xC3, 0xA9, 0x80] = [0xE9, 0x80] ∧
    ttyRun 0 true false TTYInput.init ([0xC3, 0xA9] ++ List.replicate 7 0x80) = none := by
  refine ⟨by decide, ?_, by decide⟩
  have hlen : utf8_length 0xC3 = 2 := by decide
  rw [refDecode, if_pos (by decide), if_pos (by decide), hlen]
  show (utf8Decode [0xC3, 0xA9]).1 :: refDecode [0x80] = _
  rw [refDecode, if_neg (by decide), refDecode]
  decide

/-! ## CSI parameters -/

/-- The bytes of `n` written in decimal, as a terminal sends a parameter. -/
def decimalBytes (n : Nat) : List UInt8 := (Nat.digits 10 n).reverse.map fun d => (d + 0x30).toUInt8

theorem foldl_reverse_digits (l : List Nat) :
    l.reverse.foldl (fun v d => v * 10 + d) 0 = Nat.ofDigits 10 l := by
  induction l with
  | nil => rfl
  | cons d l ih =>
    rw [List.reverse_cons, List.foldl_append, ih, Nat.ofDigits_cons]
    simp only [List.foldl_cons, List.foldl_nil]
    ring

theorem digitByte_sub (d : Nat) (hd : d < 10) : ((d + 0x30).toUInt8 - 0x30).toNat = d := by
  have key : ∀ d < 10, ((d + 0x30).toUInt8 - 0x30).toNat = d := by decide
  exact key d hd

theorem digitByte_range (d : Nat) (hd : d < 10) :
    0x30 ≤ (d + 0x30).toUInt8 ∧ (d + 0x30).toUInt8 ≤ 0x39 := by
  have key : ∀ d < 10, 0x30 ≤ (d + 0x30).toUInt8 ∧ (d + 0x30).toUInt8 ≤ 0x39 := by decide
  exact key d hd

section Csi

variable (termFlags : Nat) (utf8 pending : Bool)

/-- In IS_CSI with no intermediate byte. -/
structure TTYInput.CsiParam (ts : TTYInput) : Prop where
  state : ts.inputState = .csi
  noInterm : ts.interm = 0

/-- A digit of a CSI parameter: the parameter becomes ten times what it was,
its omitted bit cleared, plus the digit. Nothing bounds it. -/
theorem ttyReadHandler_csiDigit {ts : TTYInput} {ch : UInt8} (hts : ts.CsiParam)
    (h : ts.nbParams < 3) (hd : 0x30 ≤ ch ∧ ch ≤ 0x39) :
    ∃ ts', ttyReadHandler termFlags utf8 pending ts ch = some (ts', none) ∧ ts'.CsiParam ∧
      ts'.leader = ts.leader ∧ ts'.nbParams = ts.nbParams ∧ ts'.hasMeta = ts.hasMeta ∧
      ts'.params = ts.params.set ts.nbParams
        (clearOmitted ts.params[ts.nbParams] * 10 + (ch - 0x30).toNat) h := by
  have hnot : ¬ (0x20 ≤ ch ∧ ch ≤ 0x2f) := by
    simp only [UInt8.le_iff_toNat_le, UInt8.toNat_ofNat] at hd ⊢
    omega
  have hnot' : ¬ (0x3c ≤ ch ∧ ch ≤ 0x3f) := by
    simp only [UInt8.le_iff_toNat_le, UInt8.toNat_ofNat] at hd ⊢
    omega
  refine ⟨{ ts with
      lastCh := ts.thisCh
      thisCh := ch
      params := ts.params.set ts.nbParams
        (clearOmitted ts.params[ts.nbParams] * 10 + (ch - 0x30).toNat) h },
    ?_, ⟨hts.state, hts.noInterm⟩, rfl, rfl, rfl, rfl⟩
  simp only [ttyReadHandler, hts.state, hnot, hnot', hd, hts.noInterm, if_false, if_true, ne_eq,
    not_true_eq_false, and_self, dif_pos h]

/-- The digits of a CSI parameter, left to right, while the parameter stays an
`int`: it is the number they write. -/
theorem ttyRun_csiDigits (ds : List Nat) (hds : ∀ d ∈ ds, d < 10) (hne : ds ≠ []) :
    ∀ (v : Nat) (ts : TTYInput) (h : ts.nbParams < 3), ts.CsiParam →
      clearOmitted ts.params[ts.nbParams] = v →
      ds.foldl (fun v d => v * 10 + d) v < 0x80000000 →
      ∃ ts', ttyRun termFlags utf8 pending ts (ds.map fun d => (d + 0x30).toUInt8) = some (ts', []) ∧
        ts'.CsiParam ∧ ts'.leader = ts.leader ∧ ts'.nbParams = ts.nbParams ∧
        ts'.hasMeta = ts.hasMeta ∧
        ts'.params = ts.params.set ts.nbParams (ds.foldl (fun v d => v * 10 + d) v : Nat) h := by
  induction ds with
  | nil => exact absurd rfl hne
  | cons d ds ih =>
    intro v ts h hts hv hfit
    have hd := hds d (by simp)
    obtain ⟨ts₁, hstep, hts₁, hlead₁, hnb₁, hmeta₁, hparams₁⟩ :=
      ttyReadHandler_csiDigit termFlags utf8 pending hts h (digitByte_range d hd)
    rw [hv, digitByte_sub d hd] at hparams₁
    cases ds with
    | nil =>
      refine ⟨ts₁, ?_, hts₁, hlead₁, hnb₁, hmeta₁, by rw [hparams₁]; simp⟩
      rw [List.map_cons, ttyRun_cons_of termFlags pending _ hstep]
      rfl
    | cons e es =>
      -- the value so far is below the final one, so it is still an `int`
      have hmono : ∀ (l : List Nat) (w : Nat), w ≤ l.foldl (fun v d => v * 10 + d) w := by
        intro l
        induction l with
        | nil => intro w; exact Nat.le_refl w
        | cons e l ihl => intro w; exact Nat.le_trans (by omega) (ihl (w * 10 + e))
      have hfit' := Nat.lt_of_le_of_lt (hmono (e :: es) (v * 10 + d)) hfit
      have h₁ : ts₁.nbParams < 3 := hnb₁ ▸ h
      have hv₁ : clearOmitted ts₁.params[ts₁.nbParams] = ((v * 10 + d : Nat) : Int) := by
        simp only [hparams₁, hnb₁, Vector.getElem_set_self, clearOmitted]
        push_cast
        omega
      obtain ⟨ts', hrun, hts', hlead', hnb', hmeta', hparams'⟩ :=
        ih (fun x hx => hds x (List.mem_cons_of_mem _ hx)) (by simp) (v * 10 + d) ts₁ h₁ hts₁ hv₁ hfit
      refine ⟨ts', ?_, hts', hlead'.trans hlead₁, hnb'.trans hnb₁, hmeta'.trans hmeta₁, ?_⟩
      · rw [List.map_cons, ttyRun_cons_of termFlags pending _ hstep, hrun]
        rfl
      · simp only [hparams', hparams₁, hnb₁, Vector.set_set]
        rfl

/-- `ESC [ n F` from IS_NORM with input pending, `F` a final byte: the sequence
is handed on with its first parameter `n`, whatever its size, as long as it is
an `int`. Nothing clamps it to the screen. -/
theorem ttyRun_csiParam {n : Nat} (hn : 0 < n) (hint : n < 0x80000000) {final : UInt8}
    (hf : 0x40 ≤ final) (hf' : final ≠ 0x5b) {ts : TTYInput} (hts : ts.Norm) :
    ∃ ts', ttyRun termFlags utf8 true ts ([0x1b, 0x5b] ++ decimalBytes n ++ [final]) =
      some (ts', [.csi 0 0 final 1 #v[(n : Int), CSI_PARAM_OMITTED, CSI_PARAM_OMITTED] false]) := by
  -- ESC, with more input pending, waits in IS_ESC
  have hesc : ∃ ts₁, ttyReadHandler termFlags utf8 true ts 0x1b = some (ts₁, none) ∧
      ts₁.inputState = .esc ∧ ts₁.hasMeta = false := by
    have hs := utf8Step_fresh ts.utf8Index ts.buf (show isCont 0x1b = false by decide)
    rw [if_neg (by decide)] at hs
    cases utf8 <;> simp [ttyReadHandler, hts.state, hs, normChar, hts.noMeta]
  obtain ⟨ts₁, hstep₁, hesc₁, hmeta₁⟩ := hesc
  -- `[` opens the sequence with its parameters omitted
  have hcsi : ∃ ts₂, ttyReadHandler termFlags utf8 true ts₁ 0x5b = some (ts₂, none) ∧
      ts₂.CsiParam ∧ ts₂.nbParams = 0 ∧ ts₂.leader = 0 ∧ ts₂.hasMeta = false ∧
      ts₂.params = Vector.replicate 3 CSI_PARAM_OMITTED := by
    refine ⟨{ ts₁ with
        lastCh := ts₁.thisCh
        thisCh := 0x5b
        inputState := .csi
        nbParams := 0
        params := Vector.replicate 3 CSI_PARAM_OMITTED
        leader := 0
        interm := 0 }, ?_, ⟨rfl, rfl⟩, rfl, rfl, hmeta₁, rfl⟩
    simp [ttyReadHandler, hesc₁]
  obtain ⟨ts₂, hstep₂, hts₂, hnb₂, hlead₂, hmeta₂, hparams₂⟩ := hcsi
  -- the digits write `n`
  have hdigits := ttyRun_csiDigits termFlags utf8 true (Nat.digits 10 n).reverse
    (fun d hd => Nat.digits_lt_base (by omega) (List.mem_reverse.mp hd))
    (by simpa using Nat.digits_ne_nil_iff_ne_zero.mpr (by omega)) 0 ts₂ (by omega) hts₂
    (by simp [hparams₂, clearOmitted, CSI_PARAM_OMITTED])
    (by rw [foldl_reverse_digits, Nat.ofDigits_digits]; exact hint)
  rw [foldl_reverse_digits, Nat.ofDigits_digits] at hdigits
  obtain ⟨ts₃, hrun₃, hts₃, hlead₃, hnb₃, hmeta₃, hparams₃⟩ := hdigits
  -- the final byte ends the first parameter and the sequence
  have hfinal : ∃ ts₄, ttyReadHandler termFlags utf8 true ts₃ final = some (ts₄, some (.csi 0 0 final 1
      #v[(n : Int), CSI_PARAM_OMITTED, CSI_PARAM_OMITTED] false)) := by
    have hr : ¬ (0x20 ≤ final ∧ final ≤ 0x2f) ∧ ¬ (0x3c ≤ final ∧ final ≤ 0x3f) ∧
        ¬ (0x30 ≤ final ∧ final ≤ 0x39) ∧ ¬ (final = 0x3a ∨ final = 0x3b) := by
      simp only [UInt8.le_iff_toNat_le, UInt8.toNat_ofNat, UInt8.ext_iff] at hf ⊢
      omega
    obtain ⟨h1, h2, h3, h4⟩ := hr
    simp only [ttyReadHandler, hts₃.state, h1, h2, h3, h4, if_false, csiFinal, hnb₃, hnb₂, hlead₃,
      hlead₂, hts₃.noInterm, hmeta₃, hmeta₂, hparams₃, hparams₂, hf', and_false]
    simp
    rfl
  obtain ⟨ts₄, hstep₄⟩ := hfinal
  refine ⟨ts₄, ?_⟩
  rw [List.append_assoc, List.cons_append, List.cons_append, List.nil_append,
    ttyRun_cons_of termFlags true _ hstep₁, ttyRun_cons_of termFlags true _ hstep₂, decimalBytes,
    ttyRun_append, hrun₃, Option.bind_some, ttyRun_cons_of termFlags true _ hstep₄]
  rfl

/-- `ESC [ 5 A` with input pending. -/
theorem ttyRun_csiParam_five :
    ∃ ts', ttyRun 0 true true TTYInput.init ([0x1b, 0x5b] ++ decimalBytes 5 ++ [0x41]) =
      some (ts', [.csi 0 0 0x41 1 #v[(5 : Int), CSI_PARAM_OMITTED, CSI_PARAM_OMITTED] false]) :=
  ttyRun_csiParam 0 true (by decide) (by decide) (by decide) (by decide) ⟨rfl, rfl⟩

end Csi

/-- `ESC [ 2147483648 ~`: the last digit takes the parameter from `214748364`
to `2147483648`, past `INT_MAX`, and the sequence is handed on with it. -/
theorem ttyRun_csiParam_overflows :
    (ttyRun 0 true true TTYInput.init
        [0x1b, 0x5b, 0x32, 0x31, 0x34, 0x37, 0x34, 0x38, 0x33, 0x36, 0x34, 0x38, 0x7e]).map Prod.snd =
      some [.csi 0 0 0x7e 1 #v[2147483648, CSI_PARAM_OMITTED, CSI_PARAM_OMITTED] false] ∧
    ¬ IntRange 2147483648 :=
  ⟨by decide, by decide⟩

end Qemacs
