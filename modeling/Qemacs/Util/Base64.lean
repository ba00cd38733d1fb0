import Mathlib

/-!
# Base64: `qe_encode64` and `qe_decode64`

The OSC 52 clipboard of the tty display sends the selection base64-encoded, with the
pair of util.c. `qe_encode64` writes each full group of three bytes as four characters of
`dict`, then a tail of one or two bytes padded with `=`. `qe_decode64` is a four-phase
machine: each character of the alphabet gives six bits, phase 0 starts a byte with them,
phases 1 and 2 complete a byte and start the next, phase 3 completes one; characters
outside the alphabet are passed over and `=` ends the text. The byte a phase starts is
kept in `buf[j]` until a later phase completes it, and the final `buf[j] = '\0'` writes
over a byte that was started and never completed.

The model keeps the decoder's bytes as the completed ones and the started one. Decoding an
encoding gives the bytes back (`qeDecode64_qeEncode64`): each group of four characters
from phase 0 gives its three bytes back and returns to phase 0 (`decode64Loop_quad`), and
the padded tails give their one or two bytes and stop.
-/

namespace Qemacs

/-! ## The model -/

/-- `dict[v]` for `dict = "ABC…XYZabc…xyz012…789+/"`; the encoder indexes it below 64. -/
def base64Dict (v : UInt32) : UInt8 :=
  if v < 26 then 0x41 + v.toUInt8
  else if v < 52 then 0x61 + (v - 26).toUInt8
  else if v < 62 then 0x30 + (v - 52).toUInt8
  else if v = 62 then 0x2b
  else 0x2f

/-- `val = (p[i] << 16) | (p[i + 1] << 8) | p[i + 2]`. -/
def base64Val (a b c : UInt8) : UInt32 :=
  (a.toUInt32 <<< 16) ||| (b.toUInt32 <<< 8) ||| c.toUInt32

/-- The loop over the full groups, then the `switch` on the bytes left: the characters of
`qe_encode64`. -/
def encode64Loop : List UInt8 → List UInt8
  | a :: b :: c :: rest =>
    let val := base64Val a b c
    [base64Dict (val >>> 18), base64Dict ((val >>> 12) &&& 0x3f),
      base64Dict ((val >>> 6) &&& 0x3f), base64Dict (val &&& 0x3f)] ++ encode64Loop rest
  | [a, b] =>
    let val := (a.toUInt32 <<< 16) ||| (b.toUInt32 <<< 8)
    [base64Dict (val >>> 18), base64Dict ((val >>> 12) &&& 0x3f),
      base64Dict ((val >>> 6) &&& 0x3f), 0x3d]
  | [a] =>
    let val := a.toUInt32 <<< 16
    [base64Dict (val >>> 18), base64Dict ((val >>> 12) &&& 0x3f), 0x3d, 0x3d]
  | [] => []

/-- `qe_encode64`: the buffer, the characters and their NUL, and `*sizep`. -/
def qeEncode64 (src : List UInt8) : List UInt8 × Nat :=
  let chars := encode64Loop src
  (chars ++ [0], chars.length)

/-- The six bits of an alphabet character; `none` for the characters `qe_decode64` passes
over. -/
def decode64Value (ch : UInt8) : Option UInt8 :=
  if 0x41 ≤ ch ∧ ch ≤ 0x5a then some (ch - 0x41)
  else if 0x61 ≤ ch ∧ ch ≤ 0x7a then some (ch - (0x61 - 26))
  else if 0x30 ≤ ch ∧ ch ≤ 0x39 then some (ch - (0x30 - 52))
  else if ch = 0x2b then some 62
  else if ch = 0x2f then some 63
  else none

/-- One phase of `qe_decode64`, on the completed bytes `buf[0..j)` and the started byte
`buf[j]`. After phase 3 the cell at `j` is fresh, and phase 0 writes it before it is read. -/
def decode64Step (shift : Nat) (val : UInt8) (out : List UInt8) (cur : UInt8) :
    List UInt8 × UInt8 :=
  match shift % 4 with
  | 0 => (out, val <<< 2)
  | 1 => (out ++ [cur ||| val >>> 4], val <<< 4)
  | 2 => (out ++ [cur ||| val >>> 2], val <<< 6)
  | _ => (out ++ [cur ||| val], 0)

/-- The loop of `qe_decode64` over the characters: the bytes completed when it ends. -/
def decode64Loop : List UInt8 → Nat → List UInt8 → UInt8 → List UInt8
  | [], _, out, _ => out
  | ch :: src, shift, out, cur =>
    if ch = 0x3d then out
    else
      match decode64Value ch with
      | none => decode64Loop src shift out cur
      | some val =>
        let r := decode64Step shift val out cur
        decode64Loop src (shift + 1) r.1 r.2

/-- `qe_decode64` of the first `len` characters: the buffer, the bytes and the NUL written
at `j`, and `*sizep`. -/
def qeDecode64 (src : List UInt8) (len : Nat) : List UInt8 × Nat :=
  let out := decode64Loop (src.take len) 0 [] 0
  (out ++ [0], out.length)

/-! ## The alphabet -/

/-- A character of the alphabet, one that `qe_decode64` takes six bits from. -/
def IsBase64Char (ch : UInt8) : Prop := (decode64Value ch).isSome

instance (ch : UInt8) : Decidable (IsBase64Char ch) := by
  unfold IsBase64Char
  infer_instance

theorem decode64Value_base64Dict {v : UInt32} (h : v < 64) :
    decode64Value (base64Dict v) = some v.toUInt8 := by
  have table : ∀ n < 64, decode64Value (base64Dict (UInt32.ofNat n)) = some (UInt32.ofNat n).toUInt8 := by
    decide
  have hv : v.toNat < 64 := by simpa [UInt32.lt_iff_toNat_lt] using h
  simpa using table v.toNat hv

/-- `=` is no character of the alphabet. -/
theorem decode64Value_eq : decode64Value 0x3d = none := by decide

theorem ne_eq_of_decode64Value {ch : UInt8} {v : UInt8} (h : decode64Value ch = some v) :
    ch ≠ 0x3d := by
  rintro rfl
  simp [decode64Value_eq] at h

/-- A character of the alphabet is one phase of the machine. -/
theorem decode64Loop_cons_value {ch val : UInt8} (h : decode64Value ch = some val)
    (src : List UInt8) (shift : Nat) (out : List UInt8) (cur : UInt8) :
    decode64Loop (ch :: src) shift out cur =
      decode64Loop src (shift + 1) (decode64Step shift val out cur).1
        (decode64Step shift val out cur).2 := by
  rw [decode64Loop, if_neg (ne_eq_of_decode64Value h), h]

/-- A character outside the alphabet, other than `=`, is passed over. -/
theorem decode64Loop_cons_skip {ch : UInt8} (h : decode64Value ch = none) (hne : ch ≠ 0x3d)
    (src : List UInt8) (shift : Nat) (out : List UInt8) (cur : UInt8) :
    decode64Loop (ch :: src) shift out cur = decode64Loop src shift out cur := by
  rw [decode64Loop, if_neg hne, h]

/-! ## Bits -/

theorem base64Val_toNat (a b c : UInt8) :
    (base64Val a b c).toNat = a.toNat * 65536 + b.toNat * 256 + c.toNat := by
  have ha := a.toNat_lt
  have hb := b.toNat_lt
  have hc := c.toNat_lt
  simp only [base64Val, UInt32.toNat_or, UInt32.toNat_shiftLeft, UInt8.toNat_toUInt32,
    UInt32.reduceToNat, Nat.reduceMod, Nat.shiftLeft_eq, Nat.reducePow]
  rw [Nat.mod_eq_of_lt (by omega), Nat.mod_eq_of_lt (by omega),
    show a.toNat * 65536 = 2 ^ 16 * a.toNat by omega,
    ← Nat.two_pow_add_eq_or_of_lt (by omega : b.toNat * 256 < 2 ^ 16),
    show 2 ^ 16 * a.toNat + b.toNat * 256 = 2 ^ 8 * (a.toNat * 256 + b.toNat) by omega,
    ← Nat.two_pow_add_eq_or_of_lt (by omega : c.toNat < 2 ^ 8)]

/-- The bits of a started byte and the bits that complete it do not overlap. -/
theorem join_toNat (x y : UInt8) (k : Nat) (hx : x.toNat % 2 ^ k = 0) (hy : y.toNat < 2 ^ k) :
    (x ||| y).toNat = x.toNat + y.toNat := by
  rw [UInt8.toNat_or]
  obtain ⟨q, hq⟩ := Nat.dvd_of_mod_eq_zero hx
  rw [hq, ← Nat.two_pow_add_eq_or_of_lt hy]

theorem and_63 (n : Nat) : n &&& 63 = n % 64 := Nat.and_two_pow_sub_one_eq_mod n 6

/-- The three bytes of a group come back from its four sextets, as phases 1 to 3 join
them. -/
theorem base64Val_bytes (a b c : UInt8) :
    ((base64Val a b c >>> 18).toUInt8 <<< 2 |||
        ((base64Val a b c >>> 12) &&& 0x3f).toUInt8 >>> 4) = a ∧
      (((base64Val a b c >>> 12) &&& 0x3f).toUInt8 <<< 4 |||
        ((base64Val a b c >>> 6) &&& 0x3f).toUInt8 >>> 2) = b ∧
      (((base64Val a b c >>> 6) &&& 0x3f).toUInt8 <<< 6 ||| (base64Val a b c &&& 0x3f).toUInt8) = c := by
  have hv := base64Val_toNat a b c
  have ha := a.toNat_lt
  have hb := b.toNat_lt
  have hc := c.toNat_lt
  refine ⟨?_, ?_, ?_⟩ <;> rw [← UInt8.toNat_inj]
  · rw [join_toNat _ _ 2 (by simp; omega) (by simp [hv, and_63]; omega)]
    simp [hv, and_63]
    omega
  · rw [join_toNat _ _ 4 (by simp; omega) (by simp [hv, and_63]; omega)]
    simp [hv, and_63]
    omega
  · rw [join_toNat _ _ 6 (by simp; omega) (by simp [hv, and_63]; omega)]
    simp [hv, and_63]
    omega

theorem base64Val_shiftRight_lt (a b c : UInt8) : base64Val a b c >>> 18 < 64 := by
  have hv := base64Val_toNat a b c
  have ha := a.toNat_lt
  have hb := b.toNat_lt
  have hc := c.toNat_lt
  rw [UInt32.lt_iff_toNat_lt, UInt32.toNat_shiftRight, hv]
  simp only [UInt32.reduceToNat, Nat.reduceMod, Nat.shiftRight_eq_div_pow, Nat.reducePow]
  omega

theorem and_3f_lt (x : UInt32) : x &&& 0x3f < 64 := by
  rw [UInt32.lt_iff_toNat_lt, UInt32.toNat_and]
  exact Nat.lt_of_le_of_lt Nat.and_le_right (by decide)

/-- The tails of one and two bytes take their `val` with zero bytes after them. -/
theorem base64Val_zero_zero (a : UInt8) : a.toUInt32 <<< 16 = base64Val a 0 0 := by
  simp [base64Val]

theorem base64Val_zero (a b : UInt8) :
    (a.toUInt32 <<< 16) ||| (b.toUInt32 <<< 8) = base64Val a b 0 := by
  simp [base64Val]

/-! ## Decoding an encoding -/

/-- Four characters of a full group, read from phase 0, complete its three bytes and come
back to phase 0. -/
theorem decode64Loop_quad (a b c : UInt8) (rest : List UInt8) {shift : Nat} (hs : shift % 4 = 0)
    (out : List UInt8) (cur : UInt8) :
    decode64Loop (encode64Loop (a :: b :: c :: rest)) shift out cur =
      decode64Loop (encode64Loop rest) (shift + 4) (out ++ [a, b, c]) 0 := by
  obtain ⟨ha, hb, hc⟩ := base64Val_bytes a b c
  rw [encode64Loop, List.cons_append, List.cons_append, List.cons_append, List.cons_append,
    List.nil_append,
    decode64Loop_cons_value (decode64Value_base64Dict (base64Val_shiftRight_lt a b c)),
    decode64Loop_cons_value (decode64Value_base64Dict (and_3f_lt _)),
    decode64Loop_cons_value (decode64Value_base64Dict (and_3f_lt _)),
    decode64Loop_cons_value (decode64Value_base64Dict (and_3f_lt _))]
  have h1 : (shift + 1) % 4 = 1 := by omega
  have h2 : (shift + 1 + 1) % 4 = 2 := by omega
  have h3 : (shift + 1 + 1 + 1) % 4 = 3 := by omega
  simp only [decode64Step, hs, h1, h2, h3, ha, hb, hc, List.append_assoc, List.cons_append,
    List.nil_append]

/-- Decoding what `qe_encode64` wrote, from phase 0, completes exactly the bytes encoded. -/
theorem decode64Loop_encode64Loop (src : List UInt8) :
    ∀ {shift : Nat}, shift % 4 = 0 → ∀ (out : List UInt8) (cur : UInt8),
      decode64Loop (encode64Loop src) shift out cur = out ++ src := by
  induction src using encode64Loop.induct with
  | case1 a b c rest ih =>
    intro shift hs out cur
    rw [decode64Loop_quad a b c rest hs, ih (by omega), List.append_assoc]
    rfl
  | case2 a b =>
    -- two bytes: three characters, then `=` ends the text
    intro shift hs out cur
    obtain ⟨ha, hb, -⟩ := base64Val_bytes a b 0
    have h1 : (shift + 1) % 4 = 1 := by omega
    have h2 : (shift + 1 + 1) % 4 = 2 := by omega
    rw [encode64Loop, base64Val_zero,
      decode64Loop_cons_value (decode64Value_base64Dict (base64Val_shiftRight_lt a b 0)),
      decode64Loop_cons_value (decode64Value_base64Dict (and_3f_lt _)),
      decode64Loop_cons_value (decode64Value_base64Dict (and_3f_lt _)), decode64Loop, if_pos rfl]
    simp only [decode64Step, hs, h1, h2, ha, hb, List.append_assoc, List.cons_append,
      List.nil_append]
  | case3 a =>
    -- one byte: two characters, then `==`
    intro shift hs out cur
    obtain ⟨ha, -, -⟩ := base64Val_bytes a 0 0
    have h1 : (shift + 1) % 4 = 1 := by omega
    rw [encode64Loop, base64Val_zero_zero,
      decode64Loop_cons_value (decode64Value_base64Dict (base64Val_shiftRight_lt a 0 0)),
      decode64Loop_cons_value (decode64Value_base64Dict (and_3f_lt _)), decode64Loop, if_pos rfl]
    simp only [decode64Step, hs, h1, ha]
  | case4 =>
    intro shift hs out cur
    simp [encode64Loop, decode64Loop]

theorem encode64Loop_length (src : List UInt8) :
    (encode64Loop src).length = 4 * ((src.length + 2) / 3) := by
  induction src using encode64Loop.induct with
  | case1 a b c rest ih =>
    rw [encode64Loop, List.length_append, ih]
    simp
    omega
  | case2 a b => simp [encode64Loop]
  | case3 a => simp [encode64Loop]
  | case4 => simp [encode64Loop]

/-- The characters of `qe_encode64`: characters of the alphabet, then the `=` that pad the
last group to four. -/
theorem encode64Loop_shape (src : List UInt8) :
    ∃ body, encode64Loop src = body ++ List.replicate ((3 - src.length % 3) % 3) 0x3d ∧
      ∀ ch ∈ body, IsBase64Char ch := by
  have hdict : ∀ {v : UInt32}, v < 64 → IsBase64Char (base64Dict v) := fun h => by
    simp [IsBase64Char, decode64Value_base64Dict h]
  induction src using encode64Loop.induct with
  | case1 a b c rest ih =>
    obtain ⟨body, hbody, hchars⟩ := ih
    have hpad : (3 - (a :: b :: c :: rest).length % 3) % 3 = (3 - rest.length % 3) % 3 := by
      simp only [List.length_cons]
      omega
    refine ⟨_ ++ body, by rw [encode64Loop, hbody, List.append_assoc, hpad], ?_⟩
    intro ch hch
    rcases List.mem_append.mp hch with hq | hb
    · simp only [List.mem_cons, List.not_mem_nil, or_false] at hq
      rcases hq with rfl | rfl | rfl | rfl
      · exact hdict (base64Val_shiftRight_lt a b c)
      all_goals exact hdict (and_3f_lt _)
    · exact hchars ch hb
  | case2 a b =>
    refine ⟨[base64Dict (base64Val a b 0 >>> 18), base64Dict ((base64Val a b 0 >>> 12) &&& 0x3f),
      base64Dict ((base64Val a b 0 >>> 6) &&& 0x3f)], by simp [encode64Loop, base64Val_zero],
      fun ch hch => ?_⟩
    simp only [List.mem_cons, List.not_mem_nil, or_false] at hch
    rcases hch with rfl | rfl | rfl
    · exact hdict (base64Val_shiftRight_lt a b 0)
    all_goals exact hdict (and_3f_lt _)
  | case3 a =>
    refine ⟨[base64Dict (base64Val a 0 0 >>> 18), base64Dict ((base64Val a 0 0 >>> 12) &&& 0x3f)],
      by simp [encode64Loop, base64Val_zero_zero], fun ch hch => ?_⟩
    simp only [List.mem_cons, List.not_mem_nil, or_false] at hch
    rcases hch with rfl | rfl
    · exact hdict (base64Val_shiftRight_lt a 0 0)
    · exact hdict (and_3f_lt _)
  | case4 => exact ⟨[], rfl, by simp⟩

/-- Decoding what `qe_encode64` wrote gives the bytes back, and their number as `*sizep`. -/
theorem qeDecode64_qeEncode64 (src : List UInt8) :
    qeDecode64 (qeEncode64 src).1 (qeEncode64 src).2 = (src ++ [0], src.length) := by
  simp only [qeEncode64, qeDecode64, List.take_left', decode64Loop_encode64Loop src
    (Nat.zero_mod 4), List.nil_append]

/-- `"Ma"` is written `"TWE="`, and read back across a line break. -/
example : qeEncode64 [0x4d, 0x61] = ([0x54, 0x57, 0x45, 0x3d, 0], 4) ∧
    qeDecode64 [0x54, 0x57, 0x0a, 0x45, 0x3d, 0] 5 = ([0x4d, 0x61, 0], 2) := by
  decide

/-! ## What `qe_decode64` passes over -/

/-- A character outside the alphabet, other than `=`, changes nothing. -/
theorem decode64Loop_skip {ch : UInt8} (h : decode64Value ch = none) (hne : ch ≠ 0x3d)
    (t : List UInt8) : ∀ (s : List UInt8) (shift : Nat) (out : List UInt8) (cur : UInt8),
      decode64Loop (s ++ ch :: t) shift out cur = decode64Loop (s ++ t) shift out cur
  | [], shift, out, cur => decode64Loop_cons_skip h hne t shift out cur
  | x :: s, shift, out, cur => by
    simp only [List.cons_append, decode64Loop]
    split
    · rfl
    · split
      · exact decode64Loop_skip h hne t s shift out cur
      · exact decode64Loop_skip h hne t s _ _ _

/-- The text ends at the first `=`. -/
theorem decode64Loop_stop (t : List UInt8) : ∀ (s : List UInt8) (shift : Nat)
    (out : List UInt8) (cur : UInt8),
      decode64Loop (s ++ 0x3d :: t) shift out cur = decode64Loop s shift out cur
  | [], shift, out, cur => by simp [decode64Loop]
  | x :: s, shift, out, cur => by
    simp only [List.cons_append, decode64Loop]
    split
    · rfl
    · split
      · exact decode64Loop_stop t s shift out cur
      · exact decode64Loop_stop t s _ _ _

/-- Base64 round-trips: `qe_encode64` writes `4 ⌈len / 3⌉` characters of the alphabet padded
with `=`, and `qe_decode64` reads them back to the bytes and their number; it passes over
the characters outside the alphabet and stops at the first `=`. -/
theorem base64_round_trip :
    (∀ x : List UInt8, (qeEncode64 x).2 = 4 * ((x.length + 2) / 3) ∧
        (∃ body, (qeEncode64 x).1 = body ++ List.replicate ((3 - x.length % 3) % 3) 0x3d ++ [0] ∧
          body.length + (3 - x.length % 3) % 3 = (qeEncode64 x).2 ∧ ∀ ch ∈ body, IsBase64Char ch) ∧
        qeDecode64 (qeEncode64 x).1 (qeEncode64 x).2 = (x ++ [0], x.length)) ∧
      (∀ (s t : List UInt8) (ch : UInt8), ¬IsBase64Char ch → ch ≠ 0x3d →
        qeDecode64 (s ++ ch :: t) (s ++ ch :: t).length = qeDecode64 (s ++ t) (s ++ t).length) ∧
      (∀ s t : List UInt8, qeDecode64 (s ++ 0x3d :: t) (s ++ 0x3d :: t).length = qeDecode64 s s.length) := by
  refine ⟨fun x => ⟨encode64Loop_length x, ?_, qeDecode64_qeEncode64 x⟩, fun s t ch hch hne => ?_,
    fun s t => ?_⟩
  · obtain ⟨body, hbody, hchars⟩ := encode64Loop_shape x
    refine ⟨body, by rw [qeEncode64, hbody], ?_, hchars⟩
    rw [qeEncode64, hbody]
    simp
  · have h : decode64Value ch = none := by
      simpa [IsBase64Char, Option.isSome_iff_ne_none] using hch
    simp only [qeDecode64, List.take_length, decode64Loop_skip h hne t s]
  · simp only [qeDecode64, List.take_length, decode64Loop_stop t s]

end Qemacs
