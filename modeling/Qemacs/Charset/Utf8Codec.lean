import Qemacs.Tty.Input

/-!
# `utf8_encode` and `utf8_decode` are inverse

The lax UTF-8 functions of util.c: `utf8_encode` writes any 32-bit value in one to six
bytes, the values of 2^31 and above behind the lead bytes `0xFE` and `0xFF`, and
`utf8_decode` reads a lead byte's sequence back, the length from `utf8x_length` and the
lead's bits from `utf8x_bits`, falling back to the lead byte alone on a missing trailing
byte.

`utf8_encode` writes a lead byte and the trailing bytes of bits `6 (m - 1)` down to 0
(`utf8Encode_spec`). The decoding loop appends six bits a trailing byte (`utf8Acc`), and
over the trailing bytes of `c` that rebuilds `c` from its top bits
(`foldl_utf8Acc_utf8Conts`), so decoding an encoding gives the value back and takes
exactly its bytes (`utf8Decode_utf8Encode`). Whatever the bytes, the decoder takes one to
six of them, and every byte it takes after the first is a trailing byte
(`utf8Decode_advance`), so it never steps over a NUL.
-/

namespace Qemacs

/-! ## Trailing bytes -/

/-- The trailing byte of `utf8_encode` that holds bits `k` to `k + 5` of `c`. -/
def utf8Cont (c k : UInt32) : UInt8 := (((c >>> k) &&& 0x3f) ||| 0x80).toUInt8

/-- The trailing bytes of a sequence, for bits `6 (m - 1)` down to 0. -/
def utf8Conts (c : UInt32) : Nat → List UInt8
  | 0 => []
  | m + 1 => utf8Cont c (6 * m).toUInt32 :: utf8Conts c m

/-- One turn of the decoding loop: `c = (c << 6) + c1`, the bits of a trailing byte
appended. -/
def utf8Acc (c : UInt32) (b : UInt8) : UInt32 := (c <<< 6) + (b ^^^ 0x80).toUInt32

@[simp] theorem length_utf8Conts (c : UInt32) (m : Nat) : (utf8Conts c m).length = m := by
  induction m with
  | zero => rfl
  | succ m ih => simp [utf8Conts, ih]

/-- `c1 = *p++ ^ 0x80` of a trailing byte holds its six bits. -/
theorem not_gt_of_isCont {b : UInt8} (h : isCont b = true) : ¬(b ^^^ 0x80).toUInt32 > 0x3f := by
  unfold isCont at h
  simp only [decide_eq_true_eq, UInt8.le_iff_toNat_le] at h
  simp only [gt_iff_lt, UInt32.lt_iff_toNat_lt, UInt8.toNat_toUInt32]
  simpa using h

theorem isCont_of_not_gt {b : UInt8} (h : ¬(b ^^^ 0x80).toUInt32 > 0x3f) : isCont b = true := by
  unfold isCont
  simp only [gt_iff_lt, UInt32.lt_iff_toNat_lt, UInt8.toNat_toUInt32] at h
  simp only [decide_eq_true_eq, UInt8.le_iff_toNat_le]
  simpa using h

/-- `utf8Cont` is a trailing byte, and the decoder reads its six bits back. -/
theorem utf8Cont_spec (c k : UInt32) :
    isCont (utf8Cont c k) = true ∧ ((utf8Cont c k) ^^^ 0x80).toUInt32 = (c >>> k) &&& 0x3f := by
  have bytes : ∀ n < 64, isCont (UInt8.ofNat n ||| 0x80) = true ∧
      ((UInt8.ofNat n ||| 0x80) ^^^ 0x80) = UInt8.ofNat n := by decide
  have hy : ((c >>> k) &&& 0x3f).toNat < 64 := by
    rw [UInt32.toNat_and]
    exact Nat.lt_of_le_of_lt Nat.and_le_right (by decide)
  have hcont : utf8Cont c k = UInt8.ofNat ((c >>> k) &&& 0x3f).toNat ||| 0x80 := by
    simp only [utf8Cont, UInt32.toUInt8_or]
    rfl
  obtain ⟨h1, h2⟩ := bytes _ hy
  refine ⟨hcont ▸ h1, ?_⟩
  rw [hcont, h2, ← UInt32.toNat_inj]
  simp only [UInt8.toNat_toUInt32, UInt8.toNat_ofNat']
  omega

theorem utf8Conts_isCont (c : UInt32) (m : Nat) : ∀ b ∈ utf8Conts c m, isCont b = true := by
  induction m with
  | zero => simp [utf8Conts]
  | succ m ih =>
    intro b hb
    rcases List.mem_cons.mp hb with rfl | hb
    · exact (utf8Cont_spec c _).1
    · exact ih b hb

/-- Appending the six bits under the top ones uncovers six more bits of `c`. -/
theorem utf8Acc_shift (c : UInt32) {k : Nat} (hk : k + 6 < 32) :
    utf8Acc (c >>> (k + 6).toUInt32) (utf8Cont c k.toUInt32) = c >>> k.toUInt32 := by
  rw [utf8Acc, (utf8Cont_spec c _).2, ← UInt32.toNat_inj]
  have hk1 : (k + 6).toUInt32.toNat = k + 6 := by simp; omega
  have hk2 : k.toUInt32.toNat = k := by simp; omega
  simp only [UInt32.toNat_add, UInt32.toNat_shiftLeft, UInt32.toNat_shiftRight, UInt32.toNat_and,
    hk1, hk2, Nat.mod_eq_of_lt (by omega : k + 6 < 32), Nat.mod_eq_of_lt (by omega : k < 32)]
  have hc := c.toNat_lt
  have hdiv : c.toNat >>> (k + 6) = c.toNat / 2 ^ k / 64 := by
    rw [Nat.shiftRight_eq_div_pow, pow_add, Nat.div_div_eq_div_mul]
    rfl
  have hle : c.toNat / 2 ^ k ≤ c.toNat := Nat.div_le_self _ _
  simp only [UInt32.reduceToNat, Nat.reduceMod] at *
  rw [hdiv, Nat.shiftRight_eq_div_pow, Nat.shiftLeft_eq,
    show (63 : Nat) = 2 ^ 6 - 1 from rfl, Nat.and_two_pow_sub_one_eq_mod]
  simp only [Nat.reducePow]
  omega

/-- Over the trailing bytes of `c`, the decoding loop started on the top bits rebuilds `c`. -/
theorem foldl_utf8Acc_utf8Conts (c : UInt32) :
    ∀ m, 6 * m < 32 → (utf8Conts c m).foldl utf8Acc (c >>> (6 * m).toUInt32) = c
  | 0, _ => by simp [utf8Conts]
  | m + 1, hm => by
    rw [utf8Conts, List.foldl_cons, show 6 * (m + 1) = 6 * m + 6 by ring,
      utf8Acc_shift c (by omega)]
    exact foldl_utf8Acc_utf8Conts c m (by omega)

/-! ## The decoding loop -/

/-- Over trailing bytes that complete the sequence, the loop appends each byte's bits and
stops on the last. -/
theorem utf8DecodeLoop_conts (lead : UInt8) (len : Nat) (rest : List UInt8) :
    ∀ (bs : List UInt8) (i : Nat) (c : UInt32), (∀ b ∈ bs, isCont b = true) → bs ≠ [] →
      i + bs.length = len → utf8DecodeLoop lead len (bs ++ rest) i c = (bs.foldl utf8Acc c, len)
  | [], _, _, _, hne, _ => absurd rfl hne
  | b :: bs, i, c, hcont, _, hlen => by
    have hb := not_gt_of_isCont (hcont b (by simp))
    simp only [List.cons_append, utf8DecodeLoop, hb, if_false, List.foldl_cons]
    cases bs with
    | nil =>
      -- the last trailing byte: `++i == len`
      simp only [List.length_cons, List.length_nil] at hlen
      simp [hlen, utf8Acc]
    | cons b' bs =>
      simp only [List.length_cons] at hlen
      rw [if_neg (by omega)]
      exact utf8DecodeLoop_conts lead len rest (b' :: bs) (i + 1) _
        (fun x hx => hcont x (List.mem_cons_of_mem _ hx)) (by simp) (by simp; omega)

/-- The loop ends either back at the lead byte, one byte long, or after `len` bytes, all of
them from the `i`-th on trailing bytes. -/
theorem utf8DecodeLoop_spec (lead : UInt8) (len : Nat) :
    ∀ (l : List UInt8) (i : Nat) (c : UInt32), i < len →
      (utf8DecodeLoop lead len l i c).2 = 1 ∨
        ((utf8DecodeLoop lead len l i c).2 = len ∧
          ∀ j, j + i < len → ∃ b, l[j]? = some b ∧ isCont b = true)
  | [], _, _, _ => by simp [utf8DecodeLoop]
  | b :: l, i, c, hi => by
    unfold utf8DecodeLoop
    dsimp only
    by_cases hb : (b ^^^ 0x80).toUInt32 > 0x3f
    · rw [if_pos hb]
      exact Or.inl rfl
    · have hcont := isCont_of_not_gt hb
      rw [if_neg hb]
      by_cases hlast : i + 1 = len
      · -- the sequence ends with `b`
        rw [if_pos hlast]
        refine Or.inr ⟨rfl, fun j hj => ?_⟩
        obtain rfl : j = 0 := by omega
        exact ⟨b, rfl, hcont⟩
      · rw [if_neg hlast]
        rcases utf8DecodeLoop_spec lead len l (i + 1) _ (by omega) with h | ⟨hlen, hbytes⟩
        · exact Or.inl h
        · refine Or.inr ⟨hlen, fun j hj => ?_⟩
          cases j with
          | zero => exact ⟨b, rfl, hcont⟩
          | succ j => exact hbytes j (by omega)

/-- A lead byte announces two to six bytes. -/
theorem utf8x_length_range (c : UInt8) : 2 ≤ utf8x_length c ∧ utf8x_length c ≤ 6 := by
  unfold utf8x_length
  split_ifs <;> omega

/-! ## Encoding then decoding -/

/-- `lead` is the lead byte of a sequence of `m + 1` bytes whose top bits are `v`. -/
def Utf8Lead (lead : UInt8) (m : Nat) (v : UInt32) : Prop :=
  ¬lead < 0xc0 ∧ utf8x_length lead = m + 1 ∧ utf8x_bits lead = v

instance (lead : UInt8) (m : Nat) (v : UInt32) : Decidable (Utf8Lead lead m v) := by
  unfold Utf8Lead
  infer_instance

/-- A lead byte followed by the trailing bytes of `c` decodes to `c`, when the lead announces
them all and carries the top bits of `c`. -/
theorem utf8Decode_lead_conts {c : UInt32} {m : Nat} (hm : 1 ≤ m) (h6 : 6 * m < 32) {lead : UInt8}
    (hlead : Utf8Lead lead m (c >>> (6 * m).toUInt32)) (rest : List UInt8) :
    utf8Decode (lead :: (utf8Conts c m ++ rest)) = (c, m + 1) := by
  obtain ⟨hge, hlen, hbits⟩ := hlead
  rw [utf8Decode, if_neg hge, hlen, hbits,
    utf8DecodeLoop_conts lead (m + 1) rest (utf8Conts c m) 1 _ (utf8Conts_isCont c m)
      (by cases m <;> simp_all [utf8Conts]) (by simp; omega),
    foldl_utf8Acc_utf8Conts c m h6]

/-- The lead bytes `utf8_encode` writes, from the mark of each length and the top bits. -/
theorem utf8Lead_top {c s marker : UInt32} {m bound : Nat}
    (htab : ∀ n < bound, Utf8Lead (UInt8.ofNat n ||| marker.toUInt8) m (UInt8.ofNat n).toUInt32)
    (hb : bound ≤ 256) (hv : (c >>> s).toNat < bound) :
    Utf8Lead ((c >>> s) ||| marker).toUInt8 m (c >>> s) := by
  have h := htab _ hv
  have hlead : ((c >>> s) ||| marker).toUInt8 = UInt8.ofNat (c >>> s).toNat ||| marker.toUInt8 := by
    simp only [UInt32.toUInt8_or]
    rfl
  have htop : (UInt8.ofNat (c >>> s).toNat).toUInt32 = c >>> s := by
    rw [← UInt32.toNat_inj, UInt8.toNat_toUInt32, UInt8.toNat_ofNat']
    omega
  rw [htop] at h
  rwa [hlead]

theorem utf8Lead_two : ∀ n < 32, Utf8Lead (UInt8.ofNat n ||| (0xc0 : UInt32).toUInt8) 1
    (UInt8.ofNat n).toUInt32 := by decide

theorem utf8Lead_three : ∀ n < 16, Utf8Lead (UInt8.ofNat n ||| (0xe0 : UInt32).toUInt8) 2
    (UInt8.ofNat n).toUInt32 := by decide

theorem utf8Lead_four : ∀ n < 8, Utf8Lead (UInt8.ofNat n ||| (0xf0 : UInt32).toUInt8) 3
    (UInt8.ofNat n).toUInt32 := by decide

theorem utf8Lead_five : ∀ n < 4, Utf8Lead (UInt8.ofNat n ||| (0xf8 : UInt32).toUInt8) 4
    (UInt8.ofNat n).toUInt32 := by decide

theorem utf8Lead_six : ∀ n < 4, Utf8Lead (UInt8.ofNat n ||| (0xfc : UInt32).toUInt8) 5
    (UInt8.ofNat n).toUInt32 := by decide

/-- The top bits left after shifting a value below `2 ^ (s + j)` right by `s`. -/
theorem toNat_shiftRight_lt {c : UInt32} {s : UInt32} {bound : Nat} (hs : s.toNat < 32)
    (h : c.toNat < bound * 2 ^ s.toNat) : (c >>> s).toNat < bound := by
  rw [UInt32.toNat_shiftRight, Nat.mod_eq_of_lt hs, Nat.shiftRight_eq_div_pow]
  exact Nat.div_lt_of_lt_mul (by rwa [Nat.mul_comm] at h)

/-- `utf8_encode`: one byte below `0x80`, otherwise a lead byte that announces the length
and carries the top bits, then the trailing bytes. -/
theorem utf8Encode_spec (c : UInt32) :
    (c < 0x80 ∧ utf8Encode c = [c.toUInt8]) ∨
      ∃ m lead, 1 ≤ m ∧ m ≤ 5 ∧ utf8Encode c = lead :: utf8Conts c m ∧
        Utf8Lead lead m (c >>> (6 * m).toUInt32) := by
  have hc := c.toNat_lt
  unfold utf8Encode
  split_ifs with h1 h2 h3 h4 h5
  · exact Or.inl ⟨h1, rfl⟩
  · exact Or.inr ⟨1, _, le_refl _, by omega, rfl,
      utf8Lead_top utf8Lead_two (by omega) (toNat_shiftRight_lt (by decide) (by simpa [UInt32.lt_iff_toNat_lt] using h2))⟩
  · exact Or.inr ⟨2, _, by omega, by omega, rfl,
      utf8Lead_top utf8Lead_three (by omega) (toNat_shiftRight_lt (by decide) (by simpa [UInt32.lt_iff_toNat_lt] using h3))⟩
  · exact Or.inr ⟨3, _, by omega, by omega, rfl,
      utf8Lead_top utf8Lead_four (by omega) (toNat_shiftRight_lt (by decide) (by simpa [UInt32.lt_iff_toNat_lt] using h4))⟩
  · exact Or.inr ⟨4, _, by omega, by omega, rfl,
      utf8Lead_top utf8Lead_five (by omega) (toNat_shiftRight_lt (by decide) (by simpa [UInt32.lt_iff_toNat_lt] using h5))⟩
  · exact Or.inr ⟨5, _, by omega, le_refl _, rfl,
      utf8Lead_top utf8Lead_six (by omega) (toNat_shiftRight_lt (by decide) (by simpa using hc))⟩

theorem utf8Encode_length (c : UInt32) :
    1 ≤ (utf8Encode c).length ∧ (utf8Encode c).length ≤ 6 := by
  rcases utf8Encode_spec c with ⟨-, h⟩ | ⟨m, lead, hm1, hm5, h, -⟩
  · simp [h]
  · simp only [h, List.length_cons, length_utf8Conts]
    omega

/-- Decoding what `utf8_encode` wrote gives the value back and takes exactly its bytes,
whatever follows them. -/
theorem utf8Decode_utf8Encode (c : UInt32) (rest : List UInt8) :
    utf8Decode (utf8Encode c ++ rest) = (c, (utf8Encode c).length) := by
  rcases utf8Encode_spec c with ⟨hc, h⟩ | ⟨m, lead, hm1, hm5, h, hlead⟩
  · -- ASCII: the fast case
    have hlt : c.toUInt8 < 0xc0 := by
      rw [UInt32.lt_iff_toNat_lt] at hc
      simp only [UInt8.lt_iff_toNat_lt, UInt32.toNat_toUInt8]
      simp only [UInt32.reduceToNat] at hc
      simp
      omega
    have hval : c.toUInt8.toUInt32 = c := by
      rw [UInt32.lt_iff_toNat_lt] at hc
      rw [← UInt32.toNat_inj, UInt8.toNat_toUInt32, UInt32.toNat_toUInt8]
      simp only [UInt32.reduceToNat] at hc
      omega
    rw [h, List.singleton_append, utf8Decode, if_pos hlt, hval, List.length_singleton]
  · rw [h, List.cons_append, utf8Decode_lead_conts hm1 (by omega) hlead, List.length_cons,
      length_utf8Conts]

example : utf8Encode 0x20ac = [0xe2, 0x82, 0xac] ∧ utf8Decode [0xe2, 0x82, 0xac, 0x41] = (0x20ac, 3) := by
  decide

/-- Whatever the bytes, `utf8_decode` takes one to six of them, and every byte it takes after
the first is a trailing byte. -/
theorem utf8Decode_advance (p : List UInt8) :
    1 ≤ (utf8Decode p).2 ∧ (utf8Decode p).2 ≤ 6 ∧
      ∀ i, 0 < i → i < (utf8Decode p).2 → ∃ b, p[i]? = some b ∧ isCont b = true := by
  cases p with
  | nil => exact ⟨le_refl _, by decide, fun i h0 h1 => absurd h1 (by simp [utf8Decode]; omega)⟩
  | cons c rest =>
    simp only [utf8Decode]
    by_cases hc : c < 0xc0
    · rw [if_pos hc]
      exact ⟨le_refl _, by simp, fun i h0 h1 => absurd h1 (by omega)⟩
    · rw [if_neg hc]
      have hlen := utf8x_length_range c
      rcases utf8DecodeLoop_spec c (utf8x_length c) rest 1 (utf8x_bits c) (by omega)
        with h | ⟨h, hbytes⟩
      · rw [h]
        exact ⟨le_refl _, by simp, fun i h0 h1 => absurd h1 (by omega)⟩
      · rw [h]
        refine ⟨by omega, hlen.2, fun i h0 h1 => ?_⟩
        obtain ⟨j, rfl⟩ := Nat.exists_eq_add_of_lt h0
        simpa using hbytes j (by omega)

/-- Lax UTF-8 encoding and decoding are inverse: every value is written in one to six bytes
that decode back to it, whatever byte follows; an encoding decodes and re-encodes to itself;
and decoding any bytes advances by one to six bytes, never past a NUL. -/
theorem utf8_encode_decode_inverse :
    (∀ (c : UInt32) (rest : List UInt8), 1 ≤ (utf8Encode c).length ∧ (utf8Encode c).length ≤ 6 ∧
        utf8Decode (utf8Encode c ++ rest) = (c, (utf8Encode c).length)) ∧
      (∀ s : List UInt8, (∃ c, utf8Encode c = s) →
        utf8Encode (utf8Decode s).1 = s ∧ (utf8Decode s).2 = s.length) ∧
      (∀ p : List UInt8, 1 ≤ (utf8Decode p).2 ∧ (utf8Decode p).2 ≤ 6 ∧
        ∀ i, 0 < i → p[i]? = some 0 → (utf8Decode p).2 ≤ i) := by
  refine ⟨fun c rest => ⟨(utf8Encode_length c).1, (utf8Encode_length c).2,
    utf8Decode_utf8Encode c rest⟩, ?_, fun p => ?_⟩
  · rintro s ⟨c, rfl⟩
    have h := utf8Decode_utf8Encode c []
    rw [List.append_nil] at h
    rw [h]
    exact ⟨rfl, rfl⟩
  · obtain ⟨h1, h6, hbytes⟩ := utf8Decode_advance p
    refine ⟨h1, h6, fun i hi hnul => Nat.le_of_not_lt fun hlt => ?_⟩
    obtain ⟨b, hb, hcont⟩ := hbytes i hi hlt
    rw [hnul, Option.some.injEq] at hb
    subst hb
    exact absurd hcont (by decide)

end Qemacs
