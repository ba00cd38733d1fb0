import Mathlib
import Qemacs.Tty.CombCache
import Qemacs.Lib.Layout

/-!
# The combination cache is a chain of blocks

`comb_cache` (tty.c) is read as a chain of blocks from entry 0 on: a block is a header and
the entries after it, the header's low 16 bits count the block's entries, bit 16 marks a free
block, and a zero header ends the chain. Whatever follows the terminator is left from earlier
chains. `CombChain cache blocks` says the cache holds the chain `blocks` (a list of
`CombBlock`s laid out with `Layout.layout`).

`comb_cache_add` keeps the chain: it shares a block that already holds the combination, else
takes the first free block large enough, splitting it when it is larger, and else appends a
block if it fits (`combAlloc`, the allocator on the chain, which the C function refines:
`combCacheAdd_refines`). Its walks stop on a chain within the number of entries, so on a chain
it never runs out of fuel. `comb_cache_clean` marks every block free, marks used the blocks
that some cell of the screen names, merges each run of free blocks into one and cuts a free run
at the end of the chain (`combClean`, refined by `combCacheClean_refines`), as long as every
cell that names an entry names the header of a block.
-/

namespace Qemacs

/-! ## Headers -/

/-- The header of a block of `s` entries: `s` itself for a combination, with bit 16 set for
a free block. -/
def combHeader (free : Bool) (s : Nat) : UInt32 := (if free then 0x10000 else 0) + s.toUInt32

section Header

variable (f : Bool) {s : Nat} (hs : s < 0x10000)
include hs

theorem combHeader_toNat : (combHeader f s).toNat = 2 ^ 16 * f.toNat + s := by
  cases f <;> simp [combHeader, UInt32.toNat_add, Nat.toUInt32_eq] <;> omega

theorem combHeader_ne_zero (hpos : 0 < s) : combHeader f s ≠ 0 := by
  intro h
  have := combHeader_toNat f hs
  rw [h] at this
  simp at this
  omega

theorem toNat_toUInt32_of_lt : s.toUInt32.toNat = s :=
  UInt32.toNat_ofNat_of_lt' (by unfold UInt32.size; omega)

private theorem combHeader_div : (2 ^ 16 * f.toNat + s) / 2 ^ 16 = f.toNat := by
  have : f.toNat ≤ 1 := Bool.toNat_le f
  omega

private theorem combHeader_mod : (2 ^ 16 * f.toNat + s) % 2 ^ 16 = s := by
  omega

/-- `*ip & 0xFFFF`, the size of the block. -/
theorem combHeader_and_mask : combHeader f s &&& 0xFFFF = s.toUInt32 := by
  apply UInt32.toNat_inj.mp
  rw [UInt32.toNat_and, combHeader_toNat f hs, show (0xFFFF : UInt32).toNat = 2 ^ 16 - 1 from rfl,
    Nat.and_two_pow_sub_one_eq_mod, combHeader_mod f hs, toNat_toUInt32_of_lt hs]

/-- `*ip & 0x10000`, the free bit. -/
theorem combHeader_and_flag : combHeader f s &&& 0x10000 = if f then 0x10000 else 0 := by
  apply UInt32.toNat_inj.mp
  rw [UInt32.toNat_and, combHeader_toNat f hs, show (0x10000 : UInt32).toNat = 2 ^ 16 from rfl,
    Nat.and_two_pow, Nat.testBit_eq_decide_div_mod_eq, combHeader_div f hs]
  cases f <;> rfl

/-- `*ip |= 0x10000` frees a block. -/
theorem combHeader_or_flag : combHeader f s ||| 0x10000 = combHeader true s := by
  apply UInt32.toNat_inj.mp
  rw [UInt32.toNat_or, combHeader_toNat f hs, combHeader_toNat true hs,
    show (0x10000 : UInt32).toNat = 2 ^ 16 from rfl]
  have hdiv : (2 ^ 16 * f.toNat + s ||| 2 ^ 16) / 2 ^ 16 = 1 := by
    rw [← Nat.shiftRight_eq_div_pow, Nat.shiftRight_or_distrib, Nat.shiftRight_eq_div_pow,
      Nat.shiftRight_eq_div_pow, combHeader_div f hs]
    cases f <;> rfl
  have hmod : (2 ^ 16 * f.toNat + s ||| 2 ^ 16) % 2 ^ 16 = s := by
    rw [Nat.or_mod_two_pow, combHeader_mod f hs, Nat.mod_self, Nat.or_zero]
  have := Nat.div_add_mod (2 ^ 16 * f.toNat + s ||| 2 ^ 16) (2 ^ 16)
  rw [hdiv, hmod] at this
  rw [← this, Bool.toNat_true]

/-- `*ip &= ~0x10000` marks a block used. -/
theorem combHeader_and_not_flag : combHeader f s &&& ~~~0x10000 = combHeader false s := by
  apply UInt32.toNat_inj.mp
  rw [UInt32.toNat_and, combHeader_toNat f hs, combHeader_toNat false hs, UInt32.toNat_not,
    show (0x10000 : UInt32).toNat = 2 ^ 16 from rfl]
  have hdiv : (2 ^ 16 * f.toNat + s &&& UInt32.size - 1 - 2 ^ 16) / 2 ^ 16 = 0 := by
    rw [Nat.and_div_two_pow, combHeader_div f hs]
    cases f <;> rfl
  have hmod : (2 ^ 16 * f.toNat + s &&& UInt32.size - 1 - 2 ^ 16) % 2 ^ 16 = s := by
    rw [Nat.and_mod_two_pow, combHeader_mod f hs,
      show (UInt32.size - 1 - 2 ^ 16) % 2 ^ 16 = 2 ^ 16 - 1 from rfl, Nat.and_two_pow_sub_one_eq_mod]
    omega
  have := Nat.div_add_mod (2 ^ 16 * f.toNat + s &&& UInt32.size - 1 - 2 ^ 16) (2 ^ 16)
  rw [hdiv, hmod] at this
  rw [← this, Bool.toNat_false]

end Header

/-- `*ip += ip[*ip & 0xFFFF] & 0xFFFF`: a free block grows by the size of the next one. -/
theorem combHeader_add (s t : Nat) :
    combHeader true s + t.toUInt32 = combHeader true (s + t) := by
  simp only [combHeader, if_true, Nat.toUInt32_eq, UInt32.ofNat_add, UInt32.add_assoc]

/-! ## Blocks and chains -/

/-- A block of the chain: a combination of code points, or a free block with what is left in
it. -/
structure CombBlock where
  free : Bool
  body : List UInt32
  deriving DecidableEq, Repr

namespace CombBlock

/-- The entries of a block, its header included: `*ip & 0xFFFF`. -/
def size (b : CombBlock) : Nat := b.body.length + 1

def encode (b : CombBlock) : List UInt32 := combHeader b.free b.size :: b.body

@[simp] theorem length_encode (b : CombBlock) : b.encode.length = b.size := rfl

theorem size_pos (b : CombBlock) : 0 < b.size := Nat.succ_pos _

/-- The block holds the combination `seq`. -/
def holds (seq : List UInt32) (b : CombBlock) : Bool := !b.free && b.body == seq

/-- The block is free and has room for `n` code points after its header. -/
def fits (n : Nat) (b : CombBlock) : Bool := b.free && n + 1 ≤ b.size

end CombBlock

/-- The entries of a chain of blocks. -/
def combLayout (blocks : List CombBlock) : List UInt32 := Layout.layout CombBlock.encode blocks

@[simp] theorem combLayout_nil : combLayout [] = [] := rfl

@[simp] theorem combLayout_append (bs cs : List CombBlock) :
    combLayout (bs ++ cs) = combLayout bs ++ combLayout cs :=
  Layout.layout_append _ bs cs

@[simp] theorem combLayout_cons (b : CombBlock) (bs : List CombBlock) :
    combLayout (b :: bs) = b.encode ++ combLayout bs :=
  Layout.layout_cons _ b bs

section Access

variable (pre : List CombBlock) (b : CombBlock) (post : List CombBlock) (tail : List UInt32)

/-- Entry `j` of a block, at its offset in the chain (`Layout.getD_layout`). -/
theorem combLayout_getD {j : Nat} (hj : j < b.size) :
    (combLayout (pre ++ b :: post) ++ tail).getD ((combLayout pre).length + j) 0 = b.encode.getD j 0 :=
  Layout.getD_layout CombBlock.encode pre b post tail 0 hj

/-- Writing entry `j` of a block in the chain (`Layout.set_layout`). -/
theorem combLayout_set (v : UInt32) {j : Nat} (hj : j < b.size) :
    (combLayout (pre ++ b :: post) ++ tail).set ((combLayout pre).length + j) v =
      combLayout pre ++ (b.encode.set j v ++ (combLayout post ++ tail)) :=
  Layout.set_layout CombBlock.encode pre b post tail v hj

/-- The chain from entry `j` of a block on (`Layout.drop_layout`). -/
theorem combLayout_drop {j : Nat} (hj : j ≤ b.size) :
    (combLayout (pre ++ b :: post) ++ tail).drop ((combLayout pre).length + j) =
      b.encode.drop j ++ (combLayout post ++ tail) :=
  Layout.drop_layout CombBlock.encode pre b post tail hj

end Access

/-- Each block takes an entry at least. -/
theorem length_le_combLayout : ∀ bs : List CombBlock, bs.length ≤ (combLayout bs).length
  | [] => le_refl 0
  | b :: bs => by
    have := length_le_combLayout bs
    have := b.size_pos
    simp only [combLayout_cons, List.length_append, CombBlock.length_encode, List.length_cons]
    omega

/-- The cache holds the chain `blocks` from entry 0 on, then the terminator. -/
structure CombChain (cache : List UInt32) (blocks : List CombBlock) : Prop where
  layout_eq : ∃ rest, cache = combLayout blocks ++ 0 :: rest
  length_eq : cache.length = COMB_CACHE_SIZE

/-- The zeroed cache of a new tty state is the empty chain. -/
theorem combChain_empty : CombChain (List.replicate COMB_CACHE_SIZE 0) [] :=
  ⟨⟨List.replicate (COMB_CACHE_SIZE - 1) 0, rfl⟩, List.length_replicate⟩

/-- The block that starts at offset `o` of the chain, if one does. -/
def combBlockAt : List CombBlock → Nat → Option CombBlock
  | [], _ => none
  | b :: bs, o => if o = 0 then some b else if o < b.size then none else combBlockAt bs (o - b.size)

/-- The chain holds the combination `seq` in a block at offset `o`: the code
`TTY_CHAR_COMB + o` names it. -/
def CombAt (blocks : List CombBlock) (o : Nat) (seq : List UInt32) : Prop :=
  combBlockAt blocks o = some ⟨false, seq⟩

instance (blocks : List CombBlock) (o : Nat) (seq : List UInt32) : Decidable (CombAt blocks o seq) :=
  inferInstanceAs (Decidable (_ = _))

/-- The blocks of a chain are those of its first part, then those of the rest, from the rest's
offset on. -/
theorem combBlockAt_append (pre bs : List CombBlock) (o : Nat) :
    combBlockAt (pre ++ bs) o =
      if o < (combLayout pre).length then combBlockAt pre o
      else combBlockAt bs (o - (combLayout pre).length) := by
  induction pre generalizing o with
  | nil => simp
  | cons b pre ih =>
    simp only [List.cons_append, combBlockAt, combLayout_cons, List.length_append,
      CombBlock.length_encode]
    by_cases h0 : o = 0
    · rw [if_pos h0, if_pos h0, if_pos (by have := b.size_pos; omega)]
    · rw [if_neg h0, if_neg h0]
      by_cases hlt : o < b.size
      · rw [if_pos hlt, if_pos hlt, if_pos (by omega)]
      · rw [if_neg hlt, if_neg hlt, ih]
        by_cases hin : o - b.size < (combLayout pre).length
        · rw [if_pos hin, if_pos (by omega)]
        · rw [if_neg hin, if_neg (by omega), Nat.sub_sub]

/-- The block at a block's offset is that block. -/
theorem combBlockAt_offset (pre : List CombBlock) (b : CombBlock) (post : List CombBlock) :
    combBlockAt (pre ++ b :: post) (combLayout pre).length = some b := by
  rw [combBlockAt_append, if_neg (Nat.lt_irrefl _), Nat.sub_self, combBlockAt, if_pos rfl]

/-- A block found at an offset is a block of the chain with that offset. -/
theorem exists_of_combBlockAt : ∀ {blocks : List CombBlock} {o : Nat} {b : CombBlock},
    combBlockAt blocks o = some b →
      ∃ pre post, blocks = pre ++ b :: post ∧ (combLayout pre).length = o
  | [], _, _, h => by simp [combBlockAt] at h
  | c :: bs, o, b, h => by
    rw [combBlockAt] at h
    by_cases h0 : o = 0
    · rw [if_pos h0] at h
      cases h
      exact ⟨[], bs, rfl, by simp [h0]⟩
    · rw [if_neg h0] at h
      by_cases hlt : o < c.size
      · rw [if_pos hlt] at h
        cases h
      · rw [if_neg hlt] at h
        obtain ⟨pre, post, hbs, hpre⟩ := exists_of_combBlockAt h
        refine ⟨c :: pre, post, by rw [hbs, List.cons_append], ?_⟩
        simp only [combLayout_cons, List.length_append, CombBlock.length_encode, hpre]
        omega

/-- Replacing a block by blocks that take the same entries leaves every block outside them
where it was. -/
theorem combBlockAt_replace (pre post mid : List CombBlock) (b : CombBlock) (o : Nat)
    (hmid : (combLayout mid).length = b.size)
    (hout : o < (combLayout pre).length ∨ (combLayout pre).length + b.size ≤ o) :
    combBlockAt (pre ++ mid ++ post) o = combBlockAt (pre ++ b :: post) o := by
  rw [List.append_assoc, combBlockAt_append pre (mid ++ post), combBlockAt_append pre (b :: post)]
  by_cases hpre : o < (combLayout pre).length
  · rw [if_pos hpre, if_pos hpre]
  · -- past the replaced entries, the blocks after them are where they were
    have := b.size_pos
    rw [if_neg hpre, if_neg hpre, combBlockAt_append mid post, hmid, if_neg (by omega),
      combBlockAt, if_neg (by omega), if_neg (by omega)]

namespace CombChain

variable {cache : List UInt32} {blocks : List CombBlock}

/-- The chain and its terminator fit in the cache. -/
theorem layout_lt (hc : CombChain cache blocks) : (combLayout blocks).length < COMB_CACHE_SIZE := by
  obtain ⟨rest, hrest⟩ := hc.layout_eq
  have h := hc.length_eq
  rw [hrest, List.length_append, List.length_cons] at h
  omega

/-- A block and everything before it fit in the cache. -/
theorem offset_add_size_lt (hc : CombChain cache blocks) {pre post : List CombBlock}
    {b : CombBlock} (hb : blocks = pre ++ b :: post) :
    (combLayout pre).length + b.size < COMB_CACHE_SIZE := by
  have h := hc.layout_lt
  rw [hb, combLayout_append, combLayout_cons] at h
  simp only [List.length_append, CombBlock.length_encode] at h
  omega

theorem size_lt (hc : CombChain cache blocks) {pre post : List CombBlock} {b : CombBlock}
    (hb : blocks = pre ++ b :: post) : b.size < 0x10000 := by
  have := hc.offset_add_size_lt hb
  rw [COMB_CACHE_SIZE] at this
  omega

/-- The header of a block, read at its offset. -/
theorem getD_offset (hc : CombChain cache blocks) {pre post : List CombBlock} {b : CombBlock}
    (hb : blocks = pre ++ b :: post) :
    cache.getD (combLayout pre).length 0 = combHeader b.free b.size := by
  obtain ⟨rest, hrest⟩ := hc.layout_eq
  rw [hrest, hb]
  have h := combLayout_getD pre b post (0 :: rest) (j := 0) b.size_pos
  rw [Nat.add_zero] at h
  exact h

/-- The terminator, read after the last block. -/
theorem getD_end (hc : CombChain cache blocks) : cache.getD (combLayout blocks).length 0 = 0 := by
  obtain ⟨rest, hrest⟩ := hc.layout_eq
  rw [hrest, List.getD_append_right _ _ _ _ (le_refl _), Nat.sub_self]
  rfl

/-- `ip += *ip & 0xFFFF` steps from a block to the next one. -/
theorem combNext_offset (hc : CombChain cache blocks) {pre post : List CombBlock}
    {b : CombBlock} (hb : blocks = pre ++ b :: post) :
    combNext cache (combLayout pre).length = (combLayout pre).length + b.size := by
  have hs := hc.size_lt hb
  rw [combNext, hc.getD_offset hb, combHeader_and_mask b.free hs, toNat_toUInt32_of_lt hs]

end CombChain

/-! ## The walks of `comb_cache_add` -/

theorem combWalk_eq_walk (cache : List UInt32) (found : Nat → Bool) :
    ∀ fuel i, combWalk cache found fuel i =
      Layout.walk (fun i => cache.getD i 0 = 0 || found i) (combNext cache) fuel i
  | 0, _ => rfl
  | fuel + 1, i => by
    rw [combWalk, Layout.walk, combWalk_eq_walk cache found fuel]

/-- A walk of `comb_cache_add` over a chain, with a test that reads at each block's offset
what `p` says of the block, stops at the first block that passes `p` or at the terminator. -/
theorem CombChain.combWalk_eq {cache : List UInt32} {blocks : List CombBlock}
    (hc : CombChain cache blocks) (found : Nat → Bool) (p : CombBlock → Bool)
    (hfound : ∀ pre b post, blocks = pre ++ b :: post → found (combLayout pre).length = p b) :
    combWalk cache found (COMB_CACHE_SIZE + 1) 0 =
      some (combLayout (blocks.takeWhile fun b => !p b)).length := by
  -- the steps from every block on, by induction on the blocks after it
  have hsteps : ∀ bs pre, blocks = pre ++ bs →
      Layout.Steps CombBlock.encode (fun i => cache.getD i 0 = 0 || found i) (combNext cache) p
        (combLayout pre).length bs := by
    intro bs
    induction bs with
    | nil =>
      intro pre hpre
      rw [List.append_nil] at hpre
      rw [← hpre]
      show (decide (cache.getD (combLayout blocks).length 0 = 0) || found _) = true
      rw [hc.getD_end]
      rfl
    | cons b bs ih =>
      intro pre hpre
      have hs := hc.size_lt hpre
      refine ⟨?_, hc.combNext_offset hpre, ?_⟩
      · show (decide (cache.getD (combLayout pre).length 0 = 0) || found (combLayout pre).length) = p b
        rw [hc.getD_offset hpre, hfound pre b bs hpre,
          decide_eq_false (combHeader_ne_zero b.free hs b.size_pos), Bool.false_or]
      · have h := ih (pre ++ [b]) (by rw [hpre, List.append_assoc, List.singleton_append])
        rwa [combLayout_append, List.length_append, combLayout_cons, combLayout_nil,
          List.append_nil, CombBlock.length_encode] at h
  have h := Layout.walk_eq_takeWhile CombBlock.encode _ _ p blocks 0 (COMB_CACHE_SIZE + 1)
    (hsteps blocks [] rfl) (by have := length_le_combLayout blocks; have := hc.layout_lt; omega)
  rw [combWalk_eq_walk, h, Nat.zero_add]
  rfl

/-- A free block of `s` entries less `t`: `*ip - (len + 1)`, the header of the block left
after a split. -/
theorem combHeader_sub {s t : Nat} (hs : s < 0x10000) (ht : t ≤ s) :
    combHeader true s - t.toUInt32 = combHeader true (s - t) := by
  apply UInt32.toNat_inj.mp
  have hts : t.toUInt32 ≤ combHeader true s := by
    rw [UInt32.le_iff_toNat_le, combHeader_toNat true hs, toNat_toUInt32_of_lt (by omega)]
    omega
  rw [UInt32.toNat_sub_of_le _ _ hts, combHeader_toNat true hs, combHeader_toNat true (by omega),
    toNat_toUInt32_of_lt (by omega)]
  omega

theorem combHeader_false (s : Nat) : combHeader false s = s.toUInt32 := by
  simp [combHeader]

/-! ## `blockcpy` -/

@[simp] theorem length_blockcpy : ∀ (cache : List UInt32) (i : Nat) (seq : List UInt32),
    (blockcpy cache i seq).length = cache.length
  | _, _, [] => rfl
  | cache, i, c :: seq => by rw [blockcpy, length_blockcpy, List.length_set]

/-- `blockcpy` over the entries from `A.length` on. -/
theorem blockcpy_append : ∀ (A B seq : List UInt32), seq.length ≤ B.length →
    blockcpy (A ++ B) A.length seq = A ++ (seq ++ B.drop seq.length)
  | A, B, [], _ => by simp [blockcpy]
  | A, [], c :: seq, h => by simp at h
  | A, b :: B, c :: seq, h => by
    have hrest := blockcpy_append (A ++ [c]) B seq (by simpa using h)
    rw [List.length_append, List.length_singleton] at hrest
    rw [blockcpy, List.set_append_right _ _ (le_refl _), Nat.sub_self, List.set_cons_zero,
      ← List.singleton_append, ← List.append_assoc, hrest]
    simp

/-! ## The tests of the walks -/

section Tests

variable {cache : List UInt32} {blocks : List CombBlock} {seq : List UInt32}
  (hc : CombChain cache blocks) (hlen : seq.length < 2 ^ 31)
include hc hlen

/-- The first walk's test `*ip == len + 1U && !blockcmp(ip + 1, seq, len)` at a block: the
block holds the combination. A free block's header is never `len + 1`, since the entries
after it are fewer than `len` then. -/
theorem CombChain.found_holds {pre post : List CombBlock} {b : CombBlock}
    (hb : blocks = pre ++ b :: post) :
    (cache.getD (combLayout pre).length 0 == (seq.length + 1).toUInt32 &&
      List.take seq.length (List.drop ((combLayout pre).length + 1) cache) == seq) =
      b.holds seq := by
  have hs := hc.size_lt hb
  obtain ⟨rest, hrest⟩ := hc.layout_eq
  have hlen1 : (seq.length + 1).toUInt32.toNat = seq.length + 1 :=
    UInt32.toNat_ofNat_of_lt' (by unfold UInt32.size; omega)
  have hdrop : List.drop ((combLayout pre).length + 1) cache =
      b.body ++ (combLayout post ++ 0 :: rest) := by
    rw [hrest, hb]
    exact combLayout_drop pre b post (0 :: rest) (j := 1) (by simp [CombBlock.size])
  rw [hc.getD_offset hb, hdrop]
  cases hf : b.free with
  | false =>
    by_cases hsz : b.size = seq.length + 1
    · -- the sizes agree: the test compares the body
      have hbody : b.body.length = seq.length := by simp only [CombBlock.size] at hsz; omega
      rw [hsz, combHeader_false, beq_self_eq_true, Bool.true_and, List.take_left' hbody]
      simp [CombBlock.holds, hf]
    · have hne : (combHeader false b.size == (seq.length + 1).toUInt32) = false := by
        rw [beq_eq_false_iff_ne, ne_eq, ← UInt32.toNat_inj, combHeader_toNat false hs, hlen1]
        simpa using hsz
      have hbody : (b.body == seq) = false := by
        rw [beq_eq_false_iff_ne]
        intro h
        rw [CombBlock.size, h] at hsz
        exact hsz rfl
      rw [hne, Bool.false_and]
      simp [CombBlock.holds, hf, hbody]
  | true =>
    -- the take is shorter than `seq` whenever the header could be `len + 1`
    have hcl := hc.length_eq
    rw [COMB_CACHE_SIZE] at hcl
    have hf' : (combHeader true b.size == (seq.length + 1).toUInt32 &&
        List.take seq.length (b.body ++ (combLayout post ++ 0 :: rest)) == seq) = false := by
      by_cases heq : combHeader true b.size = (seq.length + 1).toUInt32
      · have hv := congrArg UInt32.toNat heq
        rw [combHeader_toNat true hs, hlen1] at hv
        have hl : (b.body ++ (combLayout post ++ 0 :: rest)).length < seq.length := by
          rw [← hdrop, List.length_drop]
          simp at hv
          omega
        have hne : List.take seq.length (b.body ++ (combLayout post ++ 0 :: rest)) ≠ seq := by
          intro h
          have := congrArg List.length h
          rw [List.length_take] at this
          omega
        simp [hne]
      · rw [beq_eq_false_iff_ne.mpr heq, Bool.false_and]
    rw [hf']
    simp [CombBlock.holds, hf]

/-- The second walk's test `*ip >= 0x10001U + len` at a block: the block is free and has room
for the combination. -/
theorem CombChain.found_fits {pre post : List CombBlock} {b : CombBlock}
    (hb : blocks = pre ++ b :: post) :
    decide (cache.getD (combLayout pre).length 0 ≥ 0x10001 + seq.length.toUInt32) =
      b.fits seq.length := by
  have hs := hc.size_lt hb
  have hv : (0x10001 + seq.length.toUInt32 : UInt32).toNat = 0x10001 + seq.length := by
    rw [UInt32.toNat_add, UInt32.toNat_ofNat_of_lt' (by unfold UInt32.size; omega)]
    simp
    omega
  rw [Bool.eq_iff_iff, decide_eq_true_iff, hc.getD_offset hb, ge_iff_le, UInt32.le_iff_toNat_le, hv,
    combHeader_toNat b.free hs]
  cases hf : b.free <;> simp [CombBlock.fits, hf] <;> omega

end Tests

/-! ## The writes of `comb_cache_add` -/

section Writes

variable {cache : List UInt32} {blocks : List CombBlock} {seq : List UInt32}
  (hc : CombChain cache blocks)
include hc

/-- `ip[len + 1] = 0; *ip = len + 1; blockcpy(ip + 1, seq, len)` at the terminator, when the
block and a new terminator fit: the chain gets a block at its end. -/
theorem CombChain.append_block (hroom : (combLayout blocks).length + seq.length + 1 < COMB_CACHE_SIZE) :
    CombChain (blockcpy ((cache.set ((combLayout blocks).length + seq.length + 1) 0).set
      (combLayout blocks).length (seq.length + 1).toUInt32) ((combLayout blocks).length + 1) seq)
      (blocks ++ [⟨false, seq⟩]) := by
  obtain ⟨rest, hrest⟩ := hc.layout_eq
  have hcl := hc.length_eq
  rw [hrest, List.length_append, List.length_cons] at hcl
  refine ⟨⟨rest.drop (seq.length + 1), ?_⟩, by simp [hc.length_eq]⟩
  -- the new terminator goes `len + 1` entries into what followed the old one
  have hset : (cache.set ((combLayout blocks).length + seq.length + 1) 0).set
      (combLayout blocks).length (seq.length + 1).toUInt32 =
      (combLayout blocks ++ [(seq.length + 1).toUInt32]) ++ rest.set seq.length 0 := by
    rw [hrest, List.set_append_right _ _ (by omega), List.set_append_right _ _ (le_refl _)]
    simp only [show (combLayout blocks).length + seq.length + 1 - (combLayout blocks).length =
      seq.length + 1 by omega, List.set_cons_succ, Nat.sub_self, List.set_cons_zero,
      List.append_assoc, List.singleton_append]
  have hcpy := blockcpy_append (combLayout blocks ++ [(seq.length + 1).toUInt32])
    (rest.set seq.length 0) seq (by simp only [List.length_set]; omega)
  rw [List.length_append, List.length_singleton] at hcpy
  rw [hset, hcpy, Layout.drop_set_self 0 (by omega)]
  simp [CombBlock.encode, CombBlock.size, combHeader_false]

section Reuse

variable {pre post : List CombBlock} {b : CombBlock} (hb : blocks = pre ++ b :: post)
include hb

/-- `*ip = len + 1; blockcpy(ip + 1, seq, len)` on a free block of `len + 1` entries: the block
holds the combination. -/
theorem CombChain.reuse_block (hsz : b.size = seq.length + 1) :
    CombChain (blockcpy (cache.set (combLayout pre).length (seq.length + 1).toUInt32)
      ((combLayout pre).length + 1) seq) (pre ++ ⟨false, seq⟩ :: post) := by
  obtain ⟨rest, hrest⟩ := hc.layout_eq
  refine ⟨⟨rest, ?_⟩, by simp [hc.length_eq]⟩
  have hbody : b.body.length = seq.length := by simp only [CombBlock.size] at hsz; omega
  have hset : cache.set (combLayout pre).length (seq.length + 1).toUInt32 =
      (combLayout pre ++ [(seq.length + 1).toUInt32]) ++ (b.body ++ (combLayout post ++ 0 :: rest)) := by
    rw [hrest, hb]
    have h := combLayout_set pre b post (0 :: rest) (seq.length + 1).toUInt32 (j := 0) b.size_pos
    rw [Nat.add_zero] at h
    rw [h]
    simp [CombBlock.encode]
  have hcpy := blockcpy_append (combLayout pre ++ [(seq.length + 1).toUInt32])
    (b.body ++ (combLayout post ++ 0 :: rest)) seq (by simp; omega)
  rw [List.length_append, List.length_singleton] at hcpy
  rw [hset, hcpy, List.drop_left' hbody]
  simp [CombBlock.encode, CombBlock.size, combHeader_false]

/-- `ip[len + 1] = *ip - (len + 1)` first, on a free block larger than that: the rest of the
block stays free after the combination. -/
theorem CombChain.split_block (hfree : b.free = true) (hsz : seq.length + 1 < b.size) :
    CombChain (blockcpy ((cache.set ((combLayout pre).length + seq.length + 1)
        (cache.getD (combLayout pre).length 0 - (seq.length + 1).toUInt32)).set
        (combLayout pre).length (seq.length + 1).toUInt32) ((combLayout pre).length + 1) seq)
      (pre ++ ⟨false, seq⟩ :: ⟨true, b.body.drop (seq.length + 1)⟩ :: post) := by
  obtain ⟨rest, hrest⟩ := hc.layout_eq
  have hs := hc.size_lt hb
  refine ⟨⟨rest, ?_⟩, by simp [hc.length_eq]⟩
  have hbody : seq.length + 1 ≤ b.body.length := by simp only [CombBlock.size] at hsz; omega
  -- the header of the free block left after the combination
  have hleft : cache.getD (combLayout pre).length 0 - (seq.length + 1).toUInt32 =
      combHeader true (b.body.length - (seq.length + 1) + 1) := by
    rw [hc.getD_offset hb, hfree, combHeader_sub hs (by omega)]
    congr 1
    simp only [CombBlock.size]
    omega
  have hset : (cache.set ((combLayout pre).length + seq.length + 1)
        (cache.getD (combLayout pre).length 0 - (seq.length + 1).toUInt32)).set
        (combLayout pre).length (seq.length + 1).toUInt32 =
      (combLayout pre ++ [(seq.length + 1).toUInt32]) ++
        (b.body.set seq.length (combHeader true (b.body.length - (seq.length + 1) + 1)) ++
          (combLayout post ++ 0 :: rest)) := by
    rw [hleft, hrest, hb]
    have h := combLayout_set pre b post (0 :: rest)
      (combHeader true (b.body.length - (seq.length + 1) + 1)) (j := seq.length + 1) hsz
    rw [← Nat.add_assoc] at h
    rw [h]
    rw [List.set_append_right _ _ (le_refl _), Nat.sub_self]
    simp [CombBlock.encode]
  have hcpy := blockcpy_append (combLayout pre ++ [(seq.length + 1).toUInt32])
    (b.body.set seq.length (combHeader true (b.body.length - (seq.length + 1) + 1)) ++
      (combLayout post ++ 0 :: rest)) seq (by simp; omega)
  rw [List.length_append, List.length_singleton] at hcpy
  rw [hset, hcpy, List.drop_append_of_le_length (by simp; omega), Layout.drop_set_self _ (by omega)]
  simp [CombBlock.encode, CombBlock.size, combHeader_false]

end Reuse

end Writes

/-! ## The allocator -/

/-- What `comb_cache_add` does to the chain: the offset of the block that then holds `seq`
and the chain after, or `none` where it returns `TTY_CHAR_BAD`. The first block that holds
`seq` is shared; else the first free block with room takes it, and what is left of that block
stays free; else a block is appended if it and a terminator fit in the cache. -/
def combAlloc (seq : List UInt32) (blocks : List CombBlock) : Option (Nat × List CombBlock) :=
  match blocks.dropWhile (fun b => !b.holds seq) with
  | _ :: _ => some ((combLayout (blocks.takeWhile fun b => !b.holds seq)).length, blocks)
  | [] =>
    let pre := blocks.takeWhile fun b => !b.fits seq.length
    match blocks.dropWhile (fun b => !b.fits seq.length) with
    | b :: post =>
      let left : List CombBlock :=
        if seq.length + 1 < b.size then [⟨true, b.body.drop (seq.length + 1)⟩] else []
      some ((combLayout pre).length, pre ++ ⟨false, seq⟩ :: (left ++ post))
    | [] =>
      if (combLayout blocks).length + seq.length + 1 ≥ COMB_CACHE_SIZE then none
      else some ((combLayout blocks).length, blocks ++ [⟨false, seq⟩])

/-- A chain where a free block has become a combination is another chain. -/
theorem ne_of_free {blocks pre post : List CombBlock} {b : CombBlock} (hb : blocks = pre ++ b :: post)
    (hfree : b.free = true) (seq : List UInt32) (rest : List CombBlock) :
    pre ++ ⟨false, seq⟩ :: rest ≠ blocks := by
  rw [hb]
  intro h
  have h' := List.append_cancel_left h
  rw [List.cons.injEq] at h'
  rw [← h'.1] at hfree
  cases hfree

/-- `comb_cache_add` refines the allocator on every chain: it returns, without running out of
fuel, `TTY_CHAR_BAD` and the cache as it was where the allocator finds no room, and else the
code of the offset the allocator gives, with the cache holding the allocator's chain; the cache
changes only where the chain does. -/
theorem combCacheAdd_refines {cache : List UInt32} {blocks : List CombBlock} {seq : List UInt32}
    (hc : CombChain cache blocks) (hlen : seq.length < 2 ^ 31) :
    ∃ code cache', combCacheAdd cache seq = some (code, cache') ∧
      ((combAlloc seq blocks = none ∧ code = TTY_CHAR_BAD ∧ cache' = cache) ∨
        ∃ o blocks', combAlloc seq blocks = some (o, blocks') ∧
          code = TTY_CHAR_COMB + o.toUInt32 ∧ CombChain cache' blocks' ∧
          (blocks' = blocks → cache' = cache)) := by
  have hw1 := hc.combWalk_eq (fun i => cache.getD i 0 == (seq.length + 1).toUInt32 &&
      List.take seq.length (List.drop (i + 1) cache) == seq) (CombBlock.holds seq)
    (fun _ _ _ hb => hc.found_holds hlen hb)
  have hw2 := hc.combWalk_eq (fun j => decide (cache.getD j 0 ≥ 0x10001 + seq.length.toUInt32))
    (CombBlock.fits seq.length) (fun _ _ _ hb => hc.found_fits hlen hb)
  rw [combCacheAdd]
  simp only [hw1, Option.bind_eq_bind, Option.bind_some]
  cases hd1 : blocks.dropWhile (fun b => !b.holds seq) with
  | cons b post =>
    -- a block holds the combination: its code, and the cache as it is
    obtain ⟨hsplit, -⟩ := Layout.dropWhile_eq_cons hd1
    have hne : cache.getD (combLayout (blocks.takeWhile fun b => !b.holds seq)).length 0 ≠ 0 := by
      rw [hc.getD_offset hsplit]
      exact combHeader_ne_zero b.free (hc.size_lt hsplit) b.size_pos
    rw [if_pos hne]
    exact ⟨_, _, rfl, .inr ⟨_, blocks, by simp only [combAlloc, hd1], rfl, hc, fun _ => rfl⟩⟩
  | nil =>
    have hend : cache.getD (combLayout (blocks.takeWhile fun b => !b.holds seq)).length 0 = 0 := by
      rw [Layout.takeWhile_of_dropWhile_nil hd1, hc.getD_end]
    rw [if_neg (not_not.mpr hend), hw2]
    simp only [Option.bind_some]
    cases hd2 : blocks.dropWhile (fun b => !b.fits seq.length) with
    | cons b post =>
      -- the first free block with room
      obtain ⟨hsplit, hfits⟩ := Layout.dropWhile_eq_cons hd2
      have hs := hc.size_lt hsplit
      simp only [CombBlock.fits, Bool.not_and, Bool.or_eq_false_iff, Bool.not_eq_false',
        decide_eq_true_eq] at hfits
      obtain ⟨hfree, hroom⟩ := hfits
      have hv := hc.getD_offset hsplit
      rw [hfree] at hv
      rw [hv, if_neg (combHeader_ne_zero true hs b.size_pos)]
      by_cases hbig : seq.length + 1 < b.size
      · have hgt : combHeader true b.size > 0x10001 + seq.length.toUInt32 := by
          rw [gt_iff_lt, UInt32.lt_iff_toNat_lt, combHeader_toNat true hs, UInt32.toNat_add,
            UInt32.toNat_ofNat_of_lt' (by unfold UInt32.size; omega)]
          simp
          omega
        rw [if_pos hgt, ← hv]
        refine ⟨_, _, rfl, .inr ⟨_, _, ?_, rfl, hc.split_block hsplit hfree hbig,
          fun h => absurd h (ne_of_free hsplit hfree seq _)⟩⟩
        simp only [combAlloc, hd1, hd2, if_pos hbig, List.singleton_append]
      · have hle : ¬ combHeader true b.size > 0x10001 + seq.length.toUInt32 := by
          rw [gt_iff_lt, UInt32.lt_iff_toNat_lt, combHeader_toNat true hs, UInt32.toNat_add,
            UInt32.toNat_ofNat_of_lt' (by unfold UInt32.size; omega)]
          simp
          omega
        rw [if_neg hle]
        refine ⟨_, _, rfl, .inr ⟨_, _, ?_, rfl, hc.reuse_block hsplit (by omega),
          fun h => absurd h (ne_of_free hsplit hfree seq _)⟩⟩
        simp only [combAlloc, hd1, hd2, if_neg hbig, List.nil_append]
    | nil =>
      -- no free block has room: the terminator
      rw [Layout.takeWhile_of_dropWhile_nil hd2, hc.getD_end, if_pos rfl]
      by_cases hfull : (combLayout blocks).length + seq.length + 1 ≥ COMB_CACHE_SIZE
      · rw [if_pos hfull]
        exact ⟨_, _, rfl, .inl ⟨by simp only [combAlloc, hd1, hd2, if_pos hfull], rfl, rfl⟩⟩
      · rw [if_neg hfull]
        refine ⟨_, _, rfl, .inr ⟨_, _, ?_, rfl, hc.append_block (by omega), fun h => ?_⟩⟩
        · simp only [combAlloc, hd1, hd2, if_neg hfull]
        · have := congrArg List.length h
          simp at this

/-! ## What the allocator keeps -/

theorem CombBlock.holds_iff {seq : List UInt32} {b : CombBlock} :
    b.holds seq = true ↔ b = ⟨false, seq⟩ := by
  cases b with
  | mk free body => cases free <;> simp [CombBlock.holds]

theorem combBlockAt_lt {blocks : List CombBlock} {o : Nat} {b : CombBlock}
    (h : combBlockAt blocks o = some b) : o < (combLayout blocks).length := by
  obtain ⟨pre, post, rfl, rfl⟩ := exists_of_combBlockAt h
  simp only [combLayout_append, combLayout_cons, List.length_append, CombBlock.length_encode]
  have := b.size_pos
  omega

/-- On a chain whose first combination `seq` comes after blocks that do not hold it, the
allocator shares that block. -/
theorem combAlloc_of_first {seq : List UInt32} {pre rest : List CombBlock}
    (hpre : ∀ a ∈ pre, a.holds seq = false) :
    combAlloc seq (pre ++ ⟨false, seq⟩ :: rest) =
      some ((combLayout pre).length, pre ++ ⟨false, seq⟩ :: rest) := by
  have hpos : ∀ a ∈ pre, (!a.holds seq) = true := fun a ha => by simp [hpre a ha]
  have hheld : (!CombBlock.holds seq ⟨false, seq⟩) = false := by simp [CombBlock.holds]
  have hdrop : (pre ++ ⟨false, seq⟩ :: rest).dropWhile (fun b => !b.holds seq) =
      ⟨false, seq⟩ :: rest := by
    rw [List.dropWhile_append_of_pos hpos, List.dropWhile_cons_of_neg (by simp [hheld])]
  have htake : (pre ++ ⟨false, seq⟩ :: rest).takeWhile (fun b => !b.holds seq) = pre := by
    rw [List.takeWhile_append_of_pos hpos, List.takeWhile_cons_of_neg (by simp [hheld]),
      List.append_nil]
  simp only [combAlloc, hdrop, htake]

section Alloc

variable {seq : List UInt32} {blocks blocks' : List CombBlock} {o : Nat}

/-- The three ways the allocator succeeds: a shared block, a free block that takes the
combination, or a block at the end. -/
theorem combAlloc_cases (h : combAlloc seq blocks = some (o, blocks')) :
    (blocks' = blocks ∧ CombAt blocks o seq) ∨
    (∃ pre b post left, blocks = pre ++ b :: post ∧ b.free = true ∧
      (combLayout (⟨false, seq⟩ :: left)).length = b.size ∧
      (∀ a ∈ pre, a.holds seq = false) ∧ o = (combLayout pre).length ∧
      blocks' = pre ++ ⟨false, seq⟩ :: (left ++ post)) ∨
    ((∀ a ∈ blocks, a.holds seq = false) ∧ o = (combLayout blocks).length ∧
      blocks' = blocks ++ [⟨false, seq⟩]) := by
  cases hd1 : blocks.dropWhile (fun b => !b.holds seq) with
  | cons b post =>
    -- the first block that holds the combination
    simp only [combAlloc, hd1, Option.some.injEq, Prod.mk.injEq] at h
    obtain ⟨rfl, rfl⟩ := h
    obtain ⟨hsplit, hb⟩ := Layout.dropWhile_eq_cons hd1
    have hb' : b = ⟨false, seq⟩ := CombBlock.holds_iff.mp (by simpa using hb)
    refine .inl ⟨rfl, ?_⟩
    rw [CombAt, ← hb']
    nth_rewrite 1 [hsplit]
    exact combBlockAt_offset _ b post
  | nil =>
    have hnone : ∀ a ∈ blocks, a.holds seq = false := fun a ha => by
      simpa using List.dropWhile_eq_nil_iff.mp hd1 a ha
    cases hd2 : blocks.dropWhile (fun b => !b.fits seq.length) with
    | cons b post =>
      -- the first free block with room
      simp only [combAlloc, hd1, hd2, Option.some.injEq, Prod.mk.injEq] at h
      obtain ⟨rfl, rfl⟩ := h
      obtain ⟨hsplit, hfits⟩ := Layout.dropWhile_eq_cons hd2
      simp only [CombBlock.fits, Bool.not_and, Bool.or_eq_false_iff, Bool.not_eq_false',
        decide_eq_true_eq] at hfits
      refine .inr (.inl ⟨_, b, post, _, hsplit, hfits.1, ?_,
        fun a ha => hnone a ((List.takeWhile_sublist _).subset ha), rfl, rfl⟩)
      by_cases hbig : seq.length + 1 < b.size
      · rw [if_pos hbig]
        simp only [combLayout_cons, combLayout_nil, List.length_append, CombBlock.length_encode,
          CombBlock.size, List.length_drop, List.append_nil] at hbig ⊢
        omega
      · rw [if_neg hbig]
        have := hfits.2
        simp only [combLayout_cons, combLayout_nil, CombBlock.length_encode, List.append_nil,
          CombBlock.size] at this hbig ⊢
        omega
    | nil =>
      -- a block at the end
      by_cases hfull : (combLayout blocks).length + seq.length + 1 ≥ COMB_CACHE_SIZE
      · simp [combAlloc, hd1, hd2, if_pos hfull] at h
      · simp only [combAlloc, hd1, hd2, if_neg hfull, Option.some.injEq, Prod.mk.injEq] at h
        obtain ⟨rfl, rfl⟩ := h
        exact .inr (.inr ⟨hnone, rfl, rfl⟩)

/-- The block the allocator gives holds the combination. -/
theorem combAlloc_combAt (h : combAlloc seq blocks = some (o, blocks')) : CombAt blocks' o seq := by
  rcases combAlloc_cases h with ⟨rfl, hat⟩ | ⟨pre, b, post, left, -, -, -, -, rfl, rfl⟩ |
    ⟨-, rfl, rfl⟩
  · exact hat
  · exact combBlockAt_offset pre _ _
  · exact combBlockAt_offset blocks _ []

/-- The allocator keeps every combination of the chain where it is. -/
theorem combAlloc_keeps (h : combAlloc seq blocks = some (o, blocks')) {o' : Nat}
    {seq' : List UInt32} (hat : CombAt blocks o' seq') : CombAt blocks' o' seq' := by
  rcases combAlloc_cases h with ⟨rfl, -⟩ | ⟨pre, b, post, left, hb, hfree, hmid, -, -, rfl⟩ |
    ⟨-, -, rfl⟩
  · exact hat
  · -- the free block's entries hold no combination, so the combination is outside them
    subst hb
    have hout : o' < (combLayout pre).length ∨ (combLayout pre).length + b.size ≤ o' := by
      by_contra hin
      rw [CombAt, combBlockAt_append, if_neg (by omega), combBlockAt] at hat
      by_cases h0 : o' - (combLayout pre).length = 0
      · rw [if_pos h0] at hat
        rw [Option.some.injEq] at hat
        rw [hat] at hfree
        cases hfree
      · rw [if_neg h0, if_pos (by omega)] at hat
        cases hat
    rw [CombAt, ← List.cons_append, ← List.append_assoc, combBlockAt_replace pre post _ b o' hmid hout]
    exact hat
  · rw [CombAt, combBlockAt_append, if_pos (combBlockAt_lt hat)]
    exact hat

/-- Adding a combination the allocator has just placed shares its block. -/
theorem combAlloc_idem (h : combAlloc seq blocks = some (o, blocks')) :
    combAlloc seq blocks' = some (o, blocks') := by
  rcases combAlloc_cases h with ⟨rfl, -⟩ | ⟨pre, b, post, left, -, -, -, hpre, rfl, rfl⟩ |
    ⟨hnone, rfl, rfl⟩
  · exact h
  · exact combAlloc_of_first hpre
  · exact combAlloc_of_first hnone

end Alloc

/-! ## What the terminal shows for a combination -/

/-- The code points `tty_dpy_flush` writes for a cell that names entry `k` of the cache:
`int ncc = *ip++` and, when `ncc < 0x300`, the `ncc - 1` entries after it; `none` where it
takes the offset for invalid and only places the cursor again. An entry from `2^31` on is a
negative count, and nothing is written. -/
def combSequence (cache : List UInt32) (k : Nat) : Option (List UInt32) :=
  let ncc := (cache.getD k 0).toNat
  if 2 ^ 31 ≤ ncc then some []
  else if ncc < 0x300 then some ((cache.drop (k + 1)).take (ncc - 1))
  else none

/-- The terminal shows the combination of a block of the chain when it is short enough for
the flush's check, and takes the offset for invalid otherwise. -/
theorem CombChain.combSequence_of_combAt {cache : List UInt32} {blocks : List CombBlock}
    {o : Nat} {seq : List UInt32} (hc : CombChain cache blocks) (hat : CombAt blocks o seq) :
    combSequence cache o = if seq.length + 1 < 0x300 then some seq else none := by
  obtain ⟨pre, post, hb, rfl⟩ := exists_of_combBlockAt hat
  obtain ⟨rest, hrest⟩ := hc.layout_eq
  have hs : (⟨false, seq⟩ : CombBlock).size = seq.length + 1 := rfl
  have hlt := hc.size_lt hb
  rw [hs] at hlt
  have hv : (cache.getD (combLayout pre).length 0).toNat = seq.length + 1 := by
    rw [hc.getD_offset hb, combHeader_toNat false (by omega), hs]
    simp
  have hdrop : cache.drop ((combLayout pre).length + 1) = seq ++ (combLayout post ++ 0 :: rest) := by
    rw [hrest, hb]
    exact combLayout_drop pre _ post (0 :: rest) (j := 1) (by rw [hs]; omega)
  rw [combSequence]
  rw [hv, if_neg (by omega)]
  by_cases hshort : seq.length + 1 < 0x300
  · rw [if_pos hshort, if_pos hshort, hdrop, Nat.add_sub_cancel, List.take_left' rfl]
  · rw [if_neg hshort, if_neg hshort]

section Add

variable {cache cache' : List UInt32} {blocks : List CombBlock} {seq : List UInt32} {code : UInt32}

/-- The offset a code names. -/
theorem comb_code_toNat {o : Nat} (ho : o < COMB_CACHE_SIZE) :
    (TTY_CHAR_COMB + o.toUInt32 - TTY_CHAR_COMB).toNat = o := by
  rw [add_sub_cancel_left, toNat_toUInt32_of_lt (by rw [COMB_CACHE_SIZE] at ho; omega)]

/-- The chain of one block holding `a` and a combining acute accent. -/
theorem combChain_pair :
    CombChain ([3, 0x61, 0x301] ++ List.replicate (COMB_CACHE_SIZE - 3) 0) [⟨false, [0x61, 0x301]⟩] := by
  refine ⟨⟨List.replicate (COMB_CACHE_SIZE - 4) 0, rfl⟩, ?_⟩
  rw [List.length_append, List.length_replicate]
  rfl

/-- `comb_cache_add` on a chain returns a code without running out of fuel: `TTY_CHAR_BAD`
with the cache as it was, or the code of a block that then holds the combination, with the
cache still a chain that keeps every combination it held where it was. -/
theorem combCacheAdd_spec (hc : CombChain cache blocks) (hlen : seq.length < 2 ^ 31) :
    ∃ code cache', combCacheAdd cache seq = some (code, cache') ∧
      ((code = TTY_CHAR_BAD ∧ cache' = cache) ∨
        ∃ blocks', CombChain cache' blocks' ∧ CombAt blocks' (code - TTY_CHAR_COMB).toNat seq ∧
          ∀ o s, CombAt blocks o s → CombAt blocks' o s) := by
  obtain ⟨code, cache', hadd, hcases⟩ := combCacheAdd_refines hc hlen
  refine ⟨code, cache', hadd, ?_⟩
  rcases hcases with ⟨-, rfl, rfl⟩ | ⟨o, blocks', halloc, rfl, hc', -⟩
  · exact .inl ⟨rfl, rfl⟩
  · have hat := combAlloc_combAt halloc
    have ho : o < COMB_CACHE_SIZE := Nat.lt_trans (combBlockAt_lt hat) hc'.layout_lt
    rw [comb_code_toNat ho]
    exact .inr ⟨blocks', hc', hat, fun o' s' => combAlloc_keeps halloc⟩

/-- Adding a second combination to the chain of one block. -/
theorem combCacheAdd_spec_pair :
    ∃ code cache', combCacheAdd ([3, 0x61, 0x301] ++ List.replicate (COMB_CACHE_SIZE - 3) 0)
        [0x62, 0x301] = some (code, cache') ∧
      ((code = TTY_CHAR_BAD ∧ cache' = [3, 0x61, 0x301] ++ List.replicate (COMB_CACHE_SIZE - 3) 0) ∨
        ∃ blocks', CombChain cache' blocks' ∧ CombAt blocks' (code - TTY_CHAR_COMB).toNat [0x62, 0x301] ∧
          ∀ o s, CombAt [⟨false, [0x61, 0x301]⟩] o s → CombAt blocks' o s) :=
  combCacheAdd_spec combChain_pair (by decide)

/-- After `comb_cache_add` returns a code, the terminal shows the combination for it, and shows
for every other combination of the chain what it showed before. -/
theorem combCacheAdd_combSequence (hc : CombChain cache blocks) (hshort : seq.length + 1 < 0x300)
    (h : combCacheAdd cache seq = some (code, cache')) (hbad : code ≠ TTY_CHAR_BAD) :
    combSequence cache' (code - TTY_CHAR_COMB).toNat = some seq ∧
      ∀ o s, CombAt blocks o s → combSequence cache' o = combSequence cache o := by
  obtain ⟨code', cache'', hadd, hcases⟩ := combCacheAdd_refines hc (show seq.length < 2 ^ 31 by omega)
  rw [h, Option.some.injEq, Prod.mk.injEq] at hadd
  obtain ⟨rfl, rfl⟩ := hadd
  rcases hcases with ⟨-, hb, -⟩ | ⟨o, blocks', halloc, rfl, hc', -⟩
  · exact absurd hb hbad
  · have hat := combAlloc_combAt halloc
    have ho : o < COMB_CACHE_SIZE := Nat.lt_trans (combBlockAt_lt hat) hc'.layout_lt
    rw [comb_code_toNat ho, hc'.combSequence_of_combAt hat, if_pos hshort]
    refine ⟨rfl, fun o' s hos => ?_⟩
    rw [hc'.combSequence_of_combAt (combAlloc_keeps halloc hos), hc.combSequence_of_combAt hos]

/-- The second combination goes in a block after the first, which the flush still shows. -/
theorem combCacheAdd_combSequence_pair :
    combSequence ([3, 0x61, 0x301, 3, 0x62, 0x301] ++ List.replicate (COMB_CACHE_SIZE - 6) 0)
        (TTY_CHAR_COMB + 3 - TTY_CHAR_COMB).toNat = some [0x62, 0x301] ∧
      ∀ o s, CombAt [⟨false, [0x61, 0x301]⟩] o s →
        combSequence ([3, 0x61, 0x301, 3, 0x62, 0x301] ++ List.replicate (COMB_CACHE_SIZE - 6) 0) o =
          combSequence ([3, 0x61, 0x301] ++ List.replicate (COMB_CACHE_SIZE - 3) 0) o :=
  combCacheAdd_combSequence combChain_pair (by decide) rfl (by decide)

/-- Adding a combination again gives the same code and leaves the cache as it is. -/
theorem combCacheAdd_again (hc : CombChain cache blocks) (hlen : seq.length < 2 ^ 31)
    (h : combCacheAdd cache seq = some (code, cache')) (hbad : code ≠ TTY_CHAR_BAD) :
    combCacheAdd cache' seq = some (code, cache') := by
  obtain ⟨code1, cache1, hadd, hcases⟩ := combCacheAdd_refines hc hlen
  rw [h, Option.some.injEq, Prod.mk.injEq] at hadd
  obtain ⟨rfl, rfl⟩ := hadd
  rcases hcases with ⟨-, hb, -⟩ | ⟨o, blocks', halloc, rfl, hc', -⟩
  · exact absurd hb hbad
  · -- the second add goes to the same block of the chain the first one left
    obtain ⟨code2, cache2, hadd2, hcases2⟩ := combCacheAdd_refines hc' hlen
    rw [hadd2]
    rcases hcases2 with ⟨hnone, -, -⟩ | ⟨o2, blocks2, halloc2, rfl, -, hsame⟩
    · rw [combAlloc_idem halloc] at hnone
      cases hnone
    · rw [combAlloc_idem halloc, Option.some.injEq, Prod.mk.injEq] at halloc2
      obtain ⟨rfl, rfl⟩ := halloc2
      rw [hsame rfl]

theorem combCacheAdd_again_empty :
    combCacheAdd ([3, 0x61, 0x301] ++ List.replicate (COMB_CACHE_SIZE - 3) 0) [0x61, 0x301] =
      some (TTY_CHAR_COMB, [3, 0x61, 0x301] ++ List.replicate (COMB_CACHE_SIZE - 3) 0) :=
  combCacheAdd_again combChain_empty (by decide) rfl (by decide)

end Add

/-! ## The marks of `comb_cache_clean` -/

/-- The chain after the scan, from offset `o` on: a block is free unless `used` holds at its
offset. -/
def combMarked (used : Nat → Bool) : Nat → List CombBlock → List CombBlock
  | _, [] => []
  | o, b :: bs => ⟨!used o, b.body⟩ :: combMarked used (o + b.size) bs

section Marks

variable (used : Nat → Bool)

theorem combMarked_append (o : Nat) (bs cs : List CombBlock) :
    combMarked used o (bs ++ cs) =
      combMarked used o bs ++ combMarked used (o + (combLayout bs).length) cs := by
  induction bs generalizing o with
  | nil => simp [combMarked]
  | cons b bs ih =>
    simp only [List.cons_append, combMarked, ih, combLayout_cons, List.length_append,
      CombBlock.length_encode, Nat.add_assoc]

/-- The marks leave every block's entries where they were. -/
@[simp] theorem length_combLayout_combMarked (o : Nat) (bs : List CombBlock) :
    (combLayout (combMarked used o bs)).length = (combLayout bs).length := by
  induction bs generalizing o with
  | nil => rfl
  | cons b bs ih =>
    simp only [combMarked, combLayout_cons, List.length_append, CombBlock.length_encode, ih]
    rfl

/-- The marks depend on `used` only at the offsets of the blocks. -/
theorem combMarked_congr {used' : Nat → Bool} (o : Nat) (bs : List CombBlock)
    (h : ∀ x, o ≤ x → x < o + (combLayout bs).length → used x = used' x) :
    combMarked used o bs = combMarked used' o bs := by
  induction bs generalizing o with
  | nil => rfl
  | cons b bs ih =>
    have hb := b.size_pos
    simp only [combLayout_cons, List.length_append, CombBlock.length_encode] at h
    simp only [combMarked, h o (le_refl o) (by omega),
      ih (o + b.size) fun x hx hlt => h x (by omega) (by omega)]

end Marks

/-- One cell of the scan of `comb_cache_clean`: a cell that names no combination. -/
theorem combMarkUsed_cons_none {c : TTYChar} (hk : combRef c = none) (cache : List UInt32)
    (screen : List TTYChar) : combMarkUsed cache (c :: screen) = combMarkUsed cache screen := by
  simp [combMarkUsed, hk]

/-- One cell of the scan of `comb_cache_clean`: a cell that names the block at `k` clears the
free bit of its header. -/
theorem combMarkUsed_cons_some {c : TTYChar} {k : Nat} (hk : combRef c = some k)
    (cache : List UInt32) (screen : List TTYChar) :
    combMarkUsed cache (c :: screen) = combMarkUsed (cache.modify k (· &&& ~~~0x10000)) screen := by
  simp [combMarkUsed, hk]

section MarkWrites

variable {cache : List UInt32}

/-- Writing a block's header with a header of its size, free or not. -/
theorem CombChain.set_header {blocks pre post : List CombBlock} {b : CombBlock}
    (hc : CombChain cache blocks) (hb : blocks = pre ++ b :: post) (f : Bool) :
    CombChain (cache.set (combLayout pre).length (combHeader f b.size)) (pre ++ ⟨f, b.body⟩ :: post) := by
  obtain ⟨rest, hrest⟩ := hc.layout_eq
  refine ⟨⟨rest, ?_⟩, by rw [List.length_set, hc.length_eq]⟩
  have h := combLayout_set pre b post (0 :: rest) (combHeader f b.size) (j := 0) b.size_pos
  rw [Nat.add_zero] at h
  rw [hrest, hb, h]
  simp [CombBlock.encode, CombBlock.size]

/-- The first loop of `comb_cache_clean`, from the offset of a block on: every header after it
gets its free bit, within a turn a block. -/
theorem CombChain.markFree : ∀ (bs pre : List CombBlock) (cache : List UInt32) (fuel : Nat),
    CombChain cache (pre ++ bs) → bs.length < fuel →
      ∃ cache', combMarkFree cache fuel (combLayout pre).length = some cache' ∧
        CombChain cache' (pre ++ bs.map fun b => ⟨true, b.body⟩)
  | [], pre, cache, fuel + 1, hc, _ => by
    rw [List.append_nil] at hc
    rw [combMarkFree, if_pos hc.getD_end]
    exact ⟨cache, rfl, by rwa [List.map_nil, List.append_nil]⟩
  | b :: bs, pre, cache, fuel + 1, hc, hfuel => by
    have hs := hc.size_lt rfl
    rw [combMarkFree, hc.getD_offset rfl, if_neg (combHeader_ne_zero b.free hs b.size_pos)]
    dsimp only
    rw [combHeader_or_flag b.free hs]
    -- the header written, then the walk to the next block
    have hc1 := hc.set_header rfl true
    rw [hc1.combNext_offset rfl]
    have hc2 : CombChain (cache.set (combLayout pre).length (combHeader true b.size))
        ((pre ++ [⟨true, b.body⟩]) ++ bs) := by
      rwa [List.append_assoc, List.singleton_append]
    obtain ⟨cache', hmark, hc'⟩ := CombChain.markFree bs (pre ++ [⟨true, b.body⟩]) _ fuel hc2
      (by simp only [List.length_cons] at hfuel; omega)
    have hoff : (combLayout (pre ++ [⟨true, b.body⟩])).length =
        (combLayout pre).length + (⟨true, b.body⟩ : CombBlock).size := by
      simp
    rw [hoff] at hmark
    refine ⟨cache', hmark, ?_⟩
    rw [List.map_cons, ← List.singleton_append, ← List.append_assoc]
    exact hc'

/-- The scan of the screen on the marked chain: a cell that names a block's offset marks it
used. -/
theorem CombChain.markUsed (blocks : List CombBlock) :
    ∀ (screen : List TTYChar) (used : Nat → Bool) (cache : List UInt32),
      CombChain cache (combMarked used 0 blocks) →
      (∀ c ∈ screen, ∀ k, combRef c = some k → (combBlockAt blocks k).isSome) →
      CombChain (combMarkUsed cache screen)
        (combMarked (fun x => used x || screen.any fun c => combRef c == some x) 0 blocks)
  | [], used, cache, hc, _ => by
    simpa [combMarkUsed] using hc
  | c :: screen, used, cache, hc, hrefs => by
    cases hk : combRef c with
    | none =>
      rw [combMarkUsed_cons_none hk]
      have h := CombChain.markUsed blocks screen used cache hc
        (fun c' hc' => hrefs c' (List.mem_cons_of_mem c hc'))
      simpa [hk] using h
    | some k =>
      rw [combMarkUsed_cons_some hk]
      -- the cell names the block at `k`: its header loses the free bit
      obtain ⟨b, hb⟩ := Option.isSome_iff_exists.mp (hrefs c (List.mem_cons_self ..) k hk)
      obtain ⟨pre, post, hsplit, hpre⟩ := exists_of_combBlockAt hb
      let used' : Nat → Bool := fun x => x == k || used x
      have hmarked : ∀ u : Nat → Bool, combMarked u 0 blocks =
          combMarked u 0 pre ++ ⟨!u k, b.body⟩ :: combMarked u (k + b.size) post := by
        intro u
        rw [hsplit, combMarked_append, Nat.zero_add, hpre]
        rfl
      have hs : b.size < 0x10000 := hc.size_lt (b := ⟨!used k, b.body⟩) (hmarked used)
      have hoff : (combLayout (combMarked used 0 pre)).length = k := by
        rw [length_combLayout_combMarked, hpre]
      have hhead : cache.getD k 0 = combHeader (!used k) b.size := by
        have h := hc.getD_offset (hmarked used)
        rw [hoff] at h
        exact h
      have hmod : cache.modify k (· &&& ~~~0x10000) =
          cache.set (combLayout (combMarked used 0 pre)).length (combHeader false b.size) := by
        rw [List.modify_eq_set, hoff, ← List.getD_eq_getElem?_getD, show (default : UInt32) = 0 from rfl,
          hhead, combHeader_and_not_flag _ hs]
      have hc' : CombChain (cache.set (combLayout (combMarked used 0 pre)).length
          (combHeader false b.size))
          (combMarked used 0 pre ++ ⟨false, b.body⟩ :: combMarked used (k + b.size) post) :=
        hc.set_header (hmarked used) false
      rw [← hmod] at hc'
      -- the marks with `k` used are those of `used'`
      have hpre' : combMarked used 0 pre = combMarked used' 0 pre :=
        combMarked_congr used 0 pre fun x _ hx => by
          have : x ≠ k := by omega
          simp [used', this]
      have hpost' : combMarked used (k + b.size) post = combMarked used' (k + b.size) post :=
        combMarked_congr used _ post fun x hx _ => by
          have : x ≠ k := by have := b.size_pos; omega
          simp [used', this]
      have hused' : (!used' k) = false := by simp [used']
      rw [hpre', hpost', ← hused', ← hmarked used'] at hc'
      have h := CombChain.markUsed blocks screen used' _ hc'
        (fun c' hc' => hrefs c' (List.mem_cons_of_mem c hc'))
      have hfun : (fun x => used' x || screen.any fun c => combRef c == some x) =
          fun x => used x || (c :: screen).any fun c => combRef c == some x := by
        funext x
        simp only [used', List.any_cons, hk]
        by_cases hx : x = k
        · subst hx
          simp
        · have hne : (some k == some x) = false := by simp [Ne.symm hx]
          have hne' : (x == k) = false := by simp [hx]
          rw [hne, hne', Bool.false_or, Bool.false_or]
      rwa [hfun] at h

end MarkWrites

/-! ## The coalescing walk -/

/-- The chain after the coalescing walk: a free block takes in the free blocks after it, and a
free run that reaches the terminator is cut off. -/
def combMerge : List CombBlock → List CombBlock
  | [] => []
  | b :: bs =>
    if b.free then
      match _h : bs.dropWhile (·.free) with
      | [] => []
      | c :: cs => ⟨true, b.body ++ combLayout (bs.takeWhile (·.free))⟩ :: c :: combMerge cs
    else b :: combMerge bs
termination_by bs => bs.length
decreasing_by
  · have := congrArg List.length _h
    have := List.length_dropWhile_le (·.free) bs
    simp only [List.length_cons] at *
    omega
  · simp only [List.length_cons]
    omega

theorem CombBlock.eq_of_free {b : CombBlock} (hf : b.free = true) : b = ⟨true, b.body⟩ := by
  cases b with
  | mk free body =>
    simp only at hf
    rw [hf]

section MergeEqs

variable {b : CombBlock} {bs : List CombBlock}

@[simp] theorem combMerge_nil : combMerge [] = [] := by
  rw [combMerge]

theorem combMerge_free_nil (hf : b.free = true) (h : bs.dropWhile (·.free) = []) :
    combMerge (b :: bs) = [] := by
  rw [combMerge, if_pos hf]
  split
  · rfl
  · simp_all

theorem combMerge_free_cons {c : CombBlock} {cs : List CombBlock} (hf : b.free = true)
    (h : bs.dropWhile (·.free) = c :: cs) :
    combMerge (b :: bs) =
      ⟨true, b.body ++ combLayout (bs.takeWhile (·.free))⟩ :: c :: combMerge cs := by
  rw [combMerge, if_pos hf]
  split
  · simp_all
  · rename_i c' cs' h'
    rw [h] at h'
    rw [List.cons.injEq] at h'
    rw [h'.1, h'.2]

theorem combMerge_used (hf : b.free = false) : combMerge (b :: bs) = b :: combMerge bs := by
  rw [combMerge, if_neg (by simp [hf])]

end MergeEqs

/-- `*ip & 0x10000` is set exactly on free headers. -/
theorem combHeader_flag_ne_zero (f : Bool) {s : Nat} (hs : s < 0x10000) :
    (combHeader f s &&& 0x10000 ≠ 0) ↔ f = true := by
  rw [combHeader_and_flag f hs]
  cases f <;> decide

section Coalesce

variable {cache : List UInt32}

/-- `*ip += ip[*ip & 0xFFFF] & 0xFFFF` on a free block followed by a free block: the two are one
free block. -/
theorem CombChain.absorb_next {pre cs : List CombBlock} {body : List UInt32} {c : CombBlock}
    (hc : CombChain cache (pre ++ ⟨true, body⟩ :: c :: cs)) :
    CombChain (cache.set (combLayout pre).length
        (cache.getD (combLayout pre).length 0 + (cache.getD (combNext cache (combLayout pre).length) 0 &&& 0xFFFF)))
      (pre ++ ⟨true, body ++ c.encode⟩ :: cs) := by
  obtain ⟨rest, hrest⟩ := hc.layout_eq
  have hsplit : pre ++ ⟨true, body⟩ :: c :: cs = (pre ++ [⟨true, body⟩]) ++ c :: cs := by simp
  have hsc := hc.size_lt hsplit
  have hnext : combNext cache (combLayout pre).length =
      (combLayout (pre ++ [⟨true, body⟩])).length := by
    rw [hc.combNext_offset rfl]
    simp
  -- the header grows by the next block's size, over the same entries
  have hhead : cache.getD (combLayout pre).length 0 +
      (cache.getD (combNext cache (combLayout pre).length) 0 &&& 0xFFFF) =
      combHeader true (⟨true, body ++ c.encode⟩ : CombBlock).size := by
    rw [hnext, hc.getD_offset hsplit, combHeader_and_mask c.free hsc, hc.getD_offset rfl,
      combHeader_add]
    congr 1
    simp only [CombBlock.size, CombBlock.encode, List.length_append, List.length_cons]
    omega
  refine ⟨⟨rest, ?_⟩, by rw [List.length_set, hc.length_eq]⟩
  rw [hhead, hrest, combLayout_append, combLayout_append, combLayout_cons, combLayout_cons,
    combLayout_cons, List.append_assoc, List.set_append_right _ _ (le_refl _), Nat.sub_self]
  simp [CombBlock.encode]

/-- The inner loop of the coalescing walk on a free block: it takes in the run of free blocks
after it, within a turn a block. -/
theorem CombChain.absorb : ∀ (bs pre : List CombBlock) (body : List UInt32) (cache : List UInt32)
    (fuel : Nat), CombChain cache (pre ++ ⟨true, body⟩ :: bs) →
      (bs.takeWhile (·.free)).length < fuel →
      ∃ cache', combAbsorb cache (combLayout pre).length fuel = some cache' ∧
        CombChain cache' (pre ++ ⟨true, body ++ combLayout (bs.takeWhile (·.free))⟩ ::
          bs.dropWhile (·.free))
  | [], pre, body, cache, fuel + 1, hc, _ => by
    -- the terminator stops it
    have hend : cache.getD (combNext cache (combLayout pre).length) 0 = 0 := by
      rw [hc.combNext_offset rfl]
      have h := hc.getD_end
      simpa using h
    rw [combAbsorb, hend]
    exact ⟨cache, rfl, by simpa using hc⟩
  | c :: cs, pre, body, cache, fuel + 1, hc, hfuel => by
    have hsplit : pre ++ ⟨true, body⟩ :: c :: cs = (pre ++ [⟨true, body⟩]) ++ c :: cs := by simp
    have hsc := hc.size_lt hsplit
    have hw : cache.getD (combNext cache (combLayout pre).length) 0 = combHeader c.free c.size := by
      rw [hc.combNext_offset rfl]
      have h := hc.getD_offset hsplit
      simpa using h
    rw [combAbsorb]
    cases hf : c.free with
    | true =>
      -- a free block after it: taken in, and the loop goes on
      rw [if_pos (by rw [hw]; exact (combHeader_flag_ne_zero c.free hsc).mpr hf)]
      obtain ⟨cache', habs, hc'⟩ := CombChain.absorb cs pre (body ++ c.encode) _ fuel
        hc.absorb_next (by simp only [List.takeWhile_cons, hf, if_true, List.length_cons] at hfuel; omega)
      refine ⟨cache', habs, ?_⟩
      simpa [List.takeWhile_cons, List.dropWhile_cons, hf] using hc'
    | false =>
      -- a used block after it stops it
      rw [if_neg (by rw [hw]; exact fun h => by simp [(combHeader_flag_ne_zero c.free hsc).mp h] at hf)]
      exact ⟨cache, rfl, by simpa [List.takeWhile_cons, List.dropWhile_cons, hf] using hc⟩

/-- `*ip = 0` on the last block: the chain ends before it. -/
theorem CombChain.truncate {pre : List CombBlock} {b : CombBlock} (hc : CombChain cache (pre ++ [b])) :
    CombChain (cache.set (combLayout pre).length 0) pre := by
  obtain ⟨rest, hrest⟩ := hc.layout_eq
  refine ⟨⟨b.body ++ 0 :: rest, ?_⟩, by rw [List.length_set, hc.length_eq]⟩
  rw [hrest, combLayout_append, List.append_assoc, List.set_append_right _ _ (le_refl _),
    Nat.sub_self]
  simp [CombBlock.encode]

end Coalesce

section Walk

variable {cache : List UInt32}

/-- A run of blocks after a block of the chain is shorter than the walk's fuel. -/
theorem CombChain.takeWhile_lt {pre bs : List CombBlock} {b : CombBlock}
    (hc : CombChain cache (pre ++ b :: bs)) (p : CombBlock → Bool) :
    (bs.takeWhile p).length < COMB_CACHE_SIZE + 1 := by
  have : (bs.takeWhile p).length ≤ bs.length := (List.takeWhile_sublist p).length_le
  have := length_le_combLayout (pre ++ b :: bs)
  have := hc.layout_lt
  simp only [List.length_append, List.length_cons] at *
  omega

/-- The coalescing walk from the offset of a block on: the blocks after it are merged, within
a turn a block. -/
theorem CombChain.coalesce (bs : List CombBlock) : ∀ (pre : List CombBlock) (cache : List UInt32)
    (fuel : Nat), CombChain cache (pre ++ bs) → bs.length < fuel →
      ∃ cache', combCoalesce cache fuel (combLayout pre).length = some cache' ∧
        CombChain cache' (pre ++ combMerge bs) := by
  induction bs using combMerge.induct with
  | case1 =>
    intro pre cache fuel hc hfuel
    obtain ⟨f, rfl⟩ : ∃ f, fuel = f + 1 := ⟨fuel - 1, by simp only [List.length_nil] at hfuel; omega⟩
    rw [List.append_nil] at hc
    rw [combCoalesce, if_pos hc.getD_end]
    exact ⟨cache, rfl, by rwa [combMerge, List.append_nil]⟩
  | case2 b bs hf hd =>
    -- a free run to the end of the chain: merged, then cut off
    intro pre cache fuel hc hfuel
    obtain ⟨f, rfl⟩ : ∃ f, fuel = f + 1 := ⟨fuel - 1, by simp only [List.length_cons] at hfuel; omega⟩
    have hb : b = ⟨true, b.body⟩ := CombBlock.eq_of_free hf
    have hs := hc.size_lt rfl
    rw [combCoalesce, hc.getD_offset rfl, if_neg (combHeader_ne_zero b.free hs b.size_pos),
      if_pos ((combHeader_flag_ne_zero b.free hs).mpr hf)]
    rw [hb] at hc
    obtain ⟨cache1, habs, hc1⟩ := CombChain.absorb bs pre b.body cache (COMB_CACHE_SIZE + 1) hc
      (hc.takeWhile_lt (·.free))
    rw [hd] at hc1
    rw [habs]
    simp only [Option.bind_eq_bind, Option.bind_some]
    rw [hc1.combNext_offset rfl]
    have hend := hc1.getD_end
    rw [combLayout_append, List.length_append, combLayout_cons, combLayout_nil, List.append_nil,
      CombBlock.length_encode] at hend
    rw [if_pos hend]
    refine ⟨_, rfl, ?_⟩
    rw [combMerge_free_nil hf hd, List.append_nil]
    exact hc1.truncate
  | case3 b bs hf c cs hd ih =>
    -- a free run before a used block: merged, then the walk goes on after the used block
    intro pre cache fuel hc hfuel
    obtain ⟨hsplit, hc'⟩ := Layout.dropWhile_eq_cons hd
    have hcs : cs.length + 1 ≤ bs.length := by
      have := congrArg List.length hsplit
      simp only [List.length_append, List.length_cons] at this
      omega
    simp only [List.length_cons] at hfuel
    obtain ⟨f, rfl⟩ : ∃ f, fuel = f + 2 := ⟨fuel - 2, by omega⟩
    have hb : b = ⟨true, b.body⟩ := CombBlock.eq_of_free hf
    have hs := hc.size_lt rfl
    rw [combCoalesce, hc.getD_offset rfl, if_neg (combHeader_ne_zero b.free hs b.size_pos),
      if_pos ((combHeader_flag_ne_zero b.free hs).mpr hf)]
    rw [hb] at hc
    obtain ⟨cache1, habs, hc1⟩ := CombChain.absorb bs pre b.body cache (COMB_CACHE_SIZE + 1) hc
      (hc.takeWhile_lt (·.free))
    rw [hd] at hc1
    rw [habs]
    simp only [Option.bind_eq_bind, Option.bind_some]
    let m : CombBlock := ⟨true, b.body ++ combLayout (bs.takeWhile (·.free))⟩
    have hc2 : CombChain cache1 ((pre ++ [m]) ++ c :: cs) := by simpa using hc1
    have hsc := hc2.size_lt rfl
    have hcf : c.free = false := by simpa using hc'
    rw [hc1.combNext_offset rfl]
    have hoff : (combLayout pre).length + m.size = (combLayout (pre ++ [m])).length := by simp
    rw [hoff, hc2.getD_offset rfl, if_neg (combHeader_ne_zero c.free hsc c.size_pos),
      combCoalesce, hc2.getD_offset rfl, if_neg (combHeader_ne_zero c.free hsc c.size_pos),
      if_neg (fun h => by simp [(combHeader_flag_ne_zero c.free hsc).mp h] at hcf),
      hc2.combNext_offset rfl]
    have hc3 : CombChain cache1 ((pre ++ [m, c]) ++ cs) := by simpa using hc2
    obtain ⟨cache', hco, hc'⟩ := ih (pre ++ [m, c]) cache1 f hc3 (by omega)
    have hoff' : (combLayout (pre ++ [m])).length + c.size = (combLayout (pre ++ [m, c])).length := by
      simp [Nat.add_assoc]
    rw [hoff', hco]
    refine ⟨cache', rfl, ?_⟩
    rw [combMerge_free_cons hf hd]
    simpa using hc'
  | case4 b bs hf ih =>
    -- a used block: the walk goes on after it
    intro pre cache fuel hc hfuel
    obtain ⟨f, rfl⟩ : ∃ f, fuel = f + 1 := ⟨fuel - 1, by simp only [List.length_cons] at hfuel; omega⟩
    have hs := hc.size_lt rfl
    have hf' : b.free = false := by simpa using hf
    rw [combCoalesce, hc.getD_offset rfl, if_neg (combHeader_ne_zero b.free hs b.size_pos),
      if_neg (fun h => hf ((combHeader_flag_ne_zero b.free hs).mp h)), hc.combNext_offset rfl]
    have hc' : CombChain cache ((pre ++ [b]) ++ bs) := by simpa using hc
    obtain ⟨cache', hco, hc''⟩ := ih (pre ++ [b]) cache f hc' (by simp only [List.length_cons] at hfuel; omega)
    have hoff : (combLayout pre).length + b.size = (combLayout (pre ++ [b])).length := by simp
    rw [hoff, hco]
    refine ⟨cache', rfl, ?_⟩
    rw [combMerge_used hf']
    simpa using hc''

end Walk

/-! ## The clean -/

/-- Some cell of the screen names entry `x` of the cache. -/
def combNamed (screen : List TTYChar) (x : Nat) : Bool := screen.any fun c => combRef c == some x

/-- What `comb_cache_clean` does to the chain: the blocks the screen names are used and the
others free, then the free runs are merged and a free run at the end is cut off. -/
def combClean (screen : List TTYChar) (blocks : List CombBlock) : List CombBlock :=
  combMerge (combMarked (combNamed screen) 0 blocks)

/-- Nothing named: every block free, as after `*ip |= 0x10000` on every header. -/
theorem combMarked_false (o : Nat) (bs : List CombBlock) :
    combMarked (fun _ => false) o bs = bs.map fun b => ⟨true, b.body⟩ := by
  induction bs generalizing o with
  | nil => rfl
  | cons b bs ih => simp [combMarked, ih]

/-- `comb_cache_clean(ts, screen, len)` refines the clean on every chain whose named entries are
block offsets: it returns, without running out of fuel, a cache holding the cleaned chain. -/
theorem combCacheClean_refines {cache : List UInt32} {blocks : List CombBlock}
    {screen : List TTYChar} {len : Nat} (hc : CombChain cache blocks)
    (hrefs : ∀ c ∈ screen.take len, ∀ k, combRef c = some k → (combBlockAt blocks k).isSome) :
    ∃ cache', combCacheClean cache screen len = some cache' ∧
      CombChain cache' (combClean (screen.take len) blocks) := by
  cases blocks with
  | nil =>
    -- the quick exit on an empty cache
    have h0 := hc.getD_end
    rw [combLayout_nil, List.length_nil] at h0
    rw [combCacheClean, if_pos h0]
    exact ⟨cache, rfl, by simpa [combClean, combMarked, combMerge_nil] using hc⟩
  | cons b bs =>
    have hs := hc.size_lt (show b :: bs = [] ++ b :: bs from rfl)
    have h0 := hc.getD_offset (show b :: bs = [] ++ b :: bs from rfl)
    rw [combLayout_nil, List.length_nil] at h0
    rw [combCacheClean, h0, if_neg (combHeader_ne_zero b.free hs b.size_pos)]
    -- every header gets its free bit
    obtain ⟨cache1, hfree, hc1⟩ := CombChain.markFree (b :: bs) [] cache (COMB_CACHE_SIZE + 1)
      (by simpa using hc) (by have := length_le_combLayout (b :: bs); have := hc.layout_lt; omega)
    rw [combLayout_nil, List.length_nil] at hfree
    rw [hfree]
    simp only [Option.bind_eq_bind, Option.bind_some]
    -- the named blocks lose it
    rw [List.nil_append, ← combMarked_false 0] at hc1
    have hc2 := CombChain.markUsed (b :: bs) (screen.take len) _ cache1 hc1 hrefs
    have hnamed : (fun x => false || (screen.take len).any fun c => combRef c == some x) =
        combNamed (screen.take len) := by
      funext x
      rw [Bool.false_or]
      rfl
    rw [hnamed] at hc2
    -- the free runs merged
    have hlen : (combMarked (combNamed (screen.take len)) 0 (b :: bs)).length < COMB_CACHE_SIZE + 1 := by
      have := length_le_combLayout (combMarked (combNamed (screen.take len)) 0 (b :: bs))
      have := hc2.layout_lt
      omega
    obtain ⟨cache', hco, hc'⟩ := CombChain.coalesce _ [] _ (COMB_CACHE_SIZE + 1)
      (by simpa using hc2) hlen
    rw [combLayout_nil, List.length_nil] at hco
    exact ⟨cache', hco, by simpa [combClean] using hc'⟩

/-! ## What the clean keeps -/

/-- The marks keep every block where it is, used exactly where `used` holds. -/
theorem combBlockAt_combMarked (used : Nat → Bool) :
    ∀ (bs : List CombBlock) (o x : Nat),
      combBlockAt (combMarked used o bs) x = (combBlockAt bs x).map fun b => ⟨!used (o + x), b.body⟩
  | [], _, _ => rfl
  | b :: bs, o, x => by
    have hsz : (⟨!used o, b.body⟩ : CombBlock).size = b.size := rfl
    simp only [combMarked, combBlockAt, hsz]
    by_cases h0 : x = 0
    · simp [h0]
    · rw [if_neg h0, if_neg h0]
      by_cases hlt : x < b.size
      · rw [if_pos hlt, if_pos hlt]
        rfl
      · rw [if_neg hlt, if_neg hlt, combBlockAt_combMarked used bs (o + b.size) (x - b.size),
          show o + b.size + (x - b.size) = o + x by omega]

/-- The merge keeps every combination where it is: it only rewrites free blocks and cuts off a
free run. -/
theorem combMerge_keeps (bs : List CombBlock) : ∀ (x : Nat) (seq : List UInt32),
    CombAt bs x seq → CombAt (combMerge bs) x seq := by
  induction bs using combMerge.induct with
  | case1 => exact fun _ _ h => by rwa [combMerge_nil]
  | case2 b bs hf hd =>
    -- every block of a free run is free
    intro x seq h
    obtain ⟨pre, post, hsplit, -⟩ := exists_of_combBlockAt h
    have hall : ∀ a ∈ b :: bs, a.free = true := by
      intro a ha
      rcases List.mem_cons.mp ha with rfl | ha
      · exact hf
      · exact List.dropWhile_eq_nil_iff.mp hd a ha
    have := hall ⟨false, seq⟩ (by rw [hsplit]; simp)
    cases this
  | case3 b bs hf c cs hd ih =>
    intro x seq h
    obtain ⟨hsplit, hc'⟩ := Layout.dropWhile_eq_cons hd
    let run := bs.takeWhile (·.free)
    let m : CombBlock := ⟨true, b.body ++ combLayout run⟩
    have hm : m.size = (combLayout (b :: run)).length := by
      simp [m, CombBlock.size, CombBlock.encode]
    have hrun : ∀ a ∈ b :: run, a.free = true := by
      intro a ha
      rcases List.mem_cons.mp ha with rfl | ha
      · exact hf
      · exact List.mem_takeWhile_imp ha
    rw [combMerge_free_cons hf hd]
    rw [CombAt, show b :: bs = (b :: run) ++ c :: cs by rw [List.cons_append, ← hsplit],
      combBlockAt_append] at h
    rw [CombAt, show m :: c :: combMerge cs = [m] ++ c :: combMerge cs from rfl, combBlockAt_append]
    simp only [combLayout_cons, combLayout_nil, List.append_nil, CombBlock.length_encode]
    by_cases hin : x < (combLayout (b :: run)).length
    · -- inside the run: only free blocks start there
      rw [if_pos hin] at h
      obtain ⟨pre, post, hsplit', -⟩ := exists_of_combBlockAt h
      have := hrun ⟨false, seq⟩ (by rw [hsplit']; simp)
      cases this
    · rw [if_neg hin] at h
      rw [if_neg (by omega), hm]
      rw [combBlockAt] at h ⊢
      by_cases h0 : x - (combLayout (b :: run)).length = 0
      · rw [if_pos h0] at h ⊢
        exact h
      · rw [if_neg h0] at h ⊢
        by_cases hlt : x - (combLayout (b :: run)).length < c.size
        · rw [if_pos hlt] at h
          cases h
        · rw [if_neg hlt] at h ⊢
          exact ih _ seq h
  | case4 b bs hf ih =>
    intro x seq h
    rw [combMerge_used (by simpa using hf)]
    rw [CombAt, combBlockAt] at h ⊢
    by_cases h0 : x = 0
    · rw [if_pos h0] at h ⊢
      exact h
    · rw [if_neg h0] at h ⊢
      by_cases hlt : x < b.size
      · rw [if_pos hlt] at h
        cases h
      · rw [if_neg hlt] at h ⊢
        exact ih _ seq h

/-- The clean keeps every block that a cell names, as a combination at the same offset with
the same code points, whether it was used or free. -/
theorem combClean_keeps {screen : List TTYChar} {blocks : List CombBlock} {k : Nat}
    {b : CombBlock} (hb : combBlockAt blocks k = some b) (hnamed : combNamed screen k = true) :
    CombAt (combClean screen blocks) k b.body := by
  apply combMerge_keeps
  rw [CombAt, combBlockAt_combMarked, hb, Nat.zero_add, hnamed]
  rfl

/-- No two free blocks in a row and no free block at the end: what the coalescing walk
leaves. -/
def CombCoalesced (blocks : List CombBlock) : Prop :=
  blocks.IsChain (fun a b => a.free = false ∨ b.free = false) ∧
    ∀ b ∈ blocks.getLast?, b.free = false

/-- A used block can go in front of any coalesced chain. -/
theorem CombCoalesced.cons_used {b : CombBlock} {bs : List CombBlock} (hb : b.free = false)
    (h : CombCoalesced bs) : CombCoalesced (b :: bs) := by
  refine ⟨h.1.cons fun y _ => .inl hb, fun a ha => ?_⟩
  rw [List.getLast?_cons, Option.mem_some_iff] at ha
  cases hl : bs.getLast? with
  | none =>
    rw [hl, Option.getD_none] at ha
    rw [← ha]
    exact hb
  | some l =>
    rw [hl, Option.getD_some] at ha
    rw [← ha]
    exact h.2 l hl

/-- The coalescing walk leaves no two free blocks in a row and no free block at the end. -/
theorem combMerge_coalesced (bs : List CombBlock) : CombCoalesced (combMerge bs) := by
  induction bs using combMerge.induct with
  | case1 =>
    rw [combMerge_nil]
    exact ⟨List.IsChain.nil, by simp⟩
  | case2 b bs hf hd =>
    rw [combMerge_free_nil hf hd]
    exact ⟨List.IsChain.nil, by simp⟩
  | case3 b bs hf c cs hd ih =>
    have hcf : c.free = false := by simpa using (Layout.dropWhile_eq_cons hd).2
    rw [combMerge_free_cons hf hd]
    have hc := CombCoalesced.cons_used hcf ih
    refine ⟨hc.1.cons fun y hy => ?_, fun a ha => hc.2 a (by simpa using ha)⟩
    simp only [List.head?_cons, Option.mem_some_iff] at hy
    exact .inr (hy ▸ hcf)
  | case4 b bs hf ih =>
    rw [combMerge_used (by simpa using hf)]
    exact CombCoalesced.cons_used (by simpa using hf) ih

/-- `comb_cache_clean` on a chain whose named entries are block offsets returns, without
running out of fuel, a chain with its free blocks coalesced that keeps every block a cell names
as a combination where it was; so the terminal shows for every such cell what it showed
before. -/
theorem combCacheClean_spec {cache : List UInt32} {blocks : List CombBlock}
    {screen : List TTYChar} {len : Nat} (hc : CombChain cache blocks)
    (hrefs : ∀ c ∈ screen.take len, ∀ k, combRef c = some k → (combBlockAt blocks k).isSome) :
    ∃ cache' blocks', combCacheClean cache screen len = some cache' ∧ CombChain cache' blocks' ∧
      CombCoalesced blocks' ∧
      ∀ c ∈ screen.take len, ∀ k seq, combRef c = some k → CombAt blocks k seq →
        CombAt blocks' k seq ∧ combSequence cache' k = combSequence cache k := by
  obtain ⟨cache', hclean, hc'⟩ := combCacheClean_refines hc hrefs
  refine ⟨cache', _, hclean, hc', combMerge_coalesced _, fun c hcell k seq hk hat => ?_⟩
  have hnamed : combNamed (screen.take len) k = true :=
    List.any_eq_true.mpr ⟨c, hcell, by simp [hk]⟩
  have hat' : CombAt (combClean (screen.take len) blocks) k seq := combClean_keeps hat hnamed
  rw [hc'.combSequence_of_combAt hat', hc.combSequence_of_combAt hat]
  exact ⟨hat', rfl⟩

/-- The cache after `U+0061 U+0301` is added to the zeroed cache. -/
theorem combCacheClean_spec_pair :
    ∃ cache' blocks', combCacheClean ([3, 0x61, 0x301] ++ List.replicate (COMB_CACHE_SIZE - 3) 0)
        [⟨TTY_CHAR_COMB, 7, 0⟩] 1 = some cache' ∧ CombChain cache' blocks' ∧
      CombCoalesced blocks' ∧
      ∀ c ∈ [(⟨TTY_CHAR_COMB, 7, 0⟩ : TTYChar)].take 1, ∀ k seq, combRef c = some k →
        CombAt [⟨false, [0x61, 0x301]⟩] k seq →
        CombAt blocks' k seq ∧ combSequence cache' k =
          combSequence ([3, 0x61, 0x301] ++ List.replicate (COMB_CACHE_SIZE - 3) 0) k := by
  -- the one cell names the block at offset 0
  have hrefs : ∀ c ∈ [(⟨TTY_CHAR_COMB, 7, 0⟩ : TTYChar)].take 1, ∀ k, combRef c = some k →
      (combBlockAt [⟨false, [0x61, 0x301]⟩] k).isSome := by
    intro c hc k hk
    simp only [List.take_succ_cons, List.take_zero, List.mem_singleton] at hc
    subst hc
    have h0 : combRef ⟨TTY_CHAR_COMB, 7, 0⟩ = some 0 := by decide
    rw [h0, Option.some.injEq] at hk
    subst hk
    rfl
  exact combCacheClean_spec combChain_pair hrefs

end Qemacs
