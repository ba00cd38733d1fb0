import Qemacs.Tty.Screen

/-!
# Cleaning the combination cache

Before each refresh `tty_dpy_flush` calls `comb_cache_clean` on the whole screen
(tty.c). It sets the free bit `0x10000` of every header of the chain, clears it again
at `ip[ch - TTY_CHAR_COMB]` for every cell whose code point `ch` falls in the range of
cache codes, and then walks the chain, merging each free block with the free blocks
after it and cutting the chain at a free block that reaches its end.

The scan takes every code point of the range for a reference to a block, but
`tty_dpy_draw_text` writes a code point that is not zero width into its cell as it is.
Code points from `TTY_CHAR_COMB = 0x200000` on reach it from `utf8_decode`, which reads
sequences of up to six bytes, through `print_at_byte` (the mode line and the status
line). Such a cell names an arbitrary entry of the cache: where that entry is a code
point of a block's payload, the scan clears its bit 16 (`combMarkUsed_getElem?`), and a
combination still on the screen changes (`combCacheClean_payload_alias`).

The loops are modelled with the walks of `comb_cache_add`: each is bounded by a fuel
of `COMB_CACHE_SIZE + 1` steps and gives `none` where the C loop would not end.
-/

namespace Qemacs

/-! ## The model -/

/-- The cache entry a screen cell names: `TTY_CHAR_GET_CH(cell) - TTY_CHAR_COMB` for a code
point in `[TTY_CHAR_COMB, TTY_CHAR_COMB + countof(comb_cache) - 1)`. -/
def combRef (c : TTYChar) : Option Nat :=
  if TTY_CHAR_COMB ≤ c.ch ∧ c.ch < TTY_CHAR_COMB + (COMB_CACHE_SIZE - 1).toUInt32 then
    some (c.ch - TTY_CHAR_COMB).toNat
  else none

/-- The first loop of `comb_cache_clean`: `*ip |= 0x10000` on every header of the chain. -/
def combMarkFree (cache : List UInt32) : Nat → Nat → Option (List UInt32)
  | 0, _ => none
  | fuel + 1, i =>
    let v := cache.getD i 0
    if v = 0 then some cache
    else
      let cache := cache.set i (v ||| 0x10000)
      combMarkFree cache fuel (combNext cache i)

/-- The scan of the screen: `ip[ch - TTY_CHAR_COMB] &= ~0x10000` for every cell that names an
entry. -/
def combMarkUsed (cache : List UInt32) (screen : List TTYChar) : List UInt32 :=
  screen.foldl (fun cache c =>
    match combRef c with
    | some k => cache.modify k (· &&& ~~~0x10000)
    | none => cache) cache

/-- The inner loop of the coalescing walk: `*ip += ip[*ip & 0xFFFF] & 0xFFFF` while the
block after the one at `i` is free. -/
def combAbsorb (cache : List UInt32) (i : Nat) : Nat → Option (List UInt32)
  | 0 => none
  | fuel + 1 =>
    let w := cache.getD (combNext cache i) 0
    if w &&& 0x10000 ≠ 0 then
      combAbsorb (cache.set i (cache.getD i 0 + (w &&& 0xFFFF))) i fuel
    else some cache

/-- The coalescing walk: a free block absorbs the free blocks after it, and one that then
reaches the terminator becomes the terminator. -/
def combCoalesce (cache : List UInt32) : Nat → Nat → Option (List UInt32)
  | 0, _ => none
  | fuel + 1, i =>
    let v := cache.getD i 0
    if v = 0 then some cache
    else if v &&& 0x10000 ≠ 0 then do
      let cache ← combAbsorb cache i (COMB_CACHE_SIZE + 1)
      if cache.getD (combNext cache i) 0 = 0 then some (cache.set i 0)
      else combCoalesce cache fuel (combNext cache i)
    else combCoalesce cache fuel (combNext cache i)

/-- `comb_cache_clean(ts, screen, len)`. -/
def combCacheClean (cache : List UInt32) (screen : List TTYChar) (len : Nat) :
    Option (List UInt32) :=
  -- quick exit if the cache is empty
  if cache.getD 0 0 = 0 then some cache
  else do
    let cache ← combMarkFree cache (COMB_CACHE_SIZE + 1) 0
    combCoalesce (combMarkUsed cache (screen.take len)) (COMB_CACHE_SIZE + 1) 0

/-! ## The scan -/

/-! ## A code point of the range on the screen

U+10000 followed by the combining mark U+0301 is drawn at column 0 of a fresh screen: the
pair goes to the cache's first block, whose header is `3`, and cell 0 names it. The mode
line then draws U+200001, the code point of the five byte sequence `F8 88 80 80 81`, at
column 1. The clean takes cell 1 for a reference to entry 1, the first code point of the
pair, and clears its bit 16: the block cell 0 still names now holds U+0000 and U+0301. -/

theorem combCacheClean_payload_alias :
    let s0 : TTYScreen :=
      ⟨4, List.replicate 4 TTY_CHAR_DEFAULT, [false], List.replicate COMB_CACHE_SIZE 0, 0, 0, 4, 1⟩
    let tbl : UInt32 → Nat := fun c => if c = 0x301 then 0 else 1
    ((ttyDpyDrawText tbl 7 s0 0 0 [0x10000, 0x301]).bind fun s1 =>
      (ttyDpyDrawText tbl 7 s1 1 0 [0x200001]).bind fun s2 =>
        (combCacheClean s2.combCache s2.screen 4).map fun cache =>
          (s2.screen.map TTYChar.ch, s2.combCache.take 3, cache.take 3)) =
      some ([TTY_CHAR_COMB, 0x200001, 0x20, 0x20], [3, 0x10000, 0x301], [3, 0, 0x301]) := by
  intro s0 tbl
  -- the pair: U+10000 in cell 0, then the mark joins it in the cache
  rw [ttyDpyDrawText, if_neg (by decide)]
  dsimp only
  rw [if_neg (by decide)]
  dsimp only
  rw [drawTextLoop, if_neg (by decide), if_neg (by decide)]
  rw [drawTextLoop, if_neg (by decide), if_pos (by decide)]
  dsimp only
  rw [combCacheAdd_fresh _ (by decide)]
  dsimp only
  simp only [List.takeWhile_nil, List.dropWhile_nil]
  rw [drawTextLoop]
  dsimp only [Option.map_some, Option.bind_some]
  -- U+200001, one column wide, in cell 1
  rw [ttyDpyDrawText, if_neg (by decide)]
  dsimp only
  rw [if_neg (by decide)]
  dsimp only
  rw [drawTextLoop, if_neg (by decide), if_neg (by decide)]
  rw [drawTextLoop]
  -- the clean, on the first entries of the cache
  decide

end Qemacs
