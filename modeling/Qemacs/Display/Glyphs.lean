import Mathlib.Data.List.Infix

/-!
# Characters to glyphs

`unicode_to_glyphs` (unicode_join.c) turns the characters of a display fragment into the
glyphs to draw and maps each character to the first of its glyphs (`char_to_glyph_pos`),
which `flush_fragment` uses to index `line_offsets`. The characters go through filters in
turn: `arabic_join` (arabic.c: contextual forms, in place), `devanagari_log2vis`
(indic.c), which may merge characters, and `unicode_ligature`, which removes the bidi
embedding controls `U+202A`–`U+202E` and merges pairs and longer runs of characters into
ligatures; the result is reversed for right-to-left text.

The ligature tables are loaded from the `ligatures` file and `get_mirror_char` searches a
long table of mirrored pairs: they are parameters (`JoinTables`). The Arabic tables are
small and written out. The array `buf` of `devanagari_log2vis` is not cleared before use:
its old contents are a parameter too (`stale`).

Each step of `unicode_ligature` consumes one or more characters and writes zero or more
glyphs (`ligatureStep`); the characters it consumes are all mapped to the number of
glyphs written before it. So the map is non-decreasing and bounded by the glyph count
(`ligatureLoop_sorted`, `ligatureLoop_mem_le`), but not below it: after the last glyph
that number is the count itself. `unicode_to_glyphs` on `a` followed by `U+202A` returns
one glyph and maps the control to 1, past it, and with `reverse` to `len - 1 - 1`, which
wraps to `0xFFFFFFFF` (`unicodeToGlyphs_trailing_control`).
-/

namespace Qemacs

/-- The tables the filters read, as loaded: `ligature2` (triples of two characters and
their ligature, sorted, 0 for a ligature in `ligature_long`), `ligature_long`, and
`get_mirror_char` over `mirror_pairs`. -/
structure JoinTables where
  ligature2 : List (UInt16 × UInt16 × UInt16)
  ligatureLong : List UInt16
  getMirrorChar : UInt32 → UInt32

variable (t : JoinTables)

/-! ## `unicode_ligature` -/

/-- The binary search of `find_ligature` in `ligature2[a..b)`; `none` for `-1`. -/
def findLigatureLoop (l1 l2 : UInt32) (a b : Nat) : Option UInt16 :=
  if a < b then
    let m := (a + b) / 2
    let e := t.ligature2.getD m (0, 0, 0)
    if e.1.toUInt32 = l1 ∧ e.2.1.toUInt32 = l2 then some e.2.2
    else if e.1.toUInt32 > l1 ∨ (e.1.toUInt32 = l1 ∧ e.2.1.toUInt32 > l2) then
      findLigatureLoop l1 l2 a m
    else findLigatureLoop l1 l2 (m + 1) b
  else none
termination_by b - a

/-- `find_ligature`. -/
def findLigature (l1 l2 : UInt32) : Option UInt16 :=
  findLigatureLoop t l1 l2 0 t.ligature2.length

/-- The search only returns what the table holds. -/
theorem findLigatureLoop_mem {l1 l2 : UInt32} {a b : Nat} {l : UInt16}
    (hb : b ≤ t.ligature2.length) (h : findLigatureLoop t l1 l2 a b = some l) :
    ∃ e ∈ t.ligature2, e.1.toUInt32 = l1 ∧ e.2.1.toUInt32 = l2 ∧ e.2.2 = l := by
  induction a, b using findLigatureLoop.induct t l1 l2 with
  | case1 a b hab m e hfound =>
    rw [findLigatureLoop, if_pos hab] at h
    dsimp only at h
    rw [if_pos hfound, Option.some.injEq] at h
    -- the middle index is in the table, so `getD` reads an entry of it
    have hm : (a + b) / 2 < t.ligature2.length := by omega
    have he : t.ligature2.getD ((a + b) / 2) (0, 0, 0) = t.ligature2[(a + b) / 2] := by
      rw [List.getD_eq_getElem?_getD, List.getElem?_eq_getElem hm, Option.getD_some]
    simp only [e, m, he] at hfound h
    exact ⟨_, List.getElem_mem hm, hfound.1, hfound.2, h⟩
  | case2 a b hab m e hfound hlt ih =>
    rw [findLigatureLoop, if_pos hab] at h
    dsimp only at h
    rw [if_neg hfound, if_pos hlt] at h
    exact ih (by omega) h
  | case3 a b hab m e hfound hlt ih =>
    rw [findLigatureLoop, if_pos hab] at h
    dsimp only at h
    rw [if_neg hfound, if_neg hlt] at h
    exact ih hb h
  | case4 a b hab =>
    rw [findLigatureLoop, if_neg hab] at h
    cases h

/-- `find_ligature` is `-1` for a pair the table does not hold. -/
theorem findLigature_eq_none {l1 l2 : UInt32}
    (h : ∀ e ∈ t.ligature2, ¬(e.1.toUInt32 = l1 ∧ e.2.1.toUInt32 = l2)) :
    findLigature t l1 l2 = none := by
  cases hf : findLigature t l1 l2 with
  | none => rfl
  | some l =>
    obtain ⟨e, he, h1, h2, -⟩ := findLigatureLoop_mem t le_rfl hf
    exact absurd ⟨h1, h2⟩ (h e he)

/-- The scan of `ligature_long` for an entry whose characters start `buf`: the entries are
`len1`, `len2`, `len1` characters and `len2` glyphs, up to a `len1` of 0. The result is
the number of characters matched and the glyphs. -/
def longLigature (buf : List UInt32) : List UInt16 → Option (Nat × List UInt32)
  | [] => none
  | [_] => none
  | len1 :: len2 :: lig =>
    if len1 = 0 then none
    else if len1.toNat ≤ buf.length ∧
        buf.take len1.toNat = (lig.take len1.toNat).map UInt16.toUInt32 then
      some (len1.toNat, ((lig.drop len1.toNat).take len2.toNat).map UInt16.toUInt32)
    else longLigature buf (lig.drop (len1.toNat + len2.toNat))
termination_by lig => lig.length
decreasing_by
  simp only [List.length_drop, List.length_cons]
  omega

/-- A long ligature matches at least one character, and no more than there are. -/
theorem longLigature_fst {buf : List UInt32} {lig : List UInt16} {n : Nat}
    {g : List UInt32} (h : longLigature buf lig = some (n, g)) : 0 < n ∧ n ≤ buf.length := by
  induction lig using longLigature.induct buf with
  | case1 => simp [longLigature] at h
  | case2 => simp [longLigature] at h
  | case3 => simp [longLigature] at h
  | case4 len1 len2 lig h0 hm =>
    rw [longLigature, if_neg h0, if_pos hm] at h
    obtain ⟨rfl, -⟩ := Prod.mk.inj (Option.some.inj h)
    have hpos : len1.toNat ≠ 0 := fun h' => h0 (UInt16.toNat_inj.mp (by simpa using h'))
    exact ⟨Nat.pos_of_ne_zero hpos, hm.1⟩
  | case5 len1 len2 lig h0 hm ih =>
    rw [longLigature, if_neg h0, if_neg hm] at h
    exact ih h

/-- One pass of the loop of `unicode_ligature` at `l1`, followed by `rest`: how many
characters it consumes and the glyphs it writes. A control is removed, a pair in
`ligature2` becomes its ligature, a placeholder 0 there sends to `ligature_long`, and
anything else (the label `nolig:`) is copied. -/
def ligatureStep (l1 : UInt32) (rest : List UInt32) : Nat × List UInt32 :=
  if 0x202a ≤ l1 ∧ l1 ≤ 0x202e then
    -- LRE, RLE, PDF, RLO, LRO
    (1, [])
  else
    match rest with
    | [] => (1, [l1])
    | l2 :: _ =>
      if l1 ≤ 0x7f ∧ l2 ≤ 0x7f then (1, [l1])
      else
        match findLigature t l1 l2 with
        | none => (1, [l1])
        | some l =>
          if l ≠ 0 then (2, [l.toUInt32])
          else (longLigature (l1 :: rest) t.ligatureLong).getD (1, [l1])

/-- The loop of `unicode_ligature` over the characters left, `q` glyphs written before
them: the glyphs written from here, and the glyph position of each character
(`pos_L_to_V`). -/
def ligatureLoop (q : Nat) : List UInt32 → List UInt32 × List Nat
  | [] => ([], [])
  | l1 :: rest =>
    let s := ligatureStep t l1 rest
    let r := ligatureLoop (q + s.2.length) (rest.drop (s.1 - 1))
    (s.2 ++ r.1, List.replicate s.1 q ++ r.2)
termination_by l => l.length
decreasing_by
  simp only [List.length_drop, List.length_cons]
  omega

/-- `unicode_ligature`: the glyphs, in place of the characters, and the glyph position of
each character. -/
def unicodeLigature (buf : List UInt32) : List UInt32 × List Nat := ligatureLoop t 0 buf

/-- A step consumes at least one character and no more than there are. -/
theorem ligatureStep_fst (l1 : UInt32) (rest : List UInt32) :
    1 ≤ (ligatureStep t l1 rest).1 ∧ (ligatureStep t l1 rest).1 ≤ rest.length + 1 := by
  unfold ligatureStep
  split_ifs with hc
  · simp
  split
  · simp
  · rename_i l2 rest'
    split_ifs with ha
    · simp
    split
    · simp
    · split_ifs with hl
      · simp
      cases hlong : longLigature (l1 :: l2 :: rest') t.ligatureLong with
      | none => simp
      | some r =>
        obtain ⟨hpos, hle⟩ := longLigature_fst (g := r.2) (hlong.trans rfl)
        simpa using ⟨hpos, hle⟩

theorem ligatureLoop_nil (q : Nat) : ligatureLoop t q [] = ([], []) := by
  rw [ligatureLoop]

theorem ligatureLoop_cons (q : Nat) (l1 : UInt32) (rest : List UInt32) :
    ligatureLoop t q (l1 :: rest) =
      ((ligatureStep t l1 rest).2 ++
          (ligatureLoop t (q + (ligatureStep t l1 rest).2.length)
            (rest.drop ((ligatureStep t l1 rest).1 - 1))).1,
        List.replicate (ligatureStep t l1 rest).1 q ++
          (ligatureLoop t (q + (ligatureStep t l1 rest).2.length)
            (rest.drop ((ligatureStep t l1 rest).1 - 1))).2) := by
  rw [ligatureLoop]

/-- Every character gets a glyph position. -/
theorem ligatureLoop_positions_length (q : Nat) (l : List UInt32) :
    (ligatureLoop t q l).2.length = l.length := by
  induction q, l using ligatureLoop.induct t with
  | case1 q => simp [ligatureLoop_nil]
  | case2 q l1 rest s ih =>
    simp only [s] at ih
    rw [ligatureLoop_cons, List.length_append, List.length_replicate, ih]
    have := ligatureStep_fst t l1 rest
    simp only [List.length_drop, List.length_cons]
    omega

/-- The positions run from `q` to the glyph count: every character is mapped to the
number of glyphs written before the step that consumes it. -/
theorem ligatureLoop_mem_le (q : Nat) (l : List UInt32) :
    ∀ p ∈ (ligatureLoop t q l).2, q ≤ p ∧ p ≤ q + (ligatureLoop t q l).1.length := by
  induction q, l using ligatureLoop.induct t with
  | case1 q => simp [ligatureLoop_nil]
  | case2 q l1 rest s ih =>
    simp only [s] at ih
    intro p hp
    rw [ligatureLoop_cons, List.mem_append] at hp
    rw [ligatureLoop_cons, List.length_append]
    rcases hp with hp | hp
    · rw [(List.mem_replicate.mp hp).2]
      omega
    · have := ih p hp
      omega

/-- The positions never go down. -/
theorem ligatureLoop_sorted (q : Nat) (l : List UInt32) :
    (ligatureLoop t q l).2.Pairwise (· ≤ ·) := by
  induction q, l using ligatureLoop.induct t with
  | case1 q => simp [ligatureLoop_nil]
  | case2 q l1 rest s ih =>
    simp only [s] at ih
    rw [ligatureLoop_cons, List.pairwise_append, List.pairwise_replicate]
    refine ⟨.inr le_rfl, ih, ?_⟩
    intro a ha b hb
    rw [(List.mem_replicate.mp ha).2]
    exact (ligatureLoop_mem_le t _ _ b hb).1.trans' (Nat.le_add_right q _)

/-! ## `arabic_join` -/

/-- `ArabicChar`: a character and its isolated, final, medial and initial forms, 0 for a
form it does not have. -/
structure ArabicChar where
  ch : UInt16
  isolated : UInt16
  final : UInt16
  medial : UInt16
  initial : UInt16

/-- `arabic_table`, without its terminating entry of zeros. -/
def arabicTable : List ArabicChar :=
  [⟨0x0621, 0xfe80, 0x0000, 0x0000, 0x0000⟩,
   ⟨0x0622, 0xfe81, 0xfe82, 0x0000, 0x0000⟩,
   ⟨0x0623, 0xfe83, 0xfe84, 0x0000, 0x0000⟩,
   ⟨0x0624, 0xfe85, 0xfe86, 0x0000, 0x0000⟩,
   ⟨0x0625, 0xfe87, 0xfe88, 0x0000, 0x0000⟩,
   ⟨0x0626, 0xfe89, 0xfe8a, 0xfe8c, 0xfe8b⟩,
   ⟨0x0627, 0xfe8d, 0xfe8e, 0x0000, 0x0000⟩,
   ⟨0x06d5, 0x06d5, 0x0000, 0x0000, 0x0000⟩,
   ⟨0x200d, 0x200d, 0x200d, 0x200d, 0x200d⟩]

/-- `arabic_transparent`. -/
def arabicTransparent : List UInt16 :=
  [0x064b, 0x064c, 0x064d, 0x064e, 0x064f, 0x0650,
   0x0670,
   0x06d7, 0x06d8, 0x06d9, 0x06da, 0x06db, 0x06dc, 0x06df,
   0x06e0, 0x06e1, 0x06e2, 0x06e3, 0x06e4, 0x06e7, 0x06e8, 0x06ea, 0x06eb, 0x06ec,
   0x06ed]

/-- `arabic_is_transparent`. -/
def arabicIsTransparent (ch : UInt32) : Bool := arabicTransparent.any (·.toUInt32 == ch)

/-- `arabic_find_char`: the entry of `ch`, or the terminating entry of zeros. -/
def arabicFindChar (ch : UInt32) : ArabicChar :=
  (arabicTable.find? (·.ch.toUInt32 == ch)).getD ⟨0, 0, 0, 0, 0⟩

/-- The loop of `arabic_join` from the character `b`, `a` the final form the previous
character asked for (0 for none). The next character `c` is the first one after `b` that is
not transparent, or the last one read, or 0 at the end of the line; the transparent
characters in between are left as they are. -/
def arabicJoinLoop (a : UInt32) : List UInt32 → List UInt32
  | [] => []
  | b :: rest =>
    let skipped := rest.takeWhile arabicIsTransparent
    let after := rest.dropWhile arabicIsTransparent
    let c := match after with
      | c :: _ => c
      | [] => rest.getLastD 0
    let bb := arabicFindChar b
    let cc := arabicFindChar c
    let res :=
      if a ≠ 0 ∧ cc.final ≠ 0 ∧ bb.medial ≠ 0 then bb.medial.toUInt32
      else if cc.final ≠ 0 ∧ bb.initial ≠ 0 then bb.initial.toUInt32
      else if a ≠ 0 ∧ bb.final ≠ 0 then bb.final.toUInt32
      else if bb.isolated ≠ 0 then bb.isolated.toUInt32
      else b
    let a' := if bb.initial ≠ 0 ∧ cc.final ≠ 0 then cc.final.toUInt32 else 0
    res :: skipped ++ arabicJoinLoop a' after
termination_by l => l.length
decreasing_by
  have := (List.dropWhile_suffix arabicIsTransparent (l := rest)).length_le
  simp only [List.length_cons]
  omega

/-- `arabic_join`: the line in place, its length unchanged (`ctog` is not filled). -/
def arabicJoin (line : List UInt32) : List UInt32 := arabicJoinLoop 0 line

/-- `arabic_join` replaces characters one for one. -/
theorem arabicJoinLoop_length : ∀ (a : UInt32) (l : List UInt32),
    (arabicJoinLoop a l).length = l.length
  | a, [] => by rw [arabicJoinLoop]
  | a, b :: rest => by
    -- the transparent characters are kept, and the loop goes on after them
    have hsplit := congrArg List.length
      (List.takeWhile_append_dropWhile (p := arabicIsTransparent) (l := rest))
    rw [List.length_append] at hsplit
    rw [arabicJoinLoop, List.length_cons, List.length_append, arabicJoinLoop_length, List.length_cons]
    omega
termination_by _ l => l.length
decreasing_by
  have := (List.dropWhile_suffix arabicIsTransparent (l := rest)).length_le
  simp only [List.length_cons]
  omega

/-! ## `devanagari_log2vis` -/

def VIRAMA : UInt32 := 0x94d
def RA : UInt32 := 0x930
def RRA : UInt32 := 0x931
def ZERO_WIDTH_JOINER : UInt32 := 0x200d
def DEAD_CONSONANT_OFFSET : UInt32 := 0x10000
def HALF_OFFSET : UInt32 := 0xe000
def RA_SUP : UInt32 := 0xe97e
def RA_SUB : UInt32 := 0xe97f
def RRA_HALF : UInt32 := 0xe97d
def RA_DEAD : UInt32 := RA + DEAD_CONSONANT_OFFSET

def devanagariIsConsonant (i : UInt32) : Bool :=
  (0x915 ≤ i && i ≤ 0x939) || (0x958 ≤ i && i ≤ 0x95f)

def devanagariIsVowel (i : UInt32) : Bool := 0x905 ≤ i && i ≤ 0x914

def devanagariIsDeadConsonant (i : UInt32) : Bool :=
  DEAD_CONSONANT_OFFSET ≤ i && i ≤ DEAD_CONSONANT_OFFSET + 0x7f

/-- Rule 1 of `devanagari_log2vis`: a consonant followed by a virama becomes one dead
consonant. -/
def deadConsonantRule : List UInt32 → List UInt32
  | [] => []
  | [cc] => [cc]
  | cc :: c2 :: rest =>
    if devanagariIsConsonant cc ∧ c2 = VIRAMA then
      (cc + DEAD_CONSONANT_OFFSET) :: deadConsonantRule rest
    else cc :: deadConsonantRule (c2 :: rest)

/-- The RA rules (2, 5, 5a, 6 and 8) at index `i` of `buf`. Rule 8 writes `buf[i+2]`,
which at the last index is past the end of the array: the model drops that write. -/
def raRules (buf : List UInt32) (i : Nat) : List UInt32 :=
  let b0 := buf.getD i 0
  let b1 := buf.getD (i + 1) 0
  if b0 = RA_DEAD ∧ (devanagariIsVowel b1 || devanagariIsConsonant b1) then
    (buf.set i b1).set (i + 1) RA_SUP
  else if b0 = RRA ∧ b1 = VIRAMA then (buf.set i RRA_HALF).set (i + 1) 0
  else if b0 = RA_DEAD ∧ b1 = ZERO_WIDTH_JOINER then (buf.set i RRA_HALF).set (i + 1) 0
  else if devanagariIsDeadConsonant b0 ∧ b1 = RA then
    (buf.set i (b0 - DEAD_CONSONANT_OFFSET)).set (i + 1) RA_SUB
  else if devanagariIsDeadConsonant b0 ∧ b1 = RA_DEAD then
    ((buf.set i (b0 - DEAD_CONSONANT_OFFSET)).set (i + 1) RA_SUB).set (i + 2) VIRAMA
  else buf

/-- The conversion of a dead consonant to a half consonant at index `i`, `len1` being
`len - 1`. -/
def halfFormRule (len1 : Nat) (buf : List UInt32) (i : Nat) : List UInt32 :=
  let b0 := buf.getD i 0
  let b1 := buf.getD (i + 1) 0
  if devanagariIsDeadConsonant b0 ∧
      (i = len1 - 1 ∨ b1 = ZERO_WIDTH_JOINER ∨ devanagariIsConsonant b1 ∨
        devanagariIsDeadConsonant b1) then
    buf.set i (b0 - (DEAD_CONSONANT_OFFSET + HALF_OFFSET))
  else buf

/-- The output loop of `devanagari_log2vis`, `j` characters written: the nonzero
characters, and for each index the position of its character, or of the one before for a
zero. -/
def devanagariOutput : List UInt32 → Nat → List UInt32 × List Nat
  | [], _ => ([], [])
  | c :: rest, j =>
    if c ≠ 0 then
      (c :: (devanagariOutput rest (j + 1)).1, j :: (devanagariOutput rest (j + 1)).2)
    else ((devanagariOutput rest j).1, (j - 1) :: (devanagariOutput rest j).2)

/-- `devanagari_log2vis` on `str`: the characters written back to `str` and `ctog`. The
rules after Rule 1 run over the original length on an array that holds only the
characters Rule 1 wrote; the rest of it is what `stale` says it held. -/
def devanagariLog2vis (stale : Nat → UInt32) (str : List UInt32) : List UInt32 × List Nat :=
  let len := str.length
  let len1 := len - 1
  let q := deadConsonantRule str
  let buf := q ++ (List.range (len - q.length)).map (fun k => stale (q.length + k))
  let buf := (List.range len1).foldl raRules buf
  let buf := (List.range len1).foldl (halfFormRule len1) buf
  devanagariOutput buf 0

/-! ### What `devanagari_log2vis` reads and writes

Rule 1 writes one cell of `buf` for each character it keeps and one for each pair it merges,
so fewer than `len` cells when a consonant is followed by a virama. The later passes still
run over `len` cells, and read what `buf` held before past the cells Rule 1 wrote. -/

/-- The RA rules act only at a cell holding `RA_DEAD`, `RRA` or a code point of the dead
consonant range. -/
theorem raRules_of_plain (buf : List UInt32) (i : Nat) (h0 : buf.getD i 0 ≠ RA_DEAD)
    (h1 : buf.getD i 0 ≠ RRA) (h2 : devanagariIsDeadConsonant (buf.getD i 0) = false) :
    raRules buf i = buf := by
  simp only [raRules, h0, h1, h2, false_and, Bool.false_eq_true, if_false]

theorem halfFormRule_of_not_dead (len1 : Nat) (buf : List UInt32) (i : Nat)
    (h : devanagariIsDeadConsonant (buf.getD i 0) = false) : halfFormRule len1 buf i = buf := by
  simp only [halfFormRule, h, Bool.false_eq_true, false_and, if_false]

/-- `devanagari_log2vis` leaves its bounds and its input: Rule 8 at `i = len - 2` writes
`buf[len]`, the cell after the array (here `m`), on U+0915, U+10000 and U+10930; after
the merge of U+0915 U+094D the output loop emits the cell Rule 1 did not write; and `ctog`
is indexed by the cells of `buf`, so for U+0915 U+094D U+0915 the virama is mapped to
glyph 1, the second U+0915, and not to glyph 0, the dead consonant it is part of. -/
theorem devanagariLog2vis_out_of_bounds (stale : Nat → UInt32) (m : UInt32) :
    ((List.range 2).foldl raRules (deadConsonantRule [0x915, 0x10000, 0x10930] ++ [m]))[3]? =
      some VIRAMA ∧
    devanagariLog2vis stale [0x915, VIRAMA] =
      (if stale 1 = 0 then ([0x10915], [0, 0]) else ([0x10915, stale 1], [0, 1])) ∧
    ((devanagariLog2vis stale [0x915, VIRAMA, 0x915]).1.take 2 = [0x10915, 0x915] ∧
      (devanagariLog2vis stale [0x915, VIRAMA, 0x915]).2.take 2 = [0, 1]) := by
  have hra : ∀ (buf : List UInt32) (i : Nat), buf.getD i 0 = 0x10915 ∨ buf.getD i 0 = 0x915 →
      raRules buf i = buf ∧ ∀ len1, halfFormRule len1 buf i = buf := by
    intro buf i hi
    have hd : devanagariIsDeadConsonant (buf.getD i 0) = false := by
      rcases hi with hi | hi <;> rw [hi] <;> decide
    refine ⟨raRules_of_plain buf i ?_ ?_ hd, fun len1 => halfFormRule_of_not_dead len1 buf i hd⟩
      <;> rcases hi with hi | hi <;> rw [hi] <;> decide
  refine ⟨?_, ?_, ?_⟩
  · -- Rule 8 at i = 1: U+10000 is in the dead range and U+10930 is `RA_DEAD`
    simp [deadConsonantRule, raRules, List.range_succ, devanagariIsConsonant, RA_DEAD, RA, RRA,
      DEAD_CONSONANT_OFFSET, VIRAMA, devanagariIsDeadConsonant, ZERO_WIDTH_JOINER,
      devanagariIsVowel]
  · have hbuf : deadConsonantRule [0x915, VIRAMA] = [0x10915] := by
      simp [deadConsonantRule, devanagariIsConsonant, DEAD_CONSONANT_OFFSET]
    have h0 := hra [0x10915, stale 1] 0 (Or.inl rfl)
    -- the RA and half-form passes leave the array as Rule 1 and the old contents made it
    have hpass : devanagariLog2vis stale [0x915, VIRAMA] = devanagariOutput [0x10915, stale 1] 0 := by
      simp [devanagariLog2vis, hbuf, h0.1, h0.2]
    rw [hpass]
    by_cases hs : stale 1 = 0 <;> simp [devanagariOutput, hs]
  · have hbuf : deadConsonantRule [0x915, VIRAMA, 0x915] = [0x10915, 0x915] := by
      simp [deadConsonantRule, devanagariIsConsonant, DEAD_CONSONANT_OFFSET]
    have h0 := hra [0x10915, 0x915, stale 2] 0 (Or.inl rfl)
    have h1 := hra [0x10915, 0x915, stale 2] 1 (Or.inr rfl)
    have hpass : devanagariLog2vis stale [0x915, VIRAMA, 0x915] =
        devanagariOutput [0x10915, 0x915, stale 2] 0 := by
      simp [devanagariLog2vis, hbuf, List.range_succ, h0.1, h0.2, h1.1, h1.2]
    rw [hpass]
    by_cases hs : stale 2 = 0 <;> simp [devanagariOutput, hs]

/-! ## `unicode_to_glyphs` -/

def UNICODE_ARABIC : Nat := 0x00000001
def UNICODE_INDIC : Nat := 0x00000002
def UNICODE_NONASCII : Nat := 0x00000004

/-- `unicode_classify`. -/
def unicodeClassify (buf : List UInt32) : Nat :=
  buf.foldl (fun mask c =>
    if c ≤ 0x7f then mask
    else
      let mask := mask ||| UNICODE_NONASCII
      if c < 0xA00 then
        if c &&& ~~~0xff = 0x600 then mask ||| UNICODE_ARABIC
        else if c &&& ~~~0x7f = 0x900 then mask ||| UNICODE_INDIC
        else mask
      else mask) 0

/-- `compose_char_to_glyph`. -/
def composeCharToGlyph (ctog ctog1 : List Nat) : List Nat := ctog.map (ctog1.getD · 0)

/-- `bidi_reverse_buf`: the swaps of the loop and the central character mirror every
character and reverse their order. -/
def bidiReverseBuf (str : List UInt32) : List UInt32 := (str.map t.getMirrorChar).reverse

/-- `unicode_to_glyphs` on `src`: the glyphs copied to `dst` (their count is the value
returned) and `char_to_glyph_pos`, of which the fast case writes only the first `len`. -/
def unicodeToGlyphs (stale : Nat → UInt32) (dstSize : Nat) (src : List UInt32)
    (reverse : Bool) : List UInt32 × List UInt32 :=
  let unicodeClass := unicodeClassify src
  if unicodeClass = 0 ∧ !reverse then
    -- fast case: no special treatment
    let len := min src.length dstSize
    (src.take len, (List.range len).map Nat.toUInt32)
  else
    let ctog := List.range src.length
    let buf := if unicodeClass &&& UNICODE_ARABIC ≠ 0 then arabicJoin src else src
    -- `ctog1` after `devanagari_log2vis`; without it, `unicode_ligature` writes all of it
    let (buf, ctog1, ctog) :=
      if unicodeClass &&& UNICODE_INDIC ≠ 0 then
        let r := devanagariLog2vis stale buf
        (r.1, r.2, composeCharToGlyph ctog r.2)
      else (buf, [], ctog)
    let (buf, pos) := unicodeLigature t buf
    let ctog := composeCharToGlyph ctog (pos ++ ctog1.drop pos.length)
    let len := buf.length
    let (buf, ctog) :=
      if reverse then
        (bidiReverseBuf t buf, ctog.map (fun c => len.toUInt32 - 1 - c.toUInt32))
      else (buf, ctog.map Nat.toUInt32)
    (buf.take (min len dstSize), ctog)

/-- `compose_char_to_glyph` on the identity map. -/
theorem composeCharToGlyph_range (pos : List Nat) :
    composeCharToGlyph (List.range pos.length) pos = pos := by
  apply List.ext_getElem
  · simp [composeCharToGlyph]
  · intro i h1 h2
    simp [composeCharToGlyph, List.getD_eq_getElem?_getD, List.getElem?_eq_getElem h2]

/-- Without Indic characters and without `reverse`, the glyph map never goes down: it is
the identity in the fast case and the map of `unicode_ligature` otherwise. -/
theorem unicodeToGlyphs_ctog_sorted (stale : Nat → UInt32) (dstSize : Nat) (src : List UInt32)
    (hi : unicodeClassify src &&& UNICODE_INDIC = 0) :
    ∃ pos : List Nat, pos.Pairwise (· ≤ ·) ∧
      (unicodeToGlyphs t stale dstSize src false).2 = pos.map Nat.toUInt32 := by
  unfold unicodeToGlyphs
  dsimp only
  by_cases h0 : unicodeClassify src = 0
  · rw [if_pos ⟨h0, rfl⟩]
    exact ⟨_, List.pairwise_lt_range.imp Nat.le_of_lt, rfl⟩
  · rw [if_neg (fun h => h0 h.1), if_neg (by simpa using hi)]
    -- `arabic_join` keeps the length, so the map of `unicode_ligature` covers the line
    generalize hbuf : (if unicodeClassify src &&& UNICODE_ARABIC ≠ 0 then arabicJoin src
      else src) = buf
    have hlen : buf.length = src.length := by
      rw [← hbuf]
      split_ifs <;> simp [arabicJoin, arabicJoinLoop_length]
    have hpos : (unicodeLigature t buf).2.length = src.length :=
      (ligatureLoop_positions_length t 0 buf).trans hlen
    refine ⟨(unicodeLigature t buf).2, ligatureLoop_sorted t 0 buf, ?_⟩
    simp [← hpos, composeCharToGlyph_range]

/-- `a` then `U+0301`, with the tables unloaded: a line off the fast path. -/
theorem unicodeToGlyphs_ctog_sorted_accent :
    ∃ pos : List Nat, pos.Pairwise (· ≤ ·) ∧
      (unicodeToGlyphs ⟨[], [], id⟩ (fun _ => 0) 2 [0x61, 0x301] false).2 = pos.map Nat.toUInt32 :=
  unicodeToGlyphs_ctog_sorted ⟨[], [], id⟩ (fun _ => 0) 2 [0x61, 0x301] (by decide)

/-- `a` then `U+202A`, without a ligature of the two in `ligature2`: one glyph, and the
control is mapped to position 1, past it, or with `reverse` to `0xFFFFFFFF`. -/
theorem unicodeToGlyphs_trailing_control (stale : Nat → UInt32)
    (hlig : ∀ e ∈ t.ligature2, ¬(e.1.toUInt32 = 0x61 ∧ e.2.1.toUInt32 = 0x202a)) :
    unicodeToGlyphs t stale 2 [0x61, 0x202a] false = ([0x61], [0, 1]) ∧
      (unicodeToGlyphs t stale 2 [0x61, 0x202a] true).2 = [0, 0xFFFFFFFF] := by
  have hnone := findLigature_eq_none t hlig
  have hclass : unicodeClassify [0x61, 0x202a] = UNICODE_NONASCII := by decide
  have hlig : unicodeLigature t [0x61, 0x202a] = ([0x61], [0, 1]) := by
    have hs1 : ligatureStep t 0x61 [0x202a] = (1, [0x61]) := by
      simp [ligatureStep, hnone]
    have hs2 : ligatureStep t 0x202a [] = (1, []) := by
      simp [ligatureStep]
    simp [unicodeLigature, ligatureLoop_cons, hs1, hs2, ligatureLoop_nil]
  simp [unicodeToGlyphs, hclass, hlig, UNICODE_NONASCII, UNICODE_ARABIC, UNICODE_INDIC,
    composeCharToGlyph]
  decide

theorem unicodeToGlyphs_trailing_control_unloaded :
    unicodeToGlyphs ⟨[], [], id⟩ (fun _ => 0) 2 [0x61, 0x202a] false = ([0x61], [0, 1]) ∧
      (unicodeToGlyphs ⟨[], [], id⟩ (fun _ => 0) 2 [0x61, 0x202a] true).2 = [0, 0xFFFFFFFF] :=
  unicodeToGlyphs_trailing_control ⟨[], [], id⟩ (fun _ => 0) (by simp)

end Qemacs
