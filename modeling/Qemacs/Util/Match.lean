import Qemacs.Lib.Glob

/-!
# Shell patterns and `*` patterns

`qe_shell_match` (util.c), with which `find_file_next` filters the names of a directory,
and `strmatch_pat`, with which completion filters its candidates. Strings are C strings:
the bytes before the terminating NUL, none of them a NUL, so that reading at the end of
one reads the NUL.

Both are read against the language of a glob pattern (`Glob.Matches`).

* `qe_shell_match` matches that language, with `?` for any byte and `*` for any word, for
  every pattern that does not end in two `*` (`qeShellMatch_iff`). After a `*` that does
  not end the pattern it tries the rest of the pattern at every suffix of the string but
  the empty one, and the empty suffix is the only one a rest made of `*` alone needs: `"a**"`
  does not match `"a"` (`qeShellMatch_star_star_end`).
* `strmatch_pat` matches the language of its pattern, with `*` for any word, against the
  string or, with `start`, against a prefix of it, for every pattern without two `*` in a
  row (`strmatchPat_iff`). It takes the byte after a `*` as a literal that must follow the
  word the `*` stands for, a second `*` included, so that `"**"` matches no string without a
  `*` in it (`strmatchPat_star_star`).
-/

namespace Qemacs

/-! ## `qe_shell_match` -/

/-- The token a byte of a `qe_shell_match` pattern stands for. -/
def shellTok (c : UInt8) : Glob.Tok UInt8 :=
  if c = 0x2a then .star else if c = 0x3f then .any else .lit c

/-- The `while (*str)` loop after a `*`: `m` is tried at `str` and at each of its suffixes
as long as the suffix is not empty. -/
def shellStarLoop (m : List UInt8 → Bool) : List UInt8 → Bool
  | [] => false
  | c :: str => m (c :: str) || shellStarLoop m str

/-- `qe_shell_match`. -/
def qeShellMatch : List UInt8 → List UInt8 → Bool
  | str, [] => str.isEmpty
  | str, c :: pattern =>
    if c = 0x2a then
      -- a `*` that ends the pattern matches whatever is left of `str`
      pattern.isEmpty || shellStarLoop (fun s => qeShellMatch s pattern) str
    else if c = 0x3f then
      match str with
      | [] => false
      | _ :: str => qeShellMatch str pattern
    else
      match str with
      | [] => false
      | c2 :: str => c == c2 && qeShellMatch str pattern

theorem shellStarLoop_iff (m : List UInt8 → Bool) (str : List UInt8) :
    shellStarLoop m str = true ↔ ∃ v, v <:+ str ∧ v ≠ [] ∧ m v = true := by
  induction str with
  | nil => simp [shellStarLoop]
  | cons c str ih =>
    rw [shellStarLoop, Bool.or_eq_true, ih]
    constructor
    · rintro (h | ⟨v, hv, hne, h⟩)
      · exact ⟨c :: str, List.suffix_refl _, List.cons_ne_nil _ _, h⟩
      · exact ⟨v, hv.trans (List.suffix_cons c str), hne, h⟩
    · rintro ⟨v, hv, hne, h⟩
      rcases List.suffix_cons_iff.mp hv with rfl | hv
      · exact .inl h
      · exact .inr ⟨v, hv, hne, h⟩

@[simp] theorem shellTok_eq_star (c : UInt8) : shellTok c = .star ↔ c = 0x2a := by
  unfold shellTok
  split_ifs <;> simp_all

/-- A pattern of two `*` or more, and nothing else, ends in two `*`. -/
theorem star_star_suffix {l : List UInt8} (hl : 2 ≤ l.length) (h : ∀ c ∈ l, c = 0x2a) :
    [0x2a, 0x2a] <:+ l := by
  have hl' : l = List.replicate (l.length - 2 + 2) 0x2a := by
    rw [Nat.sub_add_cancel hl]
    exact List.eq_replicate_iff.mpr ⟨rfl, h⟩
  rw [hl', List.replicate_add]
  exact List.suffix_append _ _

/-- The rest of a pattern after a `*` that does not end it: unless the pattern ends in two
`*`, the empty word is not in its language. -/
theorem not_matches_nil_of_star {pattern : List UInt8} (hne : pattern ≠ [])
    (hend : ¬ [0x2a, 0x2a] <:+ 0x2a :: pattern) : ¬ Glob.Matches (pattern.map shellTok) [] := by
  intro h
  have hstars : ∀ c ∈ pattern, c = 0x2a := by
    have := (Glob.accepts_nil_word.mp h).1
    simpa using this
  apply hend
  apply star_star_suffix
  · have : pattern.length ≠ 0 := by simpa using hne
    simp only [List.length_cons]
    omega
  · intro c hc
    rcases List.mem_cons.mp hc with rfl | hc
    · rfl
    · exact hstars c hc

/-- `qe_shell_match` matches the language of its pattern, read with `?` for any byte and
`*` for any word, whenever the pattern does not end in two `*`. -/
theorem qeShellMatch_iff (str pattern : List UInt8) (hend : ¬ [0x2a, 0x2a] <:+ pattern) :
    qeShellMatch str pattern = true ↔ Glob.Matches (pattern.map shellTok) str := by
  induction pattern generalizing str with
  | nil => simp [qeShellMatch, Glob.Matches]
  | cons c pattern ih =>
    have hend' : ¬ [0x2a, 0x2a] <:+ pattern := fun h => hend (h.trans (List.suffix_cons c _))
    unfold Glob.Matches at ih ⊢
    rw [List.map_cons]
    unfold qeShellMatch
    split_ifs with hstar hany
    · -- `*`: the rest of the pattern, at a suffix of `str`
      subst hstar
      rw [show shellTok 0x2a = .star by decide, Glob.accepts_star_iff]
      cases pattern with
      | nil => exact ⟨fun _ => ⟨[], List.nil_suffix, .nil rfl⟩, fun _ => rfl⟩
      | cons c' pattern' =>
        have hnil := not_matches_nil_of_star (List.cons_ne_nil c' pattern') hend
        simp only [List.isEmpty_cons, Bool.false_or, shellStarLoop_iff, ih _ hend']
        constructor
        · rintro ⟨v, hv, -, h⟩
          exact ⟨v, hv, h⟩
        · rintro ⟨v, hv, h⟩
          refine ⟨v, hv, ?_, h⟩
          rintro rfl
          exact hnil h
    · -- `?`: any one byte
      subst hany
      rw [show shellTok 0x3f = .any by decide]
      cases str with
      | nil => simp
      | cons d str => rw [Glob.accepts_any_cons, ih str hend']
    · -- a literal byte
      have htok : shellTok c = .lit c := by simp [shellTok, hstar, hany]
      rw [htok]
      cases str with
      | nil => simp
      | cons d str => rw [Bool.and_eq_true, beq_iff_eq, Glob.accepts_lit_cons, ih str hend']

/-- `"a*"` against `"ab"`: the star takes the `b`. -/
theorem qeShellMatch_iff_star :
    qeShellMatch [0x61, 0x62] [0x61, 0x2a] = true ↔ Glob.Matches ([0x61, 0x2a].map shellTok) [0x61, 0x62] :=
  qeShellMatch_iff _ _ (by decide)

/-- After a `*` that does not end the pattern, the empty rest of the string is never tried:
`"a**"` does not match `"a"`, which is in its language. -/
theorem qeShellMatch_star_star_end :
    qeShellMatch [0x61] [0x61, 0x2a, 0x2a] = false ∧
      Glob.Matches ([0x61, 0x2a, 0x2a].map shellTok) [0x61] := by
  refine ⟨by decide, ?_⟩
  show Glob.Accepts _ [.lit 0x61, .star, .star] [0x61]
  exact .lit (.star_nil (.star_nil (.nil rfl)))

/-! ## `strmatch_pat` -/

/-- The token a byte of a `strmatch_pat` pattern stands for. -/
def patTok (c : UInt8) : Glob.Tok UInt8 :=
  if c = 0x2a then .star else .lit c

@[simp] theorem patTok_star : patTok 0x2a = .star := rfl

@[simp] theorem patTok_of_ne {c : UInt8} (hc : c ≠ 0x2a) : patTok c = .lit c := if_neg hc

/-- The loop after a `*` and the byte after it, the anchor: `m` is tried after each byte of
`str` that equals the anchor. -/
def anchorLoop (c1 : UInt8) (m : List UInt8 → Bool) : List UInt8 → Bool
  | [] => false
  | c2 :: str => (c1 == c2 && m str) || anchorLoop c1 m str

/-- `strmatch_pat`. -/
def strmatchPat : List UInt8 → List UInt8 → Bool → Bool
  | str, [], start => start || str.isEmpty
  | str, c1 :: pat, start =>
    if c1 = 0x2a then
      match pat with
      | [] => true
      | c1 :: pat => anchorLoop c1 (fun str => strmatchPat str pat start) str
    else
      match str with
      | [] => false
      | c2 :: str => c1 == c2 && strmatchPat str pat start

theorem anchorLoop_iff (c1 : UInt8) (m : List UInt8 → Bool) (str : List UInt8) :
    anchorLoop c1 m str = true ↔ ∃ u v, str = u ++ c1 :: v ∧ m v = true := by
  induction str with
  | nil => simp [anchorLoop]
  | cons c2 str ih =>
    rw [anchorLoop, Bool.or_eq_true, Bool.and_eq_true, beq_iff_eq, ih]
    constructor
    · rintro (⟨rfl, h⟩ | ⟨u, v, rfl, h⟩)
      · exact ⟨[], str, rfl, h⟩
      · exact ⟨c2 :: u, v, rfl, h⟩
    · rintro ⟨u, v, h, hm⟩
      cases u with
      | nil =>
        obtain ⟨rfl, rfl⟩ := List.cons_eq_cons.mp h
        exact .inl ⟨rfl, hm⟩
      | cons d u =>
        obtain ⟨rfl, rfl⟩ := List.cons_eq_cons.mp h
        exact .inr ⟨u, v, rfl, hm⟩

/-- `strmatch_pat` reads its pattern as a glob pattern of literals and `*`, and at its end
accepts what is left of the string when `start` is set or nothing is left. -/
theorem strmatchPat_accepts (str pat : List UInt8) (start : Bool)
    (hstars : ¬ [0x2a, 0x2a] <:+: pat) :
    strmatchPat str pat start = true ↔
      Glob.Accepts (fun w => start = true ∨ w = []) (pat.map patTok) str := by
  fun_induction strmatchPat str pat start with
  | case1 str start => simp
  | case2 str start => exact ⟨fun _ => Glob.accepts_star_iff.mpr ⟨[], List.nil_suffix, .nil (.inr rfl)⟩, fun _ => rfl⟩
  | case3 str start c1 pat ih =>
    -- a `*` and its anchor, which is not a second `*`
    have hc1 : c1 ≠ 0x2a := by
      rintro rfl
      exact hstars (List.IsPrefix.isInfix ⟨pat, rfl⟩)
    have hpat : ¬ [0x2a, 0x2a] <:+: pat := fun h => hstars (List.infix_cons (List.infix_cons h))
    have ih' := fun s => ih s hpat
    rw [List.map_cons, List.map_cons, patTok_star, patTok_of_ne hc1, Glob.accepts_star_lit_iff,
      anchorLoop_iff]
    simp only [ih']
  | case4 c1 pat start hc1 => simp [patTok_of_ne hc1]
  | case5 c1 pat start hc1 c2 str ih =>
    have hpat : ¬ [0x2a, 0x2a] <:+: pat := fun h => hstars (List.infix_cons h)
    rw [List.map_cons, patTok_of_ne hc1, Glob.accepts_lit_cons, Bool.and_eq_true, beq_iff_eq,
      ih hpat]

/-- `strmatch_pat` matches the language of its pattern against the string, or with `start`
against a prefix of it, whenever the pattern has no two `*` in a row. -/
theorem strmatchPat_iff (str pat : List UInt8) (start : Bool) (hstars : ¬ [0x2a, 0x2a] <:+: pat) :
    strmatchPat str pat start = true ↔
      if start then ∃ u, u <+: str ∧ Glob.Matches (pat.map patTok) u
      else Glob.Matches (pat.map patTok) str := by
  rw [strmatchPat_accepts str pat start hstars]
  cases start with
  | false =>
    simp only [Bool.false_eq_true, false_or, if_false]
    exact Iff.rfl
  | true =>
    simp only [true_or, if_true]
    exact Glob.accepts_true_iff

/-- `"a?"` with `start` against `"abc"`: a prefix of the string is in the language. -/
theorem strmatchPat_iff_prefix :
    strmatchPat [0x61, 0x62, 0x63] [0x61, 0x3f] true = true ↔
      if true then ∃ u, u <+: [0x61, 0x62, 0x63] ∧ Glob.Matches ([0x61, 0x3f].map patTok) u
      else Glob.Matches ([0x61, 0x3f].map patTok) [0x61, 0x62, 0x63] :=
  strmatchPat_iff _ _ true (by decide)

/-- A second `*` after a `*` is looked for as a literal: `"**"` does not match `"a"`, which is
in its language. -/
theorem strmatchPat_star_star :
    strmatchPat [0x61] [0x2a, 0x2a] false = false ∧
      Glob.Matches ([0x2a, 0x2a].map patTok) [0x61] := by
  refine ⟨by decide, ?_⟩
  show Glob.Accepts _ [.star, .star] [0x61]
  exact .star_cons (.star_nil (.star_nil (.nil rfl)))

end Qemacs
