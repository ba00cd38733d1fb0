import Mathlib.Data.List.Infix

/-!
# Glob patterns

A glob pattern is a list of tokens: a literal, `?` (`Tok.any`), which stands for any one
symbol, and `*` (`Tok.star`), which stands for any word, the empty one included.

`Accepts fin p w` says that `w` is read through the pattern `p` and that what is left of
it when the pattern ends satisfies `fin`: one rule per token. With `fin` the test that
nothing is left it is the language of `p` (`Matches`); with `fin` always true it says that
some prefix of `w` is in that language (`accepts_true_iff`).

The lemmas read one token of the pattern at a time, as a matcher does: a literal and
`?` take one symbol (`accepts_lit_cons`, `accepts_any_cons`), and `*` lets the rest of the
pattern start at any suffix of the word (`accepts_star_iff`), or, when a literal follows
it, at any place that holds that literal (`accepts_star_lit_iff`).
-/

namespace Glob

/-- A token of a glob pattern. -/
inductive Tok (α : Type*) where
  | lit (c : α)
  | any
  | star
  deriving DecidableEq, Repr

variable {α : Type*}

/-- `w` is read through the pattern, and what is left of it at the end satisfies `fin`. -/
inductive Accepts (fin : List α → Prop) : List (Tok α) → List α → Prop
  | nil {w : List α} : fin w → Accepts fin [] w
  | lit {c : α} {p : List (Tok α)} {w : List α} : Accepts fin p w → Accepts fin (.lit c :: p) (c :: w)
  | any {c : α} {p : List (Tok α)} {w : List α} : Accepts fin p w → Accepts fin (.any :: p) (c :: w)
  | star_nil {p : List (Tok α)} {w : List α} : Accepts fin p w → Accepts fin (.star :: p) w
  | star_cons {c : α} {p : List (Tok α)} {w : List α} :
      Accepts fin (.star :: p) w → Accepts fin (.star :: p) (c :: w)

/-- The language of a pattern: the words it matches whole. -/
def Matches (p : List (Tok α)) (w : List α) : Prop := Accepts (· = []) p w

section Rules

variable {fin : List α → Prop} {p : List (Tok α)} {c d : α} {w : List α}

@[simp] theorem accepts_nil_iff : Accepts fin [] w ↔ fin w :=
  ⟨fun h => by cases h; assumption, .nil⟩

@[simp] theorem not_accepts_lit_nil : ¬ Accepts fin (.lit c :: p) [] := fun h => by cases h

@[simp] theorem accepts_lit_cons : Accepts fin (.lit c :: p) (d :: w) ↔ c = d ∧ Accepts fin p w := by
  constructor
  · intro h
    cases h with
    | lit h => exact ⟨rfl, h⟩
  · rintro ⟨rfl, h⟩
    exact .lit h

@[simp] theorem not_accepts_any_nil : ¬ Accepts fin (.any :: p) [] := fun h => by cases h

@[simp] theorem accepts_any_cons : Accepts fin (.any :: p) (d :: w) ↔ Accepts fin p w := by
  constructor
  · intro h
    cases h with
    | any h => exact h
  · exact .any

theorem accepts_star_nil : Accepts fin (.star :: p) [] ↔ Accepts fin p [] := by
  constructor
  · intro h
    cases h with
    | star_nil h => exact h
  · exact .star_nil

theorem accepts_star_cons :
    Accepts fin (.star :: p) (d :: w) ↔ Accepts fin p (d :: w) ∨ Accepts fin (.star :: p) w := by
  constructor
  · intro h
    cases h with
    | star_nil h => exact .inl h
    | star_cons h => exact .inr h
  · rintro (h | h)
    · exact .star_nil h
    · exact .star_cons h

/-- A `*` lets the rest of the pattern start at any suffix of the word. -/
theorem accepts_star_iff : Accepts fin (.star :: p) w ↔ ∃ v, v <:+ w ∧ Accepts fin p v := by
  induction w with
  | nil => simp [accepts_star_nil]
  | cons d w ih =>
    rw [accepts_star_cons, ih]
    constructor
    · rintro (h | ⟨v, hv, h⟩)
      · exact ⟨d :: w, List.suffix_refl _, h⟩
      · exact ⟨v, hv.trans (List.suffix_cons d w), h⟩
    · rintro ⟨v, hv, h⟩
      rcases List.suffix_cons_iff.mp hv with rfl | hv
      · exact .inl h
      · exact .inr ⟨v, hv, h⟩

/-- A `*` followed by a literal: the rest of the pattern starts after some place of the word
that holds that literal. -/
theorem accepts_star_lit_iff :
    Accepts fin (.star :: .lit c :: p) w ↔ ∃ u v, w = u ++ c :: v ∧ Accepts fin p v := by
  rw [accepts_star_iff]
  constructor
  · rintro ⟨v', ⟨u, rfl⟩, h⟩
    cases v' with
    | nil => exact absurd h not_accepts_lit_nil
    | cons d v =>
      obtain ⟨rfl, hv⟩ := accepts_lit_cons.mp h
      exact ⟨u, v, rfl, hv⟩
  · rintro ⟨u, v, rfl, h⟩
    exact ⟨c :: v, List.suffix_append u _, accepts_lit_cons.mpr ⟨rfl, h⟩⟩

/-- The empty word goes through a pattern of `*` only. -/
theorem accepts_nil_word : Accepts fin p [] ↔ (∀ t ∈ p, t = .star) ∧ fin [] := by
  induction p with
  | nil => simp
  | cons t p ih =>
    cases t with
    | lit c => simp
    | any => simp
    | star => simp [accepts_star_nil, ih]

end Rules

/-- With nothing asked of the rest of the word, a pattern accepts the words that have a
prefix in its language. -/
theorem accepts_true_iff {p : List (Tok α)} {w : List α} :
    Accepts (fun _ => True) p w ↔ ∃ u, u <+: w ∧ Matches p u := by
  constructor
  · -- each rule of the derivation is also a rule of the language, on a prefix of the word
    intro h
    induction h with
    | nil => exact ⟨[], List.nil_prefix, .nil rfl⟩
    | @lit c p w _ ih =>
      obtain ⟨u, hu, hm⟩ := ih
      exact ⟨c :: u, List.cons_prefix_cons.mpr ⟨rfl, hu⟩, .lit hm⟩
    | @any c p w _ ih =>
      obtain ⟨u, hu, hm⟩ := ih
      exact ⟨c :: u, List.cons_prefix_cons.mpr ⟨rfl, hu⟩, .any hm⟩
    | star_nil _ ih =>
      obtain ⟨u, hu, hm⟩ := ih
      exact ⟨u, hu, .star_nil hm⟩
    | @star_cons c p w _ ih =>
      obtain ⟨u, hu, hm⟩ := ih
      exact ⟨c :: u, List.cons_prefix_cons.mpr ⟨rfl, hu⟩, .star_cons hm⟩
  · rintro ⟨u, hu, hm⟩
    unfold Matches at hm
    induction hm generalizing w with
    | nil => exact .nil trivial
    | lit _ ih =>
      obtain ⟨w', rfl, hw⟩ := List.cons_prefix_iff.mp hu
      exact .lit (ih hw)
    | any _ ih =>
      obtain ⟨w', rfl, hw⟩ := List.cons_prefix_iff.mp hu
      exact .any (ih hw)
    | star_nil _ ih => exact .star_nil (ih hu)
    | star_cons _ ih =>
      obtain ⟨w', rfl, hw⟩ := List.cons_prefix_iff.mp hu
      exact .star_cons (ih hw)

end Glob
