import Mathlib

/-!
# Rectangles of a grid and packings of a frame

A rectangle `[x1, x2) × [y1, y2)` of integer cells, and a packing of a frame: a list of
rectangles that are not empty, lie inside the frame and pairwise do not overlap. The
arithmetic forms (`Apart`, `Within`) are what programs test; `cells` gives them their
meaning as sets, and the two agree on rectangles that are not empty.

A packing stays one when a rectangle is cut in two (`Packing.cut`, at a column or a row
in `Packing.cutX` and `Packing.cutY`), and when a rectangle
grows over part of a free region while the rest of that region stays free
(`Packing.grow`, `FreeIn.grow`): the two ways a tiling window manager changes its windows.
-/

namespace Grid

/-- The rectangle `[x1, x2) × [y1, y2)`. -/
structure Rect where
  x1 : Int
  y1 : Int
  x2 : Int
  y2 : Int
deriving DecidableEq, Repr

namespace Rect

instance : Membership (Int × Int) Rect :=
  ⟨fun r p => r.x1 ≤ p.1 ∧ p.1 < r.x2 ∧ r.y1 ≤ p.2 ∧ p.2 < r.y2⟩

theorem mem_iff {r : Rect} {p : Int × Int} :
    p ∈ r ↔ r.x1 ≤ p.1 ∧ p.1 < r.x2 ∧ r.y1 ≤ p.2 ∧ p.2 < r.y2 := Iff.rfl

instance (p : Int × Int) (r : Rect) : Decidable (p ∈ r) :=
  inferInstanceAs (Decidable (_ ∧ _))

/-- The cells of the rectangle. -/
def cells (r : Rect) : Set (Int × Int) := {p | p ∈ r}

@[simp] theorem mem_cells {r : Rect} {p : Int × Int} : p ∈ r.cells ↔ p ∈ r := Iff.rfl

/-- The rectangle has a cell. -/
def Proper (r : Rect) : Prop := r.x1 < r.x2 ∧ r.y1 < r.y2

/-- One rectangle ends before the other starts, along one of the axes. -/
def Apart (r q : Rect) : Prop := r.x2 ≤ q.x1 ∨ q.x2 ≤ r.x1 ∨ r.y2 ≤ q.y1 ∨ q.y2 ≤ r.y1

/-- The bounds of the rectangle are in order; it may still be empty. -/
def Ordered (r : Rect) : Prop := r.x1 ≤ r.x2 ∧ r.y1 ≤ r.y2

/-- `r` lies inside `q`, bound by bound. -/
def Within (r q : Rect) : Prop := q.x1 ≤ r.x1 ∧ r.x2 ≤ q.x2 ∧ q.y1 ≤ r.y1 ∧ r.y2 ≤ q.y2

instance (r : Rect) : Decidable r.Proper := inferInstanceAs (Decidable (_ ∧ _))
instance (r q : Rect) : Decidable (r.Apart q) := inferInstanceAs (Decidable (_ ∨ _))
instance (r q : Rect) : Decidable (r.Within q) := inferInstanceAs (Decidable (_ ∧ _))

variable {r q e f : Rect}

theorem Apart.symm (h : r.Apart q) : q.Apart r := by
  unfold Apart at *
  omega

theorem Apart.of_within (h : r.Apart q) (hw : f.Within q) : r.Apart f := by
  unfold Apart Within at *
  omega

theorem Within.trans (h : r.Within q) (h' : q.Within f) : r.Within f := by
  unfold Within at *
  omega

/-! ## The arithmetic forms and the cells -/

theorem Apart.disjoint (h : r.Apart q) : Disjoint r.cells q.cells := by
  rw [Set.disjoint_left]
  rintro ⟨x, y⟩ hr hq
  simp only [mem_cells, mem_iff] at hr hq
  unfold Apart at h
  omega

/-- Two rectangles with a cell each are apart exactly when they share no cell: a cell
of both is found at the larger of the lower bounds. -/
theorem apart_of_disjoint (hr : r.Proper) (hq : q.Proper) (h : Disjoint r.cells q.cells) :
    r.Apart q := by
  unfold Proper at hr hq
  by_contra hn
  unfold Apart at hn
  have hboth : (max r.x1 q.x1, max r.y1 q.y1) ∈ r.cells ∩ q.cells := by
    simp only [Set.mem_inter_iff, mem_cells, mem_iff]
    omega
  exact Set.disjoint_iff.mp h hboth

theorem Within.subset (h : r.Within q) : r.cells ⊆ q.cells := by
  rintro ⟨x, y⟩ hr
  simp only [mem_cells, mem_iff] at hr ⊢
  unfold Within at h
  omega

/-- A rectangle grown over part of a free region keeps apart from what kept apart from
both. -/
theorem Apart.of_subset_union (hf : f.Proper) (he' : e.Proper) (hsub : e.cells ⊆ r.cells ∪ q.cells)
    (h1 : f.Apart r) (h2 : f.Apart q) : f.Apart e := by
  apply apart_of_disjoint hf he'
  have hunion : Disjoint f.cells (r.cells ∪ q.cells) :=
    Set.disjoint_union_right.mpr ⟨h1.disjoint, h2.disjoint⟩
  exact hunion.mono_right hsub

end Rect

open Rect

/-! ## Packings -/

/-- A packing of the frame `c`: rectangles with a cell each, inside `c`, no two of
which overlap. -/
structure Packing (c : Rect) (l : List Rect) : Prop where
  proper : ∀ r ∈ l, r.Proper
  within : ∀ r ∈ l, r.Within c
  apart : l.Pairwise Rect.Apart

namespace Packing

variable {c r e e' q q' : Rect} {l l' : List Rect}

theorem nil : Packing c [] := ⟨by simp, by simp, List.Pairwise.nil⟩

theorem single (hr : r.Proper) (hw : r.Within c) : Packing c [r] :=
  ⟨by simpa using hr, by simpa using hw, List.pairwise_singleton _ _⟩

theorem perm (h : Packing c l) (hp : l.Perm l') : Packing c l' where
  proper r hr := h.proper r (hp.mem_iff.mpr hr)
  within r hr := h.within r (hp.mem_iff.mpr hr)
  apart := (hp.pairwise_iff Apart.symm).mp h.apart

theorem cons_iff :
    Packing c (r :: l) ↔ r.Proper ∧ r.Within c ∧ (∀ q ∈ l, r.Apart q) ∧ Packing c l := by
  constructor
  · intro h
    refine ⟨h.proper r (by simp), h.within r (by simp), (List.pairwise_cons.mp h.apart).1, ?_⟩
    exact ⟨fun q hq => h.proper q (by simp [hq]), fun q hq => h.within q (by simp [hq]),
      (List.pairwise_cons.mp h.apart).2⟩
  · rintro ⟨hr, hw, hapart, h⟩
    refine ⟨?_, ?_, List.pairwise_cons.mpr ⟨hapart, h.apart⟩⟩
    · simpa [hr] using h.proper
    · simpa [hw] using h.within

/-- The rectangles of a packing share no cell. -/
theorem pairwise_disjoint (h : Packing c l) : l.Pairwise fun r q => Disjoint r.cells q.cells :=
  h.apart.imp Apart.disjoint

theorem subset (h : Packing c l) : ∀ r ∈ l, r.cells ⊆ c.cells :=
  fun r hr => (h.within r hr).subset

/-- Cutting a rectangle into two that do not overlap. -/
theorem cut (h : Packing c (r :: l)) (h1 : q.Proper) (h2 : q'.Proper) (hw1 : q.Within r)
    (hw2 : q'.Within r) (hqq : q.Apart q') : Packing c (q :: q' :: l) := by
  obtain ⟨-, hr, hapart, hl⟩ := cons_iff.mp h
  have hq'l : ∀ f ∈ l, q'.Apart f := fun f hf => ((hapart f hf).symm.of_within hw2).symm
  refine cons_iff.mpr ⟨h1, hw1.trans hr, ?_, cons_iff.mpr ⟨h2, hw2.trans hr, hq'l, hl⟩⟩
  intro f hf
  rcases List.mem_cons.mp hf with rfl | hf
  · exact hqq
  · exact ((hapart f hf).symm.of_within hw1).symm

/-- Cutting a rectangle at a column strictly inside it. -/
theorem cutX {m : Int} (h : Packing c (r :: l)) (h1 : r.x1 < m) (h2 : m < r.x2) :
    Packing c ({ r with x2 := m } :: { r with x1 := m } :: l) := by
  have hr : r.Proper := h.proper r (by simp)
  unfold Proper at hr
  apply h.cut <;> simp only [Proper, Within, Apart] <;> omega

/-- Cutting a rectangle at a row strictly inside it. -/
theorem cutY {m : Int} (h : Packing c (r :: l)) (h1 : r.y1 < m) (h2 : m < r.y2) :
    Packing c ({ r with y2 := m } :: { r with y1 := m } :: l) := by
  have hr : r.Proper := h.proper r (by simp)
  unfold Proper at hr
  apply h.cut <;> simp only [Proper, Within, Apart] <;> omega

/-- Growing `e` to `e'` over part of a free region `q` of the frame, what is left free
being `q'`: the packing stays one, and `q'` stays free. -/
theorem grow (h : Packing c (e :: l)) (hfree : ∀ f ∈ e :: l, f.Apart q)
    (he' : e'.Proper) (hsub : e'.cells ⊆ e.cells ∪ q.cells) (hw : e'.Within c)
    (hq' : q'.Within q) (hsep : e'.Apart q') :
    Packing c (e' :: l) ∧ ∀ f ∈ e' :: l, f.Apart q' := by
  obtain ⟨-, -, hapart, hl⟩ := cons_iff.mp h
  have hl' : ∀ f ∈ l, f.Apart e' := fun f hf =>
    Apart.of_subset_union (hl.proper f hf) he' hsub (hapart f hf).symm
      (hfree f (List.mem_cons_of_mem e hf))
  refine ⟨cons_iff.mpr ⟨he', hw, fun f hf => (hl' f hf).symm, hl⟩, ?_⟩
  intro f hf
  rcases List.mem_cons.mp hf with rfl | hf
  · exact hsep
  · exact (hfree f (List.mem_cons_of_mem e hf)).of_within hq'

end Packing

/-- A free region `q` of a packing of `c`: a rectangle of the frame apart from all the
packed ones, with its bounds in order. It may be empty. -/
structure FreeIn (c : Rect) (l : List Rect) (q : Rect) : Prop where
  packing : Packing c l
  apart : ∀ f ∈ l, f.Apart q
  within : q.Within c
  ordered : q.Ordered

namespace FreeIn

variable {c e e' q q' : Rect} {l l' : List Rect}

theorem perm (h : FreeIn c l q) (hp : l.Perm l') : FreeIn c l' q :=
  ⟨h.packing.perm hp, fun f hf => h.apart f (hp.mem_iff.mpr hf), h.within, h.ordered⟩

/-- A rectangle of a packing set free: it leaves the others a packing with it as a free
region. -/
theorem of_cons (h : Packing c (q :: l)) : FreeIn c l q := by
  obtain ⟨hp, hq, hapart, hl⟩ := Packing.cons_iff.mp h
  exact ⟨hl, fun f hf => (hapart f hf).symm, hq, by unfold Proper at hp; unfold Ordered; omega⟩

/-- Growing `e` over part of the free region, the rest of it staying free. -/
theorem grow (h : FreeIn c (e :: l) q) (he' : e'.Proper) (hsub : e'.cells ⊆ e.cells ∪ q.cells)
    (hw : e'.Within c) (hq' : q'.Within q) (hq'o : q'.Ordered) (hsep : e'.Apart q') :
    FreeIn c (e' :: l) q' :=
  have hg := h.packing.grow h.apart he' hsub hw hq' hsep
  ⟨hg.1, hg.2, hq'.trans h.within, hq'o⟩

end FreeIn

end Grid
