import Mathlib

/-!
# Chunked sequences

A sequence stored as a list of chunks, each with a size, and the walk that
finds the chunk holding a position. This is the abstract shape of any paged
or blocked store: the position `po` lies in chunk `i` at offset `o` when the
chunks before `i` hold exactly `po - o` elements and `o < size i`.

The walk needs no assumption on the chunks to be correct: a walk that starts
past a prefix whose total it has already consumed ends where a walk from the
start ends (`walk_append_of_le`). This is what makes a cached starting point
sound.
-/

namespace Chunks

variable {β : Type*} (sz : β → Nat)

/-- Total size of the chunks. -/
def total (ps : List β) : Nat := (ps.map sz).sum

/-- The chunk holding position `po`, and the position inside it, found by
walking from the first chunk; past the last chunk the walk returns the length
and what is left of `po`. -/
def walk : List β → Nat → Nat × Nat
  | [], po => (0, po)
  | p :: ps, po =>
    if po < sz p then (0, po)
    else ((walk ps (po - sz p)).1 + 1, (walk ps (po - sz p)).2)

@[simp] theorem total_nil : total sz ([] : List β) = 0 := rfl

@[simp] theorem total_cons (p : β) (ps : List β) :
    total sz (p :: ps) = sz p + total sz ps := by
  simp [total]

@[simp] theorem total_append (ps qs : List β) :
    total sz (ps ++ qs) = total sz ps + total sz qs := by
  simp [total]

/-- A walk that starts in front of a prefix it fully consumes continues in the
rest of the list. -/
theorem walk_append_of_le (L R : List β) (po : Nat) (h : total sz L ≤ po) :
    walk sz (L ++ R) po =
      (L.length + (walk sz R (po - total sz L)).1, (walk sz R (po - total sz L)).2) := by
  induction L generalizing po with
  | nil => simp
  | cons p L ih =>
    simp only [total_cons] at h
    have hnot : ¬ po < sz p := by omega
    have hrec := ih (po - sz p) (by omega)
    simp only [List.cons_append, walk, hnot, if_false, hrec, List.length_cons]
    have hsub : po - sz p - total sz L = po - (sz p + total sz L) := by omega
    rw [hsub, total_cons, Prod.mk.injEq]
    exact ⟨by omega, rfl⟩

/-- The walk finds the chunk a position falls in. -/
theorem walk_of_split (L R : List β) (p : β) (o : Nat) (ho : o < sz p) :
    walk sz (L ++ p :: R) (total sz L + o) = (L.length, o) := by
  rw [walk_append_of_le sz L (p :: R) (total sz L + o) (by omega)]
  simp [walk, ho]

/-- Every position before the end lies in some chunk. -/
theorem exists_split (ps : List β) (po : Nat) (h : po < total sz ps) :
    ∃ L p R, ps = L ++ p :: R ∧ total sz L ≤ po ∧ po < total sz L + sz p := by
  induction ps generalizing po with
  | nil => simp at h
  | cons q ps ih =>
    by_cases hq : po < sz q
    · exact ⟨[], q, ps, rfl, by simp, by simpa using hq⟩
    · simp only [total_cons] at h
      obtain ⟨L, p, R, rfl, h1, h2⟩ := ih (po - sz q) (by omega)
      refine ⟨q :: L, p, R, rfl, ?_, ?_⟩ <;> simp only [total_cons] <;> omega

/-- The walk lands on a chunk of the list, at a position inside it. -/
theorem walk_spec (ps : List β) (po : Nat) (h : po < total sz ps) :
    ∃ L p R, ps = L ++ p :: R ∧ walk sz ps po = (L.length, po - total sz L) ∧
      total sz L ≤ po ∧ po - total sz L < sz p := by
  obtain ⟨L, p, R, rfl, h1, h2⟩ := exists_split sz ps po h
  refine ⟨L, p, R, rfl, ?_, h1, by omega⟩
  have := walk_of_split sz L R p (po - total sz L) (by omega)
  rwa [Nat.add_sub_cancel' h1] at this

/-! ## Positions inside one chunk of the contents -/

section Split

variable {α : Type*}

/-- The contents before a position inside chunk `d`. -/
theorem take_append_split (A d B : List α) (o : Nat) (ho : o ≤ d.length) :
    (A ++ d ++ B).take (A.length + o) = A ++ d.take o := by
  simp [List.take_append, ho, List.take_of_length_le]

/-- The contents from a position inside chunk `d`. -/
theorem drop_append_split (A d B : List α) (o : Nat) (ho : o ≤ d.length) :
    (A ++ d ++ B).drop (A.length + o) = d.drop o ++ B := by
  simp [List.drop_append, ho]

/-- Bytes `x` spliced at `off` into `a` whose first `m` bytes stay in place
while the bytes of `a` and `x` past them move on: when all of `x` fits or
nothing of `a` stays past `off`, the order is that of an insertion. -/
theorem splice_eq (a x t : List α) (off len m : Nat) (hoff : off ≤ m)
    (h : len = x.length ∨ m = off) :
    a.take off ++ x.take len ++ (a.take m).drop off ++ x.drop len ++ a.drop m ++ t =
      a.take off ++ x ++ a.drop off ++ t := by
  rcases h with rfl | rfl
  · -- all of `x` fits: the kept and the moved part of `a` join again
    have hsplit : (a.take m).drop off ++ a.drop m = a.drop off := by
      obtain ⟨k, rfl⟩ := Nat.exists_eq_add_of_le hoff
      rw [List.drop_take, ← List.drop_drop, Nat.add_sub_cancel_left, List.take_append_drop]
    simp [← hsplit]
  · simp

end Split

end Chunks
