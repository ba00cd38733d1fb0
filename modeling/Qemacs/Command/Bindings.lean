import Mathlib.Data.List.Infix
import Mathlib.Data.List.TakeWhile

/-!
# Key bindings

`qe_register_binding`, `qe_unregister_binding` and `qe_find_binding` (qe.c) on a binding
list: the global one, a mode's, or the transient one. The list is a linked list of `KeyDef`
nodes, each a key sequence and the command it runs. It is modelled by its nodes from the
head on, and a pointer to a node by the list from that node on: `qe_find_binding` returns
the suffix that starts at the binding it finds, the empty list for NULL. Commands are
compared as pointers, so any type with decidable equality stands for them.

Registration does not always put the new binding first: it goes after the bindings of the
same command at the head of the list (`insertBinding_eq`). Right after
`qe_register_binding(lp, d, K)`:

* the exact search for `K` finds `K ↦ d`, and `qe_unregister_binding(lp, K)` unlinks the
  very node that search finds and leaves the others in their order;
* the search with `exact = 0`, which also takes a binding that `K` is a proper prefix of,
  finds a binding of `d`, but it may be an older and longer one when one stands in that run
  at the head (`qeFindBinding_prefix_first`); it finds `K ↦ d` when none does
  (`qeRegisterBinding_spec`).
-/

namespace Qemacs

/-- `KeyDef`: a key sequence (`nb_keys` is its length) and the command it runs. -/
structure KeyDef (Cmd : Type) where
  cmd : Cmd
  keys : List UInt32
  deriving DecidableEq, Repr

section Model

variable {Cmd : Type} [DecidableEq Cmd]

/-- The `while` loop of `qe_register_binding`: the new node goes after the bindings of `d`
at the head of the list. -/
def insertBinding (d : Cmd) (p : KeyDef Cmd) : List (KeyDef Cmd) → List (KeyDef Cmd)
  | [] => [p]
  | k :: ks => if k.cmd = d then k :: insertBinding d p ks else p :: k :: ks

/-- `qe_register_binding`: the return code and the list; a null command is `none`. -/
def qeRegisterBinding (lp : List (KeyDef Cmd)) (d : Option Cmd) (keys : List UInt32) :
    Int × List (KeyDef Cmd) :=
  if keys = [] then (-2, lp)
  else match d with
    | none => (-1, lp)
    | some d => (0, insertBinding d ⟨d, keys⟩ lp)

/-- The loop of `qe_unregister_binding`: the first binding of exactly these keys unlinked,
`none` when there is none. -/
def removeBinding (keys : List UInt32) : List (KeyDef Cmd) → Option (List (KeyDef Cmd))
  | [] => none
  | k :: ks => if k.keys = keys then some ks else (removeBinding keys ks).map (k :: ·)

/-- `qe_unregister_binding`: the return code and the list. -/
def qeUnregisterBinding (lp : List (KeyDef Cmd)) (keys : List UInt32) : Int × List (KeyDef Cmd) :=
  if keys = [] then (-2, lp)
  else match removeBinding keys lp with
    | none => (0, lp)
    | some lp' => (1, lp')

/-- `qe_find_binding`: from the first binding of the keys on; with `exact < 1` also a
binding the keys are a prefix of, and with `exact < 0` a binding that is a prefix of them. -/
def qeFindBinding (keys : List UInt32) : List (KeyDef Cmd) → Int → List (KeyDef Cmd)
  | [], _ => []
  | k :: ks, exact =>
    if k.keys.length = keys.length then
      if k.keys = keys then k :: ks else qeFindBinding keys ks exact
    else if k.keys.length > keys.length then
      if exact < 1 ∧ k.keys.take keys.length = keys then k :: ks
      else qeFindBinding keys ks exact
    else
      if exact < 0 ∧ keys.take k.keys.length = k.keys then k :: ks
      else qeFindBinding keys ks exact

end Model

/-! ## Registration, search and removal -/

section Spec

variable {Cmd : Type}

/-- Whether `qe_find_binding` stops at the binding `k`. -/
def bindingMatches (keys : List UInt32) (exact : Int) (k : KeyDef Cmd) : Bool :=
  if k.keys.length = keys.length then k.keys = keys
  else if k.keys.length > keys.length then exact < 1 ∧ k.keys.take keys.length = keys
  else exact < 0 ∧ keys.take k.keys.length = k.keys

/-- `qe_find_binding` returns the list from the first binding it stops at. -/
theorem qeFindBinding_eq_dropWhile (keys : List UInt32) (l : List (KeyDef Cmd)) (exact : Int) :
    qeFindBinding keys l exact = l.dropWhile (fun k => !bindingMatches keys exact k) := by
  induction l with
  | nil => rfl
  | cons k ks ih =>
    rw [qeFindBinding, List.dropWhile_cons, ← ih, bindingMatches]
    split_ifs <;> simp_all

/-- The exact search stops at the bindings of exactly the keys. -/
theorem bindingMatches_one (keys : List UInt32) (k : KeyDef Cmd) :
    bindingMatches keys 1 k = decide (k.keys = keys) := by
  unfold bindingMatches
  split_ifs with h1 h2
  · rfl
  · simp only [show ¬ ((1 : Int) < 1) by decide, false_and, decide_false]
    exact (decide_eq_false fun (h : k.keys = keys) => h1 (h ▸ rfl)).symm
  · simp only [show ¬ ((1 : Int) < 0) by decide, false_and, decide_false]
    exact (decide_eq_false fun (h : k.keys = keys) => h1 (h ▸ rfl)).symm

/-- The search with `exact = 0` stops at the bindings of the keys and at those the keys are
a proper prefix of. -/
theorem bindingMatches_zero {keys : List UInt32} {k : KeyDef Cmd} (h : bindingMatches keys 0 k = true) :
    k.keys = keys ∨ (keys <+: k.keys ∧ k.keys ≠ keys) := by
  unfold bindingMatches at h
  split_ifs at h with h1 h2
  · exact .inl (of_decide_eq_true h)
  · have h' := (of_decide_eq_true h).2
    exact .inr ⟨h' ▸ List.take_prefix _ _, fun he => h1 (he ▸ rfl)⟩
  · simp at h

/-- The exact search stops at the first binding of the keys. -/
theorem qeFindBinding_exact (keys : List UInt32) (l : List (KeyDef Cmd)) :
    qeFindBinding keys l 1 = l.dropWhile (·.keys ≠ keys) := by
  rw [qeFindBinding_eq_dropWhile]
  congr 1
  funext k
  rw [bindingMatches_one]
  simp

/-- Unlinking the first binding of the keys: what comes before it, and what after. -/
theorem removeBinding_eq (keys : List UInt32) (l : List (KeyDef Cmd))
    (h : l.dropWhile (·.keys ≠ keys) ≠ []) :
    removeBinding keys l =
      some (l.takeWhile (·.keys ≠ keys) ++ (l.dropWhile (·.keys ≠ keys)).tail) := by
  induction l with
  | nil => simp at h
  | cons k ks ih =>
    unfold removeBinding
    by_cases hk : k.keys = keys
    · simp [hk]
    · simp only [List.dropWhile_cons, ne_eq, hk, not_false_eq_true, decide_true] at h
      simp [hk, ih h]

/-- A search through `run ++ p :: rest` that would stop at `p` stops in `run` or at `p`. -/
theorem head?_dropWhile_of_stop {α : Type} (f : α → Bool) (p : α) (run rest : List α)
    (hp : f p = false) :
    ∃ x, ((run ++ p :: rest).dropWhile f).head? = some x ∧ f x = false ∧ (x ∈ run ∨ x = p) := by
  induction run with
  | nil => exact ⟨p, by simp [hp], hp, .inr rfl⟩
  | cons a run ih =>
    rw [List.cons_append, List.dropWhile_cons]
    split
    · obtain ⟨x, hx, hfx, hmem⟩ := ih
      exact ⟨x, hx, hfx, hmem.imp_left (List.mem_cons_of_mem a)⟩
    · rename_i ha
      exact ⟨a, rfl, by simpa using ha, .inl List.mem_cons_self⟩

variable [DecidableEq Cmd]

/-- The new binding goes after the run of bindings of the same command at the head. -/
theorem insertBinding_eq (d : Cmd) (p : KeyDef Cmd) (lp : List (KeyDef Cmd)) :
    insertBinding d p lp = lp.takeWhile (·.cmd = d) ++ p :: lp.dropWhile (·.cmd = d) := by
  induction lp with
  | nil => rfl
  | cons k ks ih =>
    unfold insertBinding
    by_cases hk : k.cmd = d
    · simp [hk, ih]
    · simp [hk]

/-- Right after `qe_register_binding(lp, d, K)`, which returns 0: the exact search for `K`
finds `K ↦ d`; the search with `exact = 0` finds a binding of `d`, and `K ↦ d` itself unless
a binding of `d` at the head of `lp` has `K` as a proper prefix; and
`qe_unregister_binding(lp, K)` returns 1 and unlinks the node the exact search finds,
leaving the others in their order. -/
theorem qeRegisterBinding_spec {lp lp' : List (KeyDef Cmd)} {d : Cmd} {K : List UInt32} {r : Int}
    (hK : K ≠ []) (hreg : qeRegisterBinding lp (some d) K = (r, lp')) :
    r = 0 ∧ (qeFindBinding K lp' 1).head? = some ⟨d, K⟩ ∧
      (qeFindBinding K lp' 0).head?.map (·.cmd) = some d ∧
      ((∀ k ∈ lp.takeWhile (·.cmd = d), ¬ (K <+: k.keys ∧ k.keys ≠ K)) →
        (qeFindBinding K lp' 0).head? = some ⟨d, K⟩) ∧
      ∃ pre, lp' = pre ++ qeFindBinding K lp' 1 ∧
        qeUnregisterBinding lp' K = (1, pre ++ (qeFindBinding K lp' 1).tail) := by
  rw [qeRegisterBinding, if_neg hK, Prod.mk.injEq] at hreg
  obtain ⟨rfl, rfl⟩ := hreg
  have hrun : ∀ k ∈ lp.takeWhile (·.cmd = d), k.cmd = d := fun k hk => by
    simpa using List.mem_takeWhile_imp hk
  -- both searches stop in that run or at the new binding
  obtain ⟨x, hx, hfx, hxmem⟩ := head?_dropWhile_of_stop (fun k => !bindingMatches K 1 k)
    ⟨d, K⟩ (lp.takeWhile (·.cmd = d)) (lp.dropWhile (·.cmd = d)) (by simp [bindingMatches_one])
  obtain ⟨y, hy, hfy, hymem⟩ := head?_dropWhile_of_stop (fun k => !bindingMatches K 0 k)
    ⟨d, K⟩ (lp.takeWhile (·.cmd = d)) (lp.dropWhile (·.cmd = d))
    (by simp [bindingMatches])
  rw [← insertBinding_eq, ← qeFindBinding_eq_dropWhile] at hx hy
  have hycmd : y.cmd = d := by
    rcases hymem with hy' | rfl
    · exact hrun y hy'
    · rfl
  have hkeydef : ∀ {z : KeyDef Cmd}, z.cmd = d → z.keys = K → z = ⟨d, K⟩ := by
    rintro ⟨zc, zk⟩ hc hk
    simp_all
  refine ⟨rfl, ?_, by rw [hy, Option.map_some, hycmd], ?_, ?_⟩
  · -- the exact search: a binding of `K`, in the run of `d` or the new one
    have hxkeys : x.keys = K := by simpa [bindingMatches_one] using hfx
    rw [hx, hkeydef ?_ hxkeys]
    rcases hxmem with hx' | rfl
    · exact hrun x hx'
    · rfl
  · -- with `exact = 0`: a binding of `d` that `K` is not a proper prefix of has the keys `K`
    intro hnone
    rw [hy]
    have hyk : y.keys = K ∨ (K <+: y.keys ∧ y.keys ≠ K) :=
      bindingMatches_zero (by simpa using hfy)
    rcases hymem with hy' | rfl
    · exact congrArg some (hkeydef hycmd (hyk.resolve_right (hnone y hy')))
    · rfl
  · -- removal: the list is what comes before the found node, then the node and the rest
    have hfound : qeFindBinding K (insertBinding d ⟨d, K⟩ lp) 1 ≠ [] := by
      intro h
      rw [h] at hx
      cases hx
    rw [qeFindBinding_exact] at hfound ⊢
    refine ⟨_, (List.takeWhile_append_dropWhile).symm, ?_⟩
    rw [qeUnregisterBinding, if_neg hK, removeBinding_eq K _ hfound]

/-- A registration behind an older, longer binding of the same command: after registering
`[1, 2] ↦ 0` and then `[1] ↦ 0` on an empty list, the search for `[1]` with `exact = 0`
finds the binding of `[1, 2]`. -/
theorem qeFindBinding_prefix_first :
    (qeFindBinding [1]
      (qeRegisterBinding (qeRegisterBinding ([] : List (KeyDef Nat)) (some 0) [1, 2]).2
        (some 0) [1]).2 0).head? = some ⟨0, [1, 2]⟩ := by
  decide

/-- `qeRegisterBinding_spec` at a registration of `[7] ↦ 0` in front of `[5] ↦ 1`. -/
theorem qeRegisterBinding_spec_front :
    (qeFindBinding [7] (qeRegisterBinding [⟨1, [5]⟩] (some 0) [7]).2 1).head? = some ⟨0, [7]⟩ :=
  (qeRegisterBinding_spec (by decide : ([7] : List UInt32) ≠ [])
    (rfl : qeRegisterBinding [⟨1, [5]⟩] (some 0) [7] = _)).2.1

end Spec

end Qemacs
