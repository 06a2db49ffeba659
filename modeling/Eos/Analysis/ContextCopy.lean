import Eos.Model.Context

/-!
# `copy_context` is a move

`copy_context` copies word by word, upwards or downwards as the addresses compare, and reads
and writes the same bytes as it goes where the two frames overlap.  Each word is read before
a copied word reaches it, for any distance of the frames (`copyContext_eq_move`).
-/

set_option autoImplicit false

namespace Eos.Analysis

open Eos.Lib.AArch64
open Eos.Model

variable {m : Memory} {dst src : Word} {n : Nat}

/-- A byte after the copy of word `n`. -/
theorem copyWord_apply (hn : 8 * n + 8 ≤ 2 ^ 64) (a : Word) :
    copyWord dst src m n a =
      if 8 * n ≤ (a - dst).toNat ∧ (a - dst).toNat < 8 * n + 8 then m (src + (a - dst))
      else m a := by
  unfold copyWord store
  by_cases h : (a - (dst + BitVec.ofNat 64 (8 * n))).toNat < 8
  · have hsrc : src + BitVec.ofNat 64 (8 * n) +
        BitVec.ofNat 64 (a - (dst + BitVec.ofNat 64 (8 * n))).toNat = src + (a - dst) := by
      bv_omega
    rw [if_pos h, if_pos (by bv_omega), byte_load h, hsrc]
  · rw [if_neg h, if_neg (by bv_omega)]

/-- Upwards, each word is read before it is overwritten if the destination is lower or apart. -/
theorem foldl_copyWord (hs : src.toNat + 8 * n ≤ 2 ^ 64) (hd : dst.toNat + 8 * n ≤ 2 ^ 64)
    (h : dst.toNat ≤ src.toNat ∨ src.toNat + 8 * n ≤ dst.toNat) (a : Word) :
    (List.range n).foldl (copyWord dst src) m a =
      if (a - dst).toNat < 8 * n then m (src + (a - dst)) else m a := by
  induction n generalizing a with
  | zero => rfl
  | succ n ih =>
    have ih := ih (by omega) (by omega) (by omega)
    rw [List.range_succ, List.foldl_append, List.foldl_cons, List.foldl_nil,
      copyWord_apply (by omega)]
    by_cases hlast : 8 * n ≤ (a - dst).toNat ∧ (a - dst).toNat < 8 * n + 8
    · rw [if_pos hlast, if_pos (by omega), ih, if_neg (by bv_omega)]
    · rw [if_neg hlast, ih]
      exact if_congr (by omega) rfl rfl

/-- Downwards, each word is read before it is overwritten if the destination is higher. -/
theorem foldl_copyWord_reverse (hs : src.toNat + 8 * n ≤ 2 ^ 64) (hd : dst.toNat + 8 * n ≤ 2 ^ 64)
    (h : src.toNat ≤ dst.toNat) (a : Word) :
    (List.range n).reverse.foldl (copyWord dst src) m a =
      if (a - dst).toNat < 8 * n then m (src + (a - dst)) else m a := by
  induction n generalizing m with
  | zero => rfl
  | succ n ih =>
    rw [List.range_succ, List.reverse_append, List.reverse_singleton, List.singleton_append,
      List.foldl_cons, ih (by omega) (by omega), copyWord_apply (by omega),
      copyWord_apply (by omega)]
    by_cases hfirst : (a - dst).toNat < 8 * n
    · rw [if_pos hfirst, if_neg (by bv_omega), if_pos (by omega)]
    · rw [if_neg hfirst]
      exact if_congr (by omega) rfl rfl

/-- **The effect of `copy_context`** is that of `memmove` (core/interrupt.c:39-66). -/
theorem copyContext_eq_move (hs : src.toNat + ctxSize ≤ 2 ^ 64) (hd : dst.toNat + ctxSize ≤ 2 ^ 64)
    (hdst : dst ≠ 0) (hsrc : src ≠ 0) : copyContext m dst src = move m dst src ctxSize := by
  funext a
  unfold copyContext
  rw [if_neg (not_or.mpr ⟨hdst, hsrc⟩)]
  by_cases heq : dst = src
  · subst heq
    rw [if_pos rfl, move_apply, add_sub_cancel, ite_self]
  rw [if_neg heq]
  by_cases hbetween : src < dst ∧ dst < src + BitVec.ofNat 64 ctxSize
  · rw [if_pos hbetween]
    exact foldl_copyWord_reverse hs hd (Nat.le_of_lt hbetween.1) a
  · rw [if_neg hbetween]
    apply foldl_copyWord hs hd
    unfold ctxSize at *
    bv_omega

/-- **An overlap-safe move**: between any two frames that do not wrap around the address space,
`copy_context` leaves the bytes that were at the source at the destination, and all others
as they were. -/
theorem copyContext_moves (hdst : dst ≠ 0) (hsrc : src ≠ 0) (hd : dst.toNat + ctxSize ≤ 2 ^ 64)
    (hs : src.toNat + ctxSize ≤ 2 ^ 64) :
    (∀ k < ctxSize, copyContext m dst src (dst + BitVec.ofNat 64 k) =
      m (src + BitVec.ofNat 64 k)) ∧
    ∀ a : Word, ¬(dst.toNat ≤ a.toNat ∧ a.toNat < dst.toNat + ctxSize) →
      copyContext m dst src a = m a := by
  rw [copyContext_eq_move hs hd hdst hsrc]
  constructor
  · intro k hk
    exact move_at (by decide) hk
  · intro a ha
    apply move_of_le
    unfold ctxSize at *
    bv_omega

/-- Frames four bytes apart, in a memory where every byte has its address. -/
theorem copyContext_moves_four :
    (∀ k < ctxSize, copyContext (BitVec.setWidth 8) 0x1004 0x1000 (0x1004 + BitVec.ofNat 64 k) =
      (0x1000 + BitVec.ofNat 64 k).setWidth 8) ∧
    ∀ a : Word, ¬((0x1004 : Word).toNat ≤ a.toNat ∧ a.toNat < (0x1004 : Word).toNat + ctxSize) →
      copyContext (BitVec.setWidth 8) 0x1004 0x1000 a = a.setWidth 8 :=
  copyContext_moves (by decide) (by decide) (by decide) (by decide)

end Eos.Analysis
