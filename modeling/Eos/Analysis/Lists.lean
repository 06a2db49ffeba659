import Eos.Analysis.Alarms
import Mathlib.Data.List.TakeWhile

/-!
# The list routines refine sequences

The three routines of core/common.c on one list: a head cell `h` that leads to the circle
of a sequence `xs`.  The rest of the memory is arbitrary, and none of it changes.
-/

set_option autoImplicit false

namespace Eos.Analysis

open Eos.Lib (LinkMem IsRing RingAt SameBut ringAt_singleton)
open Eos.Model
open Eos.Interface

/-! ## What the routines are to do -/

section Defs

variable {H N : Type}

/-- `n` was appended to the list. -/
structure Appended (m m' : LinkMem H N) (h : H) (xs : List N) (n : N) : Prop where
  ring : RingAt m' h (xs ++ [n])
  frame : SameBut m m' h (n :: xs)

/-- `n` was inserted at the place of its key: behind the nodes whose keys do not exceed its own, and
before those with greater ones. -/
structure Inserted (m m' : LinkMem H N) (key : N → Nat) (h : H) (xs : List N) (n : N)
    (as bs : List N) : Prop where
  split : xs = as ++ bs
  before : ∀ a ∈ as, key a ≤ key n
  behind : ∀ b ∈ bs, key n < key b
  ring : RingAt m' h (as ++ n :: bs)
  sorted : (as ++ n :: bs).Pairwise fun a b => key a ≤ key b
  head : m'.head h ≠ m.head h ↔ as = []
  frame : SameBut m m' h (n :: xs)

/-- `n` was taken out of the list. -/
structure Removed [DecidableEq N] (m m' : LinkMem H N) (h : H) (xs : List N) (n : N) : Prop where
  ring : RingAt m' h (xs.erase n)
  head : m'.head h ≠ m.head h ↔ m.head h = some n
  successor : m.head h = some n → xs ≠ [n] → m'.head h = m.next n
  alone : m'.head h = none ↔ xs = [n]
  links : m'.prev n = none ∧ m'.next n = none
  frame : SameBut m m' h xs

end Defs

variable {H N : Type} [DecidableEq H] [DecidableEq N] {m : LinkMem H N} {h : H} {xs : List N}
  {n : N}

/-! ## The routines -/

omit [DecidableEq H] [DecidableEq N] in
/-- In a sorted sequence the nodes from the first greater key on have greater keys. -/
theorem lt_of_mem_dropWhile {key : N → Nat} (hs : xs.Pairwise fun a b => key a ≤ key b) :
    ∀ b ∈ xs.dropWhile (fun x => key x ≤ key n), key n < key b := by
  induction xs with
  | nil => simp
  | cons x xs ih =>
    obtain ⟨hx, hxs⟩ := List.pairwise_cons.mp hs
    intro b hb
    by_cases hle : key x ≤ key n
    · rw [List.dropWhile_cons_of_pos (by simpa using hle)] at hb
      exact ih hxs b hb
    · rw [List.dropWhile_cons_of_neg (by simpa using hle)] at hb
      obtain rfl | hb := List.mem_cons.mp hb
      · omega
      · have := hx b hb
        omega

/-- `_os_add_node_ordered` on a sorted list (core/common.c:43-66). -/
theorem osAddNodeOrdered_inserted [Fintype N] (hr : RingAt m h xs) (hn : n ∉ xs) {key : N → Nat}
    (hs : xs.Pairwise fun a b => key a ≤ key b) :
    ∃ m' as bs, osAddNodeOrdered m key h n = some m' ∧ Inserted m m' key h xs n as bs := by
  obtain ⟨m', hm', hr', hsame⟩ := osAddNodeOrdered_at hr hn key
  have hsplit := List.takeWhile_append_dropWhile (p := fun z => decide (key z ≤ key n)) (l := xs)
  have hbefore : ∀ a ∈ xs.takeWhile (fun z => decide (key z ≤ key n)), key a ≤ key n := by
    intro a ha
    simpa using List.mem_takeWhile_imp ha
  have hsorted : (insertOrdered key n xs).Pairwise fun a b => key a ≤ key b :=
    pairwise_insertOrdered hs (fun _ _ _ _ => id) (fun _ _ _ _ => id) (fun _ _ => id)
      fun _ _ => le_of_lt
  refine ⟨m', _, _, hm', hsplit.symm, hbefore, lt_of_mem_dropWhile hs, hr', hsorted, ?_, hsame⟩
  rw [hr'.head, hr.head]
  unfold insertOrdered
  cases has : xs.takeWhile (fun z => decide (key z ≤ key n)) with
  | nil =>
    refine iff_of_true ?_ rfl
    cases xs with
    | nil => simp
    | cons x xs => simpa using fun e => hn (by simp [e])
  | cons a as =>
    rw [has, List.cons_append] at hsplit
    refine iff_of_false (fun hc => hc ?_) (List.cons_ne_nil a as)
    rw [← hsplit, List.cons_append, List.head?_cons, List.head?_cons]

/-- `_os_remove_node` of a member (core/common.c:69-88). -/
theorem osRemoveNode_removed (hr : RingAt m h xs) (hn : n ∈ xs) :
    (osRemoveNode m h n).2 = 1 ∧ Removed m (osRemoveNode m h n).1 h xs n := by
  obtain ⟨⟨q, -, hq⟩, p, -, hp⟩ := hr.links hn
  obtain ⟨hone, hlinks⟩ := osRemoveNode_links (m := m) (n := n) (by simp [hq]) (by simp [hp]) h
  obtain ⟨hr', hsame⟩ := osRemoveNode_at hr hn
  refine ⟨hone, hr', ?_, fun hfst hmany => ?_, ?_, hlinks, hsame⟩
  · rw [hr'.head, hr.head]
    cases xs with
    | nil => simp at hn
    | cons x xs =>
      by_cases hx : x = n
      · subst hx
        refine iff_of_true ?_ rfl
        have hnx := (List.nodup_cons.mp hr.nodup).1
        rw [List.erase_cons_head]
        exact fun e => hnx (List.mem_of_mem_head? e)
      · simp [hx]
  · rw [hr.head] at hfst
    obtain ⟨ys, rfl⟩ : ∃ ys, xs = n :: ys := by
      cases xs with
      | nil => simp at hfst
      | cons x xs => exact ⟨xs, by simpa using hfst⟩
    rw [hr'.head, List.erase_cons_head]
    cases ys with
    | nil => exact absurd rfl hmany
    | cons y ys =>
      have hring : IsRing m ([] ++ n :: y :: ys) := hr.isRing
      have hlink : m.Linked n y := hring.linked
      exact hlink.1.symm
  · rw [hr'.head, List.head?_eq_none_iff, List.erase_eq_nil_iff]
    exact ⟨fun hc => hc.resolve_left fun e => by simp [e] at hn, .inr⟩

/-- **The pointer lists refine sequences**: every routine does to the circle of a head cell what the
operation of its name does to a sequence, and to nothing else. -/
theorem lists_refine_sequences [Fintype N] (hr : RingAt m h xs) (n : N) (key : N → Nat) :
    (n ∉ xs → ∃ m', osAddNodeTail m h n = some m' ∧ Appended m m' h xs n) ∧
      (n ∉ xs → (xs.Pairwise fun a b => key a ≤ key b) →
        ∃ m' as bs, osAddNodeOrdered m key h n = some m' ∧ Inserted m m' key h xs n as bs) ∧
      (n ∈ xs → (osRemoveNode m h n).2 = 1 ∧ Removed m (osRemoveNode m h n).1 h xs n) := by
  refine ⟨fun hn => ?_, fun hn hs => ?_, fun hn => ?_⟩
  · obtain ⟨m', hm', hr', hsame⟩ := osAddNodeTail_at hr hn
    exact ⟨m', hm', hr', hsame⟩
  · exact osAddNodeOrdered_inserted hr hn hs
  · exact osRemoveNode_removed hr hn

/-- A sorted list of three nodes: one is added at its end and one in its middle, and its first one
is taken out. -/
theorem lists_refine_sequences_three : ∃ m : LinkMem Unit (Fin 5), RingAt m () [0, 1, 3] ∧
    (∃ m', osAddNodeTail m () 4 = some m' ∧ Appended m m' () [0, 1, 3] 4) ∧
    (∃ m' as bs, osAddNodeOrdered m Fin.val () 2 = some m' ∧
      Inserted m m' Fin.val () [0, 1, 3] 2 as bs) ∧
    (osRemoveNode m () 0).2 = 1 ∧ Removed m (osRemoveNode m () 0).1 () [0, 1, 3] 0 := by
  obtain ⟨m, hr⟩ := exists_ringAt () (show [(0 : Fin 5), 1, 3].Nodup by decide)
  exact ⟨m, hr, (lists_refine_sequences hr 4 Fin.val).1 (by decide),
    (lists_refine_sequences hr 2 Fin.val).2.1 (by decide) (by decide),
    (lists_refine_sequences hr 0 Fin.val).2.2 (by decide)⟩

end Eos.Analysis
