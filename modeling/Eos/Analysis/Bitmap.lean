import Eos.Model.Scheduler
import Mathlib.Data.Finset.Max

/-!
# The bitmap is a set of priorities

`Represents r S` says that the two-level bitmap `r` (core/scheduler.c:13-14) holds
exactly the priorities of `S`: bit `p & 7` of byte `p >> 3` is set for the members `p`,
and bit `y` of the group for the non-zero bytes `y`.  `_os_set_ready` inserts,
`_os_unset_ready` deletes, and `_os_get_highest_priority` finds the smallest member.
-/

set_option autoImplicit false

namespace Eos.Analysis

open Eos.Model

/-- The bitmap holds exactly the priorities of `S`, and the group summarises the bytes. -/
structure Represents (r : ReadyList) (S : Nat → Prop) : Prop where
  bit : ∀ p ≤ 63, (r.table (p / 8)).getLsbD (p % 8) = true ↔ S p
  group : ∀ y < 8, r.group.getLsbD y = true ↔ r.table y ≠ 0#8

/-- The bit a mask of `_os_map_table` has. -/
theorem osMapTable_getLsbD {i j : Nat} (hi : i < 8) :
    (osMapTable i).getLsbD j = decide (i = j) := by
  have : ∀ i < 8, ∀ j < 8, (osMapTable i).getLsbD j = decide (i = j) := by decide
  by_cases hj : j < 8
  · exact this i hi j hj
  · have hij : i ≠ j := by omega
    rw [BitVec.getLsbD_of_ge _ _ (by omega), decide_eq_false hij]

/-- **`_os_unmap_table` finds the lowest set bit** of a non-zero byte
(core/scheduler.c:24-47). -/
theorem osUnmap_spec : ∀ v : BitVec 8, v ≠ 0#8 →
    osUnmap v < 8 ∧ v.getLsbD (osUnmap v) = true ∧ ∀ j < osUnmap v, v.getLsbD j = false := by
  decide +kernel

/-- A byte with a set bit is not zero. -/
theorem ne_zero_of_getLsbD {v : BitVec 8} {j : Nat} (h : v.getLsbD j = true) : v ≠ 0#8 := by
  rintro rfl
  simp at h

/-- The shift and the mask of the bitmap routines are division and remainder by eight. -/
theorem byte_and_bit (p : Nat) : p >>> 3 = p / 8 ∧ p &&& 7 = p % 8 :=
  ⟨Nat.shiftRight_eq_div_pow p 3, Nat.and_two_pow_sub_one_eq_mod p 3⟩

namespace Represents

variable {r : ReadyList} {S : Nat → Prop}

/-- The initial bitmap is the empty set. -/
theorem empty : Represents ReadyList.empty fun _ => False where
  bit _ _ := by simp [ReadyList.empty]
  group _ _ := by simp [ReadyList.empty]

/-- A bitmap represents any description of its set. -/
theorem congr {S' : Nat → Prop} (h : Represents r S) (hS : ∀ p ≤ 63, S p ↔ S' p) :
    Represents r S' :=
  ⟨fun p hp => (h.bit p hp).trans (hS p hp), h.group⟩

/-- A set has one bitmap, up to the bytes behind the table. -/
theorem unique {r' : ReadyList} (h : Represents r S) (h' : Represents r' S)
    (hbehind : ∀ y, 8 ≤ y → r.table y = r'.table y) : r = r' := by
  have htable : r.table = r'.table := by
    funext y
    by_cases hy : y < 8
    · apply BitVec.eq_of_getLsbD_eq
      intro i hi
      have hbit := h.bit (8 * y + i) (by omega)
      have hbit' := h'.bit (8 * y + i) (by omega)
      rw [show (8 * y + i) / 8 = y by omega, show (8 * y + i) % 8 = i by omega] at hbit hbit'
      exact Bool.eq_iff_iff.mpr (hbit.trans hbit'.symm)
    · exact hbehind y (Nat.not_lt.mp hy)
  have hgroup : r.group = r'.group := by
    apply BitVec.eq_of_getLsbD_eq
    intro y hy
    rw [Bool.eq_iff_iff, h.group y hy, h'.group y hy, htable]
  cases r
  cases r'
  simp only at htable hgroup
  rw [htable, hgroup]

/-- **`_os_set_ready` inserts** (core/scheduler.c:111-118). -/
theorem osSetReady (h : Represents r S) {p : Nat} (hp : p ≤ 63) :
    Represents (r.osSetReady (int8u p)) fun q => S q ∨ q = p := by
  have hpu : int8u p = p := Nat.mod_eq_of_lt (by omega)
  obtain ⟨hb, hm⟩ := byte_and_bit p
  rw [hpu]
  constructor
  · intro q hq
    simp only [ReadyList.osSetReady, hb, hm]
    by_cases hbyte : q / 8 = p / 8
    · rw [hbyte, Function.update_self, BitVec.getLsbD_or, Bool.or_eq_true, ← hbyte, h.bit q hq,
        osMapTable_getLsbD (by omega), decide_eq_true_eq]
      exact or_congr_right ⟨fun _ => by omega, fun e => by rw [e]⟩
    · rw [Function.update_of_ne hbyte, h.bit q hq]
      exact ⟨Or.inl, fun hc => hc.resolve_right fun e => hbyte (by rw [e])⟩
  · intro y hy
    simp only [ReadyList.osSetReady, hb, hm, BitVec.getLsbD_or, Bool.or_eq_true, h.group y hy]
    rw [osMapTable_getLsbD (by omega), decide_eq_true_eq]
    by_cases hyp : y = p / 8
    · subst hyp
      rw [Function.update_self]
      refine iff_of_true (Or.inr rfl) (ne_zero_of_getLsbD (j := p % 8) ?_)
      rw [BitVec.getLsbD_or, osMapTable_getLsbD (by omega)]
      simp
    · rw [Function.update_of_ne hyp]
      exact ⟨fun hc => hc.resolve_right fun e => hyp e.symm, Or.inl⟩

/-- **`_os_unset_ready` deletes** (core/scheduler.c:121-129). -/
theorem osUnsetReady (h : Represents r S) {p : Nat} (hp : p ≤ 63) :
    Represents (r.osUnsetReady (int8u p)) fun q => S q ∧ q ≠ p := by
  have hpu : int8u p = p := Nat.mod_eq_of_lt (by omega)
  obtain ⟨hb, hm⟩ := byte_and_bit p
  have hbit : ∀ (v : BitVec 8) (j : Nat), j < 8 →
      ((v &&& ~~~osMapTable (p % 8)).getLsbD j = true ↔ v.getLsbD j = true ∧ j ≠ p % 8) := by
    intro v j hj
    rw [BitVec.getLsbD_and, BitVec.getLsbD_not, osMapTable_getLsbD (by omega)]
    have hne : p % 8 = j ↔ j = p % 8 := eq_comm
    simp [hj, hne]
  rw [hpu]
  constructor
  · intro q hq
    simp only [ReadyList.osUnsetReady, hb, hm]
    by_cases hbyte : q / 8 = p / 8
    · rw [hbyte, Function.update_self, hbit _ _ (by omega), ← hbyte, h.bit q hq]
      exact and_congr_right fun _ => ⟨fun hne e => hne (by rw [e]), fun hne => by omega⟩
    · rw [Function.update_of_ne hbyte, h.bit q hq]
      exact ⟨fun hS => ⟨hS, fun e => hbyte (by rw [e])⟩, And.left⟩
  · intro y hy
    simp only [ReadyList.osUnsetReady, hb, hm]
    by_cases hyp : y = p / 8
    · subst hyp
      rw [Function.update_self]
      split
      · next hz =>
        rw [BitVec.getLsbD_and, BitVec.getLsbD_not, osMapTable_getLsbD (by omega)]
        simp [hz]
      · next hz =>
        refine iff_of_true ((h.group _ hy).mpr fun hc => hz ?_) hz
        rw [hc, BitVec.zero_and]
    · rw [Function.update_of_ne hyp, ← h.group y hy]
      split
      · rw [BitVec.getLsbD_and, BitVec.getLsbD_not, osMapTable_getLsbD (by omega)]
        simp [hy, Ne.symm hyp]
      · rfl

/-- Neither routine reaches behind the table. -/
theorem table_behind {p y : Nat} (hp : p ≤ 63) (hy : 8 ≤ y) :
    (r.osSetReady (int8u p)).table y = r.table y ∧
      (r.osUnsetReady (int8u p)).table y = r.table y := by
  have hpu : int8u p = p := Nat.mod_eq_of_lt (by omega)
  have hne : y ≠ p >>> 3 := by
    rw [(byte_and_bit p).1]
    omega
  rw [hpu]
  exact ⟨Function.update_of_ne hne _ _, Function.update_of_ne hne _ _⟩

/-- **`_os_get_highest_priority` finds the smallest member** of a non-empty set
(core/scheduler.c:103-108). -/
theorem osGetHighestPriority (h : Represents r S) {q : Nat} (hq : q ≤ 63) (hS : S q) :
    r.osGetHighestPriority ≤ 63 ∧ S r.osGetHighestPriority ∧
      ∀ p ≤ 63, S p → r.osGetHighestPriority ≤ p := by
  have hbyte : ∀ p ≤ 63, S p → r.group.getLsbD (p / 8) = true := by
    intro p hp hSp
    rw [h.group _ (by omega)]
    exact ne_zero_of_getLsbD ((h.bit p hp).mpr hSp)
  obtain ⟨hy, hgy, hylow⟩ := osUnmap_spec r.group (ne_zero_of_getLsbD (hbyte q hq hS))
  have htab : r.table (osUnmap r.group) ≠ 0#8 := (h.group _ hy).mp hgy
  obtain ⟨hx, htx, hxlow⟩ := osUnmap_spec _ htab
  have hval : r.osGetHighestPriority =
      8 * osUnmap r.group + osUnmap (r.table (osUnmap r.group)) := by
    simp only [ReadyList.osGetHighestPriority, Nat.shiftLeft_eq]
    omega
  rw [hval]
  generalize osUnmap r.group = y at *
  generalize osUnmap (r.table y) = x at *
  refine ⟨by omega, ?_, ?_⟩
  · rw [← h.bit _ (by omega), show (8 * y + x) / 8 = y by omega, show (8 * y + x) % 8 = x by omega]
    exact htx
  · intro p hp hSp
    have hyp : y ≤ p / 8 := by
      by_contra hlt
      have := hbyte p hp hSp
      rw [hylow _ (by omega)] at this
      cases this
    by_cases hpy : p / 8 = y
    · have hxp : x ≤ p % 8 := by
        by_contra hlt
        have := (h.bit p hp).mpr hSp
        rw [hpy, hxlow _ (by omega)] at this
        cases this
      omega
    · omega

end Represents

/-! ## Sequences of calls -/

/-- A call of a routine that changes the bitmap. -/
inductive BitmapCall
  | setReady (priority : Nat)
  | unsetReady (priority : Nat)

namespace BitmapCall

/-- The argument of the call. -/
def priority : BitmapCall → Nat
  | setReady priority | unsetReady priority => priority

/-- What the call does to the bitmap. -/
def exec (r : ReadyList) : BitmapCall → ReadyList
  | setReady priority => r.osSetReady (int8u priority)
  | unsetReady priority => r.osUnsetReady (int8u priority)

/-- What the call is to do to a set of priorities. -/
def effect (S : Finset Nat) : BitmapCall → Finset Nat
  | setReady priority => insert priority S
  | unsetReady priority => S.erase priority

/-- One call. -/
theorem represents {r : ReadyList} {S : Finset Nat} (h : Represents r (· ∈ S)) {c : BitmapCall}
    (hc : c.priority ≤ 63) : Represents (c.exec r) (· ∈ c.effect S) := by
  cases c with
  | setReady p =>
    apply (h.osSetReady hc).congr
    intro q _
    rw [effect, Finset.mem_insert, or_comm]
    exact Iff.rfl
  | unsetReady p =>
    apply (h.osUnsetReady hc).congr
    intro q _
    rw [effect, Finset.mem_erase, and_comm]
    exact Iff.rfl

/-- The calls keep the priorities in range. -/
theorem effect_le {S : Finset Nat} (hS : ∀ q ∈ S, q ≤ 63) {c : BitmapCall} (hc : c.priority ≤ 63) :
    ∀ q ∈ c.effect S, q ≤ 63 := by
  intro q hq
  cases c with
  | setReady p =>
    obtain rfl | hq := Finset.mem_insert.mp hq
    · exact hc
    · exact hS q hq
  | unsetReady p => exact hS q (Finset.mem_of_mem_erase hq)

/-- Any sequence of calls, from a bitmap that represents a set. -/
theorem represents_foldl {calls : List BitmapCall} (hcalls : ∀ c ∈ calls, c.priority ≤ 63)
    {r : ReadyList} {S : Finset Nat} (h : Represents r (· ∈ S)) (hS : ∀ q ∈ S, q ≤ 63) :
    Represents (calls.foldl exec r) (· ∈ calls.foldl effect S) ∧
      ∀ q ∈ calls.foldl effect S, q ≤ 63 := by
  induction calls generalizing r S with
  | nil => exact ⟨h, hS⟩
  | cons c calls ih =>
    have hc := hcalls c List.mem_cons_self
    have hrest : ∀ c ∈ calls, c.priority ≤ 63 := fun c hc => hcalls c (List.mem_cons_of_mem _ hc)
    exact ih hrest (represents h hc) (effect_le hS hc)

end BitmapCall

open BitmapCall in
/-- **The two-level bitmap is a priority set**: behind every sequence of `_os_set_ready` and
`_os_unset_ready` calls its bits are those of the set with the same insertions and deletions, and
the priority it finds is the least one. -/
theorem bitmap_is_set {calls : List BitmapCall} (hcalls : ∀ c ∈ calls, c.priority ≤ 63) :
    (∀ p ≤ 63, ((calls.foldl exec .empty).table (p / 8)).getLsbD (p % 8) = true ↔
        p ∈ calls.foldl effect ∅) ∧
      (∀ y < 8, (calls.foldl exec .empty).group.getLsbD y = true ↔
        (calls.foldl exec .empty).table y ≠ 0#8) ∧
      ∀ hne : (calls.foldl effect ∅).Nonempty,
        (calls.foldl exec .empty).osGetHighestPriority = (calls.foldl effect ∅).min' hne := by
  have hempty : Represents ReadyList.empty (· ∈ (∅ : Finset Nat)) :=
    Represents.empty.congr fun p _ => by simp
  obtain ⟨h, hS⟩ := represents_foldl hcalls hempty fun q hq => absurd hq (by simp)
  refine ⟨h.bit, h.group, fun hne => ?_⟩
  have hmin := Finset.min'_mem _ hne
  obtain ⟨hle, hmem, hleast⟩ := h.osGetHighestPriority (hS _ hmin) hmin
  exact le_antisymm (hleast _ (hS _ hmin) hmin) (Finset.min'_le _ _ hmem)

/-- Two priorities are set, and the one that is set twice is unset again. -/
theorem bitmap_is_set_three :
    ([.setReady 9, .setReady 4, .setReady 4, .unsetReady 4].foldl BitmapCall.exec
      .empty).osGetHighestPriority = 9 := by
  have hcalls : ∀ c ∈ [BitmapCall.setReady 9, .setReady 4, .setReady 4, .unsetReady 4],
      c.priority ≤ 63 := by decide
  exact (bitmap_is_set hcalls).2.2 ⟨9, by decide⟩

end Eos.Analysis
