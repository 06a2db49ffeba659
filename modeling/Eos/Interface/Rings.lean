import Eos.Lib.Refine
import Eos.Model.Common

/-!
# The kernel's lists as sequences

What the pointer lists of `core/common.c` are for: every head cell stands for a
sequence of nodes, and no node is in two of them or twice in one.  `Rings` runs the
kernel code over such sequences.  Its routines have no result where the pointer
code would damage a list: a node is added only if it is in no sequence, and a node
is not taken out through a foreign head cell when its own head cell leads to it.

`RingsOk` (from the library on circular lists) says that links in memory represent
such sequences, and the three theorems at the end say that the pointer code refines
the operations on sequences.
-/

set_option autoImplicit false

namespace Eos.Interface

open Eos.Lib (LinkMem RingsOk RingAt SameBut Refines IsRing ringAt_singleton sameBut_singleton
  sameBut_spliceTail ringAt_clear sameBut_unlink)
open Eos.Model

/-- A sequence of nodes for every head cell. -/
structure Rings (H N : Type) where
  /-- The sequence a head cell stands for. -/
  ring : H → List N

section Operations

variable {H N : Type} [DecidableEq H] [DecidableEq N]

/-- A node is in the sequence of some head cell. -/
def Linked (r : Rings H N) (n : N) : Prop := ∃ h, n ∈ r.ring h

/-- Replace the sequence of one head cell. -/
def Rings.set (r : Rings H N) (h : H) (xs : List N) : Rings H N :=
  ⟨Function.update r.ring h xs⟩

omit [DecidableEq N] in
/-- Only the sequence that is replaced changes. -/
@[simp] theorem Rings.set_ring (r : Rings H N) (h : H) (xs : List N) :
    (r.set h xs).ring = Function.update r.ring h xs := rfl

/-- The place of a node in a sequence kept by ascending keys: behind the leading nodes
whose keys do not exceed its own. -/
def insertOrdered (key : N → Nat) (n : N) (xs : List N) : List N :=
  xs.takeWhile (fun x => key x ≤ key n) ++ n :: xs.dropWhile (fun x => key x ≤ key n)

omit [DecidableEq N] in
/-- An insertion adds the node and drops none. -/
theorem mem_insertOrdered {key : N → Nat} {n u : N} {xs : List N} :
    u ∈ insertOrdered key n xs ↔ u = n ∨ u ∈ xs := by
  unfold insertOrdered
  conv_rhs => rw [← List.takeWhile_append_dropWhile (p := fun x => key x ≤ key n) (l := xs)]
  simp only [List.mem_append, List.mem_cons]
  tauto

open Classical in
/-- Append a node that is in no sequence. -/
noncomputable def Rings.addTail (r : Rings H N) (h : H) (n : N) : Option (Rings H N) :=
  if Linked r n then none else some (r.set h (r.ring h ++ [n]))

open Classical in
/-- Insert a node that is in no sequence at the place of its key. -/
noncomputable def Rings.addOrdered (r : Rings H N) (key : N → Nat) (h : H) (n : N) :
    Option (Rings H N) :=
  if Linked r n then none else some (r.set h (insertOrdered key n (r.ring h)))

open Classical in
/-- Take a node out.  A node of another sequence than the one named may be taken out
only if it is not the first there. -/
noncomputable def Rings.remove (r : Rings H N) (h : H) (n : N) : Option (Rings H N) :=
  if n ∈ r.ring h then some (r.set h ((r.ring h).erase n))
  else if hl : Linked r n then
    if (r.ring hl.choose).head? = some n then none
    else some (r.set hl.choose ((r.ring hl.choose).erase n))
  else some r

end Operations

noncomputable instance : NodeLists Rings where
  empty := ⟨fun _ => []⟩
  head r h := (r.ring h).head?
  osAddNodeTail := Rings.addTail
  osAddNodeOrdered := Rings.addOrdered
  osRemoveNode := Rings.remove

/-! ## The pointer code refines the operations on sequences -/

section Refinement

variable {H N : Type} [DecidableEq H] [DecidableEq N] {m : LinkMem H N} {r : Rings H N}
  {h : H} {n : N}

omit [DecidableEq N] in
/-- Writing back what a head cell holds changes nothing. -/
theorem setHead_self {v : Option N} (hv : m.head h = v) : m.setHead h v = m := by
  simp [LinkMem.setHead, ← hv]

omit [DecidableEq H] in
/-- Linking in before a node whose backward link is known. -/
theorem linkBefore_eq {y p : N} (hp : m.prev y = some p) :
    linkBefore m y n = some (m.spliceTail n y p) := by
  simp [linkBefore, LinkMem.spliceTail, hp]

/-! ### Head cells -/

omit [DecidableEq H] in
/-- Linking a node in writes no head cell. -/
theorem linkBefore_head {m' : LinkMem H N} {y : N} (hm : linkBefore m y n = some m') :
    m'.head = m.head := by
  obtain ⟨p, -, hm⟩ := Option.bind_eq_some_iff.mp hm
  obtain ⟨q, -, hm⟩ := Option.bind_eq_some_iff.mp hm
  cases hm
  rfl

/-- `_os_add_node_tail` leaves the other head cells alone. -/
theorem osAddNodeTail_head {m' : LinkMem H N} {h' : H} (hm : osAddNodeTail m h n = some m')
    (hne : h' ≠ h) : m'.head h' = m.head h' := by
  unfold osAddNodeTail at hm
  split at hm
  · rw [linkBefore_head hm]
  · cases hm
    exact Function.update_of_ne hne _ _

/-- `_os_add_node_ordered` leaves the other head cells alone. -/
theorem osAddNodeOrdered_head [Fintype N] {m' : LinkMem H N} {h' : H} {key : N → Nat}
    (hm : osAddNodeOrdered m key h n = some m') (hne : h' ≠ h) : m'.head h' = m.head h' := by
  unfold osAddNodeOrdered at hm
  split at hm
  · split at hm
    · rw [linkBefore_head hm]
      exact Function.update_of_ne hne _ _
    · obtain ⟨node, -, hm⟩ := Option.bind_eq_some_iff.mp hm
      obtain ⟨node', -, hm⟩ := Option.bind_eq_some_iff.mp hm
      rw [linkBefore_head hm]
  · cases hm
    exact Function.update_of_ne hne _ _

/-- `_os_remove_node` leaves the other head cells alone. -/
theorem osRemoveNode_head (m : LinkMem H N) (n : N) {h' : H} (hne : h' ≠ h) :
    (osRemoveNode m h n).1.head h' = m.head h' := by
  unfold osRemoveNode
  split
  · dsimp only
    split
    · simp [hne]
    · split <;> simp [hne]
  · rfl

/-! ### One list -/

section One

variable {xs : List N}

/-- Linking a node in at the end of a list, whose head cell keeps the first node. -/
theorem linkBefore_first {x : N} {xs : List N} (hr : RingAt m h (x :: xs)) (hn : n ∉ x :: xs) :
    ∃ m', linkBefore m x n = some m' ∧ RingAt m' h (x :: xs ++ [n]) ∧
      SameBut m m' h (n :: x :: xs) := by
  obtain ⟨p, hmem, hp, hr'⟩ := RingAt.spliceBefore (show RingAt m h ([] ++ x :: xs) from hr) hn
    (show x :: xs ++ [] ++ [n] = [] ++ x :: (xs ++ [n]) by simp)
  have hsame := sameBut_spliceTail (m := m) (h := h) (n := n) (s := n :: x :: xs) (y := x) (p := p)
    (by simp) (by simp) (List.mem_cons_of_mem n hmem) (some x)
  have hhead : (m.spliceTail n x p).head h = some x := hr.head
  rw [setHead_self hhead] at hr' hsame
  exact ⟨_, linkBefore_eq hp, by simpa using hr', hsame⟩

/-- **`_os_add_node_tail` appends** (core/common.c:28-39). -/
theorem osAddNodeTail_at (hr : RingAt m h xs) (hn : n ∉ xs) :
    ∃ m', osAddNodeTail m h n = some m' ∧ RingAt m' h (xs ++ [n]) ∧ SameBut m m' h (n :: xs) := by
  unfold osAddNodeTail
  rw [hr.head]
  cases xs with
  | nil => exact ⟨_, rfl, ringAt_singleton m h n, sameBut_singleton m h n⟩
  | cons x xs => exact linkBefore_first hr hn

/-- Every sequence without repetitions is that of a circle. -/
theorem exists_ringAt (h : H) (hx : xs.Nodup) : ∃ m : LinkMem H N, RingAt m h xs := by
  induction xs using List.reverseRecOn with
  | nil => exact ⟨LinkMem.empty, rfl, trivial, hx⟩
  | append_singleton xs n ih =>
    obtain ⟨hxs, -, hn⟩ := List.nodup_append.mp hx
    obtain ⟨m, hm⟩ := ih hxs
    obtain ⟨m', -, hm', -⟩ :=
      osAddNodeTail_at hm fun hc => hn n hc n List.mem_cons_self rfl
    exact ⟨m', hm'⟩

omit [DecidableEq H] [DecidableEq N] in
/-- The scan of `_os_add_node_ordered`, started behind `p`, stops at the first node whose key
exceeds that of the new node, and at the head node if there is none
(core/common.c:55-58). -/
theorem scanOrdered_eq [DecidableEq N] {k : N → Nat} {x : N} (hx : m.head h = some x)
    {rest : List N} {p y : N} {fuel : Nat} (hchain : (p :: rest ++ [x]).IsChain m.Linked)
    (hnx : x ∉ rest) (hfuel : rest.length < fuel) (hy : m.next p = some y) :
    scanOrdered m k h n fuel y =
      some ((rest.dropWhile (fun z => k z ≤ k n)).headD x) := by
  induction rest generalizing p y fuel with
  | nil =>
    obtain ⟨fuel, rfl⟩ : ∃ f, fuel = f + 1 := ⟨fuel - 1, by simp at hfuel; omega⟩
    simp only [List.singleton_append, List.isChain_cons_cons] at hchain
    have hyx : y = x := by simpa [hy] using hchain.1.1
    simp [scanOrdered, hyx, hx]
  | cons q rest ih =>
    obtain ⟨fuel, rfl⟩ : ∃ f, fuel = f + 1 := ⟨fuel - 1, by simp at hfuel; omega⟩
    simp only [List.cons_append, List.isChain_cons_cons] at hchain
    have hyq : y = q := by simpa [hy] using hchain.1.1
    have hqx : q ≠ x := fun e => hnx (by simp [e])
    subst hyq
    by_cases hkey : k y ≤ k n
    · obtain ⟨z, hz⟩ : ∃ z, m.next y = some z := by
        cases rest with
        | nil =>
          simp only [List.nil_append, List.isChain_cons_cons] at hchain
          exact ⟨x, hchain.2.1.1⟩
        | cons z rest =>
          simp only [List.cons_append, List.isChain_cons_cons] at hchain
          exact ⟨z, hchain.2.1.1⟩
      have := ih hchain.2 (fun hc => hnx (by simp [hc])) (Nat.lt_of_succ_lt_succ hfuel) hz
      simp [scanOrdered, hkey, hx, hqx, hz, this]
    · simp [scanOrdered, hkey]

/-- **`_os_add_node_ordered` inserts at the place of the key** (core/common.c:43-66): its loop
ends, and the new node comes behind the leading nodes whose keys do not exceed its own. -/
theorem osAddNodeOrdered_at [Fintype N] (hr : RingAt m h xs) (hn : n ∉ xs) (key : N → Nat) :
    ∃ m', osAddNodeOrdered m key h n = some m' ∧ RingAt m' h (insertOrdered key n xs) ∧
      SameBut m m' h (n :: xs) := by
  unfold osAddNodeOrdered
  rw [hr.head]
  cases xs with
  | nil => exact ⟨_, rfl, ringAt_singleton m h n, sameBut_singleton m h n⟩
  | cons x xs =>
    have hhead : m.head h = some x := hr.head
    simp only [List.head?_cons]
    by_cases hkey : key x ≤ key n
    · rw [if_neg (by omega)]
      obtain ⟨⟨y, -, hy⟩, -⟩ := hr.links (n := x) (by simp)
      have hfuel : xs.length < Fintype.card N := by
        have := hr.nodup.length_le_card
        rwa [List.length_cons] at this
      have hscan := scanOrdered_eq (n := n) (k := key) hhead (p := x) (y := y) hr.isRing
        (List.nodup_cons.mp hr.nodup).1 hfuel hy
      have hsplit :=
        List.takeWhile_append_dropWhile (p := fun z => decide (key z ≤ key n)) (l := xs)
      cases hdw : xs.dropWhile (fun z => key z ≤ key n) with
      | nil =>
        rw [hdw, List.append_nil] at hsplit
        obtain ⟨m', hm', hr', hsame⟩ := linkBefore_first hr hn
        refine ⟨m', by simp [hy, hscan, hdw, hm'], ?_, hsame⟩
        simpa [insertOrdered, hkey, hdw, hsplit] using hr'
      | cons d ds =>
        rw [hdw] at hsplit
        have hxs : x :: xs = (x :: xs.takeWhile fun z => key z ≤ key n) ++ d :: ds := by
          rw [List.cons_append, hsplit]
        rw [hxs] at hr hn
        obtain ⟨p, hmem, hp, hr'⟩ := hr.spliceBefore hn
          (show _ = d :: ds ++ x :: ((xs.takeWhile fun z => key z ≤ key n) ++ [n]) by simp)
        have hsame := sameBut_spliceTail (m := m) (h := h) (n := n) (s := n :: x :: xs) (y := d)
          (p := p) (by simp) (by simp [hxs]) (by rw [hxs]; exact List.mem_cons_of_mem n hmem)
          (some x)
        have hhead' : (m.spliceTail n d p).head h = some x := hhead
        rw [setHead_self hhead'] at hr' hsame
        refine ⟨m.spliceTail n d p, by simp [hy, hscan, hdw, linkBefore_eq hp], ?_, hsame⟩
        simpa [insertOrdered, hkey, hdw] using hr'
    · rw [if_pos (by omega)]
      obtain ⟨p, hmem, hp, hr'⟩ := RingAt.spliceBefore (show RingAt m h ([] ++ x :: xs) from hr) hn
        (show _ = x :: xs ++ n :: [] by simp)
      refine ⟨_, linkBefore_eq (m := m.setHead h (some n)) (by exact hp), ?_, ?_⟩
      · have hnx : insertOrdered key n (x :: xs) = [n] ++ (x :: xs) := by
          simp [insertOrdered, hkey]
        rw [hnx]
        exact hr'
      · exact sameBut_spliceTail (by simp) (by simp) (List.mem_cons_of_mem n hmem) _

/-- `_os_remove_node` reports whether it has taken the node out, and clears its links then. -/
theorem osRemoveNode_links (hq : m.next n ≠ none) (hp : m.prev n ≠ none) (h : H) :
    (osRemoveNode m h n).2 = 1 ∧ (osRemoveNode m h n).1.prev n = none ∧
      (osRemoveNode m h n).1.next n = none := by
  obtain ⟨q, hq⟩ := Option.ne_none_iff_exists'.mp hq
  obtain ⟨p, hp⟩ := Option.ne_none_iff_exists'.mp hp
  simp [osRemoveNode, hp, hq]

/-- A node that is not the first of its list is taken out through any head cell that does not lead
to it, and no head cell changes. -/
theorem osRemoveNode_inner (hr : RingAt m h xs) {h' : H} (hn : n ∈ xs)
    (hfst : xs.head? ≠ some n) (hh' : m.head h' ≠ some n) :
    RingAt (osRemoveNode m h' n).1 h (xs.erase n) ∧ SameBut m (osRemoveNode m h' n).1 h xs ∧
      (osRemoveNode m h' n).1.head = m.head := by
  obtain ⟨as, bs, hxs⟩ := List.append_of_mem hn
  have hne : as ≠ [] := fun e => hfst (by simp [hxs, e])
  have hnas : n ∉ as := by
    have hnd := hr.nodup
    rw [hxs, List.nodup_append] at hnd
    exact fun hc => hnd.2.2 n hc n (by simp) rfl
  have hmem : ∀ b ∈ as ++ bs, b ∈ xs := by
    intro b hb
    rw [hxs]
    simp only [List.mem_append, List.mem_cons] at hb ⊢
    tauto
  have hhead : m.head h = (as ++ bs).head? := by
    rw [hr.head, hxs, List.head?_append_of_ne_nil _ hne, List.head?_append_of_ne_nil _ hne]
  obtain ⟨p, hpm, q, hqm, hp, hq, hpn, hqn, -, hr'⟩ :=
    RingAt.unlink (show RingAt m h (as ++ n :: bs) from hxs ▸ hr) (by simp [hne])
  have hsame := sameBut_unlink (m := m) (h := h) hn (hmem p hpm) (hmem q hqm) (as ++ bs).head?
  have hcode : (osRemoveNode m h' n).1 = m.unlink n p q := by
    simp [osRemoveNode, hp, hq, hqn, Ne.symm hh', LinkMem.unlink]
  have hhead' : (m.unlink n p q).head h = (as ++ bs).head? := hhead
  rw [setHead_self hhead'] at hr' hsame
  have herase : xs.erase n = as ++ bs := by
    rw [hxs, List.erase_append_right _ hnas, List.erase_cons_head]
  rw [hcode, herase]
  exact ⟨hr', hsame, rfl⟩

/-- **`_os_remove_node` takes a node out** (core/common.c:69-88). -/
theorem osRemoveNode_at (hr : RingAt m h xs) (hn : n ∈ xs) :
    RingAt (osRemoveNode m h n).1 h (xs.erase n) ∧ SameBut m (osRemoveNode m h n).1 h xs := by
  by_cases hfst : xs.head? = some n
  · obtain ⟨ys, rfl⟩ : ∃ ys, xs = n :: ys := by
      cases xs with
      | nil => simp at hfst
      | cons x xs => exact ⟨xs, by simpa using hfst⟩
    have hhead : m.head h = some n := hr.head
    rw [List.erase_cons_head]
    cases ys with
    | nil =>
      obtain ⟨hp, hq⟩ := hr.links_singleton
      have hcode : (osRemoveNode m h n).1 = ((m.setHead h none).setNext n none).setPrev n none := by
        simp [osRemoveNode, hp, hq]
      rw [hcode]
      refine ⟨ringAt_clear m h n, fun h' hh => by simp [hh], fun b hb => ?_⟩
      have hbn : b ≠ n := fun e => hb (by simp [e])
      simp [hbn]
    | cons y ys =>
      obtain ⟨p, hpm, q, hqm, hp, hq, hpn, hqn, hqy, hr'⟩ :=
        RingAt.unlink (show RingAt m h ([] ++ n :: y :: ys) from hr) (by simp)
      obtain rfl : q = y := by simpa [eq_comm] using hqy rfl
      have hcode : (osRemoveNode m h n).1 = (m.unlink n p q).setHead h (some q) := by
        simp only [osRemoveNode, hp, hq, hqn, if_false, LinkMem.setPrev_head,
          LinkMem.setNext_head, hhead, if_true]
        rfl
      rw [hcode]
      exact ⟨hr', sameBut_unlink (by simp) (List.mem_cons_of_mem n hpm)
        (List.mem_cons_of_mem n hqm) _⟩
  · obtain ⟨hr', hs, -⟩ := osRemoveNode_inner hr hn hfst (by rwa [hr.head])
    exact ⟨hr', hs⟩

end One

/-! ### All lists -/

omit [DecidableEq N] in
/-- A node that was in no list is in one list now. -/
theorem insert_ok {m' : LinkMem H N} {xs : List N} (hok : RingsOk m r.ring) (hr : RingAt m' h xs)
    (hs : SameBut m m' h (n :: r.ring h)) (hn : ¬Linked r n)
    (hmem : ∀ b, b ∈ xs ↔ b = n ∨ b ∈ r.ring h) : RingsOk m' (r.set h xs).ring := by
  apply hok.change hr hs
  · intro b hb
    exact (List.mem_cons.mp hb).symm.imp_right fun e => (hmem b).mpr (.inl e)
  · intro b hb
    exact ((hmem b).mp hb).symm.imp_right fun (e : b = n) h' hc => hn ⟨h', e ▸ hc⟩
  · intro b hb hx
    exact absurd ((hmem b).mpr (.inr hb)) hx

/-- A node was taken out of its list. -/
theorem erase_ok (hok : RingsOk m r.ring) (hn : n ∈ r.ring h) {h' : H}
    (hr : RingAt (osRemoveNode m h' n).1 h ((r.ring h).erase n))
    (hs : SameBut m (osRemoveNode m h' n).1 h (r.ring h)) :
    RingsOk (osRemoveNode m h' n).1 (r.set h ((r.ring h).erase n)).ring := by
  apply hok.change hr hs fun b hb => .inl hb
  · intro b hb
    exact .inl (List.mem_of_mem_erase hb)
  · intro b hb hx
    obtain rfl : b = n := by
      by_contra hbn
      exact hx ((List.mem_erase_of_ne hbn).mpr hb)
    obtain ⟨⟨q, -, hq⟩, p, -, hp⟩ := (hok.ringAt h).links hn
    exact (osRemoveNode_links (by simp [hq]) (by simp [hp]) h').2

/-- `_os_add_node_tail` appends a node that is in no list. -/
theorem osAddNodeTail_refines (hok : RingsOk m r.ring) :
    Refines (fun m' r' => RingsOk m' (Rings.ring r')) (osAddNodeTail m h n) (r.addTail h n) := by
  intro r' hr'
  unfold Rings.addTail at hr'
  split at hr'
  · cases hr'
  · next hn =>
    cases hr'
    obtain ⟨m', hm', hr, hs⟩ := osAddNodeTail_at (hok.ringAt h) fun hc => hn ⟨h, hc⟩
    exact ⟨m', hm', insert_ok hok hr hs hn fun b => by simp [or_comm]⟩

/-- `_os_add_node_ordered` inserts a node that is in no list. -/
theorem osAddNodeOrdered_refines [Fintype N] {key : N → Nat} (hok : RingsOk m r.ring) :
    Refines (fun m' r' => RingsOk m' (Rings.ring r')) (osAddNodeOrdered m key h n)
      (r.addOrdered key h n) := by
  intro r' hr'
  unfold Rings.addOrdered at hr'
  split at hr'
  · cases hr'
  · next hn =>
    cases hr'
    obtain ⟨m', hm', hr, hs⟩ := osAddNodeOrdered_at (hok.ringAt h) (fun hc => hn ⟨h, hc⟩) key
    exact ⟨m', hm', insert_ok hok hr hs hn fun b => mem_insertOrdered⟩

/-- `_os_remove_node` takes a node out, also through a head cell that leads to another list if the
node is not the first of its own. -/
theorem osRemoveNode_refines (hok : RingsOk m r.ring) :
    Refines (fun m' r' => RingsOk m' (Rings.ring r')) (some (osRemoveNode m h n).1)
      (r.remove h n) := by
  intro r' hr'
  refine ⟨_, rfl, ?_⟩
  unfold Rings.remove at hr'
  split at hr'
  · next hn =>
    cases hr'
    obtain ⟨hr, hs⟩ := osRemoveNode_at (hok.ringAt h) hn
    exact erase_ok hok hn hr hs
  · next hn =>
    split at hr'
    · next hl =>
      split at hr'
      · cases hr'
      · next hfst =>
        cases hr'
        have hh : m.head h ≠ some n := by
          rw [hok.head]
          exact fun hc => hn (List.mem_of_mem_head? hc)
        obtain ⟨hr, hs, -⟩ := osRemoveNode_inner (hok.ringAt _) hl.choose_spec hfst hh
        exact erase_ok hok hl.choose_spec hr hs
    · next hl =>
      cases hr'
      obtain ⟨hp, hq⟩ := hok.unlinked n fun h' hc => hl ⟨h', hc⟩
      simpa [osRemoveNode, hp, hq] using hok

/-! ### One list only -/

/-- When all other lists are empty, `_os_remove_node` takes a node out or does nothing. -/
theorem osRemoveNode_only {ring : H → List N} (hok : RingsOk m ring)
    (hother : ∀ h', h' ≠ h → ring h' = []) (n : N) :
    RingsOk (osRemoveNode m h n).1 (Function.update ring h ((ring h).erase n)) := by
  suffices hremove : Rings.remove ⟨ring⟩ h n =
      some ⟨Function.update ring h ((ring h).erase n)⟩ by
    obtain ⟨m', hm', hok'⟩ := osRemoveNode_refines (r := ⟨ring⟩) hok _ hremove
    cases hm'
    exact hok'
  unfold Rings.remove
  by_cases hn : n ∈ ring h
  · exact if_pos hn
  · have hl : ¬Linked (⟨ring⟩ : Rings H N) n := by
      rintro ⟨h', hc⟩
      by_cases hh : h' = h
      · exact hn (hh ▸ hc)
      · have hempty := hother h' hh
        simp [hempty] at hc
    rw [if_neg hn, dif_neg hl]
    have herase : Function.update ring h ((ring h).erase n) = ring := by
      rw [List.erase_of_not_mem hn, Function.update_eq_self]
    rw [herase]

/-- A node that is in no list is inserted at the place of its key. -/
theorem osAddNodeOrdered_free [Fintype N] {ring : H → List N} (hok : RingsOk m ring)
    (hn : ∀ h', n ∉ ring h') (key : N → Nat) :
    ∃ m', osAddNodeOrdered m key h n = some m' ∧
      RingsOk m' (Function.update ring h (insertOrdered key n (ring h))) := by
  have hadd : Rings.addOrdered ⟨ring⟩ key h n =
      some ⟨Function.update ring h (insertOrdered key n (ring h))⟩ :=
    if_neg fun ⟨h', hc⟩ => hn h' hc
  exact osAddNodeOrdered_refines (r := ⟨ring⟩) hok _ hadd

omit [DecidableEq N] in
/-- The place of a node depends only on which keys exceed its own. -/
theorem dropWhile_keys {key key' : N → Nat} {xs : List N}
    (h : ∀ x ∈ xs, key x ≤ key n ↔ key' x ≤ key' n) :
    xs.dropWhile (fun x => decide (key x ≤ key n)) =
      xs.dropWhile fun x => decide (key' x ≤ key' n) := by
  induction xs with
  | nil => rfl
  | cons x xs ih =>
    have hx := h x List.mem_cons_self
    have ih := ih fun y hy => h y (List.mem_cons_of_mem x hy)
    simp only [List.dropWhile_cons, hx, ih]

/-- An ordered insertion depends on how the new key compares with those in the list. -/
theorem osAddNodeOrdered_congr [Fintype N] {ring : H → List N} {key key' : N → Nat}
    (hok : RingsOk m ring) (hkey : ∀ x ∈ ring h, key x ≤ key n ↔ key' x ≤ key' n) :
    osAddNodeOrdered m key h n = osAddNodeOrdered m key' h n := by
  unfold osAddNodeOrdered
  rw [hok.head]
  cases hxs : ring h with
  | nil => rfl
  | cons x xs =>
    have hhead : m.head h = some x := by rw [hok.head, hxs, List.head?_cons]
    have hring := hok.isRing h
    have hnd := hok.nodup h
    rw [hxs] at hring hnd hkey
    have hx := hkey x List.mem_cons_self
    simp only [List.head?_cons]
    by_cases hle : key x ≤ key n
    · rw [if_neg (by omega), if_neg (by omega)]
      obtain ⟨⟨y, -, hy⟩, -⟩ := hring.links (n := x) List.mem_cons_self
      have hfuel : xs.length < Fintype.card N := by
        have := hnd.length_le_card
        rwa [List.length_cons] at this
      have hscan := fun k => scanOrdered_eq (n := n) (k := k) hhead (p := x) (y := y) hring
        (List.nodup_cons.mp hnd).1 hfuel hy
      have hdrop : xs.dropWhile (fun z => decide (key z ≤ key n)) =
          xs.dropWhile fun z => decide (key' z ≤ key' n) :=
        dropWhile_keys fun z hz => hkey z (List.mem_cons_of_mem x hz)
      simp only [hy, Option.bind_eq_bind, Option.bind_some, hscan, hdrop]
    · rw [if_pos (by omega), if_pos (by omega)]

end Refinement

end Eos.Interface
