import Mathlib.Data.Fintype.Card
import Mathlib.Data.List.Chain
import Mathlib.Logic.Function.Basic

/-!
# Circular doubly linked lists in a memory of links

A `LinkMem H N` is the memory such lists live in: a head cell for every `h : H`
and a `prev` and a `next` link for every node `n : N`, each possibly null.
`IsRing m xs` says that the links of `m` close the sequence `xs` into a circle,
and `RingsOk m ring` that every head cell `h` leads to the circle of `ring h`,
that no node lies in two circles or twice in one, and that both links of every
other node are null.

The rules for one circle, `RingAt`, say what a memory represents after the pointer
updates list code is made of, and `SameBut` what they leave alone: `spliceTail` closes
a circle through one more node, `unlink` closes it past a node.  `RingsOk.change` turns
them into rules for the whole memory.
-/

set_option autoImplicit false

namespace Eos.Lib

variable {H N : Type} [DecidableEq H] [DecidableEq N]

/-- Head cells and links of circular doubly linked lists. -/
structure LinkMem (H N : Type) where
  /-- The content of a head cell. -/
  head : H → Option N
  /-- The backward link of a node. -/
  prev : N → Option N
  /-- The forward link of a node. -/
  next : N → Option N

namespace LinkMem

/-- The memory in which every cell is null. -/
def empty : LinkMem H N := ⟨fun _ => none, fun _ => none, fun _ => none⟩

/-- Write a head cell. -/
def setHead (m : LinkMem H N) (h : H) (v : Option N) : LinkMem H N :=
  { m with head := Function.update m.head h v }

/-- Write a backward link. -/
def setPrev (m : LinkMem H N) (n : N) (v : Option N) : LinkMem H N :=
  { m with prev := Function.update m.prev n v }

/-- Write a forward link. -/
def setNext (m : LinkMem H N) (n : N) (v : Option N) : LinkMem H N :=
  { m with next := Function.update m.next n v }

omit [DecidableEq N] in
/-- Writing a head cell changes this cell only. -/
@[simp] theorem setHead_head (m : LinkMem H N) (h : H) (v : Option N) :
    (m.setHead h v).head = Function.update m.head h v := rfl

omit [DecidableEq N] in
/-- Writing a head cell changes no backward link. -/
@[simp] theorem setHead_prev (m : LinkMem H N) (h : H) (v : Option N) :
    (m.setHead h v).prev = m.prev := rfl

omit [DecidableEq N] in
/-- Writing a head cell changes no forward link. -/
@[simp] theorem setHead_next (m : LinkMem H N) (h : H) (v : Option N) :
    (m.setHead h v).next = m.next := rfl

omit [DecidableEq H] in
/-- Writing a backward link changes no head cell. -/
@[simp] theorem setPrev_head (m : LinkMem H N) (n : N) (v : Option N) :
    (m.setPrev n v).head = m.head := rfl

omit [DecidableEq H] in
/-- Writing a backward link changes this link only. -/
@[simp] theorem setPrev_prev (m : LinkMem H N) (n : N) (v : Option N) :
    (m.setPrev n v).prev = Function.update m.prev n v := rfl

omit [DecidableEq H] in
/-- Writing a backward link changes no forward link. -/
@[simp] theorem setPrev_next (m : LinkMem H N) (n : N) (v : Option N) :
    (m.setPrev n v).next = m.next := rfl

omit [DecidableEq H] in
/-- Writing a forward link changes no head cell. -/
@[simp] theorem setNext_head (m : LinkMem H N) (n : N) (v : Option N) :
    (m.setNext n v).head = m.head := rfl

omit [DecidableEq H] in
/-- Writing a forward link changes no backward link. -/
@[simp] theorem setNext_prev (m : LinkMem H N) (n : N) (v : Option N) :
    (m.setNext n v).prev = m.prev := rfl

omit [DecidableEq H] in
/-- Writing a forward link changes this link only. -/
@[simp] theorem setNext_next (m : LinkMem H N) (n : N) (v : Option N) :
    (m.setNext n v).next = Function.update m.next n v := rfl

/-- The links between two neighbours, in both directions. -/
def Linked (m : LinkMem H N) (a b : N) : Prop := m.next a = some b ∧ m.prev b = some a

/-- Close the circle from `last` to `first` through the new node `n`. -/
def spliceTail (m : LinkMem H N) (n first last : N) : LinkMem H N :=
  (((m.setPrev n (some last)).setNext last (some n)).setNext n (some first)).setPrev first (some n)

/-- Link the neighbours `p` and `q` of `n` with each other and clear the links of `n`. -/
def unlink (m : LinkMem H N) (n p q : N) : LinkMem H N :=
  (((m.setNext p (some q)).setPrev q (some p)).setNext n none).setPrev n none

end LinkMem

/-! ## One circle -/

/-- The links of `m` close `xs` into a circle. -/
def IsRing (m : LinkMem H N) : List N → Prop
  | [] => True
  | x :: xs => (x :: xs ++ [x]).IsChain m.Linked

omit [DecidableEq H] [DecidableEq N] in
/-- A chain keeps its relation through any change that respects the steps it takes:
from a node that is not the last one to a node that is not the first one. -/
theorem isChain_congr {R S : N → N → Prop} {l : List N} (h : l.IsChain R)
    (hRS : ∀ a ∈ l.dropLast, ∀ b ∈ l.tail, R a b → S a b) : l.IsChain S := by
  induction l with
  | nil => exact .nil
  | cons a l ih =>
    cases l with
    | nil => exact .singleton a
    | cons b l =>
      rw [List.isChain_cons_cons] at h ⊢
      refine ⟨hRS a (by simp) b (by simp) h.1, ih h.2 fun c hc d hd => ?_⟩
      exact hRS c (by simp [hc]) d (List.mem_of_mem_tail hd)

omit [DecidableEq H] [DecidableEq N] in
/-- A circle may be read from any of its nodes. -/
theorem IsRing.rotate {m : LinkMem H N} {xs ys : List N} (h : IsRing m (xs ++ ys)) :
    IsRing m (ys ++ xs) := by
  cases xs with
  | nil => simpa using h
  | cons x xs =>
    cases ys with
    | nil => simpa using h
    | cons y ys =>
      have h' : (x :: xs ++ y :: (ys ++ [x])).IsChain m.Linked := by
        simpa [IsRing] using h
      rw [List.isChain_split] at h'
      have : (y :: ys ++ x :: (xs ++ [y])).IsChain m.Linked := by
        rw [List.isChain_split]
        exact ⟨h'.2, h'.1⟩
      simpa [IsRing] using this

omit [DecidableEq H] [DecidableEq N] in
/-- A circle is an open chain whose last node is linked with the first. -/
theorem isRing_cons_iff {m : LinkMem H N} {x : N} {xs : List N} :
    IsRing m (x :: xs) ↔
      (x :: xs).IsChain m.Linked ∧ m.Linked ((x :: xs).getLast (List.cons_ne_nil _ _)) x := by
  show (x :: xs ++ [x]).IsChain m.Linked ↔ _
  rw [List.isChain_append]
  simp [List.getLast?_eq_getLast_of_ne_nil]

omit [DecidableEq H] [DecidableEq N] in
/-- A circle only depends on the links of its own nodes. -/
theorem IsRing.congr {m m' : LinkMem H N} {xs : List N} (h : IsRing m xs)
    (hp : ∀ n ∈ xs, m'.prev n = m.prev n) (hn : ∀ n ∈ xs, m'.next n = m.next n) :
    IsRing m' xs := by
  cases xs with
  | nil => trivial
  | cons x xs =>
    rw [isRing_cons_iff] at h ⊢
    refine ⟨isChain_congr h.1 fun a ha b hb hab => ?_, ?_⟩
    · exact ⟨(hn a (List.dropLast_subset _ ha)).trans hab.1,
        (hp b (List.mem_of_mem_tail hb)).trans hab.2⟩
    · exact ⟨(hn _ (List.getLast_mem _)).trans h.2.1, (hp x (by simp)).trans h.2.2⟩

omit [DecidableEq H] [DecidableEq N] in
/-- Neighbours in a circle are linked. -/
theorem IsRing.linked {m : LinkMem H N} {xs ys : List N} {a b : N}
    (h : IsRing m (xs ++ a :: b :: ys)) : m.Linked a b := by
  have hr : IsRing m (a :: (b :: (ys ++ xs))) := by simpa using h.rotate
  exact (List.isChain_cons_cons.mp (isRing_cons_iff.mp hr).1).1

omit [DecidableEq H] [DecidableEq N] in
/-- Both links of a node of a circle lead to nodes of the circle. -/
theorem IsRing.links {m : LinkMem H N} {xs : List N} (h : IsRing m xs) {n : N} (hn : n ∈ xs) :
    (∃ b ∈ xs, m.next n = some b) ∧ ∃ a ∈ xs, m.prev n = some a := by
  obtain ⟨ys, zs, rfl⟩ := List.append_of_mem hn
  have hr : IsRing m (n :: (zs ++ ys)) := by simpa using h.rotate
  have hmem : ∀ b, b ∈ n :: (zs ++ ys) → b ∈ ys ++ n :: zs := by
    intro b hb
    simp only [List.mem_append, List.mem_cons] at hb ⊢
    tauto
  constructor
  · have hchain : (n :: (zs ++ ys) ++ [n]).IsChain m.Linked := hr
    cases hzy : zs ++ ys with
    | nil =>
      simp only [hzy, List.singleton_append, List.isChain_cons_cons] at hchain
      exact ⟨n, hn, hchain.1.1⟩
    | cons b l =>
      simp only [hzy, List.cons_append, List.isChain_cons_cons] at hchain
      exact ⟨b, hmem b (by simp [hzy]), hchain.1.1⟩
  · rw [isRing_cons_iff] at hr
    exact ⟨_, hmem _ (List.getLast_mem _), hr.2.2⟩

omit [DecidableEq H] [DecidableEq N] in
/-- Two memories that close the same sequence into a circle have the same links there. -/
theorem IsRing.links_eq {m m' : LinkMem H N} {xs : List N} (h : IsRing m xs) (h' : IsRing m' xs)
    {n : N} (hn : n ∈ xs) : m.prev n = m'.prev n ∧ m.next n = m'.next n := by
  obtain ⟨ys, zs, rfl⟩ := List.append_of_mem hn
  have hr : IsRing m (n :: (zs ++ ys)) := by simpa using h.rotate
  have hr' : IsRing m' (n :: (zs ++ ys)) := by simpa using h'.rotate
  constructor
  · exact (isRing_cons_iff.mp hr).2.2.trans (isRing_cons_iff.mp hr').2.2.symm
  · have hchain : (n :: (zs ++ ys) ++ [n]).IsChain m.Linked := hr
    have hchain' : (n :: (zs ++ ys) ++ [n]).IsChain m'.Linked := hr'
    cases hzy : zs ++ ys with
    | nil =>
      rw [hzy, List.singleton_append, List.isChain_cons_cons] at hchain hchain'
      exact hchain.1.1.trans hchain'.1.1.symm
    | cons b l =>
      rw [hzy, List.cons_append, List.cons_append, List.isChain_cons_cons] at hchain hchain'
      exact hchain.1.1.trans hchain'.1.1.symm

omit [DecidableEq H] [DecidableEq N] in
/-- In a sequence without repetition only the last place holds the last node. -/
theorem ne_getLast_of_mem_dropLast {l : List N} (hl : l.Nodup) (hne : l ≠ []) {a : N}
    (ha : a ∈ l.dropLast) : a ≠ l.getLast hne := by
  rintro rfl
  rw [← List.dropLast_append_getLast hne, List.nodup_append] at hl
  exact hl.2.2 _ ha _ (by simp) rfl

omit [DecidableEq H] in
/-- Splicing a node between the last and the first node of a circle appends it. -/
theorem IsRing.spliceTail {m : LinkMem H N} {x n : N} {xs : List N} (h : IsRing m (x :: xs))
    (hd : (x :: xs).Nodup) (hn : n ∉ x :: xs) :
    IsRing (m.spliceTail n x ((x :: xs).getLast (List.cons_ne_nil _ _))) (x :: xs ++ [n]) := by
  rw [isRing_cons_iff] at h
  have hlast : (x :: xs).getLast (List.cons_ne_nil _ _) ≠ n := fun e => hn (e ▸ List.getLast_mem _)
  have hxn : x ≠ n := fun e => hn (by simp [e])
  refine isRing_cons_iff.mpr ⟨(show (x :: xs).IsChain _ from ?_).append (.singleton n) ?_, ?_⟩
  · refine isChain_congr h.1 fun a ha b hb hab => ?_
    have ha1 : a ≠ (x :: xs).getLast (List.cons_ne_nil _ _) := ne_getLast_of_mem_dropLast hd _ ha
    have ha2 : a ≠ n := fun e => hn (e ▸ List.dropLast_subset _ ha)
    have hb1 : b ≠ x := fun e => (List.nodup_cons.mp hd).1 (e ▸ hb)
    have hb2 : b ≠ n := fun e => hn (e ▸ List.mem_of_mem_tail hb)
    simpa [LinkMem.Linked, LinkMem.spliceTail, ha1, ha2, hb1, hb2] using hab
  · simp [LinkMem.Linked, LinkMem.spliceTail, List.getLast?_eq_getLast_of_ne_nil, hlast, hxn.symm]
  · simp [LinkMem.Linked, LinkMem.spliceTail]

omit [DecidableEq H] in
/-- Unlinking a node of a circle of several nodes leaves the circle of the others. -/
theorem IsRing.unlink {m : LinkMem H N} {n x : N} {xs : List N} (h : IsRing m (n :: x :: xs))
    (hd : (n :: x :: xs).Nodup) :
    IsRing (m.unlink n ((x :: xs).getLast (List.cons_ne_nil _ _)) x) (x :: xs) := by
  rw [isRing_cons_iff, List.isChain_cons_cons] at h
  obtain ⟨hn, hd'⟩ := List.nodup_cons.mp hd
  have hlast : (x :: xs).getLast (List.cons_ne_nil _ _) ≠ n := fun e => hn (e ▸ List.getLast_mem _)
  have hxn : x ≠ n := fun e => hn (by simp [e])
  rw [isRing_cons_iff]
  refine ⟨isChain_congr h.1.2 fun a ha b hb hab => ?_, ?_⟩
  · have ha1 : a ≠ (x :: xs).getLast (List.cons_ne_nil _ _) := ne_getLast_of_mem_dropLast hd' _ ha
    have ha2 : a ≠ n := fun e => hn (e ▸ List.dropLast_subset _ ha)
    have hb1 : b ≠ x := fun e => (List.nodup_cons.mp hd').1 (e ▸ hb)
    have hb2 : b ≠ n := fun e => hn (e ▸ List.mem_of_mem_tail hb)
    simpa [LinkMem.Linked, LinkMem.unlink, ha1, ha2, hb1, hb2] using hab
  · simp [LinkMem.Linked, LinkMem.unlink, hlast, hxn]

/-! ## One circle and its head cell -/

/-- The head cell `h` leads to the circle of `xs`, in which no node occurs twice. -/
structure RingAt (m : LinkMem H N) (h : H) (xs : List N) : Prop where
  head : m.head h = xs.head?
  isRing : IsRing m xs
  nodup : xs.Nodup

/-- The memories differ at most in the head cell `h` and in the links of the nodes of `s`. -/
structure SameBut (m m' : LinkMem H N) (h : H) (s : List N) : Prop where
  head : ∀ h' ≠ h, m'.head h' = m.head h'
  links : ∀ n ∉ s, m'.prev n = m.prev n ∧ m'.next n = m.next n

omit [DecidableEq H] [DecidableEq N] in
/-- A circle stays where neither its head cell nor its links change. -/
theorem RingAt.frame {m m' : LinkMem H N} {h h' : H} {xs s : List N} (hr : RingAt m h' xs)
    (hs : SameBut m m' h s) (hh : h' ≠ h) (hd : ∀ n ∈ xs, n ∉ s) : RingAt m' h' xs where
  head := (hs.head h' hh).trans hr.head
  isRing := hr.isRing.congr (fun n hn => (hs.links n (hd n hn)).1) fun n hn =>
    (hs.links n (hd n hn)).2
  nodup := hr.nodup

omit [DecidableEq H] [DecidableEq N] in
/-- Both links of a node of the circle lead to nodes of the circle. -/
theorem RingAt.links {m : LinkMem H N} {h : H} {xs : List N} (hr : RingAt m h xs) {n : N}
    (hn : n ∈ xs) : (∃ b ∈ xs, m.next n = some b) ∧ ∃ a ∈ xs, m.prev n = some a :=
  hr.isRing.links hn

omit [DecidableEq H] [DecidableEq N] in
/-- Two chains from `p` to `x` that do not pass through `x` are the same. -/
theorem isChain_unique {m : LinkMem H N} {p x : N} {xs ys : List N}
    (h : (p :: (xs ++ [x])).IsChain m.Linked) (h' : (p :: (ys ++ [x])).IsChain m.Linked)
    (hx : x ∉ xs) (hy : x ∉ ys) : xs = ys := by
  induction xs generalizing p ys with
  | nil =>
    cases ys with
    | nil => rfl
    | cons y ys =>
      have hnext := (List.isChain_cons_cons.mp h).1.1
      have hnext' := (List.isChain_cons_cons.mp h').1.1
      have hxy : x = y := Option.some.inj (hnext.symm.trans hnext')
      exact absurd hxy (List.ne_of_not_mem_cons hy)
  | cons z xs ih =>
    obtain ⟨hlink, hrest⟩ := List.isChain_cons_cons.mp h
    cases ys with
    | nil =>
      have hnext' := (List.isChain_cons_cons.mp h').1.1
      have hzx : x = z := Option.some.inj (hnext'.symm.trans hlink.1)
      exact absurd hzx (List.ne_of_not_mem_cons hx)
    | cons y ys =>
      obtain ⟨hlink', hrest'⟩ := List.isChain_cons_cons.mp h'
      obtain rfl : z = y := Option.some.inj (hlink.1.symm.trans hlink'.1)
      rw [ih hrest hrest' (List.not_mem_of_not_mem_cons hx) (List.not_mem_of_not_mem_cons hy)]

omit [DecidableEq H] [DecidableEq N] in
/-- A head cell leads to one circle only. -/
theorem RingAt.unique {m : LinkMem H N} {h : H} {xs ys : List N} (hr : RingAt m h xs)
    (hr' : RingAt m h ys) : xs = ys := by
  have hhead := hr.head.symm.trans hr'.head
  cases xs with
  | nil => exact (List.head?_eq_none_iff.mp hhead.symm).symm
  | cons x xs =>
    cases ys with
    | nil => cases hhead
    | cons y ys =>
      obtain rfl : x = y := Option.some.inj hhead
      rw [isChain_unique hr.isRing hr'.isRing (List.nodup_cons.mp hr.nodup).1
        (List.nodup_cons.mp hr'.nodup).1]

/-! ## The nodes of a circle -/

/-- The nodes from `n` on, up to the one whose forward link leads back to the head node. -/
def LinkMem.nodesFrom (m : LinkMem H N) (h : H) : Nat → N → List N
  | 0, _ => []
  | fuel + 1, n =>
    n :: match m.next n with
      | none => []
      | some next => if m.head h = some next then [] else m.nodesFrom h fuel next

/-- The nodes a head cell leads to. -/
def LinkMem.nodes [Fintype N] (m : LinkMem H N) (h : H) : List N :=
  match m.head h with
  | none => []
  | some n => m.nodesFrom h (Fintype.card N) n

omit [DecidableEq H] in
/-- The walk along the forward links of a circle finds its nodes in order, up to the head node. -/
theorem nodesFrom_eq {m : LinkMem H N} {h : H} {x : N} (hx : m.head h = some x) {rest : List N}
    {p : N} {fuel : Nat} (hchain : (p :: rest ++ [x]).IsChain m.Linked) (hnx : x ∉ rest)
    (hfuel : rest.length < fuel) : m.nodesFrom h fuel p = p :: rest := by
  induction rest generalizing p fuel with
  | nil =>
    obtain ⟨fuel, rfl⟩ : ∃ f, fuel = f + 1 := ⟨fuel - 1, by simp at hfuel; omega⟩
    have hnext : m.next p = some x := (List.isChain_cons_cons.mp hchain).1.1
    rw [LinkMem.nodesFrom, hnext]
    simp only
    rw [if_pos hx]
  | cons q rest ih =>
    obtain ⟨fuel, rfl⟩ : ∃ f, fuel = f + 1 := ⟨fuel - 1, by simp at hfuel; omega⟩
    obtain ⟨hlink, hchain⟩ := List.isChain_cons_cons.mp hchain
    have hqx : q ≠ x := fun e => hnx (e ▸ List.mem_cons_self)
    rw [LinkMem.nodesFrom, hlink.1]
    simp only
    rw [if_neg (fun he => hqx (Option.some.inj (he.symm.trans hx))),
      ih hchain (List.not_mem_of_not_mem_cons hnx) (Nat.lt_of_succ_lt_succ hfuel)]

omit [DecidableEq H] in
/-- **The nodes are those of the circle**, in its order. -/
theorem RingAt.nodes_eq [Fintype N] {m : LinkMem H N} {h : H} {xs : List N}
    (hr : RingAt m h xs) : m.nodes h = xs := by
  unfold LinkMem.nodes
  rw [hr.head]
  cases xs with
  | nil => rfl
  | cons x xs =>
    apply nodesFrom_eq hr.head hr.isRing (List.nodup_cons.mp hr.nodup).1
    exact hr.nodup.length_le_card

section Edits

variable {m : LinkMem H N} {h : H} {xs ys us vs : List N} {n y z p q : N}

/-- A node that is made its own neighbour and entered in a head cell is a circle. -/
theorem ringAt_singleton (m : LinkMem H N) (h : H) (n : N) :
    RingAt (((m.setHead h (some n)).setPrev n (some n)).setNext n (some n)) h [n] where
  head := by simp
  isRing := isRing_cons_iff.mpr ⟨.singleton n, by simp [LinkMem.Linked]⟩
  nodup := by simp

/-- A node that becomes the only one of a list. -/
theorem sameBut_singleton (m : LinkMem H N) (h : H) (n : N) :
    SameBut m (((m.setHead h (some n)).setPrev n (some n)).setNext n (some n)) h [n] where
  head h' hh := by simp [hh]
  links b hb := by
    rw [List.mem_singleton] at hb
    simp [hb]

/-- **Inserting before a node.** Splicing a node in before a node `y` of a circle inserts it
there; the head cell then leads to any node `z` of the new circle. -/
theorem RingAt.spliceBefore (hr : RingAt m h (xs ++ y :: ys)) (hn : n ∉ xs ++ y :: ys)
    (hz : y :: ys ++ xs ++ [n] = us ++ z :: vs) :
    ∃ p ∈ xs ++ y :: ys, m.prev y = some p ∧
      RingAt ((m.spliceTail n y p).setHead h (some z)) h (z :: vs ++ us) := by
  have hperm : (xs ++ y :: ys).Perm (y :: (ys ++ xs)) := List.perm_append_comm
  have hrot : IsRing m (y :: (ys ++ xs)) := hr.isRing.rotate
  have hnd : (y :: (ys ++ xs)).Nodup := hperm.nodup_iff.mp hr.nodup
  have hn' : n ∉ y :: (ys ++ xs) := fun hc => hn (hperm.mem_iff.mpr hc)
  refine ⟨_, hperm.mem_iff.mpr (List.getLast_mem (List.cons_ne_nil y (ys ++ xs))),
    (isRing_cons_iff.mp hrot).2.2, by simp, ?_, ?_⟩
  · have hnew := hrot.spliceTail hnd hn'
    rw [show y :: (ys ++ xs) ++ [n] = us ++ z :: vs from hz] at hnew
    exact hnew.rotate.congr (fun _ _ => rfl) fun _ _ => rfl
  · have hnew : (us ++ z :: vs).Nodup := by
      rw [← hz]
      exact List.nodup_append.mpr ⟨hnd, by simp, fun a ha b hb e => hn' (by simp_all)⟩
    exact List.perm_append_comm.nodup_iff.mp hnew

/-- A node that is linked in between two others changes these three and the head cell. -/
theorem sameBut_spliceTail {s : List N} (hn : n ∈ s) (hy : y ∈ s) (hp : p ∈ s)
    (v : Option N) : SameBut m ((m.spliceTail n y p).setHead h v) h s where
  head h' hh := by simp [LinkMem.spliceTail, hh]
  links b hb := by
    have h1 : b ≠ n := fun e => hb (e ▸ hn)
    have h2 : b ≠ y := fun e => hb (e ▸ hy)
    have h3 : b ≠ p := fun e => hb (e ▸ hp)
    simp [LinkMem.spliceTail, h1, h2, h3]

omit [DecidableEq H] [DecidableEq N] in
/-- The only node of a circle has itself as neighbour, on both sides. -/
theorem RingAt.links_singleton (hr : RingAt m h [n]) : m.prev n = some n ∧ m.next n = some n :=
  ⟨(isRing_cons_iff.mp hr.isRing).2.2, (isRing_cons_iff.mp hr.isRing).2.1⟩

/-- A null head cell leads to no node. -/
theorem ringAt_clear (m : LinkMem H N) (h : H) (n : N) :
    RingAt (((m.setHead h none).setNext n none).setPrev n none) h [] where
  head := by simp
  isRing := trivial
  nodup := List.nodup_nil

/-- A node of a circle of several nodes has two neighbours in the rest of the circle; unlinking it
leaves the circle of the others, which a head cell leads to that is moved off it. -/
theorem RingAt.unlink (hr : RingAt m h (xs ++ n :: ys)) (hmany : xs ++ ys ≠ []) :
    ∃ p ∈ xs ++ ys, ∃ q ∈ xs ++ ys, m.prev n = some p ∧ m.next n = some q ∧ p ≠ n ∧ q ≠ n ∧
      (xs = [] → ys.head? = some q) ∧
      RingAt ((m.unlink n p q).setHead h (xs ++ ys).head?) h (xs ++ ys) := by
  obtain ⟨q, l, hl⟩ : ∃ q l, ys ++ xs = q :: l :=
    List.exists_cons_of_ne_nil fun hc => hmany (by simp_all)
  have hring : IsRing m (n :: q :: l) := by
    have := hr.isRing.rotate
    rwa [List.cons_append, hl] at this
  have hnd : (n :: q :: l).Nodup := by
    have := List.perm_append_comm.nodup_iff.mp hr.nodup
    rwa [List.cons_append, hl] at this
  obtain ⟨hchain, hlast⟩ := isRing_cons_iff.mp hring
  rw [List.isChain_cons_cons] at hchain
  have hnql : n ∉ q :: l := (List.nodup_cons.mp hnd).1
  have hmem : ∀ b, b ∈ q :: l → b ∈ xs ++ ys := by
    intro b hb
    rwa [← hl, List.mem_append, or_comm, ← List.mem_append] at hb
  refine ⟨_, hmem _ (List.getLast_mem (List.cons_ne_nil q l)), q, hmem q List.mem_cons_self, ?_,
    hchain.1.1, fun e => hnql (e ▸ List.getLast_mem _), fun e => hnql (by simp [e]), ?_, by simp,
    ?_, ?_⟩
  · simpa using hlast.2
  · rintro rfl
    simp_all
  · have hnew := hring.unlink hnd
    generalize (q :: l).getLast (List.cons_ne_nil _ _) = p at hnew ⊢
    rw [← hl] at hnew
    exact hnew.rotate.congr (fun _ _ => rfl) fun _ _ => rfl
  · rw [List.perm_append_comm.nodup_iff, hl]
    exact (List.nodup_cons.mp hnd).2

/-- A node that is linked out changes its neighbours, itself and the head cell. -/
theorem sameBut_unlink {s : List N} (hn : n ∈ s) (hp : p ∈ s) (hq : q ∈ s) (v : Option N) :
    SameBut m ((m.unlink n p q).setHead h v) h s where
  head h' hh := by simp [LinkMem.unlink, hh]
  links b hb := by
    have h1 : b ≠ n := fun e => hb (e ▸ hn)
    have h2 : b ≠ p := fun e => hb (e ▸ hp)
    have h3 : b ≠ q := fun e => hb (e ▸ hq)
    simp [LinkMem.unlink, h1, h2, h3]

end Edits

/-! ## All circles of a memory -/

/-- Every head cell leads to its circle, no node lies in two circles or twice in
one, and both links of a node in no circle are null. -/
structure RingsOk (m : LinkMem H N) (ring : H → List N) : Prop where
  /-- A head cell holds the first node of its circle. -/
  head : ∀ h, m.head h = (ring h).head?
  /-- The links close every circle. -/
  isRing : ∀ h, IsRing m (ring h)
  /-- No node occurs twice in a circle. -/
  nodup : ∀ h, (ring h).Nodup
  /-- No node lies in two circles. -/
  disjoint : ∀ h h' n, n ∈ ring h → n ∈ ring h' → h = h'
  /-- The links of every other node are null. -/
  unlinked : ∀ n, (∀ h, n ∉ ring h) → m.prev n = none ∧ m.next n = none

namespace RingsOk

variable {m m' : LinkMem H N} {ring : H → List N} {h : H} {n : N}

omit [DecidableEq H] [DecidableEq N] in
/-- Every head cell leads to its circle. -/
theorem ringAt (hok : RingsOk m ring) (h : H) : RingAt m h (ring h) :=
  ⟨hok.head h, hok.isRing h, hok.nodup h⟩

omit [DecidableEq H] [DecidableEq N] in
/-- In a memory of null cells every circle is empty. -/
theorem empty : RingsOk (LinkMem.empty : LinkMem H N) fun _ => [] where
  head _ := rfl
  isRing _ := trivial
  nodup _ := List.nodup_nil
  disjoint _ _ _ hn := absurd hn (by simp)
  unlinked _ _ := ⟨rfl, rfl⟩

omit [DecidableEq H] [DecidableEq N] in
/-- The forward link of a node is null exactly if the node lies in no circle. -/
theorem next_eq_none_iff (hok : RingsOk m ring) : m.next n = none ↔ ∀ h, n ∉ ring h := by
  refine ⟨fun hn h hmem => ?_, fun hn => (hok.unlinked n hn).2⟩
  obtain ⟨⟨b, -, hb⟩, -⟩ := (hok.isRing h).links hmem
  simp [hb] at hn

omit [DecidableEq H] [DecidableEq N] in
/-- **The circles determine the memory.** -/
theorem unique (hok : RingsOk m ring) (hok' : RingsOk m' ring) : m = m' := by
  have hlinks : ∀ n, m.prev n = m'.prev n ∧ m.next n = m'.next n := by
    intro n
    by_cases hn : ∃ h, n ∈ ring h
    · obtain ⟨h, hn⟩ := hn
      exact (hok.isRing h).links_eq (hok'.isRing h) hn
    · have hout : ∀ h, n ∉ ring h := fun h hc => hn ⟨h, hc⟩
      obtain ⟨hp, hq⟩ := hok.unlinked n hout
      obtain ⟨hp', hq'⟩ := hok'.unlinked n hout
      exact ⟨hp.trans hp'.symm, hq.trans hq'.symm⟩
  have hhead : m.head = m'.head := funext fun h => (hok.head h).trans (hok'.head h).symm
  have hprev : m.prev = m'.prev := funext fun n => (hlinks n).1
  have hnext : m.next = m'.next := funext fun n => (hlinks n).2
  cases m
  cases m'
  simp only at hhead hprev hnext
  rw [hhead, hprev, hnext]

omit [DecidableEq N] in
/-- **Changing one circle.** A change of memory that builds a circle `xs` of nodes of the
old circle of `h` and of nodes that lay in none, clears the links of the nodes it drops
and touches no other node, replaces the circle of `h` by `xs`. -/
theorem replace (hok : RingsOk m ring) (xs : List N)
    (hhead : m'.head = Function.update m.head h xs.head?) (hring : IsRing m' xs)
    (hnd : xs.Nodup) (hsub : ∀ n ∈ xs, n ∈ ring h ∨ ∀ h, n ∉ ring h)
    (hframe : ∀ n, n ∉ ring h → n ∉ xs → m'.prev n = m.prev n ∧ m'.next n = m.next n)
    (hgone : ∀ n ∈ ring h, n ∉ xs → m'.prev n = none ∧ m'.next n = none) :
    RingsOk m' (Function.update ring h xs) := by
  have hother : ∀ h' ≠ h, ∀ n ∈ ring h', n ∉ ring h ∧ n ∉ xs := by
    intro h' hne n hn
    have hh : n ∉ ring h := fun hc => hne (hok.disjoint _ _ _ hn hc)
    refine ⟨hh, fun hc => ?_⟩
    rcases hsub n hc with hc | hc
    · exact hh hc
    · exact hc h' hn
  constructor
  · intro h'
    by_cases hh : h' = h
    · subst hh; simp [hhead]
    · simp [hhead, hh, hok.head]
  · intro h'
    by_cases hh : h' = h
    · subst hh; simpa using hring
    · rw [Function.update_of_ne hh]
      refine (hok.isRing h').congr (fun n hn => ?_) (fun n hn => ?_)
      · exact (hframe n (hother h' hh n hn).1 (hother h' hh n hn).2).1
      · exact (hframe n (hother h' hh n hn).1 (hother h' hh n hn).2).2
  · intro h'
    by_cases hh : h' = h
    · subst hh; simpa using hnd
    · simpa [hh] using hok.nodup h'
  · intro h₁ h₂ n h1 h2
    by_cases hh1 : h₁ = h <;> by_cases hh2 : h₂ = h <;>
      simp only [hh1, hh2, Function.update_self, ne_eq, not_false_eq_true,
        Function.update_of_ne] at h1 h2 ⊢
    · exact absurd h1 (hother h₂ hh2 n h2).2
    · exact absurd h2 (hother h₁ hh1 n h1).2
    · exact hok.disjoint h₁ h₂ n h1 h2
  · intro n hn
    have hx : n ∉ xs := by simpa using hn h
    by_cases hh : n ∈ ring h
    · exact hgone n hh hx
    · obtain ⟨hp, hn'⟩ := hframe n hh hx
      rw [hp, hn']
      refine hok.unlinked n fun h' hc => ?_
      by_cases he : h' = h
      · exact hh (he ▸ hc)
      · exact hn h' (by simpa [he] using hc)

omit [DecidableEq N] in
/-- What `replace` needs, for a change that is known by the circle it leaves at `h` and by the nodes
whose links it may touch. -/
theorem change (hok : RingsOk m ring) {xs s : List N} (hr : RingAt m' h xs)
    (hs : SameBut m m' h s) (hcover : ∀ n ∈ s, n ∈ ring h ∨ n ∈ xs)
    (hsub : ∀ n ∈ xs, n ∈ ring h ∨ ∀ h, n ∉ ring h)
    (hgone : ∀ n ∈ ring h, n ∉ xs → m'.prev n = none ∧ m'.next n = none) :
    RingsOk m' (Function.update ring h xs) := by
  refine hok.replace xs (funext fun h' => ?_) hr.isRing hr.nodup hsub (fun n hn hx => ?_) hgone
  · by_cases hh : h' = h
    · rw [hh, Function.update_self]
      exact hr.head
    · rw [Function.update_of_ne hh]
      exact hs.head h' hh
  · exact hs.links n fun hc => (hcover n hc).elim hn hx

end RingsOk

end Eos.Lib
