import Eos.Lib.Ring
import Mathlib.Data.Fintype.Card

/-!
# The list routines of `core/common.c`

`_os_node_t` nodes are linked into circular lists through their `prev` and `next`
fields; a list is known by a head cell that holds its first node or `NULL`.  The
three routines below work on a `LinkMem`: head cells and links, each possibly
`NULL`.  They are translated statement by statement, and a field read through a
`NULL` pointer has no result (`none`).

`NodeLists` names what the rest of the kernel uses of them, so that the kernel code
is written once and can be run over any representation of its lists.  The instance
here is the pointer code.
-/

set_option autoImplicit false

namespace Eos.Model

open Eos.Lib (LinkMem)

/-- What the kernel does with its lists: read a head cell and call the routines of
`core/common.c`. -/
class NodeLists (Q : Type → Type → Type) where
  /-- The lists of zeroed memory. -/
  empty {H N : Type} : Q H N
  /-- The node a head cell holds. -/
  head {H N : Type} : Q H N → H → Option N
  /-- `_os_add_node_tail` -/
  osAddNodeTail {H N : Type} [DecidableEq H] [DecidableEq N] : Q H N → H → N → Option (Q H N)
  /-- `_os_add_node_ordered`, given the `order_val` of every node. -/
  osAddNodeOrdered {H N : Type} [DecidableEq H] [DecidableEq N] [Fintype N] :
    Q H N → (N → Nat) → H → N → Option (Q H N)
  /-- `_os_remove_node` -/
  osRemoveNode {H N : Type} [DecidableEq H] [DecidableEq N] : Q H N → H → N → Option (Q H N)

/-! ## The pointer code -/

section Pointers

variable {H N : Type} [DecidableEq H] [DecidableEq N]

/-- A node that becomes the only one of an empty list. -/
def linkAlone (m : LinkMem H N) (h : H) (newNode : N) : LinkMem H N :=
  ((m.setHead h (some newNode)).setPrev newNode (some newNode)).setNext newNode (some newNode)

/-- The four assignments that link `new_node` in before `node`. -/
def linkBefore (m : LinkMem H N) (node newNode : N) : Option (LinkMem H N) := do
  let m := m.setPrev newNode (m.prev node)
  let m := m.setNext (← m.prev newNode) (some newNode)
  let m := m.setNext newNode (some node)
  return m.setPrev (← m.next newNode) (some newNode)

/-- `_os_add_node_tail` (core/common.c:28-39). -/
def osAddNodeTail (m : LinkMem H N) (h : H) (newNode : N) : Option (LinkMem H N) :=
  match m.head h with
  | some first => linkBefore m first newNode
  | none => some (linkAlone m h newNode)

/-- The `while` loop of `_os_add_node_ordered`: the node at which it stops.  The fuel
bounds the number of nodes looked at. -/
def scanOrdered (m : LinkMem H N) (orderVal : N → Nat) (h : H) (newNode : N) :
    Nat → N → Option N
  | 0, _ => none
  | fuel + 1, node =>
    if orderVal node ≤ orderVal newNode ∧ some node ≠ m.head h then do
      scanOrdered m orderVal h newNode fuel (← m.next node)
    else
      some node

/-- `_os_add_node_ordered` (core/common.c:43-66).  No list has more nodes than there
are, so the scan is given that much fuel. -/
def osAddNodeOrdered [Fintype N] (m : LinkMem H N) (orderVal : N → Nat) (h : H) (newNode : N) :
    Option (LinkMem H N) :=
  match m.head h with
  | some first =>
    if orderVal first > orderVal newNode then
      linkBefore (m.setHead h (some newNode)) first newNode
    else do
      let node ← m.next first
      let node ← scanOrdered m orderVal h newNode (Fintype.card N) node
      linkBefore m node newNode
  | none => some (linkAlone m h newNode)

/-- `_os_remove_node` with its return code (core/common.c:69-88). -/
def osRemoveNode (m : LinkMem H N) (h : H) (node : N) : LinkMem H N × Nat :=
  match m.next node, m.prev node with
  | some next, some prev =>
    let m :=
      if next = node then
        m.setHead h none
      else
        let m := (m.setNext prev (some next)).setPrev next (some prev)
        if some node = m.head h then m.setHead h (some next) else m
    ((m.setNext node none).setPrev node none, 1)
  | _, _ => (m, 0)

end Pointers

/-- The lists of the running system: links in memory. -/
instance : NodeLists LinkMem where
  empty := LinkMem.empty
  head m := m.head
  osAddNodeTail := osAddNodeTail
  osAddNodeOrdered := osAddNodeOrdered
  osRemoveNode m h n := some (osRemoveNode m h n).1

end Eos.Model
