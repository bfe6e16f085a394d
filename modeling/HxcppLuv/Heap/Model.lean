import Mathlib.Logic.Function.Basic

/-!
The heap and the queues of libuv, which link their nodes by pointers in the nodes. The words of
a node are either those of a `struct heap_node` or, the first two, those of a
`struct uv__queue`, as in the `node` of a `uv_timer_t`. A null pointer is `none`, and what
follows one has no result.
-/

namespace HxcppLuv.Heap

variable {A : Type} [DecidableEq A]

/-- `left` and `right` are `next` and `prev` of a node in a queue. `nelts`, and `path` in the
walks, are unsigned ints that do not wrap below `2 ^ 32` nodes. -/
structure Memory (A : Type) where
  left : A → Option A
  right : A → Option A
  parent : A → Option A
  min : Option A
  nelts : Nat

/-- Memory before any call. -/
def blank : Memory A := ⟨fun _ => none, fun _ => none, fun _ => none, none, 0⟩

namespace Memory

variable (m : Memory A)

def setLeft (a : A) (v : Option A) : Memory A := { m with left := Function.update m.left a v }

def setRight (a : A) (v : Option A) : Memory A := { m with right := Function.update m.right a v }

def setParent (a : A) (v : Option A) : Memory A :=
  { m with parent := Function.update m.parent a v }

/-- The parent of a node that may be null. -/
def adopt (a : Option A) (v : Option A) : Memory A :=
  match a with
  | none => m
  | some a => m.setParent a v

/-- `new` takes the place of `old` under what is its parent. -/
def replace (parent : Option A) (old : A) (new : Option A) : Memory A :=
  match parent with
  | none => { m with min := new }
  | some p => if m.left p = some old then m.setLeft p new else m.setRight p new

/-- `heap_node_swap`. -/
def nodeSwap (parent child : A) : Memory A :=
  let tl := m.left parent
  let tr := m.right parent
  let tp := m.parent parent
  let m := ((m.setLeft parent (m.left child)).setRight parent (m.right child)).setParent parent
    (m.parent child)
  let m := ((m.setLeft child tl).setRight child tr).setParent child tp
  let m := m.setParent parent (some child)
  let (m, sibling) :=
    if m.left child = some child then (m.setLeft child (some parent), m.right child)
    else (m.setRight child (some parent), m.left child)
  let m := m.adopt sibling (some child)
  let m := m.adopt (m.left parent) (some parent)
  let m := m.adopt (m.right parent) (some parent)
  m.replace (m.parent child) parent (some child)

/-- The path from the root to the `n`th node, and its length: the next turn is the lowest bit. -/
def pathTo (path k n : Nat) : Nat × Nat :=
  if n < 2 then (path, k) else pathTo (2 * path + n % 2) (k + 1) (n / 2)

end Memory

/-- A place that holds a pointer to a node: `struct heap_node**`. -/
inductive Slot (A : Type) where
  | min
  | left (a : A)
  | right (a : A)
  deriving DecidableEq

namespace Memory

variable (m : Memory A) (lessThan : A → A → Bool)

omit [DecidableEq A] in
def read : Slot A → Option A
  | .min => m.min
  | .left a => m.left a
  | .right a => m.right a

def write (s : Slot A) (v : Option A) : Memory A :=
  match s with
  | .min => { m with min := v }
  | .left a => m.setLeft a v
  | .right a => m.setRight a v

/-- The traversal along a path; the first slot is the one before the last turn. -/
def walk : Nat → Nat → Slot A → Slot A → Option (Slot A × Slot A)
  | _, 0, parent, child => some (parent, child)
  | path, k + 1, _, child =>
      (m.read child).bind fun a =>
        walk (path / 2) k child (if path % 2 = 1 then .right a else .left a)

/-- `heap_init`. -/
def heapInit : Memory A := { m with min := none, nelts := 0 }

/-- The loop that moves a node up. -/
def siftUp (a : A) : Nat → Memory A → Option (Memory A)
  | fuel, m =>
      match m.parent a with
      | none => some m
      | some p =>
          if lessThan a p then
            match fuel with
            | 0 => none
            | fuel + 1 => siftUp a fuel (m.nodeSwap p a)
          else some m

/-- The lesser of a node and one that may be null. -/
def lesser (a : Option A) (smallest : A) : A :=
  match a with
  | none => smallest
  | some a => if lessThan a smallest then a else smallest

/-- The loop that moves a node down. -/
def siftDown (a : A) : Nat → Memory A → Option (Memory A)
  | fuel, m =>
      let smallest := lesser lessThan (m.right a) (lesser lessThan (m.left a) a)
      if smallest = a then some m
      else
        match fuel with
        | 0 => none
        | fuel + 1 => siftDown a fuel (m.nodeSwap a smallest)

/-- `heap_insert`. -/
def insert (a : A) : Option (Memory A) :=
  let m := ((m.setLeft a none).setRight a none).setParent a none
  let (path, k) := pathTo 0 0 (1 + m.nelts)
  (m.walk path k .min .min).bind fun (parent, child) =>
    let m := m.setParent a (m.read parent)
    let m := m.write child (some a)
    let m := { m with nelts := m.nelts + 1 }
    siftUp lessThan a m.nelts m

/-- `heap_remove`. -/
def remove (a : A) : Option (Memory A) :=
  if m.nelts = 0 then some m
  else
    let (path, k) := pathTo 0 0 m.nelts
    (m.walk path k .min .min).bind fun (_, max) =>
      let m := { m with nelts := m.nelts - 1 }
      (m.read max).bind fun child =>
        let m := m.write max none
        if child = a then some (if m.min = some child then { m with min := none } else m)
        else
          let m := ((m.setLeft child (m.left a)).setRight child (m.right a)).setParent child
            (m.parent a)
          let m := m.adopt (m.left child) (some child)
          let m := m.adopt (m.right child) (some child)
          let m := m.replace (m.parent a) a (some child)
          (siftDown lessThan child m.nelts m).bind (siftUp lessThan child m.nelts)

/-- `uv__queue_init`. -/
def queueInit (q : A) : Memory A := (m.setLeft q (some q)).setRight q (some q)

def queueEmpty (q : A) : Bool := m.left q = some q

/-- `uv__queue_insert_tail`. -/
def insertTail (h q : A) : Option (Memory A) :=
  let m := m.setLeft q (some h)
  let m := m.setRight q (m.right h)
  (m.right q).bind fun p =>
    let m := m.setLeft p (some q)
    some (m.setRight h (some q))

/-- `uv__queue_remove`. -/
def queueRemove (q : A) : Option (Memory A) :=
  (m.right q).bind fun p =>
    let m := m.setLeft p (m.left q)
    (m.left q).bind fun n => some (m.setRight n (m.right q))

end Memory

end HxcppLuv.Heap
