/- Reckon.Stack — a last-in first-out container

A stack is the list of its items, top first.  `push` is the list's own
constructor, so taking the top and looking at it answer a fault exactly on the
empty stack, and `drain` gives the items in the order in which `pop` would.
-/

namespace Reckon
set_option autoImplicit false

/-- A stack's items, top first. -/
structure Stack (α : Type) where
  items : List α
  deriving DecidableEq, Repr

/-- What a stack without items cannot do. -/
inductive StackFault where
  | popEmpty
  | peekEmpty
  deriving DecidableEq, Repr

/-- The message of a stack fault. -/
def StackFault.message : StackFault → String
  | popEmpty => "pop called on an empty stack"
  | peekEmpty => "peek called on an empty stack"

namespace Stack
variable {α : Type}

/-- The stack without items. -/
def empty : Stack α := ⟨[]⟩

/-- Puts an item on top. -/
def push (stack : Stack α) (item : α) : Stack α := ⟨item :: stack.items⟩

/-- Takes the top item off. -/
def pop (stack : Stack α) : Except StackFault (α × Stack α) :=
  match stack.items with
  | [] => .error .popEmpty
  | item :: rest => .ok (item, ⟨rest⟩)

/-- The top item. -/
def peek (stack : Stack α) : Except StackFault α :=
  match stack.items with
  | [] => .error .peekEmpty
  | item :: _ => .ok item

/-- The number of items. -/
def size (stack : Stack α) : Nat := stack.items.length

/-- Whether there are no items. -/
def isEmpty (stack : Stack α) : Bool := stack.items.isEmpty

/-- All items in the order in which they come off, and the stack that is left. -/
def drain (stack : Stack α) : List α × Stack α := (stack.items, empty)

/-- The items on top that `leaves`, top first, and the stack from the first
item on that stays. -/
def popWhile (stack : Stack α) (leaves : α → Bool) : List α × Stack α :=
  (stack.items.takeWhile leaves, ⟨stack.items.dropWhile leaves⟩)

@[simp] theorem pop_push (stack : Stack α) (item : α) :
    (stack.push item).pop = .ok (item, stack) := rfl

@[simp] theorem peek_push (stack : Stack α) (item : α) : (stack.push item).peek = .ok item := rfl

@[simp] theorem size_push (stack : Stack α) (item : α) :
    (stack.push item).size = stack.size + 1 := rfl

/-- Taking items off while they leave loses none and keeps their order. -/
theorem popWhile_items (stack : Stack α) (leaves : α → Bool) :
    (stack.popWhile leaves).1 ++ (stack.popWhile leaves).2.items = stack.items :=
  List.takeWhile_append_dropWhile

end Stack
end Reckon
