import Mathlib.Data.List.Basic

namespace Queue

variable {A : Type}

/-- The operations of a bounded queue. -/
inductive Op (A : Type) where
  | insert (block : List A)
  | insertOne (value : A)
  | remove (count : Nat)
  | removeOne
  | peek (count : Nat)
  | peekOne
  | clear
  | length

/-- A reply carries a count, a delivered block, a delivered value or nothing. -/
inductive Reply (A : Type) where
  | count (value : Nat)
  | block (count : Nat) (values : List A)
  | value (value : Option A)
  | done
  deriving DecidableEq

/-- The ideal queue keeps its values in arrival order. -/
def step (queue : List A) : Op A → List A × Reply A
  | .insert block => (queue ++ block, .count (queue.length + block.length))
  | .insertOne value => (queue ++ [value], .count (queue.length + 1))
  | .remove count => (queue.drop count, .block (min count queue.length) (queue.take count))
  | .removeOne => (queue.tail, .value queue.head?)
  | .peek count => (queue, .block (min count queue.length) (queue.take count))
  | .peekOne => (queue, .value queue.head?)
  | .clear => ([], .done)
  | .length => (queue, .count queue.length)

/-- An operation fits when it does not overfill the queue and no value reader meets an empty queue. -/
def Fits (capacity : Nat) (queue : List A) : Op A → Prop
  | .insert block => queue.length + block.length ≤ capacity
  | .insertOne _ => queue.length + 1 ≤ capacity
  | .removeOne => queue ≠ []
  | .peekOne => queue ≠ []
  | _ => True

end Queue
