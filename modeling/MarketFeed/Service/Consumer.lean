import MarketFeed.Book.Books

/-!
# The consumer

Diffs and snapshots come from two feeds. The consumer takes what either of them has for it and
keeps the books; it ends when both are closed.

## Main definitions

* `Delivery`: what a feed has for the consumer
* `Consumer.take`: takes it
-/

namespace MarketFeed

/-- What the feeds have for the consumer. -/
inductive Delivery
  | diff (d : Diff)
  | snapshot (s : Snapshot)
  | diffsClosed
  | snapshotsClosed

/-- The books, and which feeds are open. -/
structure Consumer where
  books : Books
  diffsOpen : Bool
  snapshotsOpen : Bool
  /-- the overflow that has stopped it -/
  crash : Option Overflow
  deriving DecidableEq

namespace Consumer

variable [A : Arrangement]

/-- a consumer that begins with some books -/
def new (books : Books) : Consumer := ⟨books, true, true, none⟩

/-- The consumer has not ended. -/
def running (c : Consumer) : Bool := c.crash.isNone && (c.diffsOpen || c.snapshotsOpen)

/-- Puts the outcome of an update in place; an overflow stops the consumer and changes no book. -/
def settle (c : Consumer) : Except Overflow (Books × Bool) → Consumer
  | .ok (books, _) => { c with books }
  | .error o => { c with crash := some o }

/-- Takes what a feed has. A feed that is closed has nothing any more. -/
def take (c : Consumer) (m : Delivery) : Consumer :=
  if c.crash.isSome then c
  else match m with
    | .diff d => if c.diffsOpen then c.settle (c.books.applyDiff d) else c
    | .snapshot s => if c.snapshotsOpen then c.settle (c.books.applySnapshot s) else c
    | .diffsClosed => { c with diffsOpen := false }
    | .snapshotsClosed => { c with snapshotsOpen := false }

/-- Takes one thing after another. -/
def takeAll (c : Consumer) (ms : List Delivery) : Consumer := ms.foldl take c

end Consumer

end MarketFeed
