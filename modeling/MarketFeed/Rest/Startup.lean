import MarketFeed.Book.Books
import MarketFeed.Rest.Directory

/-!
# The books at the start

Before the feed is followed, the books of its products are fetched, one product after another.

## Main definitions

* `Client.trackedBooks`: the books of some products
* `Pairs.trackedBooks`: the books of the products that are followed
-/

namespace MarketFeed

variable [A : Arrangement]

namespace Client

/-- Adds the books of some products, each from its own snapshot. A product without a snapshot is
left out; of two snapshots of a product the later one counts. -/
def addTrackedBooks (c : Client) (books : Table TrackedBook) :
    List String → ExceptT Overflow (StateM Exchange) (Table TrackedBook)
  | [] => return books
  | id :: ids => do
    match ← ((c.snapshot id).run : StateM Exchange _) with
    | .ok s =>
      let book ← ExceptT.mk (pure (TrackedBook.ofSnapshot s))
      c.addTrackedBooks (books.insert id book) ids
    | .error _ => c.addTrackedBooks books ids

/-- the books of some products -/
def trackedBooks (c : Client) (ids : List String) :
    ExceptT Overflow (StateM Exchange) (Table TrackedBook) :=
  c.addTrackedBooks .empty ids

end Client

/-- The books of the products that are followed. It fails only if these cannot be told. -/
def Pairs.trackedBooks (p : Pairs) (d : Directory) (c : Client) (now : Nat) :
    ExceptT Overflow (StateM Exchange) (Except Fault (Table TrackedBook) × Directory) := do
  match ← (p.resolve d c now : StateM Exchange _) with
  | (.error f, d) => return (.error f, d)
  | (.ok ids, d) => return (.ok (← c.trackedBooks ids), d)

end MarketFeed
