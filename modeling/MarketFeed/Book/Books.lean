import MarketFeed.Book.Tracked

/-!
# The books of all products

Diffs and snapshots reach a product's book from two feeds; its sequence decides which of them are
still news.

## Main definitions

* `Books`: the tracked books by product
* `Books.applyDiff`, `Books.applySnapshot`: take a message and tell whether it was news
* `Books.state?`, `Books.lastUpdateId?`: what is known of a product
-/

namespace MarketFeed

/-- The tracked books by product. -/
structure Books where
  entries : Table TrackedBook
  deriving DecidableEq

namespace Books

variable [A : Arrangement]

/-- no books -/
def empty : Books := ⟨.empty⟩

instance : Inhabited Books := ⟨empty⟩

/-- the books of some products, each under its product -/
def ofEntries (entries : List (String × TrackedBook)) : Books :=
  ⟨entries.foldl (fun t e => t.insert e.1 e.2) .empty⟩

/-- the tracked book of a product -/
def find? (b : Books) (productId : String) : Option TrackedBook := b.entries.find? productId

/-- the sequence of the last update of a product's book -/
def lastUpdateId? (b : Books) (productId : String) : Option Nat :=
  (b.find? productId).map (·.levels.lastUpdateId)

/-- Applies a diff to its product's book, if there is one and the diff is later. -/
def applyDiff (b : Books) (d : Diff) : Except Overflow (Books × Bool) :=
  match b.find? d.productId with
  | none => .ok (b, false)
  | some t =>
    if d.sequence ≤ t.levels.lastUpdateId then .ok (b, false)
    else do
      let (t, applied) ← t.apply d
      return (⟨b.entries.insert d.productId t⟩, applied)

/-- Replaces a product's book by a snapshot, unless the book is as late. -/
def applySnapshot (b : Books) (s : Snapshot) : Except Overflow (Books × Bool) :=
  if (b.lastUpdateId? s.productId).any (s.sequence ≤ ·) then .ok (b, false)
  else do
    let t ← TrackedBook.ofSnapshot s
    return (⟨b.entries.insert s.productId t⟩, true)

/-- the state of a product's book -/
def state? (b : Books) (productId : String) (depth : Nat) : Except Overflow (Option BookState) :=
  match b.find? productId with
  | none => .ok none
  | some t => (t.levels.state depth).map some

/-- the products with a book -/
def productIds (b : Books) : List String := b.entries.keys

/-- the number of products with a book -/
def size (b : Books) : Nat := b.entries.size

end Books

end MarketFeed
