import Mathlib.Logic.Function.Defs
import MarketFeed.Feed.Subscribe
import MarketFeed.Proofs.Json.Values

/-!
# The subscription request and its text

The request holds strings alone, in arrays that are not nested, so it is read from its text whatever
characters the products have in their names. The exchange is asked for the products that were meant,
in their order, and for no others.

## Main results

* `exact_subscribeRequest`: the request has an exact text
* `subscribeText_reads_back`: the request is read from its text, and its text tells the products
-/

namespace MarketFeed

open Json

theorem exactItems_map_string (ss : List String) : ExactItems (ss.map Json.string) := by
  induction ss with
  | nil => trivial
  | cons s ss ih => exact ⟨trivial, ih⟩

theorem nestingItems_map_string (ss : List String) : nestingItems (ss.map Json.string) = 0 := by
  induction ss with
  | nil => rfl
  | cons s ss ih => rw [List.map_cons, nestingItems, ih, nesting, Nat.max_self]

theorem exact_subscribeRequest (productIds : List String) : (subscribeRequest productIds).Exact :=
  ⟨trivial, exactItems_map_string productIds, exactItems_map_string ["full"], trivial⟩

theorem nesting_subscribeRequest (productIds : List String) :
    (subscribeRequest productIds).nesting = 2 := by
  rw [subscribeRequest, nesting, nestingMembers, nestingMembers, nesting, nesting,
    nestingItems_map_string]
  rfl

theorem readText_subscribeText (productIds : List String) :
    readText (subscribeText productIds) = .ok (subscribeRequest productIds) := by
  refine readText_text (exact_subscribeRequest productIds) ?_
  rw [nesting_subscribeRequest]
  decide

theorem map_string_injective : Function.Injective (List.map Json.string) :=
  List.map_injective_iff.mpr fun _ _ => Json.string.inj

/-- **The request is read from its text**, with all products in their order, so that no two lists of
products have the same text. -/
theorem subscribeText_reads_back :
    (∀ productIds, readText (subscribeText productIds) = .ok (.object [
      ("type", .string "subscribe"),
      ("product_ids", .array (productIds.map Json.string)),
      ("channels", .array [.string "full"])])) ∧
    Function.Injective subscribeText := by
  refine ⟨readText_subscribeText, fun ids ids' h => ?_⟩
  have hrequest : subscribeRequest ids = subscribeRequest ids' := by
    have hread := readText_subscribeText ids
    rw [h, readText_subscribeText ids'] at hread
    exact (Except.ok.inj hread).symm
  simp only [subscribeRequest, Json.object.injEq, List.cons.injEq, Prod.mk.injEq, Json.array.injEq,
    true_and, and_true] at hrequest
  exact map_string_injective hrequest

/-- Quotes, backslashes and control characters are escaped, other characters are not. -/
example : subscribeText ["a\"\\\n\x01é"] =
    "\x7b\"type\":\"subscribe\",\"product_ids\":[\"a\\\"\\\\\\n\\u0001é\"]," ++
      "\"channels\":[\"full\"]\x7d" := by
  decide +kernel

end MarketFeed
