import Mathlib.Data.List.Basic
import MarketFeed.Rest.Directory

/-!
# Fetching the markets

The markets of the exchange take one request for the products and then, product by product, one for
the ticker, which is repeated while the exchange asks for patience. What a fetch asks and what comes
of it is described here as the list of its attempts, each with its outcome: a fetch that fails ends
with the attempt that failed, and one that succeeds has a ticker for every product.

## Main definitions

* `Attempt`: a request that was tried, and what came of it
* `Exchange.Sends`: some attempts lead from one exchange to another
* `Client.Asks`, `Client.AsksAll`: the attempts to get a ticker, and those of some products
* `Client.Fetch`: the attempts to get the markets, and what they give

## Main results

* `Exchange.Sends.log_eq`: every attempt at an address is one request
* `Client.exists_asks`, `Client.exists_asksAll`: tickers are asked for so
* `Client.exists_fetch`: the markets are fetched so, from every exchange
-/

namespace MarketFeed

open Json Text

/-! ## Requests one after another -/

section Run

variable {α β : Type} {x : Requests α} {g : α → Requests β} {e e' : Exchange}

theorem run_bind_ok {a : α} (h : x.run.run e = (.ok a, e')) :
    (x >>= g).run.run e = (g a).run.run e' := by
  rw [ExceptT.run_bind, StateT.run_bind, h]
  rfl

theorem run_bind_error {f : Fault} (h : x.run.run e = (.error f, e')) :
    (x >>= g).run.run e = (.error f, e') := by
  rw [ExceptT.run_bind, StateT.run_bind, h]
  rfl

end Run

/-- A request that was tried: its address, and what came of it. -/
structure Attempt where
  address : String
  outcome : Except Fault (ℕ × List Glyph)

namespace Attempt

/-- the resource of an attempt, if there is one at its address -/
def url? (a : Attempt) : Option Url := (Url.ofText a.address).toOption

/-- The exchange has answered with a request for patience. -/
def Limited (a : Attempt) : Prop := ∃ body, a.outcome = .ok (tooManyRequests, body)

/-- what a client reads from the outcome of an attempt -/
def read {α : Type} (a : Attempt) (decode : Decoder α) (what : String) : Except Fault α :=
  a.outcome.bind (Client.accept decode what)

theorem run_read {α : Type} {a : Attempt} {decode : Decoder α} {what : String} {e e' : Exchange}
    (h : (Exchange.get a.address).run.run e = (a.outcome, e')) :
    (Exchange.get a.address >>= fun r =>
      (ExceptT.mk (pure (Client.accept decode what r)) : Requests α)).run.run e =
        (a.read decode what, e') := by
  unfold read
  cases hout : a.outcome with
  | error f =>
    rw [hout] at h
    exact run_bind_error h
  | ok r =>
    rw [hout] at h
    exact run_bind_ok h

end Attempt

/-- Some attempts lead from one exchange to another, and come out as the exchange decides each of
them. -/
inductive Exchange.Sends : Exchange → List Attempt → Exchange → Prop
  | nil {e : Exchange} : Sends e [] e
  | cons {e e₁ e' : Exchange} {a : Attempt} {as : List Attempt}
      (head : (Exchange.get a.address).run.run e = (a.outcome, e₁)) (tail : Sends e₁ as e') :
      Sends e (a :: as) e'

theorem Exchange.exists_attempt (address : String) (e : Exchange) :
    ∃ a : Attempt, ∃ e', a.address = address ∧
      (Exchange.get a.address).run.run e = (a.outcome, e') :=
  ⟨⟨address, ((Exchange.get address).run.run e).1⟩, ((Exchange.get address).run.run e).2, rfl, rfl⟩

namespace Exchange.Sends

variable {e e₁ e' : Exchange} {a : Attempt} {as bs : List Attempt}

theorem single (h : (Exchange.get a.address).run.run e = (a.outcome, e')) : Sends e [a] e' :=
  .cons h .nil

theorem append (h : Sends e as e₁) (h' : Sends e₁ bs e') : Sends e (as ++ bs) e' := by
  induction h with
  | nil => exact h'
  | cons head tail ih => exact .cons head (ih h')

/-- **Every attempt at an address is one request**, and nothing else is requested. -/
theorem log_eq (h : Sends e as e') :
    e' = { e with log := e.log ++ as.filterMap Attempt.url? } := by
  induction h with
  | nil => simp
  | @cons e e₁ e' a as head tail ih =>
    cases hurl : Url.ofText a.address with
    | error f =>
      rw [run_get_of_error hurl] at head
      obtain ⟨-, rfl⟩ := Prod.mk.inj head
      simpa [Attempt.url?, hurl, Except.toOption] using ih
    | ok u =>
      rw [run_get hurl] at head
      obtain ⟨-, rfl⟩ := Prod.mk.inj head
      simpa [Attempt.url?, hurl, Except.toOption] using ih

end Exchange.Sends

namespace Client

variable {c : Client} {e : Exchange}

/-! ## Tickers -/

/-- The attempts to get a ticker, at most `n` of them, and what they give. Only a request for
patience has another attempt follow. -/
structure Asks (c : Client) (id : String) (n : ℕ) (as : List Attempt) (r : Except Fault Ticker) :
    Prop where
  address_eq : ∀ a ∈ as, a.address = c.tickerAddress id
  length_le : as.length ≤ n
  exists_last : ∃ limited last, as = limited ++ [last] ∧ (∀ a ∈ limited, a.Limited) ∧
    (last.Limited → as.length = n) ∧
      r = last.read Ticker.decoder s!"ticker for {id} on Coinbase Pro"

/-- The last attempt decides. -/
theorem Asks.single {id : String} {n : ℕ} {a : Attempt} (haddress : a.address = c.tickerAddress id)
    (hn : 1 ≤ n) (hpatience : a.Limited → n = 1) :
    c.Asks id n [a] (a.read Ticker.decoder s!"ticker for {id} on Coinbase Pro") where
  address_eq := List.forall_mem_singleton.mpr haddress
  length_le := hn
  exists_last := ⟨[], a, rfl, nofun, fun h => (hpatience h).symm, rfl⟩

/-- An attempt at which the exchange asks for patience comes before the others. -/
theorem Asks.cons {id : String} {n : ℕ} {a : Attempt} {as : List Attempt} {r : Except Fault Ticker}
    (haddress : a.address = c.tickerAddress id) (hlimited : a.Limited) (h : c.Asks id n as r) :
    c.Asks id (n + 1) (a :: as) r where
  address_eq := List.forall_mem_cons.mpr ⟨haddress, h.address_eq⟩
  length_le := Nat.succ_le_succ h.length_le
  exists_last := by
    obtain ⟨limited, last, rfl, hall, hlast, hr⟩ := h.exists_last
    refine ⟨a :: limited, last, rfl, List.forall_mem_cons.mpr ⟨hlimited, hall⟩, ?_, hr⟩
    intro hpatience
    exact congrArg (· + 1) (hlast hpatience)

/-- **A ticker is asked for once and again while the exchange asks for patience**, up to the
limit. -/
theorem exists_asks (c : Client) (id : String) (made : c.Count) (e : Exchange) :
    ∃ as r e', (c.tickerAfter id made).run.run e = (r, e') ∧ e.Sends as e' ∧
      c.Asks id (c.attempts - made.value.toNat) as r := by
  obtain ⟨a, e₁, haddress, hget⟩ := Exchange.exists_attempt (c.tickerAddress id) e
  have hroom := made.lt
  have hcount := made.toNat_succ
  rw [tickerAfter, ← haddress]
  by_cases hagain : a.Limited ∧ (made.value + 1).toNat < c.attempts
  · obtain ⟨hlimited, hmore⟩ := hagain
    obtain ⟨as, r, e', hrun, hsends, hasks⟩ := c.exists_asks id ⟨made.value + 1, hmore⟩ e₁
    have hleft : c.attempts - made.value.toNat = c.attempts - (made.value + 1).toNat + 1 := by
      omega
    refine ⟨a :: as, r, e', ?_, .cons hget hsends, hleft ▸ .cons haddress hlimited hasks⟩
    obtain ⟨body, hbody⟩ := hlimited
    rw [hbody] at hget
    rw [run_bind_ok hget, dif_pos ⟨rfl, hmore⟩, hrun]
  · have hlast : a.Limited → c.attempts - made.value.toNat = 1 := by
      intro hlimited
      have hfull := Nat.not_lt.mp fun hmore => hagain ⟨hlimited, hmore⟩
      omega
    refine ⟨[a], _, e₁, ?_, .single hget, .single haddress (by omega) hlast⟩
    rw [← Attempt.run_read hget]
    cases hout : a.outcome with
    | error f =>
      rw [hout] at hget
      rw [run_bind_error hget, run_bind_error hget]
    | ok r =>
      have hother : ¬ (r.1 = tooManyRequests ∧ (made.value + 1).toNat < c.attempts) := by
        rintro ⟨hsame, hmore⟩
        exact hagain ⟨⟨r.2, by rw [hout, ← hsame]⟩, hmore⟩
      rw [hout] at hget
      rw [run_bind_ok hget, run_bind_ok hget, dif_neg hother]
termination_by c.attempts - made.value.toNat
decreasing_by
  rw [made.toNat_succ]
  omega

theorem exists_asks_ticker (c : Client) (id : String) (e : Exchange) :
    ∃ as r e', (c.ticker id).run.run e = (r, e') ∧ e.Sends as e' ∧
      c.Asks id c.attempts as r :=
  c.exists_asks id .zero e

/-- The attempts to get the tickers of some products, one product after the other, and the tickers
that they give. -/
inductive AsksAll (c : Client) : List Product → List Attempt → List Ticker → Prop
  | nil : AsksAll c [] [] []
  | cons {p : Product} {ps : List Product} {as bs : List Attempt} {t : Ticker} {ts : List Ticker}
      (head : c.Asks p.id c.attempts as (.ok t)) (tail : AsksAll c ps bs ts) :
      AsksAll c (p :: ps) (as ++ bs) (t :: ts)

/-- What comes of the tickers of some products, with the attempts that it takes. -/
inductive Quotes (c : Client) : List Product → List Attempt → Except Fault (List Market) → Prop
  /-- every product has a ticker -/
  | quoted {ps : List Product} {as : List Attempt} {ts : List Ticker} (h : c.AsksAll ps as ts) :
      Quotes c ps as (.ok (List.zipWith Market.of ps ts))
  /-- the ticker of `p` cannot be had, and nothing is asked about the products behind it -/
  | broken {before after : List Product} {p : Product} {as bs : List Attempt} {ts : List Ticker}
      {f : Fault} (h : c.AsksAll before as ts) (hfail : c.Asks p.id c.attempts bs (.error f)) :
      Quotes c (before ++ p :: after) (as ++ bs) (.error f)

theorem Quotes.cons {p : Product} {ps : List Product} {as bs : List Attempt} {t : Ticker}
    {r : Except Fault (List Market)} (h : c.Asks p.id c.attempts as (.ok t))
    (hrest : c.Quotes ps bs r) :
    c.Quotes (p :: ps) (as ++ bs) (r.map (Market.of p t :: ·)) := by
  cases hrest with
  | quoted hall => exact .quoted (.cons h hall)
  | @broken before after p' as' bs' ts f hall hfail =>
    rw [← List.append_assoc]
    exact .broken (.cons h hall) hfail

theorem exists_quotes (c : Client) (ps : List Product) (e : Exchange) :
    ∃ as r e', (c.marketsOf ps).run.run e = (r, e') ∧ e.Sends as e' ∧ c.Quotes ps as r := by
  induction ps generalizing e with
  | nil => exact ⟨[], _, e, rfl, .nil, .quoted .nil⟩
  | cons p ps ih =>
    obtain ⟨as, r, e₁, hticker, hsends, hasks⟩ := c.exists_asks_ticker p.id e
    cases r with
    | error f => exact ⟨as, .error f, e₁, run_bind_error hticker, hsends, .broken .nil hasks⟩
    | ok t =>
      obtain ⟨bs, r, e', hrest, hsends', hquotes⟩ := ih e₁
      refine ⟨as ++ bs, _, e', (run_bind_ok hticker).trans ?_, hsends.append hsends',
        .cons hasks hquotes⟩
      cases r with
      | error f => exact run_bind_error hrest
      | ok ms => exact run_bind_ok hrest

/-! ## The fetch -/

/-- The attempts to get the markets, and what they give. -/
inductive Fetch (c : Client) : List Attempt → Except Fault (List Market) → Prop
  /-- the products cannot be had -/
  | unlisted {a : Attempt} {f : Fault} (haddress : a.address = c.productsAddress)
      (hread : a.read (Decoder.list Product.decoder) "active Coinbase Pro markets" = .error f) :
      Fetch c [a] (.error f)
  /-- the products are there, and their tickers decide -/
  | listed {a : Attempt} {ps : List Product} {as : List Attempt} {r : Except Fault (List Market)}
      (haddress : a.address = c.productsAddress)
      (hread : a.read (Decoder.list Product.decoder) "active Coinbase Pro markets" = .ok ps)
      (h : c.Quotes ps as r) : Fetch c (a :: as) (r.map rankMarkets)

/-- **A fetch is all or nothing.** From every exchange the markets are fetched as described: what is
sent are the attempts up to the first failure, which is then the result, or those for all products,
and the result is the ranking of all. -/
theorem exists_fetch (c : Client) (e : Exchange) :
    ∃ as r e', c.markets.run.run e = (r, e') ∧ e.Sends as e' ∧ c.Fetch as r := by
  obtain ⟨a, e₁, haddress, hget⟩ := Exchange.exists_attempt c.productsAddress e
  have hproducts : c.products.run.run e =
      (a.read (Decoder.list Product.decoder) "active Coinbase Pro markets", e₁) := by
    unfold products
    rw [← haddress]
    exact Attempt.run_read hget
  cases hread : a.read (Decoder.list Product.decoder) "active Coinbase Pro markets" with
  | error f =>
    rw [hread] at hproducts
    exact ⟨[a], .error f, e₁, run_bind_error hproducts, .single hget, .unlisted haddress hread⟩
  | ok ps =>
    rw [hread] at hproducts
    obtain ⟨as, r, e', hrest, hsends, hquotes⟩ := c.exists_quotes ps e₁
    refine ⟨a :: as, r.map rankMarkets, e', (run_bind_ok hproducts).trans ?_, .cons hget hsends,
      .listed haddress hread hquotes⟩
    cases r with
    | error f => exact run_bind_error hrest
    | ok ms => exact run_bind_ok hrest

end Client

end MarketFeed
