import MarketFeed.Listener.Rehearsal
import MarketFeed.Rest.Refresher
import MarketFeed.Rest.Startup
import MarketFeed.Service.Consumer
import MarketFeed.Service.Counters
import MarketFeed.Service.Health
import MarketFeed.Settings.Basic

/-!
# The launch of the service

The books of all products that are followed are fetched first. Then the listener connects to the
feed, the refresher makes a pass, and the consumer takes what both of them have.

## Main definitions

* `Service`: a service that runs
* `Service.launch`: a service from its settings to the time when everything waits
-/

namespace MarketFeed

namespace Settings

/-- the client of the exchange -/
def client (s : Settings) : Client := .new s.restEndpoint (.ofNat s.tickerMaxAttempts)

/-- the products that are followed -/
def followed (s : Settings) : Pairs :=
  match s.pairs with
  | some ids => .named ids
  | none => .listed

/-- the directory of the markets -/
def directory (s : Settings) : Directory := .new (1000 * s.marketCacheTtlSecs)

end Settings

/-- Plays the listener up to a time, as long as something happens. -/
def Listener.playTo (timing : Timing) (time : Nat) :
    (steps : Nat) → Listener → Scene → Listener × Scene
  | 0, l, s => (l, s)
  | n + 1, l, s =>
    match s.next? l.deadline? (some (time + 1)) with
    | none | some (.cancelled, _) => (l, s)
    | some (signal, s) =>
      let (l, acts) := l.step timing true s.now signal
      playTo timing time n l (s.perform acts)

/-- A service that runs. -/
structure Service where
  consumer : Consumer
  listener : Status
  counters : Counters

namespace Service

/-- what a service tells of itself -/
def health (s : Service) : Health := ⟨s.listener, s.consumer.books.size⟩

/-- The products for the listener and the refresher, who ask for them together. -/
def resolveTogether (p : Pairs) (d : Directory) (c : Client) :
    StateM Exchange (Except Fault (List String)) :=
  match p with
  | .named ids => return .ok ids
  | .listed => do
    let (results, _) ← d.consult c 0 2
    return (results.headD (.ok [])).map fun ms => ms.map Market.productId

/-- What the listener has handed to the consumer. -/
def deliveriesOf (acts : List Act) : List Delivery := acts.filterMap fun
  | .deliver d => some (.diff d)
  | _ => none

variable [A : Arrangement]

/-- A service from its settings to the time when the listener and the refresher wait, `peers` being
those to whom the listener connects. It fails if the products cannot be told. -/
def launch (s : Settings) (peers : List Script) :
    ExceptT Overflow (StateM Exchange) (Except Fault Service) := do
  match ← s.followed.trackedBooks s.directory s.client 0 with
  | (.error f, _) => return .error f
  | (.ok books, d) => do
    let pairs ← (resolveTogether s.followed d s.client : StateM Exchange _)
    let scene := Scene.opening pairs peers
    let (l, scene) := Listener.idle.playTo s.timing 0 (scene.enough 1) scene
    let acts := (scene.log.reverse).map Prod.snd
    let pass ← match pairs with
      | .ok ids => (s.client.pass (fun _ => true) ids : StateM Exchange _)
      | .error f => pure ⟨[], 0, 0, .error f⟩
    let counters := { Counters.ofActs acts with
      published := pass.published
      failures := pass.failures }
    let deliveries := deliveriesOf acts ++ pass.sent.map .snapshot
    let consumer := (Consumer.new ⟨books⟩).takeAll deliveries
    return .ok ⟨consumer, l.status, counters⟩

end Service

end MarketFeed
