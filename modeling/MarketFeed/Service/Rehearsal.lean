import MarketFeed.Rest.Rehearsal
import MarketFeed.Service.Launch
import MarketFeed.Service.Recording
import MarketFeed.Settings.Load

/-!
# Rehearsals of the service

The service with an exchange and a feed that follow a recording.

## Main definitions

* `Recording.peers`: the feed of a recording
* `Service.replay`: a service with given settings in the surroundings of a recording
* `Service.rehearse`: a service from its start to the time when everything waits, or to its failure
-/

namespace MarketFeed

/-- The peers of a listener that connects to an endpoint. After its frames the feed is silent, and
so it is on later connections. Where nobody serves it no connection is made. -/
def Recording.peers (r : Recording) (served : Bool) : List Script :=
  match r.feed, served with
  | some frames, true =>
    [{ Script.silent with arrivals := frames.map fun raw => ⟨0, .ok (.text raw)⟩ }, .silent]
  | _, _ => [{ Script.silent with connect := ⟨0, some (.connect "nobody is there")⟩ }]

namespace Service

variable [A : Arrangement]

/-- A service with some settings, the exchange being served at an authority and the feed at an
endpoint. -/
def replay (s : Settings) (r : Recording) (authority feedEndpoint : String) :
    Except Overflow (Except Fault Service) × Exchange :=
  (launch s (r.peers (s.wsEndpoint == feedEndpoint))).run.run
    (Exchange.scripted (some authority) r.routes)

/-- A service that finds its settings in files and the environment. It fails if they cannot be
used, or the products cannot be told. -/
def rehearse (files : Files) (environment : Variables) (r : Recording)
    (authority feedEndpoint : String) : Except Overflow (Except Fault Service) × Exchange :=
  match Settings.load files environment with
  | .error f => (.ok (.error f.toFault), Exchange.scripted (some authority) r.routes)
  | .ok s => replay s r authority feedEndpoint

end Service

end MarketFeed
