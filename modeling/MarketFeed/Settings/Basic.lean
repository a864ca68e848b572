import MarketFeed.Fault
import MarketFeed.Listener.Status
import MarketFeed.Settings.Layer
import MarketFeed.Settings.Pairs
import MarketFeed.Text.Quoted

/-!
# Settings

## Main definitions

* `Settings`: everything that can be set
* `NumberKey`, `TextKey`: the settings that are numbers and texts
* `Settings.standard`: what holds where nothing is set
* `Settings.ofLayered`: the settings that layers give
* `SettingsFault`: why they cannot be used
-/

namespace MarketFeed

open Text

/-- A setting that is a number. -/
inductive NumberKey
  | marketCacheTtlSecs
  | tickerMaxAttempts
  | tickerRetryDelayMs
  | snapshotPacingMs
  | messageTimeoutSecs
  | pingTimeoutSecs
  | reconnectCooldownSecs
  | refreshPacingMs
  | refreshFailureDelayMs
  | refreshRetryDelayMs
  | depthLevels
  | healthPort
  deriving DecidableEq

/-- A setting that is a text. -/
inductive TextKey
  | restEndpoint
  | wsEndpoint
  deriving DecidableEq

namespace NumberKey

/-- the name under which a number is set -/
def name : NumberKey → String
  | .marketCacheTtlSecs => "market_cache_ttl_secs"
  | .tickerMaxAttempts => "ticker_max_attempts"
  | .tickerRetryDelayMs => "ticker_retry_delay_ms"
  | .snapshotPacingMs => "snapshot_pacing_ms"
  | .messageTimeoutSecs => "message_timeout_secs"
  | .pingTimeoutSecs => "ping_timeout_secs"
  | .reconnectCooldownSecs => "reconnect_cooldown_secs"
  | .refreshPacingMs => "refresh_pacing_ms"
  | .refreshFailureDelayMs => "refresh_failure_delay_ms"
  | .refreshRetryDelayMs => "refresh_retry_delay_ms"
  | .depthLevels => "depth_levels"
  | .healthPort => "health_port"

/-- the number that holds where none is set -/
def standard : NumberKey → Nat
  | .marketCacheTtlSecs => 1800
  | .tickerMaxAttempts => 20
  | .tickerRetryDelayMs => 500
  | .snapshotPacingMs => 600
  | .messageTimeoutSecs => 30
  | .pingTimeoutSecs => 10
  | .reconnectCooldownSecs => 30
  | .refreshPacingMs => 5000
  | .refreshFailureDelayMs => 5000
  | .refreshRetryDelayMs => 5000
  | .depthLevels => 20
  | .healthPort => 9090

/-- how many bits a number has -/
def bits : NumberKey → Nat
  | .tickerMaxAttempts => 32
  | .healthPort => 16
  | _ => 64

/-- all of them -/
def all : List NumberKey := [.marketCacheTtlSecs, .tickerMaxAttempts, .tickerRetryDelayMs,
  .snapshotPacingMs, .messageTimeoutSecs, .pingTimeoutSecs, .reconnectCooldownSecs,
  .refreshPacingMs, .refreshFailureDelayMs, .refreshRetryDelayMs, .depthLevels, .healthPort]

end NumberKey

namespace TextKey

/-- the name under which a text is set -/
def name : TextKey → String
  | .restEndpoint => "rest_endpoint"
  | .wsEndpoint => "ws_endpoint"

/-- the text that holds where none is set -/
def standard : TextKey → String
  | .restEndpoint => "https://api.pro.coinbase.com"
  | .wsEndpoint => "wss://ws-feed.pro.coinbase.com"

/-- all of them -/
def all : List TextKey := [.restEndpoint, .wsEndpoint]

end TextKey

/-- the name under which the products are set -/
def pairsName : String := "trading_pairs"

/-- the names of all settings -/
def settingNames : List String :=
  pairsName :: TextKey.all.map TextKey.name ++ NumberKey.all.map NumberKey.name

/-- Everything that can be set. -/
structure Settings where
  /-- the products, if they are not to be found out -/
  pairs : Option (List String)
  restEndpoint : String
  wsEndpoint : String
  marketCacheTtlSecs : Nat
  tickerMaxAttempts : Nat
  tickerRetryDelayMs : Nat
  snapshotPacingMs : Nat
  messageTimeoutSecs : Nat
  pingTimeoutSecs : Nat
  reconnectCooldownSecs : Nat
  refreshPacingMs : Nat
  refreshFailureDelayMs : Nat
  refreshRetryDelayMs : Nat
  depthLevels : Nat
  healthPort : Nat
  deriving DecidableEq

/-- Why settings cannot be used. -/
inductive SettingsFault
  | missingFile (path : String)
  /-- a file whose name does not tell how to read it -/
  | unknownFormat (path : String)
  | malformed (path : String)
  | unset (name : String)
  /-- a value of the wrong type -/
  | mistyped (found expected name : String) (origin : Option String)
  deriving DecidableEq

namespace SettingsFault

/-- the wording of a fault -/
def message : SettingsFault → String
  | .missingFile path => s!"configuration file \"{path}\" not found"
  | .unknownFormat path => s!"configuration file \"{path}\" is not of a registered file format"
  | .malformed path => s!"cannot be read in {path}"
  | .unset name => s!"missing field `{name}`"
  | .mistyped found expected name origin =>
    let place := match origin with
      | some o => s!" in {o}"
      | none => ""
    s!"invalid type: {found}, expected {expected} for key `{name}`{place}"

/-- a fault of the settings as a failure of the feed -/
def toFault (f : SettingsFault) : Fault := .settings f.message

end SettingsFault

/-- the greatest number of 64 bits -/
def maxNumber : Nat := Nat.pow 2 64 - 1

namespace Sourced

/-- A value of the wrong type. -/
def refuse {α : Type} (s : Sourced) (found expected name : String) : Except SettingsFault α :=
  .error (.mistyped found expected name s.origin)

/-- Reads a number below `2 ^ 64`. Doubles are rounded, and words for yes and no count as one and
zero. -/
def toNumber (name : String) (s : Sourced) : Except SettingsFault Nat :=
  let expected := "an integer"
  match s.value with
  | .integer n =>
    if 0 ≤ n then .ok n.toNat
    else s.refuse s!"integer 64 bit `{n}`" "an unsigned 64 bit or less integer" name
  | .real x => .ok (x.toNatAtMost maxNumber)
  | .bool b => .ok b.toNat
  | .text t =>
    match lowerCaseText t with
    | "true" | "on" | "yes" => .ok 1
    | "false" | "off" | "no" => .ok 0
    | _ =>
      match readSigned? (Nat.pow 2 64) t.toList with
      | some n => .ok n
      | none => s.refuse s!"string {quoted t}" expected name
  | .null => s.refuse "unit value" expected name
  | .list => s.refuse "sequence" expected name
  | .table _ => s.refuse "map" expected name

/-- Reads a text. Numbers and truth values count as their texts. -/
def toText (name : String) (s : Sourced) : Except SettingsFault String :=
  let expected := "a string"
  match s.value with
  | .text t => .ok t
  | .integer n => .ok (toString n)
  | .real x => .ok x.plainText
  | .bool b => .ok (if b then "true" else "false")
  | .null => s.refuse "unit value" expected name
  | .list => s.refuse "sequence" expected name
  | .table _ => s.refuse "map" expected name

end Sourced

namespace Settings

/-- what holds where nothing is set -/
def standard : Settings where
  pairs := none
  restEndpoint := TextKey.restEndpoint.standard
  wsEndpoint := TextKey.wsEndpoint.standard
  marketCacheTtlSecs := NumberKey.marketCacheTtlSecs.standard
  tickerMaxAttempts := NumberKey.tickerMaxAttempts.standard
  tickerRetryDelayMs := NumberKey.tickerRetryDelayMs.standard
  snapshotPacingMs := NumberKey.snapshotPacingMs.standard
  messageTimeoutSecs := NumberKey.messageTimeoutSecs.standard
  pingTimeoutSecs := NumberKey.pingTimeoutSecs.standard
  reconnectCooldownSecs := NumberKey.reconnectCooldownSecs.standard
  refreshPacingMs := NumberKey.refreshPacingMs.standard
  refreshFailureDelayMs := NumberKey.refreshFailureDelayMs.standard
  refreshRetryDelayMs := NumberKey.refreshRetryDelayMs.standard
  depthLevels := NumberKey.depthLevels.standard
  healthPort := NumberKey.healthPort.standard

/-- a number among the settings -/
def number (s : Settings) : NumberKey → Nat
  | .marketCacheTtlSecs => s.marketCacheTtlSecs
  | .tickerMaxAttempts => s.tickerMaxAttempts
  | .tickerRetryDelayMs => s.tickerRetryDelayMs
  | .snapshotPacingMs => s.snapshotPacingMs
  | .messageTimeoutSecs => s.messageTimeoutSecs
  | .pingTimeoutSecs => s.pingTimeoutSecs
  | .reconnectCooldownSecs => s.reconnectCooldownSecs
  | .refreshPacingMs => s.refreshPacingMs
  | .refreshFailureDelayMs => s.refreshFailureDelayMs
  | .refreshRetryDelayMs => s.refreshRetryDelayMs
  | .depthLevels => s.depthLevels
  | .healthPort => s.healthPort

/-- a text among the settings -/
def text (s : Settings) : TextKey → String
  | .restEndpoint => s.restEndpoint
  | .wsEndpoint => s.wsEndpoint

/-- The lowest layer: what holds where nothing is set. -/
def base : Layered :=
  let texts := TextKey.all.map fun k => (k.name, Sourced.mk (.text k.standard) none)
  let numbers := NumberKey.all.map fun k => (k.name, Sourced.mk (.integer k.standard) none)
  ⟨texts ++ numbers⟩

/-- A number that layers give. It loses the bits for which it has no room. -/
def numberOf (t : Layered) (k : NumberKey) : Except SettingsFault Nat := do
  match t.find? k.name with
  | none => .error (.unset k.name)
  | some s => return (← s.toNumber k.name) % Nat.pow 2 k.bits

/-- A text that layers give. -/
def textOf (t : Layered) (k : TextKey) : Except SettingsFault String :=
  match t.find? k.name with
  | none => .error (.unset k.name)
  | some s => s.toText k.name

/-- The products that layers give; null is as good as nothing. -/
def pairsOf (t : Layered) : Except SettingsFault (Option (List String)) :=
  match t.find? pairsName with
  | none | some ⟨.null, _⟩ => .ok none
  | some s => (s.toText pairsName).map readPairs

/-- The settings that layers give. -/
def ofLayered (t : Layered) : Except SettingsFault Settings := do
  return {
    pairs := ← pairsOf t
    restEndpoint := ← textOf t .restEndpoint
    wsEndpoint := ← textOf t .wsEndpoint
    marketCacheTtlSecs := ← numberOf t .marketCacheTtlSecs
    tickerMaxAttempts := ← numberOf t .tickerMaxAttempts
    tickerRetryDelayMs := ← numberOf t .tickerRetryDelayMs
    snapshotPacingMs := ← numberOf t .snapshotPacingMs
    messageTimeoutSecs := ← numberOf t .messageTimeoutSecs
    pingTimeoutSecs := ← numberOf t .pingTimeoutSecs
    reconnectCooldownSecs := ← numberOf t .reconnectCooldownSecs
    refreshPacingMs := ← numberOf t .refreshPacingMs
    refreshFailureDelayMs := ← numberOf t .refreshFailureDelayMs
    refreshRetryDelayMs := ← numberOf t .refreshRetryDelayMs
    depthLevels := ← numberOf t .depthLevels
    healthPort := ← numberOf t .healthPort }

/-- The settings that some layers give, on top of what holds anyway. -/
def ofLayers (ls : List Layer) : Except SettingsFault Settings :=
  ofLayered (ls.foldl Layered.layOn base)

/-- how long the listener waits -/
def timing (s : Settings) : Timing where
  message := 1000 * s.messageTimeoutSecs
  ping := 1000 * s.pingTimeoutSecs
  cooldown := 1000 * s.reconnectCooldownSecs

end Settings

end MarketFeed
