import MarketFeed.Book.Levels
import MarketFeed.Feed.Snapshot
import MarketFeed.Proofs.Decimal.Text
import MarketFeed.Proofs.Instant.Text
import MarketFeed.Proofs.Json.Restoring

/-!
# Messages that are read again

A diff, a snapshot, the figures of a book or its state, as any text gives it, is read unchanged
from the text it is written as. Decimals keep their places and events their kind, since the value
that is read is the same.

## Main results

* `restored_decimal`, `restores_instant`, `restored_side`: the values in messages
* `Event.restores`, `Level.restores`, `RestingOrder.restores`: the parts of messages
* `messages_read_back`: whole messages
-/

namespace MarketFeed

open Json Json.Decoder

/-! ## Values in messages -/

theorem restored_decimal (a : Decimal) : Restored Decoder.decimal Decimal.toJson a := by
  refine ⟨trivial, ?_⟩
  show Decoder.decimal (.string a.text) = .ok a
  rw [Decoder.decimal, a.ofText_text]

theorem restored_decimalOrNull (a : Option Decimal) :
    Restored (Decoder.optional Decoder.decimal) Decimal.optionToJson a := by
  cases a with
  | none => exact ⟨trivial, rfl⟩
  | some a =>
    refine ⟨trivial, ?_⟩
    show (Decoder.decimal (Draft.ofJson a.toJson)).map some = .ok (some a)
    rw [(restored_decimal a).decoded]
    rfl

/-- An instant is restored, since one that is read is proper. -/
theorem restores_instant : Restores Decoder.instant fun t => .string t.text := by
  intro d t hfit ht
  cases d with
  | string s =>
    have hread : Instant.ofText s = .ok t := mapError_eq_ok_iff.mp ht
    refine ⟨trivial, ?_⟩
    show Decoder.instant (.string t.text) = .ok t
    rw [Decoder.instant, Instant.ofText_text (Instant.proper_of_ofText hread)]
    rfl
  | _ => exact absurd ht (refuse_ne_ok _ _ t)

theorem restored_side (s : Side) : Restored Side.decoder (fun s => .string s.name) s := by
  cases s <;> exact ⟨trivial, rfl⟩

/-! ## Orders and levels -/

theorem RestingOrder.restores : Restores RestingOrder.decoder RestingOrder.toJson := by
  intro d o _ _
  have hprice := restored_decimal o.price
  have hsize := restored_decimal o.size
  have hid := restored_string o.orderId
  have hfilled : Filled RestingOrder.fields [("price", o.price.toJson), ("size", o.size.toJson),
      ("order_id", .string o.orderId)] :=
    hprice.filled rfl <| hsize.filled rfl <| hid.filled rfl (.nil _)
  have hkeys : ["price", "size", "order_id"].Nodup := by decide
  refine ⟨hfilled.exact, ?_⟩
  exact bind_eq_ok (hfilled.record hkeys _) <| bind_eq_ok (hprice.required rfl) <|
    bind_eq_ok (hsize.required rfl) <| bind_eq_ok (hid.required rfl) rfl

theorem Level.restores : Restores Level.decoder Level.toJson := by
  intro d l _ _
  have hprice := restored_decimal l.price
  have hquantity := restored_decimal l.quantity
  have hfilled : Filled Level.fields
      [("price", l.price.toJson), ("quantity", l.quantity.toJson)] :=
    hprice.filled rfl <| hquantity.filled rfl (.nil _)
  have hkeys : ["price", "quantity"].Nodup := by decide
  refine ⟨hfilled.exact, ?_⟩
  exact bind_eq_ok (hfilled.record hkeys _) <| bind_eq_ok (hprice.required rfl) <|
    bind_eq_ok (hquantity.required rfl) rfl

/-! ## Events -/

namespace Event

theorem fit_of_readMembers {members : List (Draft × Draft)} {kind kind' : Option String}
    {ms : List (String × Json)} (hfit : Draft.MembersFit members)
    (h : readMembers kind members = .ok (kind', ms)) : Draft.MembersFit (Draft.ofMembers ms) := by
  induction members generalizing kind kind' ms with
  | nil =>
    obtain ⟨-, rfl⟩ := Prod.mk.inj (Except.ok.inj h)
    trivial
  | cons m members ih =>
    obtain ⟨k, v⟩ := m
    obtain ⟨name, -, h⟩ := bind_eq_ok_iff.mp h
    split at h
    next =>
      split at h
      next => exact nomatch h
      next =>
        obtain ⟨kind, -, h⟩ := bind_eq_ok_iff.mp h
        exact ih hfit.2 h
    next =>
      obtain ⟨j, hj, h⟩ := bind_eq_ok_iff.mp h
      obtain ⟨⟨kind, ms⟩, hms, h⟩ := bind_eq_ok_iff.mp h
      obtain ⟨-, rfl⟩ := Prod.mk.inj (Except.ok.inj h)
      exact ⟨integersFit_value v hfit.1 (mapError_eq_ok_iff.mp hj), ih hfit.2 hms⟩

/-- An event is made of what is held for the fields of its kind. -/
theorem exists_slots {d : Draft} {e : Event} (hfit : d.IntegersFit) (h : decoder d = .ok e) :
    ∃ kind slots, Slots.Fit slots ∧ ofSlots kind slots = .ok e := by
  cases d with
  | object members stop =>
    obtain ⟨⟨kind, ms⟩, hms, h⟩ := bind_eq_ok_iff.mp h
    simp only at h
    split at h
    next => cases h
    next =>
      split at h
      next kind =>
        obtain ⟨-, -, h⟩ := bind_eq_ok_iff.mp h
        exact ⟨kind, _, fit_ofMembers (fit_of_readMembers hfit hms), h⟩
      next => cases h
  | array items stop =>
    cases items with
    | nil =>
      obtain ⟨-, -, h⟩ := bind_eq_ok_iff.mp h
      cases h
    | cons v vs =>
      obtain ⟨kind, -, h⟩ := bind_eq_ok_iff.mp h
      obtain ⟨js, hjs, h⟩ := bind_eq_ok_iff.mp h
      obtain ⟨-, -, h⟩ := bind_eq_ok_iff.mp h
      obtain ⟨-, -, h⟩ := bind_eq_ok_iff.mp h
      have hvalues := itemsFit_values vs hfit.2 (mapError_eq_ok_iff.mp hjs)
      split at h
      next => cases h
      next =>
        split at h
        next => cases h
        next => exact ⟨kind, _, fit_ofItems hvalues _, h⟩
  | _ => exact absurd h (refuse_ne_ok _ _ e)

theorem exact_of_ofSlots {kind : String} {slots : Slots} {e : Event} (hslots : slots.Fit)
    (h : ofSlots kind slots = .ok e) : e.toJson.Exact := by
  unfold ofSlots at h
  simp only at h
  split at h
  next =>
    obtain ⟨orderId, -, h⟩ := bind_eq_ok_iff.mp h
    obtain ⟨price, -, h⟩ := bind_eq_ok_iff.mp h
    obtain ⟨remaining, -, h⟩ := bind_eq_ok_iff.mp h
    obtain rfl := Except.ok.inj h
    exact ⟨trivial, trivial, trivial, trivial, trivial⟩
  next =>
    obtain ⟨tradeId, htrade, h⟩ := bind_eq_ok_iff.mp h
    obtain ⟨makerId, -, h⟩ := bind_eq_ok_iff.mp h
    obtain ⟨takerId, -, h⟩ := bind_eq_ok_iff.mp h
    obtain ⟨price, -, h⟩ := bind_eq_ok_iff.mp h
    obtain ⟨size, -, h⟩ := bind_eq_ok_iff.mp h
    obtain rfl := Except.ok.inj h
    have hexact := ((restores_natural "u64").required hslots htrade).exact
    exact ⟨trivial, hexact, trivial, trivial, trivial, trivial, trivial⟩
  next =>
    obtain ⟨orderId, -, h⟩ := bind_eq_ok_iff.mp h
    obtain ⟨price, -, h⟩ := bind_eq_ok_iff.mp h
    obtain ⟨oldSize, -, h⟩ := bind_eq_ok_iff.mp h
    obtain ⟨newSize, -, h⟩ := bind_eq_ok_iff.mp h
    obtain rfl := Except.ok.inj h
    exact ⟨trivial, trivial, (restored_decimalOrNull price).exact,
      (restored_decimalOrNull oldSize).exact, (restored_decimalOrNull newSize).exact, trivial⟩
  next =>
    obtain ⟨orderId, -, h⟩ := bind_eq_ok_iff.mp h
    obtain ⟨price, -, h⟩ := bind_eq_ok_iff.mp h
    obtain ⟨remaining, -, h⟩ := bind_eq_ok_iff.mp h
    obtain ⟨reason, -, h⟩ := bind_eq_ok_iff.mp h
    obtain rfl := Except.ok.inj h
    exact ⟨trivial, trivial, trivial, (restored_decimalOrNull remaining).exact, trivial, trivial⟩

/-- The members behind the kind are kept as they are, if none of them is called so too. -/
theorem readMembers_ofMembers {kind : String} {ms : List (String × Json)}
    (hkeys : "kind" ∉ ms.map Prod.fst)
    (hvalues : ∀ m ∈ ms, (Draft.ofJson m.2).value (Draft.maxDepth - 2) = .ok m.2) :
    readMembers (some kind) (Draft.ofMembers ms) = .ok (some kind, ms) := by
  induction ms with
  | nil => rfl
  | cons m ms ih =>
    obtain ⟨k, v⟩ := m
    obtain ⟨hk, hkeys⟩ := not_or.mp (mt List.mem_cons.mpr hkeys)
    obtain ⟨hv, hvalues⟩ := List.forall_mem_cons.mp hvalues
    have hname : wellFormed (Draft.string k).key = .ok k := rfl
    have hvalue : wellFormed ((Draft.ofJson v).value (Draft.maxDepth - 2)) = .ok v :=
      mapError_eq_ok_iff.mpr hv
    rw [Draft.ofMembers, readMembers]
    refine bind_eq_ok hname ?_
    rw [if_neg (Ne.symm hk)]
    exact bind_eq_ok hvalue (bind_eq_ok (ih hkeys hvalues) rfl)

/-- An event is made of an object of its kind and the members behind it. -/
theorem decoder_object {kind : String} {ms : List (String × Json)} {e : Event}
    (hkind : kindOf (.string kind) = .ok kind) (hkeys : ("kind" :: ms.map Prod.fst).Nodup)
    (hvalues : ∀ m ∈ ms, (Draft.ofJson m.2).value (Draft.maxDepth - 2) = .ok m.2)
    (hfilled : Filled (fields kind) ms)
    (hslots : ofSlots kind (Slots.ofMembers (Draft.ofMembers ms)) = .ok e) :
    decoder (Draft.ofJson (.object (("kind", .string kind) :: ms))) = .ok e := by
  obtain ⟨hkindKey, hkeys⟩ := List.nodup_cons.mp hkeys
  have htagged : readMembers none (Draft.ofMembers (("kind", .string kind) :: ms)) =
      .ok (some kind, ms) := by
    rw [Draft.ofMembers, readMembers]
    refine bind_eq_ok_iff.mpr ⟨"kind", rfl, ?_⟩
    rw [if_pos rfl, if_neg (by simp)]
    exact bind_eq_ok hkind (readMembers_ofMembers hkindKey hvalues)
  have hchecked : checkMembers (fields kind) [] (Draft.ofMembers ms) = .ok () :=
    (checkMembers_ofMembers hkeys fun _ _ => List.not_mem_nil).trans hfilled.checked
  have hmembers : ofMembers kind ms = .ok e := bind_eq_ok hchecked hslots
  exact bind_eq_ok htagged hmembers

theorem value_decimal (a : Decimal) (depth : ℕ) :
    (Draft.ofJson a.toJson).value depth = .ok a.toJson := rfl

theorem value_decimalOrNull (a : Option Decimal) (depth : ℕ) :
    (Draft.ofJson (Decimal.optionToJson a)).value depth = .ok (Decimal.optionToJson a) := by
  cases a <;> rfl

/-- **An event is restored with its kind**, whichever it is. -/
theorem restored {e : Event} (h : e.toJson.Exact) : Restored decoder toJson e := by
  refine ⟨h, ?_⟩
  cases e with
  | opened orderId price remaining =>
    have hid := restored_string orderId
    have hprice := restored_decimal price
    have hremaining := restored_decimal remaining
    have hkeys : ["kind", "order_id", "price", "remaining_size"].Nodup := by decide
    refine decoder_object rfl hkeys ?_ ?_ ?_
    · simp [Draft.ofJson, Draft.value, value_decimal]
    · exact hid.filled rfl <| hprice.filled rfl <| hremaining.filled rfl (.nil _)
    · exact bind_eq_ok (hid.required rfl) <| bind_eq_ok (hprice.required rfl) <|
        bind_eq_ok (hremaining.required rfl) rfl
  | traded tradeId makerId takerId price size =>
    have htrade := restored_natural "u64" h.2.1
    have hmaker := restored_string makerId
    have htaker := restored_string takerId
    have hprice := restored_decimal price
    have hsize := restored_decimal size
    have hkeys : ["kind", "trade_id", "maker_order_id", "taker_order_id", "price",
      "size"].Nodup := by decide
    refine decoder_object rfl hkeys ?_ ?_ ?_
    · simp [Draft.ofJson, Draft.value, value_decimal]
    · exact htrade.filled rfl <| hmaker.filled rfl <| htaker.filled rfl <| hprice.filled rfl <|
        hsize.filled rfl (.nil _)
    · exact bind_eq_ok (htrade.required rfl) <| bind_eq_ok (hmaker.required rfl) <|
        bind_eq_ok (htaker.required rfl) <| bind_eq_ok (hprice.required rfl) <|
        bind_eq_ok (hsize.required rfl) rfl
  | resized orderId price oldSize newSize =>
    have hid := restored_string orderId
    have hprice := restored_decimalOrNull price
    have hold := restored_decimalOrNull oldSize
    have hnew := restored_decimalOrNull newSize
    have hkeys : ["kind", "order_id", "price", "old_size", "new_size"].Nodup := by decide
    refine decoder_object rfl hkeys ?_ ?_ ?_
    · simp [Draft.ofJson, Draft.value, value_decimalOrNull]
    · exact hid.filled rfl <| hprice.filled rfl <| hold.filled rfl <| hnew.filled rfl (.nil _)
    · exact bind_eq_ok (hid.required rfl) <| bind_eq_ok (hprice.optional rfl) <|
        bind_eq_ok (hold.optional rfl) <| bind_eq_ok (hnew.optional rfl) rfl
  | closed orderId price remaining reason =>
    have hid := restored_string orderId
    have hprice := restored_decimal price
    have hremaining := restored_decimalOrNull remaining
    have hreason := restored_string reason
    have hkeys : ["kind", "order_id", "price", "remaining_size", "reason"].Nodup := by decide
    refine decoder_object rfl hkeys ?_ ?_ ?_
    · simp [Draft.ofJson, Draft.value, value_decimal, value_decimalOrNull]
    · exact hid.filled rfl <| hprice.filled rfl <| hremaining.filled rfl <|
        hreason.filled rfl (.nil _)
    · exact bind_eq_ok (hid.required rfl) <| bind_eq_ok (hprice.required rfl) <|
        bind_eq_ok (hremaining.optional rfl) <| bind_eq_ok (hreason.required rfl) rfl

theorem restores : Restores decoder toJson := by
  intro d e hfit he
  obtain ⟨kind, slots, hslots, hmade⟩ := exists_slots hfit he
  exact restored (exact_of_ofSlots hslots hmade)

end Event

/-! ## Messages -/

theorem Diff.restores : Restores Diff.decoder Diff.toJson := by
  intro d v hfit hv
  obtain ⟨slots, hslots, hv⟩ := bind_eq_ok_iff.mp hv
  have hslots := fit_of_record hfit hslots
  obtain ⟨productId, -, hv⟩ := bind_eq_ok_iff.mp hv
  obtain ⟨sequence, hsequence, hv⟩ := bind_eq_ok_iff.mp hv
  obtain ⟨time, htime, hv⟩ := bind_eq_ok_iff.mp hv
  obtain ⟨side, -, hv⟩ := bind_eq_ok_iff.mp hv
  obtain ⟨event, hevent, hv⟩ := bind_eq_ok_iff.mp hv
  obtain rfl := Except.ok.inj hv
  have hproduct := restored_string productId
  have hsequence := (restores_natural "u64").required hslots hsequence
  have htime := restores_instant.required hslots htime
  have hside := restored_side side
  have hevent := Event.restores.required hslots hevent
  have hfilled : Filled Diff.fields [("product_id", .string productId),
      ("sequence", .integer sequence), ("time", .string time.text), ("side", .string side.name),
      ("event", event.toJson)] :=
    hproduct.filled rfl <| hsequence.filled rfl <| htime.filled rfl <| hside.filled rfl <|
      hevent.filled rfl (.nil _)
  have hkeys : ["product_id", "sequence", "time", "side", "event"].Nodup := by decide
  refine ⟨hfilled.exact, ?_⟩
  exact bind_eq_ok (hfilled.record hkeys _) <| bind_eq_ok (hproduct.required rfl) <|
    bind_eq_ok (hsequence.required rfl) <| bind_eq_ok (htime.required rfl) <|
    bind_eq_ok (hside.required rfl) <| bind_eq_ok (hevent.required rfl) rfl

theorem Snapshot.restores : Restores Snapshot.decoder Snapshot.toJson := by
  intro d s hfit hs
  obtain ⟨slots, hslots, hs⟩ := bind_eq_ok_iff.mp hs
  have hslots := fit_of_record hfit hslots
  obtain ⟨productId, -, hs⟩ := bind_eq_ok_iff.mp hs
  obtain ⟨timestamp, htime, hs⟩ := bind_eq_ok_iff.mp hs
  obtain ⟨sequence, hsequence, hs⟩ := bind_eq_ok_iff.mp hs
  obtain ⟨bids, hbids, hs⟩ := bind_eq_ok_iff.mp hs
  obtain ⟨asks, hasks, hs⟩ := bind_eq_ok_iff.mp hs
  obtain rfl := Except.ok.inj hs
  have hproduct := restored_string productId
  have htime := restores_instant.required hslots htime
  have hsequence := (restores_natural "u64").required hslots hsequence
  have hbids := RestingOrder.restores.list.required hslots hbids
  have hasks := RestingOrder.restores.list.required hslots hasks
  have hfilled : Filled Snapshot.fields [("product_id", .string productId),
      ("timestamp", .string timestamp.text), ("sequence", .integer sequence),
      ("bids", .array (bids.map RestingOrder.toJson)),
      ("asks", .array (asks.map RestingOrder.toJson))] :=
    hproduct.filled rfl <| htime.filled rfl <| hsequence.filled rfl <| hbids.filled rfl <|
      hasks.filled rfl (.nil _)
  have hkeys : ["product_id", "timestamp", "sequence", "bids", "asks"].Nodup := by decide
  refine ⟨hfilled.exact, ?_⟩
  exact bind_eq_ok (hfilled.record hkeys _) <| bind_eq_ok (hproduct.required rfl) <|
    bind_eq_ok (htime.required rfl) <| bind_eq_ok (hsequence.required rfl) <|
    bind_eq_ok (hbids.required rfl) <| bind_eq_ok (hasks.required rfl) rfl

theorem Metrics.restores : Restores Metrics.decoder Metrics.toJson := by
  intro d m hfit hm
  obtain ⟨slots, hslots, hm⟩ := bind_eq_ok_iff.mp hm
  have hslots := fit_of_record hfit hslots
  obtain ⟨midPrice, -, hm⟩ := bind_eq_ok_iff.mp hm
  obtain ⟨spreadBps, -, hm⟩ := bind_eq_ok_iff.mp hm
  obtain ⟨imbalance, -, hm⟩ := bind_eq_ok_iff.mp hm
  obtain ⟨bidDepth, -, hm⟩ := bind_eq_ok_iff.mp hm
  obtain ⟨askDepth, -, hm⟩ := bind_eq_ok_iff.mp hm
  obtain ⟨bidLevels, hbids, hm⟩ := bind_eq_ok_iff.mp hm
  obtain ⟨askLevels, hasks, hm⟩ := bind_eq_ok_iff.mp hm
  obtain rfl := Except.ok.inj hm
  have hmid := restored_decimalOrNull midPrice
  have hspread := restored_decimalOrNull spreadBps
  have himbalance := restored_decimalOrNull imbalance
  have hbidDepth := restored_decimal bidDepth
  have haskDepth := restored_decimal askDepth
  have hbids := (restores_natural "usize").required hslots hbids
  have hasks := (restores_natural "usize").required hslots hasks
  have hfilled : Filled Metrics.fields [("mid_price", Decimal.optionToJson midPrice),
      ("spread_bps", Decimal.optionToJson spreadBps),
      ("imbalance", Decimal.optionToJson imbalance), ("bid_depth", bidDepth.toJson),
      ("ask_depth", askDepth.toJson), ("bid_levels", .integer bidLevels),
      ("ask_levels", .integer askLevels)] :=
    hmid.filled rfl <| hspread.filled rfl <| himbalance.filled rfl <| hbidDepth.filled rfl <|
      haskDepth.filled rfl <| hbids.filled rfl <| hasks.filled rfl (.nil _)
  have hkeys : ["mid_price", "spread_bps", "imbalance", "bid_depth", "ask_depth", "bid_levels",
    "ask_levels"].Nodup := by decide
  refine ⟨hfilled.exact, ?_⟩
  exact bind_eq_ok (hfilled.record hkeys _) <| bind_eq_ok (hmid.optional rfl) <|
    bind_eq_ok (hspread.optional rfl) <| bind_eq_ok (himbalance.optional rfl) <|
    bind_eq_ok (hbidDepth.required rfl) <| bind_eq_ok (haskDepth.required rfl) <|
    bind_eq_ok (hbids.required rfl) <| bind_eq_ok (hasks.required rfl) rfl

theorem BookState.restores : Restores BookState.decoder BookState.toJson := by
  intro d s hfit hs
  obtain ⟨slots, hslots, hs⟩ := bind_eq_ok_iff.mp hs
  have hslots := fit_of_record hfit hslots
  obtain ⟨productId, -, hs⟩ := bind_eq_ok_iff.mp hs
  obtain ⟨lastUpdateId, hlast, hs⟩ := bind_eq_ok_iff.mp hs
  obtain ⟨bids, hbids, hs⟩ := bind_eq_ok_iff.mp hs
  obtain ⟨asks, hasks, hs⟩ := bind_eq_ok_iff.mp hs
  obtain ⟨metrics, hmetrics, hs⟩ := bind_eq_ok_iff.mp hs
  obtain rfl := Except.ok.inj hs
  have hproduct := restored_string productId
  have hlast := (restores_natural "u64").required hslots hlast
  have hbids := Level.restores.list.required hslots hbids
  have hasks := Level.restores.list.required hslots hasks
  have hmetrics := Metrics.restores.required hslots hmetrics
  have hfilled : Filled BookState.fields [("product_id", .string productId),
      ("last_update_id", .integer lastUpdateId), ("bids", .array (bids.map Level.toJson)),
      ("asks", .array (asks.map Level.toJson)), ("metrics", metrics.toJson)] :=
    hproduct.filled rfl <| hlast.filled rfl <| hbids.filled rfl <| hasks.filled rfl <|
      hmetrics.filled rfl (.nil _)
  have hkeys : ["product_id", "last_update_id", "bids", "asks", "metrics"].Nodup := by decide
  refine ⟨hfilled.exact, ?_⟩
  exact bind_eq_ok (hfilled.record hkeys _) <| bind_eq_ok (hproduct.required rfl) <|
    bind_eq_ok (hlast.required rfl) <| bind_eq_ok (hbids.required rfl) <|
    bind_eq_ok (hasks.required rfl) <| bind_eq_ok (hmetrics.required rfl) rfl

/-- **What is read of a text is read again, unchanged, from the text it is written as.** -/
theorem messages_read_back (gs : List Text.Glyph) :
    (∀ d, Diff.decoder.runGlyphs gs = .ok d → Diff.decoder.run d.toJson.text = .ok d) ∧
      (∀ s, Snapshot.decoder.runGlyphs gs = .ok s → Snapshot.decoder.run s.toJson.text = .ok s) ∧
      (∀ m, Metrics.decoder.runGlyphs gs = .ok m → Metrics.decoder.run m.toJson.text = .ok m) ∧
      (∀ s, BookState.decoder.runGlyphs gs = .ok s →
        BookState.decoder.run s.toJson.text = .ok s) :=
  ⟨fun _ => Diff.restores.run_text, fun _ => Snapshot.restores.run_text,
    fun _ => Metrics.restores.run_text, fun _ => BookState.restores.run_text⟩

/-- the decimal with a given coefficient and scale, zero if there is none -/
def Decimal.parts (coefficient : ℤ) (scale : ℕ) : Decimal :=
  (ofParts? coefficient scale).getD zero

/-- A diff in a leap second before year 0, with escaped characters and one of three decimals. -/
def Diff.leapText : String :=
  "[\"\\ud83d\\ude00\\u0007\", 18446744073709551615, \"-0001-12-31 23:59:60.5+05:30\", " ++
    "\"sell\", \x7b\"price\": \"-1.500\", \"kind\": \"change\", \"order_id\": \"\"\x7d]"

/-- what `Diff.leapText` is read as -/
def Diff.leap : Diff where
  productId := "😀\x07"
  sequence := 18446744073709551615
  time := ⟨-62167239001, 1500000000⟩
  side := .sell
  event := .resized "" (some (.parts (-1500) 3)) none none

/-- A snapshot after year 9999, with a zero of two places. -/
def Snapshot.lateText : String :=
  "[\"\", \"+10000-01-01T00:00:00.000000001Z\", 0, [[5, \"0.00\", \"\\u00e9\"]], []]"

/-- what `Snapshot.lateText` is read as -/
def Snapshot.late : Snapshot where
  productId := ""
  timestamp := ⟨253402300800, 1⟩
  sequence := 0
  bids := [⟨.parts 5 0, .parts 0 2, "é"⟩]
  asks := []

/-- Figures with the smallest and the greatest of decimals. -/
def Metrics.extremeText : String :=
  "\x7b\"imbalance\": \"0.0000000000000000000000000001\", \"ask_depth\": \"-1.10\", " ++
    "\"bid_depth\": \"79228162514264337593543950335\", \"bid_levels\": 1, \"ask_levels\": 0\x7d"

/-- what `Metrics.extremeText` is read as -/
def Metrics.extreme : Metrics where
  midPrice := none
  spreadBps := none
  imbalance := some (.parts 1 28)
  bidDepth := .parts 79228162514264337593543950335 0
  askDepth := .parts (-110) 2
  bidLevels := 1
  askLevels := 0

/-- The state of a book with one level. -/
def BookState.shortText : String :=
  "[\"BTC-USD\", 7, [], [[\"9.50\", \"1.0\"]], [null, null, \"-1\", \"0\", \"1.0\", 0, 1]]"

/-- what `BookState.shortText` is read as -/
def BookState.short : BookState where
  productId := "BTC-USD"
  lastUpdateId := 7
  bids := []
  asks := [⟨.parts 950 2, .parts 10 1⟩]
  metrics := ⟨none, none, some (.parts (-1) 0), .zero, .parts 10 1, 0, 1⟩

theorem messages_read_back_samples :
    (Diff.decoder.run Diff.leapText = .ok .leap ∧
      Diff.decoder.run Diff.leap.toJson.text = .ok .leap) ∧
    (Snapshot.decoder.run Snapshot.lateText = .ok .late ∧
      Snapshot.decoder.run Snapshot.late.toJson.text = .ok .late) ∧
    (Metrics.decoder.run Metrics.extremeText = .ok .extreme ∧
      Metrics.decoder.run Metrics.extreme.toJson.text = .ok .extreme) ∧
    (BookState.decoder.run BookState.shortText = .ok .short ∧
      BookState.decoder.run BookState.short.toJson.text = .ok .short) := by
  have hdiff : Diff.decoder.run Diff.leapText = .ok .leap := by decide +kernel
  have hsnapshot : Snapshot.decoder.run Snapshot.lateText = .ok .late := by decide +kernel
  have hmetrics : Metrics.decoder.run Metrics.extremeText = .ok .extreme := by decide +kernel
  have hstate : BookState.decoder.run BookState.shortText = .ok .short := by decide +kernel
  exact ⟨⟨hdiff, (messages_read_back _).1 _ hdiff⟩,
    ⟨hsnapshot, (messages_read_back _).2.1 _ hsnapshot⟩,
    ⟨hmetrics, (messages_read_back _).2.2.1 _ hmetrics⟩,
    ⟨hstate, (messages_read_back _).2.2.2 _ hstate⟩⟩

end MarketFeed
