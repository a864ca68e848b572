import MarketFeed.Feed.Snapshot
import MarketFeed.Proofs.Json.Records

/-!
# Full books from texts

A full book is read all together or not at all. The object must hold its number and both sides once
each, and every item of a side must be a row: three texts, the first two of them decimals. The
orders are those of the rows, one for each and in their order.

## Main definitions

* `Json.IsRow`, `RestingOrder.IsOf`: rows, and the order of a row
* `Json.IsListing`, `Listing.IsOf`: objects that are full books, and the book of an object

## Main results

* `Listing.rows_ofJson_eq_ok_iff`: a side is read row by row
* `Listing.decoder_ofJson_eq_ok_iff`: a book is read from a number and two sides
* `Listing.readExactly_of_read`: which texts are full books, and which ones
-/

namespace MarketFeed

open Json Json.Decoder Text

variable {v item : Json} {ms : List (String × Json)} {k : String} {gs : List Glyph}

/-! ## What is to be read -/

namespace Json

/-- A row: exactly three texts, the first two of them decimals. -/
def IsRow (item : Json) : Prop :=
  ∃ price size id, item = .array [.string price, .string size, .string id] ∧
    (∃ a, Decimal.ofText price = .ok a) ∧ ∃ a, Decimal.ofText size = .ok a

/-- A key is there once and holds an array of rows. -/
def IsSide (ms : List (String × Json)) (k : String) : Prop :=
  ∃ items, valuesOf k ms = [.array items] ∧ ∀ item ∈ items, item.IsRow

/-- An object that is a full book. -/
structure IsListing (ms : List (String × Json)) : Prop where
  sequence : ∃ n : ℕ, n < 2 ^ 64 ∧ valuesOf "sequence" ms = [.integer n]
  bids : IsSide ms "bids"
  asks : IsSide ms "asks"

end Json

/-- The order of a row: its price, its size and its id. -/
def RestingOrder.IsOf (item : Json) (o : RestingOrder) : Prop :=
  ∃ price size, item = .array [.string price, .string size, .string o.orderId] ∧
    Decimal.ofText price = .ok o.price ∧ Decimal.ofText size = .ok o.size

namespace Listing

/-- A key is there once and holds the rows of some orders, one for each and in their order. -/
def SideIsOf (ms : List (String × Json)) (k : String) (os : List RestingOrder) : Prop :=
  ∃ items, valuesOf k ms = [.array items] ∧ List.Forall₂ RestingOrder.IsOf items os

/-- The book of an object. -/
structure IsOf (ms : List (String × Json)) (l : Listing) : Prop where
  sequence : valuesOf "sequence" ms = [.integer l.sequence]
  bids : SideIsOf ms "bids" l.bids
  asks : SideIsOf ms "asks" l.asks

/-! ## Rows -/

theorem string_ofJson_eq_ok_iff {s : String} :
    Decoder.string (Draft.ofJson v) = .ok s ↔ v = .string s := by
  cases v with
  | string s' => exact ⟨fun h => congrArg Json.string (Except.ok.inj h), fun h => h ▸ rfl⟩
  | _ => exact iff_of_false (refuse_ne_ok _ _ s) (fun h => nomatch h)

/-- An array of texts. -/
theorem texts_ofJson_eq_ok_iff {texts : List String} :
    Decoder.list Decoder.string (Draft.ofJson v) = .ok texts ↔
      v = .array (texts.map Json.string) := by
  have hitems (items : List Json) : List.Forall₂ (fun item s => item = Json.string s) items texts ↔
      items = texts.map Json.string := by
    rw [← List.forall₂_map_right_iff (R := Eq), List.forall₂_eq_eq_eq]
  simp only [list_ofJson_eq_ok_iff, string_ofJson_eq_ok_iff, hitems]
  exact ⟨fun ⟨items, hv, heq⟩ => heq ▸ hv, fun hv => ⟨_, hv, rfl⟩⟩

/-- An order is made of three texts. -/
theorem ofRow_eq_ok_iff {texts : List String} {o : RestingOrder} :
    RestingOrder.ofRow texts = .ok o ↔
      ∃ price size, texts = [price, size, o.orderId] ∧ Decimal.ofText price = .ok o.price ∧
        Decimal.ofText size = .ok o.size := by
  constructor
  · intro h
    unfold RestingOrder.ofRow at h
    split at h
    next price size id =>
      obtain ⟨a, ha, h⟩ := bind_eq_ok_iff.mp h
      obtain ⟨b, hb, h⟩ := bind_eq_ok_iff.mp h
      obtain rfl := Except.ok.inj h
      exact ⟨price, size, rfl, mapError_eq_ok_iff.mp ha, mapError_eq_ok_iff.mp hb⟩
    next => exact nomatch h
  · rintro ⟨price, size, rfl, hprice, hsize⟩
    exact bind_eq_ok (mapError_eq_ok_iff.mpr hprice) <|
      bind_eq_ok (mapError_eq_ok_iff.mpr hsize) rfl

/-- The order of a row is what the two steps of its reading make of it. -/
theorem isOf_iff_exists_texts {o : RestingOrder} :
    o.IsOf item ↔ ∃ texts, Decoder.list Decoder.string (Draft.ofJson item) = .ok texts ∧
      RestingOrder.ofRow texts = .ok o := by
  simp only [texts_ofJson_eq_ok_iff, ofRow_eq_ok_iff]
  constructor
  · rintro ⟨price, size, hitem, hprice, hsize⟩
    exact ⟨[price, size, o.orderId], hitem, price, size, rfl, hprice, hsize⟩
  · rintro ⟨_, hitem, price, size, rfl, hprice, hsize⟩
    exact ⟨price, size, hitem, hprice, hsize⟩

/-- **A side is read row by row**, and a single item that is no row spoils it. -/
theorem rows_ofJson_eq_ok_iff {os : List RestingOrder} :
    rows (Draft.ofJson v) = .ok os ↔
      ∃ items, v = .array items ∧ List.Forall₂ RestingOrder.IsOf items os := by
  have hside (items : List Json) : List.Forall₂ RestingOrder.IsOf items os ↔
      ∃ texts, List.Forall₂ (fun item row => Decoder.list Decoder.string (Draft.ofJson item) =
        .ok row) items texts ∧ texts.mapM RestingOrder.ofRow = .ok os := by
    simp only [mapM_eq_ok_iff, ← forall₂_exists_iff, ← isOf_iff_exists_texts]
  rw [rows, bind_eq_ok_iff]
  simp only [list_ofJson_eq_ok_iff, hside]
  constructor
  · rintro ⟨texts, ⟨items, hv, htexts⟩, hos⟩
    exact ⟨items, hv, texts, htexts, hos⟩
  · rintro ⟨items, hv, texts, htexts, hos⟩
    exact ⟨texts, ⟨items, hv, htexts⟩, hos⟩

/-- An item is a row if it is that of an order. -/
theorem isRow_iff : item.IsRow ↔ ∃ o : RestingOrder, o.IsOf item := by
  constructor
  · rintro ⟨price, size, id, hitem, ⟨a, ha⟩, b, hb⟩
    exact ⟨⟨a, b, id⟩, price, size, hitem, ha, hb⟩
  · rintro ⟨o, price, size, hitem, hprice, hsize⟩
    exact ⟨price, size, o.orderId, hitem, ⟨_, hprice⟩, _, hsize⟩

/-- Items are rows if they are those of some orders. -/
theorem forall_isRow_iff {items : List Json} :
    (∀ item ∈ items, item.IsRow) ↔ ∃ os, List.Forall₂ RestingOrder.IsOf items os := by
  induction items with
  | nil => exact iff_of_true (by simp) ⟨[], .nil⟩
  | cons item items ih =>
    rw [List.forall_mem_cons, ih, isRow_iff]
    constructor
    · rintro ⟨⟨o, ho⟩, os, hos⟩
      exact ⟨o :: os, .cons ho hos⟩
    · rintro ⟨os, hos⟩
      obtain ⟨o, os', ho, hos', rfl⟩ := List.forall₂_cons_left_iff.mp hos
      exact ⟨⟨o, ho⟩, os', hos'⟩

/-- A key holds rows if it holds those of some orders. -/
theorem isSide_iff : IsSide ms k ↔ ∃ os, SideIsOf ms k os := by
  simp only [IsSide, SideIsOf, forall_isRow_iff]
  exact ⟨fun ⟨items, hk, os, hos⟩ => ⟨os, items, hk, hos⟩,
    fun ⟨os, items, hk, hos⟩ => ⟨items, hk, os, hos⟩⟩

/-! ## Books -/

theorem u64_ofJson_eq_ok_iff {n : ℕ} :
    Decoder.u64 (Draft.ofJson v) = .ok n ↔ v = .integer n := by
  cases v with
  | integer m =>
    rw [Draft.ofJson, Decoder.u64, Decoder.natural, Json.integer.injEq]
    split
    next hneg =>
      refine iff_of_false ?_ (by omega)
      intro h
      cases h
    next hneg =>
      rw [Except.ok.injEq]
      omega
  | _ =>
    refine iff_of_false (refuse_ne_ok _ _ n) ?_
    intro h
    cases h

theorem nodup_fields : (fields.map Field.name).Nodup := by decide

/-- **A book is read from a number and two sides**, each of which must be there once. -/
theorem decoder_ofJson_eq_ok_iff {l : Listing} :
    decoder (Draft.ofJson (.object ms)) = .ok l ↔
      HoldsOnce ms "sequence" Decoder.u64 l.sequence ∧ HoldsOnce ms "bids" rows l.bids ∧
        HoldsOnce ms "asks" rows l.asks := by
  have hsequence : Field.of "sequence" Decoder.u64 ∈ fields := by simp [fields]
  have hbids : Field.of "bids" rows ∈ fields := by simp [fields]
  have hasks : Field.of "asks" rows ∈ fields := by simp [fields]
  constructor
  · intro h
    obtain ⟨slots, hslots, h⟩ := bind_eq_ok_iff.mp h
    obtain ⟨hcheck, rfl⟩ := record_ofJson_eq_ok_iff.mp hslots
    obtain ⟨sequence, hs, h⟩ := bind_eq_ok_iff.mp h
    obtain ⟨bids, hb, h⟩ := bind_eq_ok_iff.mp h
    obtain ⟨asks, ha, h⟩ := bind_eq_ok_iff.mp h
    obtain rfl := Except.ok.inj h
    exact ⟨(required_eq_ok_iff nodup_fields hcheck hsequence).mp hs,
      (required_eq_ok_iff nodup_fields hcheck hbids).mp hb,
      (required_eq_ok_iff nodup_fields hcheck hasks).mp ha⟩
  · rintro ⟨hs, hb, ha⟩
    have hcheck : checkMembers fields [] (Draft.ofMembers ms) = .ok () := by
      refine (checkMembers_eq_ok_iff nodup_fields).mpr fun f hf => .inr ⟨List.not_mem_nil, ?_⟩
      simp only [fields, List.mem_cons, List.not_mem_nil, or_false] at hf
      rcases hf with rfl | rfl | rfl
      · exact hs.check
      · exact hb.check
      · exact ha.check
    exact bind_eq_ok (record_ofJson_eq_ok_iff.mpr ⟨hcheck, rfl⟩) <|
      bind_eq_ok ((required_eq_ok_iff nodup_fields hcheck hsequence).mpr hs) <|
      bind_eq_ok ((required_eq_ok_iff nodup_fields hcheck hbids).mpr hb) <|
      bind_eq_ok ((required_eq_ok_iff nodup_fields hcheck hasks).mpr ha) rfl

theorem holdsOnce_rows_iff {os : List RestingOrder} :
    HoldsOnce ms k rows os ↔ SideIsOf ms k os := by
  simp only [HoldsOnce, SideIsOf, rows_ofJson_eq_ok_iff]
  constructor
  · rintro ⟨_, hk, items, rfl, hos⟩
    exact ⟨items, hk, hos⟩
  · rintro ⟨items, hk, hos⟩
    exact ⟨_, hk, items, rfl, hos⟩

theorem holdsOnce_u64_iff {n : ℕ} :
    HoldsOnce ms k Decoder.u64 n ↔ valuesOf k ms = [.integer n] := by
  simp [HoldsOnce, u64_ofJson_eq_ok_iff]

theorem decoder_ofJson_eq_ok_iff_isOf {l : Listing} :
    decoder (Draft.ofJson (.object ms)) = .ok l ↔ IsOf ms l := by
  rw [decoder_ofJson_eq_ok_iff, holdsOnce_u64_iff, holdsOnce_rows_iff, holdsOnce_rows_iff]
  exact ⟨fun ⟨hs, hb, ha⟩ => ⟨hs, hb, ha⟩, fun ⟨hs, hb, ha⟩ => ⟨hs, hb, ha⟩⟩

/-- Among objects whose integers fit 64 bits, the full books are those that some listing is of. -/
theorem isListing_iff (hfit : (Draft.ofJson (.object ms)).IntegersFit) :
    IsListing ms ↔ ∃ l, IsOf ms l := by
  constructor
  · rintro ⟨⟨n, -, hn⟩, hbids, hasks⟩
    obtain ⟨bids, hbids⟩ := isSide_iff.mp hbids
    obtain ⟨asks, hasks⟩ := isSide_iff.mp hasks
    exact ⟨⟨n, bids, asks⟩, hn, hbids, hasks⟩
  · rintro ⟨l, hs, hb, ha⟩
    refine ⟨⟨l.sequence, ?_, hs⟩, isSide_iff.mpr ⟨_, hb⟩, isSide_iff.mpr ⟨_, ha⟩⟩
    have hmem : Json.integer l.sequence ∈ valuesOf "sequence" ms := hs ▸ List.mem_singleton_self _
    have hlt : (l.sequence : ℤ) < 2 ^ 64 := (integersFit_of_mem_valuesOf hfit hmem).2
    exact_mod_cast hlt

/-! ## Texts -/

/-- What is read of a text that holds an object. -/
structure ReadExactly (gs : List Glyph) (ms : List (String × Json)) : Prop where
  /-- a full book is read of just the objects that are one -/
  accepts : (∃ l, decoder.runGlyphs gs = .ok l) ↔ IsListing ms
  /-- and it is the book of the object -/
  reads (l : Listing) : decoder.runGlyphs gs = .ok l ↔ IsOf ms l
  /-- a single item that is no row spoils all -/
  refuses {k : String} {items : List Json} {item : Json} (hside : k = "bids" ∨ k = "asks")
    (hk : valuesOf k ms = [.array items]) (hitem : item ∈ items) (hrow : ¬ item.IsRow) :
    ∃ f, decoder.runGlyphs gs = .error f
  /-- other keys do not matter -/
  ignores {gs' : List Glyph} {ms' : List (String × Json)} (hread : read gs' = .ok (.object ms'))
    (hsame : ∀ f ∈ fields, valuesOf f.name ms = valuesOf f.name ms') :
    (decoder.runGlyphs gs).toOption = (decoder.runGlyphs gs').toOption

theorem runGlyphs_eq_ok_iff (h : read gs = .ok (.object ms)) (l : Listing) :
    decoder.runGlyphs gs = .ok l ↔ IsOf ms l := by
  rw [runGlyphs_of_read h, decoder_ofJson_eq_ok_iff_isOf]

theorem exists_runGlyphs_iff (h : read gs = .ok (.object ms)) :
    (∃ l, decoder.runGlyphs gs = .ok l) ↔ IsListing ms := by
  rw [isListing_iff (integersFit_of_read h)]
  exact exists_congr (runGlyphs_eq_ok_iff h)

/-- The number and the sides of an object determine its book. -/
theorem isOf_congr {ms' : List (String × Json)}
    (h : ∀ f ∈ fields, valuesOf f.name ms = valuesOf f.name ms') (l : Listing) :
    IsOf ms l ↔ IsOf ms' l := by
  have hsequence : valuesOf "sequence" ms = valuesOf "sequence" ms' :=
    h (Field.of "sequence" Decoder.u64) (by simp [fields])
  have hbids : valuesOf "bids" ms = valuesOf "bids" ms' :=
    h (Field.of "bids" rows) (by simp [fields])
  have hasks : valuesOf "asks" ms = valuesOf "asks" ms' :=
    h (Field.of "asks" rows) (by simp [fields])
  constructor
  · rintro ⟨hs, hb, ha⟩
    exact ⟨hsequence ▸ hs, by rwa [SideIsOf, ← hbids], by rwa [SideIsOf, ← hasks]⟩
  · rintro ⟨hs, hb, ha⟩
    exact ⟨hsequence ▸ hs, by rwa [SideIsOf, hbids], by rwa [SideIsOf, hasks]⟩

/-- **A text that holds an object is read as a full book if the object is one**, row by row, and not
at all otherwise. -/
theorem readExactly_of_read (h : read gs = .ok (.object ms)) : ReadExactly gs ms where
  accepts := exists_runGlyphs_iff h
  reads := runGlyphs_eq_ok_iff h
  refuses {k items item} hside hk hitem hrow := by
    have hbad : ¬ IsSide ms k := by
      rintro ⟨items', hk', hrows⟩
      obtain rfl := Json.array.inj (List.cons.inj (hk.symm.trans hk')).1
      exact hrow (hrows item hitem)
    have hnone : ¬ IsListing ms := by
      rintro ⟨-, hbids, hasks⟩
      rcases hside with rfl | rfl
      · exact hbad hbids
      · exact hbad hasks
    cases hrun : decoder.runGlyphs gs with
    | error f => exact ⟨f, rfl⟩
    | ok l => exact absurd ((exists_runGlyphs_iff h).mp ⟨l, hrun⟩) hnone
  ignores {gs' ms'} hread hsame := by
    refine Option.ext fun l => ?_
    rw [← Option.mem_def, ← Option.mem_def, mem_toOption_iff, mem_toOption_iff,
      runGlyphs_eq_ok_iff h, runGlyphs_eq_ok_iff hread, isOf_congr hsame]

/-- Members with the asks in front, of one price with different places, and a key that is none of a
book twice; `row` stands for the only bid. -/
def sampleMembers (row : Json) : List (String × Json) := [
  ("asks", .array [.array [.string "2.50", .string "1e3", .string "a"],
    .array [.string "2.5", .string "0", .string ""]]),
  ("time", .null), ("time", .object []), ("sequence", .integer 18446744073709551615),
  ("bids", .array [row])]

/-- a bid -/
def sampleRow : Json := .array [.string "-1", .string ".5", .string "b"]

/-- a bid without an id -/
def shortRow : Json := .array [.string "-1", .string ".5"]

/-- an order of which coefficients and places are given -/
def sampleOrder (price size : ℤ × ℕ) (orderId : String) : RestingOrder :=
  ⟨(Decimal.ofParts? price.1 price.2).getD .zero, (Decimal.ofParts? size.1 size.2).getD .zero,
    orderId⟩

/-- the book of `sampleMembers sampleRow` -/
def sample : Listing where
  sequence := 18446744073709551615
  bids := [sampleOrder (-1, 0) (5, 1) "b"]
  asks := [sampleOrder (250, 2) (1000, 0) "a", sampleOrder (25, 1) (0, 0) ""]

theorem readExactly_of_read_samples :
    (readText (Json.object (sampleMembers sampleRow)).text =
        .ok (.object (sampleMembers sampleRow)) ∧
      decoder.run (Json.object (sampleMembers sampleRow)).text = .ok sample) ∧
    (readText (Json.object (sampleMembers shortRow)).text =
        .ok (.object (sampleMembers shortRow)) ∧
      ∃ f, decoder.run (Json.object (sampleMembers shortRow)).text = .error f) := by
  have hread (row : Json) (hrow : row = sampleRow ∨ row = shortRow) :
      readText (Json.object (sampleMembers row)).text = .ok (.object (sampleMembers row)) := by
    refine readText_text ?_ ?_
    · rcases hrow with rfl | rfl <;>
        simp [Json.Exact, ExactMembers, ExactItems, sampleMembers, sampleRow, shortRow, IntegerFits]
    · rcases hrow with rfl | rfl <;> decide
  refine ⟨⟨hread _ (.inl rfl), ?_⟩, hread _ (.inr rfl), ?_⟩
  · refine ((readExactly_of_read (hread _ (.inl rfl))).reads sample).mpr ⟨rfl, ?_, ?_⟩
    · exact ⟨_, rfl, .cons ⟨_, _, rfl, by decide +kernel, by decide +kernel⟩ .nil⟩
    · exact ⟨_, rfl, .cons ⟨_, _, rfl, by decide +kernel, by decide +kernel⟩ <|
        .cons ⟨_, _, rfl, by decide +kernel, by decide +kernel⟩ .nil⟩
  · have hbids : valuesOf "bids" (sampleMembers shortRow) = [.array [shortRow]] := rfl
    refine (readExactly_of_read (hread _ (.inr rfl))).refuses (.inl rfl) hbids
      (List.mem_singleton_self _) ?_
    rintro ⟨price, size, id, hitem, -⟩
    simp [shortRow] at hitem

end Listing

end MarketFeed
