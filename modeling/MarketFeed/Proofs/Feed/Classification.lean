import MarketFeed.Feed.Frame
import MarketFeed.Proofs.Json.Members

/-!
# The meaning of frames

A text of the feed is read as JSON, sorted by its type, and the frames that change the book are
read field by field. Which of the outcomes a text has depends on the last value of each key alone.

## Main definitions

* `Frame.meaning`: what a text means for the book
* `Json.decimal?`, `Json.instant?`, `Json.side?`, ...: the values of a type
* `Json.bookMeaning?`: what an object of a type that changes the book means, if it has its fields
* `Json.Reads`, `Frame.ReadsUnder`: a decoder of drafts agrees with a reader of values
* `Frame.Classified`: the outcomes of a text

## Main results

* `Frame.ofMembers_congr`: a frame depends on the last values of its fields
* `Frame.toOption_ofMembers`: a frame is read if and only if it has its fields
* `Frame.meaning_classified`: the outcomes of all texts
-/

namespace MarketFeed

open Json

/-! ## Values of a type -/

namespace Json

/-- the number that a value is, if it is an integer without sign -/
def natural? : Json → Option ℕ
  | .integer n => if n < 0 then none else some n.toNat
  | _ => none

/-- the decimal that a value is: an integer, a double by its plain digits, or a text -/
def decimal? : Json → Option Decimal
  | .integer n => Decimal.ofParts? n 0
  | .real x => (Decimal.ofText x.plainText).toOption
  | .string s => (Decimal.ofText s).toOption
  | _ => none

/-- a decimal or null -/
def decimalOrNull? : Json → Option (Option Decimal)
  | .null => some none
  | v => v.decimal?.map some

/-- the instant that a value is, by its text -/
def instant? : Json → Option Instant
  | .string s => (Instant.ofText s).toOption
  | _ => none

/-- the side with a name -/
def sideNamed? (s : String) : Option Side :=
  if s = "buy" then some .buy else if s = "sell" then some .sell else none

/-- The side that a value is: its name, or an object whose only key is its name and holds null. -/
def side? : Json → Option Side
  | .string s => sideNamed? s
  | .object ms =>
    match settled ms with
    | [(k, .null)] => sideNamed? k
    | _ => none
  | _ => none

/-- the value of a key that must be there -/
def required? {α : Type} (v : Json) (k : String) (read : Json → Option α) : Option α :=
  (v.member? k).bind read

/-- the value of a key that may be missing -/
def defaulted? {α : Type} (v : Json) (k : String) (default : α) (read : Json → Option α) :
    Option α :=
  match v.member? k with
  | some x => read x
  | none => some default

/-- the stamp of an object -/
def stamp? (v : Json) : Option Stamp := do
  return {
    productId := ← v.required? "product_id" string?
    sequence := ← v.required? "sequence" natural?
    time := ← v.required? "time" instant?
    side := ← v.required? "side" side? }

/-- What an object of a type that changes the book means, if all fields of that type are there and
are what they should be. An order that is done without a price means nothing. -/
def bookMeaning? (type : String) (v : Json) : Option (Option Diff) := do
  let stamp ← v.stamp?
  match type with
  | "open" =>
    return some ⟨stamp, .opened (← v.required? "order_id" string?)
      (← v.required? "price" decimal?) (← v.required? "remaining_size" decimal?)⟩
  | "match" =>
    return some ⟨stamp, .traded (← v.required? "trade_id" natural?)
      (← v.required? "maker_order_id" string?) (← v.required? "taker_order_id" string?)
      (← v.required? "price" decimal?) (← v.required? "size" decimal?)⟩
  | "change" =>
    return some ⟨stamp, .resized (← v.required? "order_id" string?)
      (← v.defaulted? "price" none decimalOrNull?) (← v.defaulted? "old_size" none decimalOrNull?)
      (← v.defaulted? "new_size" none decimalOrNull?)⟩
  | "done" =>
    let orderId ← v.required? "order_id" string?
    let price ← v.defaulted? "price" none decimalOrNull?
    let remaining ← v.defaulted? "remaining_size" none decimalOrNull?
    let reason ← v.defaulted? "reason" "" string?
    return price.map fun price => ⟨stamp, .closed orderId price remaining reason⟩
  | _ => none

/-- the type that a value names -/
def type? (v : Json) : Option String := (v.member? "type").bind string?

/-- the message that a value holds, if it is a text -/
def message (v : Json) : String := ((v.member? "message").bind string?).getD ""

/-- Only an object names a type. -/
theorem exists_object_of_type? {v : Json} {type : String} (h : v.type? = some type) :
    ∃ ms, v = .object ms := by
  cases v with
  | object ms => exact ⟨ms, rfl⟩
  | _ => exact nomatch h

/-! ### Decoders of values -/

/-- A decoder makes of the draft of a value what a reader of values makes of it. -/
def Reads {α : Type} (decode : Decoder α) (read : Json → Option α) : Prop :=
  ∀ v, (decode (Draft.ofJson v)).toOption = read v

theorem toOption_bind {ε α β : Type} (x : Except ε α) (f : α → Except ε β) :
    (x >>= f).toOption = x.toOption >>= fun a => (f a).toOption := by
  cases x <;> rfl

theorem toOption_map {ε α β : Type} (x : Except ε α) (f : α → β) :
    (x.map f).toOption = x.toOption.map f := by
  cases x <;> rfl

theorem toOption_refuse {α : Type} (expected : String) (d : Draft) :
    (Decoder.refuse expected d : Except DecodeFault α).toOption = none := by
  unfold Decoder.refuse
  cases wellFormed d.found <;> rfl

theorem reads_string : Reads Decoder.string string? := by
  intro v
  cases v <;> rfl

theorem reads_u64 : Reads Decoder.u64 natural? := by
  intro v
  cases v with
  | integer n =>
    rw [Draft.ofJson, Decoder.u64, Decoder.natural, natural?]
    split <;> rfl
  | _ => exact toOption_refuse _ _

theorem reads_decimal : Reads Decoder.decimal decimal? := by
  intro v
  cases v with
  | integer n =>
    rw [Draft.ofJson, Decoder.decimal, decimal?]
    cases Decimal.ofParts? n 0 <;> rfl
  | real x =>
    rw [Draft.ofJson, Decoder.decimal, decimal?]
    cases Decimal.ofText x.plainText <;> rfl
  | string s =>
    rw [Draft.ofJson, Decoder.decimal, decimal?]
    cases Decimal.ofText s <;> rfl
  | _ => exact toOption_refuse _ _

theorem decimalOrNull?_of_ne_null {v : Json} (h : v ≠ .null) :
    v.decimalOrNull? = v.decimal?.map some := by
  cases v with
  | null => exact absurd rfl h
  | _ => rfl

theorem optional_of_ne_null {α : Type} (decode : Decoder α) {v : Json} (h : v ≠ .null) :
    Decoder.optional decode (Draft.ofJson v) = (decode (Draft.ofJson v)).map some := by
  cases v with
  | null => exact absurd rfl h
  | _ => rfl

theorem reads_decimalOrNull : Reads (Decoder.optional Decoder.decimal) decimalOrNull? := by
  intro v
  by_cases h : v = .null
  · subst h
    rfl
  · rw [optional_of_ne_null _ h, decimalOrNull?_of_ne_null h, toOption_map, reads_decimal v]

theorem reads_instant : Reads Decoder.instant instant? := by
  intro v
  cases v with
  | string s =>
    rw [Draft.ofJson, Decoder.instant, instant?]
    cases Instant.ofText s <;> rfl
  | _ => exact toOption_refuse _ _

theorem toOption_sideNamed (s : String) : (Side.ofName s).toOption = sideNamed? s := by
  unfold Side.ofName sideNamed?
  split
  · rfl
  · split <;> rfl

theorem toOption_side (v : Json) : (Side.ofValue v).toOption = v.side? := by
  cases v with
  | string s => exact toOption_sideNamed s
  | object ms =>
    simp only [Side.ofValue, side?]
    cases settled ms with
    | nil => rfl
    | cons m l =>
      obtain ⟨k, v⟩ := m
      cases l with
      | cons => cases v <;> rfl
      | nil =>
        simp only
        rw [toOption_bind, toOption_sideNamed]
        cases v with
        | null =>
          simp only
          cases sideNamed? k <;> rfl
        | _ => cases sideNamed? k <;> rfl
  | _ => exact toOption_refuse _ _

end Json

/-! ## Frames from members -/

namespace Frame

variable {ms ms' : List (String × Json)} {type : String}

theorem bookTypes_cases (h : type ∈ bookTypes) :
    type = "open" ∨ type = "match" ∨ type = "change" ∨ type = "done" := by
  simpa [bookTypes, Event.kinds] using h

/-- What stands under the name of a field, if anything does, is what it should be. -/
def Fits (ms : List (String × Json)) (f : Field) : Prop :=
  ∀ v, lookup? f.name ms = some v → f.check (Draft.ofJson v) = .ok ()

section Reading

variable {α : Type} {decode : Decoder α} {read : Json → Option α} {k : String}

/-- A decoder makes of what stands under a key, if anything does, what a reader of values makes of
it. -/
def ReadsUnder (ms : List (String × Json)) (k : String) (decode : Decoder α)
    (read : Json → Option α) : Prop :=
  ∀ v, lookup? k ms = some v → (decode (Draft.ofJson v)).toOption = read v

theorem readsUnder_of_reads (h : Reads decode read) : ReadsUnder ms k decode read := fun v _ => h v

/-- The side is read from a value that has been looked up before. -/
theorem readsUnder_side : ReadsUnder ms "side" (sideDecoder (lookup? "side" ms)) side? := by
  intro v hv
  rw [hv]
  exact toOption_side v

theorem toOption_required (hread : ReadsUnder ms k decode read) :
    ((Slots.ofMembers (Draft.ofMembers (settled ms))).required k decode).toOption =
      (Json.object ms).required? k read := by
  rw [Slots.required, slots_ofMembers (ordered_settled ms), lookup?_settled, Json.required?,
    Json.member?]
  cases hv : lookup? k ms with
  | none => rfl
  | some v => exact hread v hv

theorem toOption_orElse (hread : ReadsUnder ms k decode read) (default : α) :
    ((Slots.ofMembers (Draft.ofMembers (settled ms))).orElse k default decode).toOption =
      (Json.object ms).defaulted? k default read := by
  rw [Slots.orElse, slots_ofMembers (ordered_settled ms), lookup?_settled, Json.defaulted?,
    Json.member?]
  cases hv : lookup? k ms with
  | none => rfl
  | some v => exact hread v hv

@[simp] theorem name_of (k : String) (decode : Decoder α) : (Field.of k decode).name = k := rfl

theorem check_of_toOption {d : Draft} {a : α} (h : (decode d).toOption = some a) :
    (Field.of k decode).check d = .ok () := by
  have hread : decode d = .ok a := mem_toOption_iff.mp h
  simp [Field.of, hread, Except.map]

theorem fits_of_required (hread : ReadsUnder ms k decode read) {a : α}
    (h : (Json.object ms).required? k read = some a) : Fits ms (Field.of k decode) := by
  intro v hv
  rw [name_of] at hv
  rw [Json.required?, Json.member?, hv, Option.bind_some] at h
  exact check_of_toOption ((hread v hv).trans h)

theorem fits_of_defaulted (hread : ReadsUnder ms k decode read) {default a : α}
    (h : (Json.object ms).defaulted? k default read = some a) : Fits ms (Field.of k decode) := by
  intro v hv
  rw [name_of] at hv
  simp only [Json.defaulted?, Json.member?, hv] at h
  exact check_of_toOption ((hread v hv).trans h)

theorem readsUnder_string : ReadsUnder ms k Decoder.string string? :=
  readsUnder_of_reads reads_string

theorem readsUnder_u64 : ReadsUnder ms k Decoder.u64 natural? := readsUnder_of_reads reads_u64

theorem readsUnder_instant : ReadsUnder ms k Decoder.instant instant? :=
  readsUnder_of_reads reads_instant

theorem readsUnder_decimal : ReadsUnder ms k Decoder.decimal decimal? :=
  readsUnder_of_reads reads_decimal

theorem readsUnder_decimalOrNull :
    ReadsUnder ms k (Decoder.optional Decoder.decimal) decimalOrNull? :=
  readsUnder_of_reads reads_decimalOrNull

end Reading

/-- The fields of an object with a stamp that belong to it. -/
theorem fits_of_stamp? {stamp : Stamp} (h : (Json.object ms).stamp? = some stamp) :
    ∀ f ∈ [Field.of "product_id" Decoder.string, Field.of "sequence" Decoder.u64,
      Field.of "time" Decoder.instant, Field.of "side" (sideDecoder (lookup? "side" ms))],
      Fits ms f := by
  simp only [Json.stamp?, bind, Option.bind_eq_some_iff] at h
  obtain ⟨productId, hproduct, sequence, hsequence, time, htime, side, hside, -⟩ := h
  simp only [List.forall_mem_cons]
  exact ⟨fits_of_required readsUnder_string hproduct, fits_of_required readsUnder_u64 hsequence,
    fits_of_required readsUnder_instant htime, fits_of_required readsUnder_side hside, nofun⟩

/-- An object that means something has all fields of its type. -/
theorem fits_of_bookMeaning? (htype : type ∈ bookTypes) {o : Option Diff}
    (h : (Json.object ms).bookMeaning? type = some o) :
    ∀ f ∈ fields (lookup? "side" ms) type, Fits ms f := by
  obtain ⟨stamp, hstamp, hevent⟩ := Option.bind_eq_some_iff.mp h
  refine List.forall_mem_append.mpr ⟨fits_of_stamp? hstamp, ?_⟩
  rcases bookTypes_cases htype with rfl | rfl | rfl | rfl
  · simp only [bind, Option.bind_eq_some_iff] at hevent
    obtain ⟨orderId, horder, price, hprice, remaining, hremaining, -⟩ := hevent
    simp only [List.forall_mem_cons]
    exact ⟨fits_of_required readsUnder_string horder,
      fits_of_required readsUnder_decimal hprice,
      fits_of_required readsUnder_decimal hremaining, nofun⟩
  · simp only [bind, Option.bind_eq_some_iff] at hevent
    obtain ⟨tradeId, htrade, maker, hmaker, taker, htaker, price, hprice, size, hsize, -⟩ := hevent
    simp only [List.forall_mem_cons]
    exact ⟨fits_of_required readsUnder_u64 htrade,
      fits_of_required readsUnder_string hmaker,
      fits_of_required readsUnder_string htaker,
      fits_of_required readsUnder_decimal hprice,
      fits_of_required readsUnder_decimal hsize, nofun⟩
  · simp only [bind, Option.bind_eq_some_iff] at hevent
    obtain ⟨orderId, horder, price, hprice, old, hold, new, hnew, -⟩ := hevent
    simp only [List.forall_mem_cons]
    exact ⟨fits_of_required readsUnder_string horder,
      fits_of_defaulted readsUnder_decimalOrNull hprice,
      fits_of_defaulted readsUnder_decimalOrNull hold,
      fits_of_defaulted readsUnder_decimalOrNull hnew, nofun⟩
  · simp only [bind, Option.bind_eq_some_iff] at hevent
    obtain ⟨orderId, horder, price, hprice, remaining, hremaining, reason, hreason, -⟩ := hevent
    simp only [String.reduceEq, imp_self, List.forall_mem_cons]
    exact ⟨fits_of_required readsUnder_string horder,
      fits_of_defaulted readsUnder_decimalOrNull hprice,
      fits_of_defaulted readsUnder_decimalOrNull hremaining,
      fits_of_defaulted readsUnder_string hreason, nofun⟩

@[simp] theorem diff?_opened (stamp : Stamp) (orderId : String) (price remaining : Decimal) :
    (opened stamp orderId price remaining).diff? =
      .ok (some ⟨stamp, .opened orderId price remaining⟩) := rfl

@[simp] theorem diff?_traded (stamp : Stamp) (tradeId : ℕ) (makerId takerId : String)
    (price size : Decimal) :
    (traded stamp tradeId makerId takerId price size).diff? =
      .ok (some ⟨stamp, .traded tradeId makerId takerId price size⟩) := rfl

@[simp] theorem diff?_resized (stamp : Stamp) (orderId : String)
    (price oldSize newSize : Option Decimal) :
    (resized stamp orderId price oldSize newSize).diff? =
      .ok (some ⟨stamp, .resized orderId price oldSize newSize⟩) := rfl

@[simp] theorem diff?_closed (stamp : Stamp) (orderId : String) (price remaining : Option Decimal)
    (reason : String) :
    (closed stamp orderId price remaining reason).diff? =
      .ok (price.map fun price => ⟨stamp, .closed orderId price remaining reason⟩) := by
  cases price <;> rfl

/-- Once the members have passed the check, a frame is read if its fields are all there. -/
theorem toOption_ofMembers_of_check (htype : type ∈ bookTypes)
    (hcheck : checkMembers (fields (lookup? "side" ms) type) []
      (Draft.ofMembers (settled ms)) = .ok ()) :
    (ofMembers type ms).toOption.map diff? = ((Json.object ms).bookMeaning? type).map .ok := by
  rcases bookTypes_cases htype with rfl | rfl | rfl | rfl
  all_goals
    simp only [String.reduceEq, imp_self, ofMembers, bookMeaning?, stamp?, lookup?_settled, hcheck,
      toOption_bind, Slots.optional, toOption_required readsUnder_string,
      toOption_required readsUnder_u64, toOption_required readsUnder_decimal,
      toOption_required readsUnder_instant, toOption_required readsUnder_side,
      toOption_orElse readsUnder_decimalOrNull, toOption_orElse readsUnder_string]
    simp [bind, pure, Except.toOption, Except.pure, Option.map_bind, Option.bind_assoc,
      Function.comp_def]

/-- **A frame that changes the book is read if and only if the object has all its fields**, and
then it means what they say. -/
theorem toOption_ofMembers (htype : type ∈ bookTypes) (ms : List (String × Json)) :
    (ofMembers type ms).toOption.map diff? = ((Json.object ms).bookMeaning? type).map .ok := by
  cases hcheck : checkMembers (fields (lookup? "side" ms) type) []
      (Draft.ofMembers (settled ms)) with
  | ok u => exact toOption_ofMembers_of_check htype hcheck
  | error f =>
    have hnone : (Json.object ms).bookMeaning? type = none := by
      by_contra hsome
      obtain ⟨o, ho⟩ := Option.ne_none_iff_exists'.mp hsome
      rw [checkMembers_settled_eq_ok (fits_of_bookMeaning? htype ho)] at hcheck
      exact nomatch hcheck
    have hbad : ofMembers type ms = .error f := by
      simp only [ofMembers, lookup?_settled, hcheck]
      rfl
    rw [hnone, hbad]
    rfl

/-- What an object of a type means is of that kind. -/
theorem kind_of_bookMeaning? (htype : type ∈ bookTypes) {v : Json} {d : Diff}
    (h : v.bookMeaning? type = some (some d)) : d.kind = type := by
  obtain ⟨stamp, -, hevent⟩ := Option.bind_eq_some_iff.mp h
  rcases bookTypes_cases htype with rfl | rfl | rfl | rfl
  all_goals simp only [bind, Option.bind_eq_some_iff, pure, Option.some.injEq] at hevent
  · obtain ⟨_, -, _, -, _, -, rfl⟩ := hevent
    rfl
  · obtain ⟨_, -, _, -, _, -, _, -, _, -, rfl⟩ := hevent
    rfl
  · obtain ⟨_, -, _, -, _, -, _, -, rfl⟩ := hevent
    rfl
  · obtain ⟨_, -, price, -, _, -, _, -, h⟩ := hevent
    obtain ⟨_, -, rfl⟩ := Option.map_eq_some_iff.mp h
    rfl

/-- the names of the fields that matter in a frame of a type, its type apart -/
def fieldNames (type : String) : List String :=
  if type ∈ bookTypes then (fields none type).map Field.name
  else if type = "error" then ["message"]
  else []

/-- The value of the side does not change the names. -/
theorem map_name_fields (side side' : Option Json) (type : String) :
    (fields side type).map Field.name = (fields side' type).map Field.name := by
  simp [fields]

theorem name_mem_fieldNames (htype : type ∈ bookTypes) {side : Option Json} {f : Field}
    (hf : f ∈ fields side type) : f.name ∈ fieldNames type := by
  rw [fieldNames, if_pos htype, map_name_fields none side]
  exact List.mem_map_of_mem hf

/-- A frame depends on the last values of its fields alone. -/
theorem ofMembers_congr (htype : type ∈ bookTypes)
    (h : ∀ k ∈ fieldNames type, lookup? k ms = lookup? k ms') :
    ofMembers type ms = ofMembers type ms' := by
  have hcheck := checkMembers_settled_congr (fields (lookup? "side" ms') type)
    fun f hf => h f.name (name_mem_fieldNames htype hf)
  rcases bookTypes_cases htype with rfl | rfl | rfl | rfl
  all_goals
    simp (disch := decide) only [ofMembers, lookup?_settled, Slots.required, Slots.optional,
      Slots.orElse, slots_ofMembers (ordered_settled _), h, hcheck]

/-! ## Texts -/

/-- the types of frames that say nothing about the book -/
def silentTypes : List String := ["received", "activate", "subscriptions"]

/-- what a text means for the book -/
def meaning (raw : String) : Except Fault (Option Diff) := (parse raw).bind diff?

/-- Two values have the same type, and the same last value of each field of that type. -/
def SameLastValues (v v' : Json) : Prop :=
  v.member? "type" = v'.member? "type" ∧
    ∀ type, v.type? = some type → ∀ k ∈ fieldNames type, v.member? k = v'.member? k

/-- A failure without the text that a failure of the protocol quotes. -/
def unquoted : Fault → Fault
  | .protocol _ => .protocol ""
  | f => f

/-- What a text means, by the value that is read from it. -/
structure Classified (raw : String) : Prop where
  unreadable {f : SyntaxFault} (hread : readText raw = .error f) :
    meaning raw = .error (.unreadable f.message)
  untyped {v : Json} (hread : readText raw = .ok v) (htype : v.type? = none) :
    meaning raw = .error (.protocol s!"message does not contain a type - {raw}")
  unknown {v : Json} {type : String} (hread : readText raw = .ok v) (htype : v.type? = some type)
    (hbook : type ∉ bookTypes) (hsilent : type ∉ silentTypes) (herror : type ≠ "error") :
    meaning raw = .error (.protocol s!"unrecognized message type '{type}' - {raw}")
  silent {v : Json} {type : String} (hread : readText raw = .ok v) (htype : v.type? = some type)
    (hsilent : type ∈ silentTypes) : meaning raw = .ok none
  refusal {v : Json} (hread : readText raw = .ok v) (htype : v.type? = some "error") :
    meaning raw = .error (.exchange v.message)
  misfit {v : Json} {type : String} (hread : readText raw = .ok v) (htype : v.type? = some type)
    (hbook : type ∈ bookTypes) (hmisfit : v.bookMeaning? type = none) :
    ∃ reason, meaning raw = .error (.unreadable reason)
  change {v : Json} {type : String} {o : Option Diff} (hread : readText raw = .ok v)
    (htype : v.type? = some type) (hbook : type ∈ bookTypes)
    (hchange : v.bookMeaning? type = some o) :
    meaning raw = .ok o ∧ ∀ d ∈ o, d.kind = type
  /-- neither the order of the keys, nor other keys, nor all values of a key but the last matter -/
  lastValues {raw' : String} {v v' : Json} (hread : readText raw = .ok v)
    (hread' : readText raw' = .ok v') (hsame : SameLastValues v v') :
    (meaning raw).mapError unquoted = (meaning raw').mapError unquoted

variable {raw raw' : String} {v v' : Json} {o : Option Diff}

theorem meaning_of_read (hread : readText raw = .ok v) :
    meaning raw = (ofValue raw v).bind diff? := by
  rw [meaning, parse, hread]
  rfl

theorem ofValue_untyped (htype : v.type? = none) :
    ofValue raw v = .error (.protocol s!"message does not contain a type - {raw}") := by
  rw [Json.type?] at htype
  rw [ofValue, htype]

theorem ofValue_unknown (htype : v.type? = some type) (hbook : type ∉ bookTypes)
    (hsilent : type ∉ silentTypes) (herror : type ≠ "error") :
    ofValue raw v = .error (.protocol s!"unrecognized message type '{type}' - {raw}") := by
  obtain ⟨ms, rfl⟩ := exists_object_of_type? htype
  rw [Json.type?] at htype
  simp only [silentTypes, List.mem_cons, List.not_mem_nil, or_false, not_or] at hsilent
  unfold ofValue
  rw [htype]
  split
  case h_1 h => exact nomatch h
  case h_2 h => exact absurd (Option.some.inj h) hsilent.1
  case h_3 h => exact absurd (Option.some.inj h) hsilent.2.1
  case h_4 h => exact absurd (Option.some.inj h) hsilent.2.2
  case h_5 h => exact absurd (Option.some.inj h) herror
  case h_6 h =>
    obtain rfl := Option.some.inj h
    exact if_neg (by simpa using hbook)

theorem ofValue_book (htype : (Json.object ms).type? = some type) (hbook : type ∈ bookTypes) :
    ofValue raw (.object ms) = (ofMembers type ms).mapError fun f => .unreadable f.message := by
  rw [Json.type?] at htype
  unfold ofValue
  rw [htype]
  rcases bookTypes_cases hbook with rfl | rfl | rfl | rfl
  all_goals rfl

theorem meaning_unreadable {f : SyntaxFault} (hread : readText raw = .error f) :
    meaning raw = .error (.unreadable f.message) := by
  rw [meaning, parse, hread]
  rfl

theorem meaning_untyped (hread : readText raw = .ok v) (htype : v.type? = none) :
    meaning raw = .error (.protocol s!"message does not contain a type - {raw}") := by
  rw [meaning_of_read hread, ofValue_untyped htype]
  rfl

theorem meaning_unknown (hread : readText raw = .ok v) (htype : v.type? = some type)
    (hbook : type ∉ bookTypes) (hsilent : type ∉ silentTypes) (herror : type ≠ "error") :
    meaning raw = .error (.protocol s!"unrecognized message type '{type}' - {raw}") := by
  rw [meaning_of_read hread, ofValue_unknown htype hbook hsilent herror]
  rfl

theorem meaning_silent (hread : readText raw = .ok v) (htype : v.type? = some type)
    (hsilent : type ∈ silentTypes) : meaning raw = .ok none := by
  rw [Json.type?] at htype
  rw [meaning_of_read hread, ofValue, htype]
  simp only [silentTypes, List.mem_cons, List.not_mem_nil, or_false] at hsilent
  rcases hsilent with rfl | rfl | rfl
  all_goals rfl

theorem meaning_refusal (hread : readText raw = .ok v) (htype : v.type? = some "error") :
    meaning raw = .error (.exchange v.message) := by
  rw [Json.type?] at htype
  rw [meaning_of_read hread, ofValue, htype]
  rfl

theorem meaning_misfit (hread : readText raw = .ok v) (htype : v.type? = some type)
    (hbook : type ∈ bookTypes) (hmisfit : v.bookMeaning? type = none) :
    ∃ reason, meaning raw = .error (.unreadable reason) := by
  obtain ⟨ms, rfl⟩ := exists_object_of_type? htype
  have hnone := toOption_ofMembers hbook ms
  rw [hmisfit, Option.map_none, Option.map_eq_none_iff] at hnone
  rw [meaning_of_read hread, ofValue_book htype hbook]
  cases hframe : ofMembers type ms with
  | error f => exact ⟨f.message, rfl⟩
  | ok frame => simp [hframe, Except.toOption] at hnone

theorem meaning_change (hread : readText raw = .ok v) (htype : v.type? = some type)
    (hbook : type ∈ bookTypes) (hchange : v.bookMeaning? type = some o) : meaning raw = .ok o := by
  obtain ⟨ms, rfl⟩ := exists_object_of_type? htype
  have hsome := toOption_ofMembers hbook ms
  rw [hchange, Option.map_some] at hsome
  obtain ⟨frame, hframe, hdiff⟩ := Option.map_eq_some_iff.mp hsome
  rw [meaning_of_read hread, ofValue_book htype hbook, mem_toOption_iff.mp hframe]
  exact hdiff

theorem SameLastValues.type?_eq (h : SameLastValues v v') : v.type? = v'.type? := by
  rw [Json.type?, h.1, Json.type?]

/-- Texts with the same last values mean the same. -/
theorem meaning_congr (hread : readText raw = .ok v) (hread' : readText raw' = .ok v')
    (hsame : SameLastValues v v') :
    (meaning raw).mapError unquoted = (meaning raw').mapError unquoted := by
  rw [meaning_of_read hread, meaning_of_read hread']
  cases htype : v.type? with
  | none =>
    rw [ofValue_untyped htype, ofValue_untyped (hsame.type?_eq ▸ htype)]
    rfl
  | some type =>
    have htype' : v'.type? = some type := hsame.type?_eq ▸ htype
    have hfields := hsame.2 type htype
    by_cases hbook : type ∈ bookTypes
    · obtain ⟨ms, rfl⟩ := exists_object_of_type? htype
      obtain ⟨ms', rfl⟩ := exists_object_of_type? htype'
      rw [ofValue_book htype hbook, ofValue_book htype' hbook, ofMembers_congr hbook hfields]
    by_cases hsilent : type ∈ silentTypes
    · rw [← meaning_of_read hread, ← meaning_of_read hread', meaning_silent hread htype hsilent,
        meaning_silent hread' htype' hsilent]
    by_cases herror : type = "error"
    · subst herror
      have hmessage : v.message = v'.message := by
        rw [Json.message, hfields "message" (by decide), Json.message]
      rw [← meaning_of_read hread, ← meaning_of_read hread', meaning_refusal hread htype,
        meaning_refusal hread' htype', hmessage]
    · rw [ofValue_unknown htype hbook hsilent herror, ofValue_unknown htype' hbook hsilent herror]
      rfl

/-- A text that cannot be taken says nothing about the connection. -/
theorem not_isLiveness_of_meaning {f : Fault} (h : meaning raw = .error f) : ¬ f.IsLiveness := by
  suffices hfault : (∃ reason, f = .unreadable reason) ∨ (∃ reason, f = .protocol reason) ∨
      ∃ reason, f = .exchange reason by
    rcases hfault with ⟨reason, rfl⟩ | ⟨reason, rfl⟩ | ⟨reason, rfl⟩
    all_goals simp [Fault.IsLiveness]
  cases hread : readText raw with
  | error f' =>
    rw [meaning_unreadable hread] at h
    exact .inl ⟨_, (Except.error.inj h).symm⟩
  | ok v =>
    cases htype : v.type? with
    | none =>
      rw [meaning_untyped hread htype] at h
      exact .inr (.inl ⟨_, (Except.error.inj h).symm⟩)
    | some type =>
      by_cases hbook : type ∈ bookTypes
      · cases hmeaning : v.bookMeaning? type with
        | some o =>
          rw [meaning_change hread htype hbook hmeaning] at h
          exact nomatch h
        | none =>
          obtain ⟨reason, hreason⟩ := meaning_misfit hread htype hbook hmeaning
          rw [hreason] at h
          exact .inl ⟨_, (Except.error.inj h).symm⟩
      by_cases hsilent : type ∈ silentTypes
      · rw [meaning_silent hread htype hsilent] at h
        exact nomatch h
      by_cases herror : type = "error"
      · subst herror
        rw [meaning_refusal hread htype] at h
        exact .inr (.inr ⟨_, (Except.error.inj h).symm⟩)
      · rw [meaning_unknown hread htype hbook hsilent herror] at h
        exact .inr (.inl ⟨_, (Except.error.inj h).symm⟩)

/-- **Every text is classified by its JSON value**, and by the last values of its fields alone. -/
theorem meaning_classified (raw : String) : Classified raw where
  unreadable hread := meaning_unreadable hread
  untyped hread htype := meaning_untyped hread htype
  unknown hread htype hbook hsilent herror := meaning_unknown hread htype hbook hsilent herror
  silent hread htype hsilent := meaning_silent hread htype hsilent
  refusal hread htype := meaning_refusal hread htype
  misfit hread htype hbook hmisfit := meaning_misfit hread htype hbook hmisfit
  change hread htype hbook hchange := by
    refine ⟨meaning_change hread htype hbook hchange, fun d hd => ?_⟩
    rw [Option.mem_def.mp hd] at hchange
    exact kind_of_bookMeaning? hbook hchange
  lastValues hread hread' hsame := meaning_congr hread hread' hsame

/-- Of a repeated type the last one counts. -/
example : meaning "\x7b\"type\": \"activate\", \"type\": \"error\", \"message\": \"no\"\x7d" =
    .error (.exchange "no") := by decide +kernel

end Frame

end MarketFeed
