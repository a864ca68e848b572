import MarketFeed.Proofs.Json.Integers
import MarketFeed.Proofs.Json.Members

/-!
# Values that are restored

A value is restored if what is written of it has a text that is read exactly, and a decoder makes
the value of it again. Of the values that decoders make of texts, strings are restored without
more, numbers because they fit 64 bits; a list is restored if its items are, a record if its fields
are.

## Main definitions

* `Decoder.Restored decode encode v`: the value is made again of what is written of it
* `Decoder.Restores decode encode`: so is every value that is made of the draft of a text
* `Slots.Fit slots`: the integers in what is held for the fields of a record fit
* `Decoder.Filled fields ms`: members that are written of restored values

## Main results

* `Decoder.Restores.list`: lists of restored items
* `Decoder.Filled.record`: a record is made of the members that are written of it
* `Decoder.Restores.run_text`: a value that is made of a text is made again of its own text
-/

namespace MarketFeed.Json

open Text

variable {α : Type} {decode : Decoder α} {encode : α → Json}

namespace Decoder

/-- What is written of a value has an exact text, and the value is made of it again. -/
structure Restored (decode : Decoder α) (encode : α → Json) (v : α) : Prop where
  exact : (encode v).Exact
  decoded : decode (Draft.ofJson (encode v)) = .ok v

/-- Every value that is made of a draft whose integers fit is restored. -/
def Restores (decode : Decoder α) (encode : α → Json) : Prop :=
  ∀ (d : Draft) (v : α), d.IntegersFit → decode d = .ok v → Restored decode encode v

/-- **A value that is made of a text is made again of its own text.** -/
theorem Restores.run_text (h : Restores decode encode) {gs : List Glyph} {v : α}
    (hv : decode.runGlyphs gs = .ok v) : decode.run (encode v).text = .ok v := by
  obtain ⟨v', hv', hfinish⟩ := bind_eq_ok_iff.mp hv
  obtain ⟨-, -, hsame⟩ := bind_eq_ok_iff.mp hfinish
  obtain rfl := Except.ok.inj hsame
  have hrestored := h _ v' (integersFit_ofGlyphs gs) hv'
  exact (Decoder.run_text hrestored.exact decode).trans hrestored.decoded

theorem mapError_eq_ok_iff {ε ε' : Type} {x : Except ε α} {f : ε → ε'} {a : α} :
    x.mapError f = .ok a ↔ x = .ok a := by
  cases x with
  | error e => exact ⟨(nomatch ·), (nomatch ·)⟩
  | ok a' => exact ⟨fun h => congrArg Except.ok (Except.ok.inj h), fun h => h ▸ rfl⟩

theorem refuse_ne_ok (expected : String) (d : Draft) (v : α) :
    (refuse expected d : Except DecodeFault α) ≠ .ok v := by
  unfold refuse
  cases wellFormed d.found with
  | error f => exact fun h => nomatch h
  | ok found => exact fun h => nomatch h

/-! ## Single values -/

theorem restored_string (s : String) : Restored string .string s := ⟨trivial, rfl⟩

theorem restored_natural (expected : String) {n : ℕ} (h : IntegerFits n) :
    Restored (natural expected) (fun n => .integer n) n := by
  refine ⟨h, ?_⟩
  show natural expected (.integer n) = .ok n
  rw [natural, if_neg (Int.not_lt.mpr (Int.natCast_nonneg n)), Int.toNat_natCast]

/-- A number that is made of a draft fits. -/
theorem restores_natural (expected : String) :
    Restores (natural expected) fun n => .integer n := by
  intro d n hfit hn
  cases d with
  | integer m =>
    rw [natural] at hn
    split at hn
    next => exact nomatch hn
    next hsign =>
      obtain rfl := Except.ok.inj hn
      have hback : (m.toNat : ℤ) = m := Int.toNat_of_nonneg (Int.not_lt.mp hsign)
      refine restored_natural expected ?_
      rwa [hback]
  | _ => exact absurd hn (refuse_ne_ok expected _ n)

/-! ## Lists -/

theorem Restores.mapM (h : Restores decode encode) {items : List Draft} {vs : List α}
    (hfit : Draft.ItemsFit items) (hvs : items.mapM decode = .ok vs) :
    ∀ v ∈ vs, Restored decode encode v := by
  induction items generalizing vs with
  | nil =>
    obtain rfl := Except.ok.inj hvs
    exact fun _ hv => absurd hv List.not_mem_nil
  | cons d items ih =>
    rw [List.mapM_cons] at hvs
    obtain ⟨v, hv, hrest⟩ := bind_eq_ok_iff.mp hvs
    obtain ⟨vs', htail, hsame⟩ := bind_eq_ok_iff.mp hrest
    obtain rfl := Except.ok.inj hsame
    intro v' hv'
    rcases List.mem_cons.mp hv' with rfl | hv'
    · exact h d _ hfit.1 hv
    · exact ih hfit.2 htail v' hv'

theorem exactItems_map {vs : List α} (h : ∀ v ∈ vs, Restored decode encode v) :
    ExactItems (vs.map encode) := by
  induction vs with
  | nil => trivial
  | cons v vs ih =>
    exact ⟨(h v List.mem_cons_self).exact, ih fun v hv => h v (List.mem_cons_of_mem _ hv)⟩

theorem mapM_ofItems_map {vs : List α} (h : ∀ v ∈ vs, Restored decode encode v) :
    (Draft.ofItems (vs.map encode)).mapM decode = .ok vs := by
  induction vs with
  | nil => rfl
  | cons v vs ih =>
    rw [List.map_cons, Draft.ofItems, List.mapM_cons, (h v List.mem_cons_self).decoded,
      ih fun v hv => h v (List.mem_cons_of_mem _ hv)]
    rfl

/-- **A list is restored if its items are.** -/
theorem Restores.list (h : Restores decode encode) :
    Restores (Decoder.list decode) fun vs => .array (vs.map encode) := by
  intro d vs hfit hvs
  cases d with
  | array items stop =>
    obtain ⟨vs', hitems, hstop⟩ := bind_eq_ok_iff.mp hvs
    split at hstop
    next => cases hstop
    next =>
      obtain rfl := Except.ok.inj hstop
      have hrestored := h.mapM hfit hitems
      refine ⟨exactItems_map hrestored, ?_⟩
      rw [Draft.ofJson, Decoder.list, mapM_ofItems_map hrestored]
      rfl
  | _ => exact absurd hvs (refuse_ne_ok _ _ vs)

/-! ## Records -/

end Decoder

/-- All integers in what is held for the fields of a record fit. -/
def Slots.Fit (slots : Slots) : Prop :=
  ∀ (name : String) (d : Draft), slots name = some d → d.IntegersFit

namespace Decoder

/-- What is held for a field that must be there is restored. -/
theorem Restores.required (h : Restores decode encode) {slots : Slots} (hslots : slots.Fit)
    {name : String} {v : α} (hv : slots.required name decode = .ok v) :
    Restored decode encode v := by
  unfold Slots.required at hv
  split at hv
  next hd => exact h _ v (hslots _ _ hd) hv
  next => exact nomatch hv

theorem itemsFit_iff {items : List Draft} :
    Draft.ItemsFit items ↔ ∀ d ∈ items, d.IntegersFit := by
  induction items with
  | nil => exact ⟨fun _ _ hd => absurd hd List.not_mem_nil, fun _ => trivial⟩
  | cons d items ih =>
    rw [Draft.ItemsFit, ih, List.forall_mem_cons]

theorem membersFit_iff {members : List (Draft × Draft)} :
    Draft.MembersFit members ↔ ∀ m ∈ members, m.2.IntegersFit := by
  induction members with
  | nil => exact ⟨fun _ _ hm => absurd hm List.not_mem_nil, fun _ => trivial⟩
  | cons m members ih =>
    rw [Draft.MembersFit, ih, List.forall_mem_cons]

theorem fit_ofMembers {members : List (Draft × Draft)} (h : Draft.MembersFit members) :
    (Slots.ofMembers members).Fit := by
  intro name d hd
  obtain ⟨m, hm, rfl⟩ := Option.map_eq_some_iff.mp hd
  exact membersFit_iff.mp h m (List.mem_of_find?_eq_some hm)

theorem fit_ofItems {items : List Draft} (h : Draft.ItemsFit items) (fields : List Field) :
    (Slots.ofItems fields items).Fit := by
  intro name d hd
  obtain ⟨x, hx, rfl⟩ := Option.map_eq_some_iff.mp hd
  have hmem : x ∈ fields.zip items := List.mem_of_find?_eq_some hx
  exact itemsFit_iff.mp h x.2 (List.of_mem_zip hmem).2

/-- What a record is made of fits if the draft does. -/
theorem fit_of_record {expected : String} {fields : List Field} {d : Draft} {slots : Slots}
    (hd : d.IntegersFit) (h : record expected fields d = .ok slots) : slots.Fit := by
  cases d with
  | object members stop =>
    obtain ⟨-, -, hstop⟩ := bind_eq_ok_iff.mp h
    split at hstop
    next => cases hstop
    next =>
      obtain rfl := Except.ok.inj hstop
      exact fit_ofMembers hd
  | array items stop =>
    obtain ⟨-, -, hsame⟩ := bind_eq_ok_iff.mp h
    obtain rfl := Except.ok.inj hsame
    exact fit_ofItems hd fields
  | _ => exact absurd h (refuse_ne_ok expected _ slots)

/-- Members that are written of restored values: they have an exact text and pass their checks. -/
structure Filled (fields : List Field) (ms : List (String × Json)) : Prop where
  exact : ExactMembers ms
  checked : checkEach fields ms = .ok ()

theorem Filled.nil (fields : List Field) : Filled fields [] := ⟨trivial, rfl⟩

/-- A restored value may stand under the name of the field it is for. -/
theorem Restored.filled {v : α} (h : Restored decode encode v) {fields : List Field}
    {name : String} (hfield : fields.find? (fun f => f.name == name) = some (.of name decode))
    {ms : List (String × Json)} (hms : Filled fields ms) :
    Filled fields ((name, encode v) :: ms) := by
  refine ⟨⟨h.exact, hms.exact⟩, ?_⟩
  have hmember : checkMember fields (name, encode v) = .ok () := by
    rw [checkMember, hfield]
    show (decode (Draft.ofJson (encode v))).map _ = .ok ()
    rw [h.decoded]
    rfl
  rw [checkEach, hmember]
  exact hms.checked

/-- A restored value is found again where it is held for its field. -/
theorem Restored.required {v : α} (h : Restored decode encode v) {slots : Slots} {name : String}
    (hslot : slots name = some (Draft.ofJson (encode v))) :
    slots.required name decode = .ok v := by
  rw [Slots.required, hslot]
  exact h.decoded

/-- As is one that may be missing. -/
theorem Restored.optional {encode : Option α → Json} {v : Option α}
    (h : Restored (Decoder.optional decode) encode v) {slots : Slots} {name : String}
    (hslot : slots name = some (Draft.ofJson (encode v))) :
    slots.optional name decode = .ok v := by
  rw [Slots.optional, Slots.orElse, hslot]
  exact h.decoded

/-- **A record is made of the members that are written of it.** -/
theorem Filled.record {fields : List Field} {ms : List (String × Json)} (h : Filled fields ms)
    (hkeys : (ms.map Prod.fst).Nodup) (expected : String) :
    record expected fields (Draft.ofJson (.object ms)) =
      .ok (Slots.ofMembers (Draft.ofMembers ms)) := by
  rw [Draft.ofJson, Decoder.record, checkMembers_ofMembers hkeys fun m _ => List.not_mem_nil,
    h.checked]
  rfl

end Decoder

end MarketFeed.Json
