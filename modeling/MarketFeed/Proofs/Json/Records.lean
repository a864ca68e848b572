import Mathlib.Data.List.Forall2
import MarketFeed.Proofs.Json.Restoring
import MarketFeed.Proofs.Json.Values

/-!
# Records from objects

A record is made of an object if every field that must be there is there once, with a value of its
type. A field that is there twice is refused even if both values are the same; other keys may be
there as often as they like, and their values do not matter.

## Main definitions

* `valuesOf k ms`: the values of a key
* `HoldsOnce ms k decode a`: a key is there once, and `a` is made of its value

## Main results

* `checkMembers_eq_ok_iff`: when the members of an object pass the check of a record
* `required_eq_ok_iff`: what is made of a field
* `mapM_eq_ok_iff`, `list_ofJson_eq_ok_iff`: a list is made item by item
-/

namespace MarketFeed.Json

variable {α β : Type} {fields : List Field} {f : Field} {seen : List String} {k name : String}
  {v : Json} {ms : List (String × Json)} {decode : Decoder α} {a : α}

/-! ## Values of a key -/

/-- the values of a key in an object, in the order of the text -/
def valuesOf (k : String) (ms : List (String × Json)) : List Json :=
  ms.filterMap fun m => if m.1 = k then some m.2 else none

@[simp] theorem valuesOf_nil (k : String) : valuesOf k [] = [] := rfl

theorem valuesOf_cons_self (k : String) (v : Json) (ms : List (String × Json)) :
    valuesOf k ((k, v) :: ms) = v :: valuesOf k ms := by
  simp [valuesOf]

theorem valuesOf_cons_of_ne (h : k ≠ name) (v : Json) (ms : List (String × Json)) :
    valuesOf name ((k, v) :: ms) = valuesOf name ms := by
  simp [valuesOf, h]

/-- The first value of a key is held for the field of its name. -/
theorem slots_ofMembers_eq_head? (name : String) (ms : List (String × Json)) :
    Slots.ofMembers (Draft.ofMembers ms) name = (valuesOf name ms).head?.map Draft.ofJson := by
  induction ms with
  | nil => rfl
  | cons m ms ih =>
    obtain ⟨k, v⟩ := m
    rw [Draft.ofMembers, Slots.ofMembers, List.find?_cons]
    by_cases hk : k = name
    · subst hk
      simp [valuesOf_cons_self]
    · rw [valuesOf_cons_of_ne hk, ← ih]
      simp only [show (k == name) = false by simpa using hk]
      rfl

/-- The integers in a value of a key fit if those in all values do. -/
theorem integersFit_of_mem_valuesOf (hfit : Draft.MembersFit (Draft.ofMembers ms))
    (h : v ∈ valuesOf k ms) : (Draft.ofJson v).IntegersFit := by
  induction ms with
  | nil => exact absurd h List.not_mem_nil
  | cons m ms ih =>
    obtain ⟨k', v'⟩ := m
    by_cases hk : k' = k
    · subst hk
      rw [valuesOf_cons_self] at h
      rcases List.mem_cons.mp h with rfl | h
      · exact hfit.1
      · exact ih hfit.2 h
    · rw [valuesOf_cons_of_ne hk] at h
      exact ih hfit.2 h

/-- A key is there once, and a decoder makes this of its value. -/
def HoldsOnce (ms : List (String × Json)) (k : String) (decode : Decoder α) (a : α) : Prop :=
  ∃ v, valuesOf k ms = [v] ∧ decode (Draft.ofJson v) = .ok a

/-! ## Checks -/

/-- Fields with a name of their own are found by it. -/
theorem find?_eq_some_of_mem (hnames : (fields.map Field.name).Nodup) (hf : f ∈ fields) :
    fields.find? (fun f' => f'.name == f.name) = some f := by
  induction fields with
  | nil => exact absurd hf List.not_mem_nil
  | cons f' fields ih =>
    obtain ⟨hnew, hnames⟩ := List.nodup_cons.mp hnames
    rw [List.find?_cons]
    rcases List.mem_cons.mp hf with rfl | hf
    · rw [beq_self_eq_true]
    · have hne : f'.name ≠ f.name := fun heq => hnew (heq ▸ List.mem_map_of_mem hf)
      rw [beq_false_of_ne hne]
      exact ih hnames hf

/-- A member that is no field is passed over. -/
theorem checkMembers_of_no_field (h : ∀ f ∈ fields, f.name ≠ k) :
    checkMembers fields seen (Draft.ofMembers ((k, v) :: ms)) =
      checkMembers fields (k :: seen) (Draft.ofMembers ms) := by
  have hfind : fields.find? (fun f => f.name == k) = none :=
    List.find?_eq_none.mpr fun f hf => by simpa using h f hf
  rw [Draft.ofMembers, checkMembers]
  simp only [Draft.key, wellFormed, Except.mapError, bind, Except.bind, hfind, skip_ofJson]

/-- A member that is a field must be new, and what it should be. -/
theorem checkMembers_of_field (hnames : (fields.map Field.name).Nodup) (hf : f ∈ fields) :
    checkMembers fields seen (Draft.ofMembers ((f.name, v) :: ms)) = .ok () ↔
      f.name ∉ seen ∧ f.check (Draft.ofJson v) = .ok () ∧
        checkMembers fields (f.name :: seen) (Draft.ofMembers ms) = .ok () := by
  rw [Draft.ofMembers, checkMembers]
  simp only [Draft.key, wellFormed, Except.mapError, bind, Except.bind,
    find?_eq_some_of_mem hnames hf]
  by_cases hseen : f.name ∈ seen
  · simp [hseen]
  · cases f.check (Draft.ofJson v) <;> simp [hseen]

/-- **The members of an object pass a check** if each field is not there, or is there once, has not
been seen before, and is what it should be. -/
theorem checkMembers_eq_ok_iff (hnames : (fields.map Field.name).Nodup) :
    checkMembers fields seen (Draft.ofMembers ms) = .ok () ↔
      ∀ f ∈ fields, valuesOf f.name ms = [] ∨
        (f.name ∉ seen ∧ ∃ v, valuesOf f.name ms = [v] ∧ f.check (Draft.ofJson v) = .ok ()) := by
  induction ms generalizing seen with
  | nil => exact ⟨fun _ _ _ => .inl rfl, fun _ => rfl⟩
  | cons m ms ih =>
    obtain ⟨k, v⟩ := m
    have hother {f : Field} (hf : k ≠ f.name) :
        (valuesOf f.name ms = [] ∨ (f.name ∉ k :: seen ∧
          ∃ v, valuesOf f.name ms = [v] ∧ f.check (Draft.ofJson v) = .ok ())) ↔
        (valuesOf f.name ((k, v) :: ms) = [] ∨ (f.name ∉ seen ∧
          ∃ v', valuesOf f.name ((k, v) :: ms) = [v'] ∧ f.check (Draft.ofJson v') = .ok ())) := by
      rw [valuesOf_cons_of_ne hf, List.mem_cons, not_or, and_iff_right (Ne.symm hf)]
    by_cases hfield : ∃ f ∈ fields, f.name = k
    · obtain ⟨f, hf, rfl⟩ := hfield
      rw [checkMembers_of_field hnames hf, ih]
      constructor
      · rintro ⟨hseen, hcheck, hrest⟩ f' hf'
        by_cases hk : f.name = f'.name
        · obtain rfl : f = f' := List.inj_on_of_nodup_map hnames hf hf' hk
          have hnone : valuesOf f.name ms = [] := by simpa using hrest f hf
          exact .inr ⟨hseen, v, by rw [valuesOf_cons_self, hnone], hcheck⟩
        · exact (hother hk).mp (hrest f' hf')
      · intro h
        have hself : f.name ∉ seen ∧ valuesOf f.name ms = [] ∧
            f.check (Draft.ofJson v) = .ok () := by
          simpa [valuesOf_cons_self, and_assoc] using h f hf
        obtain ⟨hseen, hnone, hcheck⟩ := hself
        refine ⟨hseen, hcheck, fun f' hf' => ?_⟩
        by_cases hk : f.name = f'.name
        · exact .inl (hk ▸ hnone)
        · exact (hother hk).mpr (h f' hf')
    · have hnone : ∀ f ∈ fields, f.name ≠ k := fun f hf hk => hfield ⟨f, hf, hk⟩
      rw [checkMembers_of_no_field hnone, ih]
      exact forall₂_congr fun f hf => hother (Ne.symm (hnone f hf))

/-- A record is made of an object that passes the check. -/
theorem record_ofJson_eq_ok_iff {expected : String} {slots : Slots} :
    Decoder.record expected fields (Draft.ofJson (.object ms)) = .ok slots ↔
      checkMembers fields [] (Draft.ofMembers ms) = .ok () ∧
        slots = Slots.ofMembers (Draft.ofMembers ms) := by
  rw [Draft.ofJson, Decoder.record, bind_eq_ok_iff]
  constructor
  · rintro ⟨_, hcheck, h⟩
    exact ⟨hcheck, (Except.ok.inj h).symm⟩
  · rintro ⟨hcheck, rfl⟩
    exact ⟨_, hcheck, rfl⟩

/-- **What is made of a field** of an object that has passed the check. -/
theorem required_eq_ok_iff (hnames : (fields.map Field.name).Nodup)
    (hcheck : checkMembers fields [] (Draft.ofMembers ms) = .ok ())
    (hf : Field.of name decode ∈ fields) :
    (Slots.ofMembers (Draft.ofMembers ms)).required name decode = .ok a ↔
      HoldsOnce ms name decode a := by
  rw [Slots.required, slots_ofMembers_eq_head?]
  rcases (checkMembers_eq_ok_iff hnames).mp hcheck _ hf with hnone | ⟨-, v, hv, -⟩
  · have hnone : valuesOf name ms = [] := hnone
    simp [HoldsOnce, hnone]
  · have hv : valuesOf name ms = [v] := hv
    simp [HoldsOnce, hv]

/-- A field that is there once and is what it should be passes the check. -/
theorem HoldsOnce.check (h : HoldsOnce ms name decode a) :
    ∃ v, valuesOf name ms = [v] ∧ (Field.of name decode).check (Draft.ofJson v) = .ok () := by
  obtain ⟨v, hv, ha⟩ := h
  refine ⟨v, hv, ?_⟩
  simp [Field.of, ha, Except.map]

/-! ## Lists -/

/-- A computation over a list has a result if it has one for each item. -/
theorem mapM_eq_ok_iff {ε : Type} {f : α → Except ε β} {as : List α} {bs : List β} :
    as.mapM f = .ok bs ↔ List.Forall₂ (fun a b => f a = .ok b) as bs := by
  induction as generalizing bs with
  | nil =>
    rw [List.forall₂_nil_left_iff]
    exact ⟨fun h => (Except.ok.inj h).symm, fun h => h ▸ rfl⟩
  | cons a as ih =>
    rw [List.mapM_cons, bind_eq_ok_iff, List.forall₂_cons_left_iff]
    refine exists_congr fun b => ?_
    rw [bind_eq_ok_iff]
    constructor
    · rintro ⟨hb, bs', hbs', h⟩
      exact ⟨bs', hb, ih.mp hbs', (Except.ok.inj h).symm⟩
    · rintro ⟨bs', hb, hbs', rfl⟩
      exact ⟨hb, bs', ih.mpr hbs', rfl⟩

/-- Two lists agree item by item with one between them if each two items agree with one between
them. -/
theorem forall₂_exists_iff {γ : Type} {R : α → β → Prop} {S : β → γ → Prop} {as : List α}
    {cs : List γ} :
    List.Forall₂ (fun a c => ∃ b, R a b ∧ S b c) as cs ↔
      ∃ bs, List.Forall₂ R as bs ∧ List.Forall₂ S bs cs := by
  constructor
  · intro h
    induction h with
    | nil => exact ⟨[], .nil, .nil⟩
    | cons hac _ ih =>
      obtain ⟨b, hab, hbc⟩ := hac
      obtain ⟨bs, has, hcs⟩ := ih
      exact ⟨b :: bs, .cons hab has, .cons hbc hcs⟩
  · rintro ⟨bs, has, hcs⟩
    induction has generalizing cs with
    | nil =>
      cases hcs
      exact .nil
    | cons hab _ ih =>
      cases hcs with
      | cons hbc hcs => exact .cons ⟨_, hab, hbc⟩ (ih hcs)

theorem ofItems_eq_map (items : List Json) : Draft.ofItems items = items.map Draft.ofJson := by
  induction items with
  | nil => rfl
  | cons v items ih => rw [Draft.ofItems, ih, List.map_cons]

/-- **A list is made of an array item by item.** -/
theorem list_ofJson_eq_ok_iff {as : List α} :
    Decoder.list decode (Draft.ofJson v) = .ok as ↔
      ∃ items, v = .array items ∧
        List.Forall₂ (fun item a => decode (Draft.ofJson item) = .ok a) items as := by
  cases v with
  | array items =>
    rw [Draft.ofJson, ofItems_eq_map, Decoder.list, bind_eq_ok_iff]
    simp only [mapM_eq_ok_iff, List.forall₂_map_left_iff]
    constructor
    · rintro ⟨as', has, h⟩
      obtain rfl := Except.ok.inj h
      exact ⟨items, rfl, has⟩
    · rintro ⟨items', h, has⟩
      obtain rfl := Json.array.inj h
      exact ⟨as, has, rfl⟩
  | _ =>
    refine iff_of_false (Decoder.refuse_ne_ok _ _ as) ?_
    rintro ⟨items, h, -⟩
    cases h

end MarketFeed.Json
