import OctetStream.Proofs.Options.Objects

/-! Options written and read again. What is written is an object with the three options in order,
without blanks; what is read back from it are the options that were written. -/

namespace OctetStream.Options

open Json

structure Counts (o : Options) : Prop where
  capacityHint : ∀ n, o.capacityHint = some n → n ≤ Limits.maxCount
  payloadLimit : o.payloadLimit ≤ Limits.maxCount

/-! ## What is written -/

def hintValue : Option Nat → Value
  | some n => .number (toString n).toList
  | none => .null

def members (o : Options) : List (String × Value) :=
  [("endian", .string (o.order.name.toList.map .char)), ("capacity_hint", hintValue o.capacityHint),
    ("max_payload_len", .number (toString o.payloadLimit).toList)]

def rawMember (m : String × Value) : List StringUnit × Value :=
  (m.1.toList.map .char, m.2)

variable {o : Options}

theorem named_rawMember (ms : List (String × Value)) : Named (ms.map rawMember) ms := by
  induction ms with
  | nil => exact .nil
  | cons m ms ih => exact .cons m.2 (denotes_chars m.1.toList) ih

theorem spells_order (order : ByteOrder) :
    Spells (.item (.string (order.name.toList.map .char))) order.toJson.toList := by
  have hplain : order.name.toList.all isPlain = true := by cases order <;> rfl
  have hspells := Spells.bare (.string (spellsUnits_chars hplain))
  have htext : order.toJson.toList = '"' :: (order.name.toList ++ ['"']) := by
    rw [ByteOrder.toJson, String.toList_append, String.toList_append]
    rfl
  rw [htext]
  exact hspells

def hintText : Option Nat → String
  | some n => toString n
  | none => "null"

theorem spells_hint (hint : Option Nat) :
    Spells (.item (hintValue hint)) (hintText hint).toList := by
  cases hint with
  | none => exact .bare .null
  | some n => exact .bare (.number (numeral_toString n))

theorem toList_toJson (o : Options) :
    o.toJson.toList = '\x7b' :: (
      '"' :: ("endian".toList ++ '"' :: ':' :: o.order.toJson.toList) ++ ',' :: (
      '"' :: ("capacity_hint".toList ++ '"' :: ':' :: (hintText o.capacityHint).toList) ++ ',' ::
      '"' :: ("max_payload_len".toList ++ '"' :: ':' :: (toString o.payloadLimit).toList)) ++
      ['\x7d']) := by
  have hendian : "\x7b\"endian\":".toList = '\x7b' :: '"' :: ("endian".toList ++ ['"', ':']) := by
    decide
  have hcapacity : ",\"capacity_hint\":".toList =
      ',' :: '"' :: ("capacity_hint".toList ++ ['"', ':']) := by decide
  have hlimit : ",\"max_payload_len\":".toList =
      ',' :: '"' :: ("max_payload_len".toList ++ ['"', ':']) := by decide
  have hend : "\x7d".toList = ['\x7d'] := by decide
  have htext : o.toJson = "\x7b\"endian\":" ++ o.order.toJson ++ ",\"capacity_hint\":"
      ++ hintText o.capacityHint ++ ",\"max_payload_len\":" ++ toString o.payloadLimit
      ++ "\x7d" := rfl
  rw [htext]
  simp only [String.toList_append, hendian, hcapacity, hlimit, hend, List.append_assoc,
    List.cons_append, List.nil_append]

theorem document_toJson (o : Options) :
    Document (.object (o.members.map rawMember)) o.toJson := by
  have hlimit := Spells.bare (.number (numeral_toString o.payloadLimit))
  have hmembers := Spells.moreMembers
    (.bareMember (rfl : "endian".toList.all isPlain = true) (spells_order o.order))
    (.moreMembers
      (.bareMember (rfl : "capacity_hint".toList.all isPlain = true) (spells_hint o.capacityHint))
      (.lastMember (.bareMember (rfl : "max_payload_len".toList.all isPlain = true) hlimit)))
  exact .of_chars (.bare (.object hmembers)) (toList_toJson o)

theorem isHint_hintValue {hint : Option Nat} (h : ∀ n, hint = some n → n ≤ Limits.maxCount) :
    IsHint (hintValue hint) hint := by
  cases hint with
  | none => exact .null
  | some n => exact .count (isCount_toString (h n rfl))

theorem gives_members (h : o.Counts) : Gives o.members o where
  order := .inr ⟨_, valuesOf_eq_singleton_iff.mp rfl, .name (denotes_chars _)⟩
  capacityHint := .inr ⟨_, valuesOf_eq_singleton_iff.mp rfl, isHint_hintValue h.capacityHint⟩
  payloadLimit := .inr ⟨_, valuesOf_eq_singleton_iff.mp rfl, isCount_toString h.payloadLimit⟩

theorem ofJson_toJson_iff (h : o.Counts) : ofJson o.toJson = .ok o ↔ o.payloadLimit ≠ 0 := by
  rw [ofJson_eq_ok_iff (document_toJson o) (named_rawMember o.members)]
  exact and_iff_right (gives_members h)

theorem rejected_toJson (h : o.Counts) (hzero : o.payloadLimit = 0) : Rejected o.toJson := by
  refine rejected_of_zero ?_ hzero
  rw [ofMembers_of_named (document_toJson o) (named_rawMember o.members)]
  exact ofMembers_eq_some_iff.mpr (gives_members h)

/-! ## What is read -/

theorem counts_of_gives {ms : List (String × Value)} (h : Gives ms o) : o.Counts where
  capacityHint n hn := by
    rcases h.capacityHint with ⟨-, habsent⟩ | ⟨v, -, hhint⟩
    · rw [habsent] at hn
      cases hn
    · rw [hn] at hhint
      cases hhint with
      | count hcount => exact hcount.le
  payloadLimit := by
    rcases h.payloadLimit with ⟨-, habsent⟩ | ⟨v, -, hcount⟩
    · rw [habsent]
      decide
    · exact hcount.le

theorem item_eq_some {α : Type} {read : Value → Option α} {absent : Option α} {items : List Value}
    {a : α} (h : item? read absent items = some a) : absent = some a ∨ ∃ v, read v = some a := by
  cases items with
  | nil => exact Or.inl h
  | cons v items => exact Or.inr ⟨v, h⟩

theorem counts_of_items {items : List Value} (h : ofItems? items = some o) : o.Counts := by
  simp only [ofItems?, Option.bind_eq_bind, Option.bind_eq_some_iff] at h
  obtain ⟨order, -, hint, hhint, limit, hlimit, hlength⟩ := h
  split at hlength
  · cases hlength
    refine ⟨fun n hn => ?_, ?_⟩
    · have hn : hint = some n := hn
      subst hn
      rcases item_eq_some hhint with habsent | ⟨v, hv⟩
      · cases habsent
      · cases hint_eq_some_iff.mp hv with
        | count hcount => exact hcount.le
    · rcases item_eq_some hlimit with habsent | ⟨v, hv⟩
      · cases habsent
        exact (by decide : Limits.defaultPayload ≤ Limits.maxCount)
      · exact (count_eq_some_iff.mp hv).le
  · cases hlength

theorem counts_of_ofValue {v : Value} (h : ofValue? v = some o) : o.Counts := by
  unfold ofValue? at h
  split at h
  · obtain ⟨ms, -, hmembers⟩ := Option.bind_eq_some_iff.mp h
    exact counts_of_gives (ofMembers_eq_some_iff.mp hmembers)
  · exact counts_of_items h
  · cases h

theorem ofJson_eq_ok {text : String} (h : ofJson text = .ok o) : o.Counts ∧ o.payloadLimit ≠ 0 := by
  cases hread : (Value.parse? text).bind ofValue? with
  | none =>
    rw [ofJson, hread] at h
    cases h
  | some o' =>
    rw [ofJson_of_some hread] at h
    obtain ⟨rfl, hpositive⟩ := validate_map_eq_ok_iff.mp h
    obtain ⟨v, -, hvalue⟩ := Option.bind_eq_some_iff.mp hread
    exact ⟨counts_of_ofValue hvalue, hpositive⟩

/-- Options survive JSON. What is written of options whose numbers a count can hold is read back as
the same options if and only if their payload limit is not zero, and is refused for good otherwise;
and options that were read, from whatever text, are valid and are read back the same. -/
theorem options_survive_json :
    (∀ o : Options, o.Counts →
      (ofJson o.toJson = .ok o ↔ o.payloadLimit ≠ 0) ∧ (o.payloadLimit = 0 → Rejected o.toJson)) ∧
    ∀ text o, ofJson text = .ok o → o.validate = .ok () ∧ ofJson o.toJson = .ok o := by
  refine ⟨fun o hcounts => ⟨ofJson_toJson_iff hcounts, rejected_toJson hcounts⟩, fun text o h => ?_⟩
  obtain ⟨hcounts, hpositive⟩ := ofJson_eq_ok h
  exact ⟨if_neg hpositive, (ofJson_toJson_iff hcounts).mpr hpositive⟩

theorem largest_options_survive :
    let largest : Options := ⟨.big, some 18446744073709551615, 18446744073709551615⟩
    let mute : Options := ⟨.big, some 18446744073709551615, 0⟩
    ofJson largest.toJson = .ok largest ∧ Rejected mute.toJson ∧
      ofJson " [\x7b\"big\":null\x7d]" = .ok { order := .big } ∧
      ofJson ({ order := .big } : Options).toJson = .ok { order := .big } := by
  intro largest mute
  obtain ⟨hwritten, hread⟩ := options_survive_json
  have hhint : ∀ n, some 18446744073709551615 = some n → n ≤ Limits.maxCount := by
    rintro n ⟨⟩
    decide
  have harray : ofJson " [\x7b\"big\":null\x7d]" = .ok { order := .big } := rfl
  exact ⟨(hwritten largest ⟨hhint, by decide⟩).1.mpr (by decide),
    (hwritten mute ⟨hhint, by decide⟩).2 rfl, harray, (hread _ _ harray).2⟩

end OctetStream.Options
