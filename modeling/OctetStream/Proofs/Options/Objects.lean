import OctetStream.Options
import OctetStream.Proofs.Json.Fields
import OctetStream.Proofs.Json.Parsing

/-! Options from an object. Each option stands under a key of its own, once or not at all; whatever
else the object holds, and in which order, is passed over. -/

namespace OctetStream

open Json

/-! ## Values of the options -/

inductive NamesOrder : Value → ByteOrder → Prop
  | name {units : List StringUnit} {order : ByteOrder} (h : Denotes units order.name.toList) :
    NamesOrder (.string units) order
  | variant {units : List StringUnit} {order : ByteOrder} (h : Denotes units order.name.toList) :
    NamesOrder (.object [(units, .null)]) order

inductive IsHint : Value → Option Nat → Prop
  | null : IsHint .null none
  | count {v : Value} {n : Nat} (h : IsCount v n) : IsHint v (some n)

theorem ByteOrder.ofName_eq_some_iff {name : String} {order : ByteOrder} :
    ofName? name = some order ↔ order.name = name := by
  constructor
  · intro h
    have hfound := List.find?_some (p := fun order : ByteOrder => order.name == name) h
    exact beq_iff_eq.mp hfound
  · rintro rfl
    cases order <;> rfl

theorem orderOfText_eq_some_iff {units : List StringUnit} {order : ByteOrder} :
    (text? units).bind ByteOrder.ofName? = some order ↔ Denotes units order.name.toList := by
  rw [Option.bind_eq_some_iff, ← text_eq_some_iff]
  constructor
  · rintro ⟨name, htext, hname⟩
    rw [ByteOrder.ofName_eq_some_iff.mp hname]
    exact htext
  · intro htext
    exact ⟨order.name, htext, ByteOrder.ofName_eq_some_iff.mpr rfl⟩

theorem orderOfValue_eq_some_iff {v : Value} {order : ByteOrder} :
    ByteOrder.ofValue? v = some order ↔ NamesOrder v order := by
  constructor
  · intro h
    unfold ByteOrder.ofValue? at h
    split at h
    · exact .name (orderOfText_eq_some_iff.mp h)
    · exact .variant (orderOfText_eq_some_iff.mp h)
    · cases h
  · intro h
    cases h with
    | name h => exact orderOfText_eq_some_iff.mpr h
    | variant h => exact orderOfText_eq_some_iff.mpr h

theorem hint_eq_some_iff {v : Value} {hint : Option Nat} :
    v.optional? Value.count? = some hint ↔ IsHint v hint := by
  constructor
  · intro h
    unfold Value.optional? at h
    split at h
    · cases h
      exact .null
    · obtain ⟨n, hcount, rfl⟩ := Option.map_eq_some_iff.mp h
      exact .count (count_eq_some_iff.mp hcount)
  · intro h
    cases h with
    | null => rfl
    | count h =>
      have hcount := count_eq_some_iff.mpr h
      cases h with
      | digits all fits => exact congrArg (Option.map some) hcount

namespace Options

/-! ## Members -/

/-- What the members say under a key, and the default where they say nothing. -/
def Settles {α : Type} (key : String) (reads : Value → α → Prop) (default : α)
    (members : List (String × Value)) (a : α) : Prop :=
  (Stands key members none ∧ a = default) ∨ ∃ v, Stands key members (some v) ∧ reads v a

structure Gives (members : List (String × Value)) (o : Options) : Prop where
  order : Settles "endian" NamesOrder .default members o.order
  capacityHint : Settles "capacity_hint" IsHint none members o.capacityHint
  payloadLimit : Settles "max_payload_len" IsCount Limits.defaultPayload members o.payloadLimit

variable {members : List (String × Value)} {o : Options}

theorem field_eq_some_iff_settles {α : Type} {key : String} {read : Value → Option α}
    {reads : Value → α → Prop} {default a : α} (hread : ∀ v, read v = some a ↔ reads v a) :
    field? key read (some default) members = some a ↔ Settles key reads default members a := by
  rw [field_eq_some_iff, Settles]
  simp only [hread, Option.some.injEq, eq_comm]

theorem ofMembers_eq_some_iff : ofMembers? members = some o ↔ Gives members o := by
  simp only [ofMembers?, Option.bind_eq_bind, Option.bind_eq_some_iff]
  constructor
  · rintro ⟨order, horder, hint, hhint, limit, hlimit, hsame⟩
    cases hsame
    exact ⟨(field_eq_some_iff_settles fun _ => orderOfValue_eq_some_iff).mp horder,
      (field_eq_some_iff_settles fun _ => hint_eq_some_iff).mp hhint,
      (field_eq_some_iff_settles fun _ => count_eq_some_iff).mp hlimit⟩
  · rintro ⟨horder, hhint, hlimit⟩
    exact ⟨o.order, (field_eq_some_iff_settles fun _ => orderOfValue_eq_some_iff).mpr horder,
      o.capacityHint, (field_eq_some_iff_settles fun _ => hint_eq_some_iff).mpr hhint,
      o.payloadLimit, (field_eq_some_iff_settles fun _ => count_eq_some_iff).mpr hlimit, rfl⟩

theorem Settles.reads_of_mem {α : Type} {key : String} {reads : Value → α → Prop} {default a : α}
    {v : Value} (h : Settles key reads default members a) (hmem : (key, v) ∈ members) :
    reads v a := by
  rcases h with ⟨habsent, -⟩ | ⟨w, hstands, hw⟩
  · exact absurd (habsent.eq_some_of_mem hmem) nofun
  · cases hstands.eq_some_of_mem hmem
    exact hw

theorem not_settles_of_repeats {α : Type} {key : String} {reads : Value → α → Prop} {default a : α}
    (hrepeats : Repeats key members) : ¬Settles key reads default members a := by
  rintro (⟨hstands, -⟩ | ⟨v, hstands, -⟩) <;> exact hstands.not_repeats hrepeats

def keys : List String :=
  ["endian", "capacity_hint", "max_payload_len"]

def known (members : List (String × Value)) : List (String × Value) :=
  members.filter fun m => keys.contains m.1

theorem not_gives_of_repeats {key : String} (hkey : key ∈ keys) (hrepeats : Repeats key members) :
    ¬Gives members o := by
  rintro ⟨horder, hhint, hlimit⟩
  simp only [keys, List.mem_cons, List.not_mem_nil, or_false] at hkey
  rcases hkey with rfl | rfl | rfl
  · exact not_settles_of_repeats hrepeats horder
  · exact not_settles_of_repeats hrepeats hhint
  · exact not_settles_of_repeats hrepeats hlimit

theorem valuesOf_known {key : String} (hkey : key ∈ keys) (members : List (String × Value)) :
    valuesOf key (known members) = valuesOf key members := by
  have hfilter : (known members).filter (·.1 == key) = members.filter (·.1 == key) := by
    rw [known, List.filter_filter]
    apply List.filter_congr
    rintro ⟨k, v⟩ -
    by_cases hsame : k = key
    · simp [hsame, hkey]
    · simp [hsame]
  rw [valuesOf, valuesOf, hfilter]

theorem field_of_known_perm {α : Type} {key : String} (hkey : key ∈ keys) {read : Value → Option α}
    {absent : Option α} {others : List (String × Value)} (h : (known members).Perm (known others)) :
    field? key read absent members = field? key read absent others := by
  apply field_of_perm
  rw [← valuesOf_known hkey members, ← valuesOf_known hkey others]
  exact (h.filter _).map _

theorem ofMembers_of_perm {others : List (String × Value)}
    (h : (known members).Perm (known others)) : ofMembers? members = ofMembers? others := by
  have horder : "endian" ∈ keys := by simp [keys]
  have hhint : "capacity_hint" ∈ keys := by simp [keys]
  have hlimit : "max_payload_len" ∈ keys := by simp [keys]
  simp only [ofMembers?, field_of_known_perm horder h, field_of_known_perm hhint h,
    field_of_known_perm hlimit h]

/-! ## Texts -/

def Rejected (text : String) : Prop :=
  ∃ why, ofJson text = .error (.malformedInput why) ∧
    (StreamError.malformedInput why).isFatal = true

theorem rejected_of_none {text : String} (h : (Value.parse? text).bind ofValue? = none) :
    Rejected text := by
  refine ⟨"stream options", ?_, rfl⟩
  rw [ofJson, h]

theorem ofJson_of_some {text : String} (h : (Value.parse? text).bind ofValue? = some o) :
    ofJson text = o.validate.map fun _ => o := by
  rw [ofJson, h]

theorem validate_map_eq_ok_iff {o' : Options} :
    (o.validate.map fun _ => o) = .ok o' ↔ o = o' ∧ o.payloadLimit ≠ 0 := by
  unfold validate
  split
  · rename_i hzero
    simp [Except.map, hzero]
  · rename_i hpositive
    simp [Except.map, hpositive]

theorem rejected_of_zero {text : String} (h : (Value.parse? text).bind ofValue? = some o)
    (hzero : o.payloadLimit = 0) : Rejected text := by
  refine ⟨"max_payload_len must be non-zero", ?_, rfl⟩
  rw [ofJson_of_some h, validate, if_pos hzero]
  rfl

section

variable {text : String} {raw : List (List StringUnit × Value)}

theorem ofValue_of_document (htext : Document (.object raw) text) :
    (Value.parse? text).bind ofValue? = (textKeys? raw).bind ofMembers? := by
  rw [parse_of_document htext]
  rfl

theorem ofMembers_of_named (htext : Document (.object raw) text) (hnamed : Named raw members) :
    (Value.parse? text).bind ofValue? = ofMembers? members := by
  rw [ofValue_of_document htext, textKeys_eq_some_iff.mpr hnamed]
  rfl

theorem ofJson_eq_ok_iff (htext : Document (.object raw) text) (hnamed : Named raw members) :
    ofJson text = .ok o ↔ Gives members o ∧ o.payloadLimit ≠ 0 := by
  rw [← ofMembers_eq_some_iff, ← ofMembers_of_named htext hnamed]
  constructor
  · intro h
    cases hread : (Value.parse? text).bind ofValue? with
    | none =>
      obtain ⟨why, hrejected, -⟩ := rejected_of_none hread
      rw [hrejected] at h
      cases h
    | some o' =>
      rw [ofJson_of_some hread] at h
      obtain ⟨rfl, hpositive⟩ := validate_map_eq_ok_iff.mp h
      exact ⟨rfl, hpositive⟩
  · rintro ⟨hread, hpositive⟩
    rw [ofJson_of_some hread]
    exact validate_map_eq_ok_iff.mpr ⟨rfl, hpositive⟩

theorem rejected_of_not_gives (htext : Document (.object raw) text) (hnamed : Named raw members)
    (h : ∀ o, Gives members o → o.payloadLimit = 0) : Rejected text := by
  cases hread : (Value.parse? text).bind ofValue? with
  | none => exact rejected_of_none hread
  | some o =>
    refine rejected_of_zero hread (h o ?_)
    rw [← ofMembers_eq_some_iff, ← ofMembers_of_named htext hnamed]
    exact hread

theorem ofJson_of_perm {other : String} {raw' : List (List StringUnit × Value)}
    {others : List (String × Value)} (htext : Document (.object raw) text)
    (hnamed : Named raw members) (hother : Document (.object raw') other)
    (hothers : Named raw' others) (h : (known members).Perm (known others)) :
    ofJson other = ofJson text := by
  rw [ofJson, ofJson, ofMembers_of_named hother hothers, ofMembers_of_named htext hnamed,
    ofMembers_of_perm h]

end

theorem spellsUnits_half : SpellsUnits [.code 0xd800] ['\\', 'u', 'd', '8', '0', '0'] :=
  .cons (.numeric ⟨(by decide : 13 < 16), .inl rfl⟩ ⟨(by decide : 8 < 16), .inl rfl⟩
    ⟨(by decide : 0 < 16), .inl rfl⟩ ⟨(by decide : 0 < 16), .inl rfl⟩) .nil

theorem not_denotes_half (cs : List Char) : ¬Denotes [.code 0xd800] cs := by
  intro h
  cases h with
  | code whole h => exact whole ⟨by decide, by decide⟩

/-- Options from the text of any JSON object whose keys are text. They are given if and only if
every key of an option stands there at most once, with a value that it may have, and the payload
limit is not zero; then those that are absent take their defaults. Neither the order of the members
nor what stands under other keys makes a difference. A key of an option that repeats, a value that
an option may not have and a payload limit of zero are refused for good, and so is every object with
a key that has half a surrogate pair in it. -/
theorem object_gives_options {text : String} {raw : List (List StringUnit × Value)}
    (htext : Document (.object raw) text) :
    (∀ members, Named raw members →
      (∀ o, ofJson text = .ok o ↔ Gives members o ∧ o.payloadLimit ≠ 0) ∧
      (∀ key ∈ keys, Repeats key members → Rejected text) ∧
      (∀ v, ("endian", v) ∈ members → (∀ order, ¬NamesOrder v order) → Rejected text) ∧
      (∀ v, ("capacity_hint", v) ∈ members → (∀ hint, ¬IsHint v hint) → Rejected text) ∧
      (∀ v, ("max_payload_len", v) ∈ members → (∀ n, IsCount v n → n = 0) → Rejected text) ∧
      ∀ other raw' others, Document (.object raw') other → Named raw' others →
        (known members).Perm (known others) → ofJson other = ofJson text) ∧
    ∀ units v, (units, v) ∈ raw → (∀ cs, ¬Denotes units cs) → Rejected text := by
  refine ⟨fun members hnamed => ⟨fun o => ofJson_eq_ok_iff htext hnamed, ?_, ?_, ?_, ?_, ?_⟩, ?_⟩
  · intro key hkey hrepeats
    exact rejected_of_not_gives htext hnamed fun o hgives =>
      absurd hgives (not_gives_of_repeats hkey hrepeats)
  · intro v hmem hno
    exact rejected_of_not_gives htext hnamed fun o hgives =>
      absurd (hgives.order.reads_of_mem hmem) (hno o.order)
  · intro v hmem hno
    exact rejected_of_not_gives htext hnamed fun o hgives =>
      absurd (hgives.capacityHint.reads_of_mem hmem) (hno o.capacityHint)
  · intro v hmem hzero
    exact rejected_of_not_gives htext hnamed fun o hgives =>
      hzero o.payloadLimit (hgives.payloadLimit.reads_of_mem hmem)
  · intro other raw' others hother hothers hperm
    exact ofJson_of_perm htext hnamed hother hothers hperm
  · intro units v hmem hno
    apply rejected_of_none
    rw [ofValue_of_document htext, textKeys_eq_none hmem hno]
    rfl

theorem payload_limit_behind_another_member :
    let text := "\x7b\"u\": [\"\\ud800\"],\"max_payload_len\":5\x7d"
    ofJson text = .ok { payloadLimit := 5 } := by
  intro text
  let array := Value.array [.string [.code 0xd800]]
  have harray := @Spells.item array [' '] _ [] (by simp [Blanks])
    (.array (.lastItem (.bare (.string spellsUnits_half)))) nofun
  have hlimit := Spells.bare (.number (numeral_toString 5))
  have hmembers := Spells.moreMembers
    (.bareMember (rfl : "u".toList.all isPlain = true) harray)
    (.lastMember (.bareMember (rfl : "max_payload_len".toList.all isPlain = true) hlimit))
  have htext : Document _ text := .of_chars (.bare (.object hmembers)) (by decide)
  have hnamed := Named.cons array (denotes_chars "u".toList)
    (.cons (.number ['5']) (denotes_chars "max_payload_len".toList) .nil)
  have hgives : Gives [("u", array), ("max_payload_len", .number ['5'])] { payloadLimit := 5 } :=
    ⟨.inl ⟨.absent (by simp), rfl⟩, .inl ⟨.absent (by simp), rfl⟩,
      .inr ⟨_, valuesOf_eq_singleton_iff.mp rfl,
        isCount_toString (by decide : 5 ≤ Limits.maxCount)⟩⟩
  exact (((object_gives_options htext).1 _ hnamed).1 _).mpr ⟨hgives, by decide⟩

theorem half_pair_in_key_is_refused :
    let text := "\x7b\"\\ud800\":1\x7d"
    Document (.object [([.code 0xd800], .number ['1'])]) text ∧
      (∀ key ∈ keys, ¬Denotes [.code 0xd800] key.toList) ∧
      ofJson text = .error (.malformedInput "stream options") := by
  intro text
  have hone := Spells.bare (.number (numeral_toString 1))
  have htext : Document (.object [([.code 0xd800], .number ['1'])]) text := .of_chars
    (.bare (.object (.lastMember (@Spells.member _ _ [] _ [] _ nofun spellsUnits_half nofun hone))))
    (by decide)
  refine ⟨htext, fun key _ => not_denotes_half key.toList, ?_⟩
  rw [ofJson, ofValue_of_document htext,
    textKeys_eq_none List.mem_cons_self not_denotes_half]
  rfl

end Options
end OctetStream
