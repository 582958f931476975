import OctetStream.Bytes

/-! Which octets are text. The octets of a character are one of nine sequences, told apart by their
first octet; what would be longer than it has to be, a surrogate or above 10FFFF is none of them. -/

namespace OctetStream.Utf8

def Within (low high : Nat) (c : UInt8) : Prop :=
  low ≤ c.toNat ∧ c.toNat ≤ high

def Tail (c : UInt8) : Prop :=
  Within 0x80 0xbf c

inductive Sequence : Bytes → Prop
  | one {a} (first : Within 0x00 0x7f a) : Sequence [a]
  | two {a b} (first : Within 0xc2 0xdf a) (second : Tail b) : Sequence [a, b]
  -- A second octet below A0 would make the sequence longer than it has to be.
  | three {a b c} (first : Within 0xe0 0xe0 a) (second : Within 0xa0 0xbf b) (third : Tail c) :
    Sequence [a, b, c]
  | threeLow {a b c} (first : Within 0xe1 0xec a) (second : Tail b) (third : Tail c) :
    Sequence [a, b, c]
  -- A second octet above 9F would make a surrogate.
  | threeBelowSurrogates {a b c} (first : Within 0xed 0xed a) (second : Within 0x80 0x9f b)
    (third : Tail c) : Sequence [a, b, c]
  | threeHigh {a b c} (first : Within 0xee 0xef a) (second : Tail b) (third : Tail c) :
    Sequence [a, b, c]
  -- A second octet below 90 would make the sequence longer than it has to be.
  | four {a b c d} (first : Within 0xf0 0xf0 a) (second : Within 0x90 0xbf b) (third : Tail c)
    (fourth : Tail d) : Sequence [a, b, c, d]
  | fourMiddle {a b c d} (first : Within 0xf1 0xf3 a) (second : Tail b) (third : Tail c)
    (fourth : Tail d) : Sequence [a, b, c, d]
  -- A second octet above 8F would lead beyond 10FFFF.
  | fourLast {a b c d} (first : Within 0xf4 0xf4 a) (second : Within 0x80 0x8f b) (third : Tail c)
    (fourth : Tail d) : Sequence [a, b, c, d]

inductive WellFormed : Bytes → Prop
  | nil : WellFormed []
  | append {front rest} (first : Sequence front) (others : WellFormed rest) :
    WellFormed (front ++ rest)

theorem within_ofNat {low high n : Nat} (hn : low ≤ n ∧ n ≤ high) (hhigh : high < 256) :
    Within low high (UInt8.ofNat n) := by
  have hfits : n < 256 := Nat.lt_of_le_of_lt hn.2 hhigh
  rw [Within, UInt8.toNat_ofNat', Nat.mod_eq_of_lt hfits]
  exact hn

theorem tail_ofNat (n : Nat) : Tail (UInt8.ofNat (n % 64 + 128)) :=
  within_ofNat (by omega) (by decide)

/-! ## Every character is a sequence -/

theorem sequence_of_three {n : Nat} (hlow : 0x7ff < n) (hhigh : n ≤ 0xffff)
    (hvalid : n < 0xd800 ∨ 0xdfff < n) :
    Sequence [UInt8.ofNat (n / 4096 % 16 + 224), UInt8.ofNat (n / 64 % 64 + 128),
      UInt8.ofNat (n % 64 + 128)] := by
  have hcases : n / 4096 = 0 ∨ 1 ≤ n / 4096 ∧ n / 4096 ≤ 12 ∨ n / 4096 = 13 ∨
      14 ≤ n / 4096 ∧ n / 4096 ≤ 15 := by omega
  rcases hcases with hfirst | hfirst | hfirst | hfirst
  · exact .three (within_ofNat (by omega) (by decide)) (within_ofNat (by omega) (by decide))
      (tail_ofNat n)
  · exact .threeLow (within_ofNat (by omega) (by decide)) (tail_ofNat (n / 64)) (tail_ofNat n)
  · exact .threeBelowSurrogates (within_ofNat (by omega) (by decide))
      (within_ofNat (by omega) (by decide)) (tail_ofNat n)
  · exact .threeHigh (within_ofNat (by omega) (by decide)) (tail_ofNat (n / 64)) (tail_ofNat n)

theorem sequence_of_four {n : Nat} (hlow : 0xffff < n) (hhigh : n < 0x110000) :
    Sequence [UInt8.ofNat (n / 262144 % 8 + 240), UInt8.ofNat (n / 4096 % 64 + 128),
      UInt8.ofNat (n / 64 % 64 + 128), UInt8.ofNat (n % 64 + 128)] := by
  have hcases : n / 262144 = 0 ∨ 1 ≤ n / 262144 ∧ n / 262144 ≤ 3 ∨ n / 262144 = 4 := by omega
  rcases hcases with hfirst | hfirst | hfirst
  · exact .four (within_ofNat (by omega) (by decide)) (within_ofNat (by omega) (by decide))
      (tail_ofNat (n / 64)) (tail_ofNat n)
  · exact .fourMiddle (within_ofNat (by omega) (by decide)) (tail_ofNat (n / 4096))
      (tail_ofNat (n / 64)) (tail_ofNat n)
  · exact .fourLast (within_ofNat (by omega) (by decide)) (within_ofNat (by omega) (by decide))
      (tail_ofNat (n / 64)) (tail_ofNat n)

theorem sequence_utf8EncodeChar (c : Char) : Sequence (String.utf8EncodeChar c) := by
  have hvalid : c.val.toNat < 0xd800 ∨ 0xdfff < c.val.toNat ∧ c.val.toNat < 0x110000 := c.valid
  unfold String.utf8EncodeChar
  generalize c.val.toNat = n at hvalid
  by_cases hone : n ≤ 0x7f
  · rw [if_pos hone]
    exact .one (within_ofNat ⟨Nat.zero_le n, hone⟩ (by decide))
  rw [if_neg hone]
  by_cases htwo : n ≤ 0x7ff
  · rw [if_pos htwo]
    exact .two (within_ofNat (by omega) (by decide)) (tail_ofNat n)
  rw [if_neg htwo]
  by_cases hthree : n ≤ 0xffff
  · rw [if_pos hthree]
    exact sequence_of_three (by omega) hthree (by omega)
  · rw [if_neg hthree]
    exact sequence_of_four (by omega) (by omega)

/-! ## Every sequence is a character -/

theorem exists_char {n : Nat} (h : n < 0xd800 ∨ 0xdfff < n ∧ n < 0x110000) :
    ∃ c : Char, c.val.toNat = n :=
  ⟨Char.ofNatAux n h, rfl⟩

theorem ofNat_eq {n : Nat} {c : UInt8} (h : n = c.toNat) : UInt8.ofNat n = c := by
  rw [h, UInt8.ofNat_toNat]

variable {a b c d : UInt8}

theorem char_of_one (ha : a.toNat ≤ 0x7f) : ∃ x, String.utf8EncodeChar x = [a] := by
  obtain ⟨x, hx⟩ := exists_char (n := a.toNat) (by omega)
  refine ⟨x, ?_⟩
  rw [String.utf8EncodeChar, hx, if_pos ha, UInt8.ofNat_toNat]

theorem char_of_two (ha : Within 0xc2 0xdf a) (hb : Tail b) :
    ∃ x, String.utf8EncodeChar x = [a, b] := by
  obtain ⟨⟨_, _⟩, _, _⟩ := And.intro ha hb
  obtain ⟨x, hx⟩ := exists_char (n := (a.toNat - 192) * 64 + (b.toNat - 128)) (by omega)
  refine ⟨x, ?_⟩
  rw [String.utf8EncodeChar, hx, if_neg (by omega), if_pos (by omega), ofNat_eq (c := a) (by omega),
    ofNat_eq (c := b) (by omega)]

theorem char_of_three (ha : Within 0xe0 0xef a) (hb : Tail b) (hc : Tail c)
    (hlow : a.toNat = 0xe0 → 0xa0 ≤ b.toNat) (hvalid : a.toNat = 0xed → b.toNat ≤ 0x9f) :
    ∃ x, String.utf8EncodeChar x = [a, b, c] := by
  obtain ⟨⟨_, _⟩, ⟨_, _⟩, _, _⟩ := And.intro ha (And.intro hb hc)
  obtain ⟨x, hx⟩ := exists_char
    (n := (a.toNat - 224) * 4096 + (b.toNat - 128) * 64 + (c.toNat - 128)) (by omega)
  refine ⟨x, ?_⟩
  rw [String.utf8EncodeChar, hx, if_neg (by omega), if_neg (by omega), if_pos (by omega),
    ofNat_eq (c := a) (by omega), ofNat_eq (c := b) (by omega), ofNat_eq (c := c) (by omega)]

theorem char_of_four (ha : Within 0xf0 0xf4 a) (hb : Tail b) (hc : Tail c) (hd : Tail d)
    (hlow : a.toNat = 0xf0 → 0x90 ≤ b.toNat) (hhigh : a.toNat = 0xf4 → b.toNat ≤ 0x8f) :
    ∃ x, String.utf8EncodeChar x = [a, b, c, d] := by
  obtain ⟨⟨_, _⟩, ⟨_, _⟩, ⟨_, _⟩, _, _⟩ := And.intro ha (And.intro hb (And.intro hc hd))
  obtain ⟨x, hx⟩ := exists_char (n := (a.toNat - 240) * 262144 + (b.toNat - 128) * 4096 +
    (c.toNat - 128) * 64 + (d.toNat - 128)) (by omega)
  refine ⟨x, ?_⟩
  rw [String.utf8EncodeChar, hx, if_neg (by omega), if_neg (by omega), if_neg (by omega),
    ofNat_eq (c := a) (by omega), ofNat_eq (c := b) (by omega), ofNat_eq (c := c) (by omega),
    ofNat_eq (c := d) (by omega)]

theorem exists_char_of_sequence {front : Bytes} (h : Sequence front) :
    ∃ x, String.utf8EncodeChar x = front := by
  cases h with
  | one ha => exact char_of_one ha.2
  | two ha hb => exact char_of_two ha hb
  | three ha hb hc | threeLow ha hb hc | threeBelowSurrogates ha hb hc | threeHigh ha hb hc =>
    unfold Within Tail Within at *
    exact char_of_three ⟨by omega, by omega⟩ ⟨by omega, by omega⟩ hc (by omega) (by omega)
  | four ha hb hc hd | fourMiddle ha hb hc hd | fourLast ha hb hc hd =>
    unfold Within Tail Within at *
    exact char_of_four ⟨by omega, by omega⟩ ⟨by omega, by omega⟩ hc hd (by omega) (by omega)

/-! ## Text -/

theorem utf8_ofList (cs : List Char) :
    utf8 (String.ofList cs) = cs.flatMap String.utf8EncodeChar := by
  rw [utf8, String.toByteArray_ofList, List.utf8Encode, List.data_toByteArray]

theorem wellFormed_flatMap (cs : List Char) : WellFormed (cs.flatMap String.utf8EncodeChar) := by
  induction cs with
  | nil => exact .nil
  | cons c cs ih => exact .append (sequence_utf8EncodeChar c) ih

theorem wellFormed_iff {b : Bytes} : WellFormed b ↔ ∃ s, utf8 s = b := by
  constructor
  · intro h
    suffices hchars : ∃ cs : List Char, cs.flatMap String.utf8EncodeChar = b by
      obtain ⟨cs, rfl⟩ := hchars
      exact ⟨String.ofList cs, utf8_ofList cs⟩
    induction h with
    | nil => exact ⟨[], rfl⟩
    | append hfirst _ ih =>
      obtain ⟨c, rfl⟩ := exists_char_of_sequence hfirst
      obtain ⟨cs, rfl⟩ := ih
      exact ⟨c :: cs, rfl⟩
  · rintro ⟨s, rfl⟩
    rw [← String.ofList_toList (s := s), utf8_ofList]
    exact wellFormed_flatMap s.toList

/-- What is read as text is just what is well-formed. -/
theorem wellFormed_iff_ofUtf8? {b : Bytes} : WellFormed b ↔ ∃ s, ofUtf8? b = some s := by
  rw [wellFormed_iff]
  constructor
  · rintro ⟨s, rfl⟩
    exact ⟨s, ofUtf8?_utf8 s⟩
  · rintro ⟨s, hs⟩
    exact ⟨s, utf8_of_ofUtf8? hs⟩

instance (b : Bytes) : Decidable (WellFormed b) :=
  decidable_of_iff ((ofUtf8? b).isSome = true)
    (Option.isSome_iff_exists.trans wellFormed_iff_ofUtf8?.symm)

-- Neither an overlong slash, the first surrogate, 110000 nor a cut character.
example : ∀ b ∈ [[0xc0, 0xaf], [0xed, 0xa0, 0x80], [0xf4, 0x90, 0x80, 0x80], [0xe2, 0x82]],
    ¬WellFormed b := by
  decide +kernel

end OctetStream.Utf8
