import OctetStream.Proofs.Json.Grammar
import OctetStream.Proofs.Json.Strings

/-! The fields of a record: counts, and the member that stands under a key. What else a record
holds, and in which order, makes no difference to a field. -/

namespace OctetStream.Json

/-! ## Counts -/

inductive IsCount : Value → Nat → Prop
  | digits {text : List Char} (all : AllDigits text)
    (fits : Nat.ofDigitChars 10 text 0 ≤ Limits.maxCount) :
    IsCount (.number text) (Nat.ofDigitChars 10 text 0)

theorem IsCount.le {v : Value} {n : Nat} (h : IsCount v n) : n ≤ Limits.maxCount := by
  cases h with
  | digits all fits => exact fits

theorem count_number (text : List Char) :
    (Value.number text).count? =
      if text.all Char.isDigit then
        if Nat.ofDigitChars 10 text 0 ≤ Limits.maxCount then some (Nat.ofDigitChars 10 text 0)
        else none
      else none := rfl

theorem count_eq_some_iff {v : Value} {n : Nat} : v.count? = some n ↔ IsCount v n := by
  constructor
  · intro h
    cases v with
    | number text =>
      rw [count_number] at h
      split at h
      · rename_i hall
        split at h
        · rename_i hfits
          obtain rfl := Option.some.inj h
          exact .digits (List.all_eq_true.mp hall) hfits
        · cases h
      · cases h
    | _ => cases h
  · rintro ⟨all, fits⟩
    rw [count_number, if_pos (List.all_eq_true.mpr all), if_pos fits]

theorem allDigits_toString (n : Nat) : AllDigits (toString n).toList := by
  intro c hc
  rw [Nat.toString_eq_repr, Nat.toList_repr] at hc
  exact Nat.isDigit_of_mem_toDigits (by decide) (by decide) hc

theorem isCount_toString {n : Nat} (h : n ≤ Limits.maxCount) :
    IsCount (.number (toString n).toList) n := by
  have hvalue : Nat.ofDigitChars 10 (toString n).toList 0 = n := by
    rw [Nat.toString_eq_repr, Nat.toList_repr, Nat.ofDigitChars_ten_toDigits]
  have hcount := IsCount.digits (allDigits_toString n) (by rw [hvalue]; exact h)
  rwa [hvalue] at hcount

theorem toDigits_eq_cons {n : Nat} (h : 0 < n) :
    ∃ c cs, Nat.toDigits 10 n = c :: cs ∧ c ≠ '0' := by
  induction n using Nat.strongRecOn with
  | ind n ih =>
    rcases Nat.lt_or_ge n 10 with hlt | hge
    · refine ⟨n.digitChar, [], Nat.toDigits_of_lt_base hlt, fun hzero => ?_⟩
      exact Nat.ne_of_gt h (Nat.digitChar_eq_zero.mp hzero)
    · obtain ⟨c, cs, hdigits, hc⟩ := ih (n / 10) (by omega) (by omega)
      refine ⟨c, cs ++ [(n % 10).digitChar], ?_, hc⟩
      rw [Nat.toDigits_of_base_le (by decide) hge, hdigits, List.cons_append]

theorem whole_toString (n : Nat) : Whole (toString n).toList := by
  have hall := allDigits_toString n
  rcases Nat.eq_zero_or_pos n with rfl | hpos
  · exact .zero
  · obtain ⟨c, cs, hdigits, hc⟩ := toDigits_eq_cons hpos
    have htext : (toString n).toList = c :: cs := by
      rw [Nat.toString_eq_repr, Nat.toList_repr, hdigits]
    rw [htext] at hall ⊢
    exact .digits (hall c List.mem_cons_self) hc fun d hd => hall d (List.mem_cons_of_mem c hd)

theorem numeral_toString (n : Nat) : Numeral (toString n).toList := by
  have hnumeral := Numeral.unsigned (whole_toString n) .none .none
  rwa [List.append_nil, List.append_nil] at hnumeral

/-! ## Members -/

/-- The value that stands under a key: the key stands there once, or not at all. -/
inductive Stands (key : String) : List (String × Value) → Option Value → Prop
  | absent {members : List (String × Value)} (h : ∀ m ∈ members, m.1 ≠ key) :
    Stands key members none
  | once {front back : List (String × Value)} {v : Value} (hfront : ∀ m ∈ front, m.1 ≠ key)
    (hback : ∀ m ∈ back, m.1 ≠ key) : Stands key (front ++ (key, v) :: back) (some v)

variable {key : String} {members others : List (String × Value)} {v : Value}

theorem valuesOf_eq_nil_iff : valuesOf key members = [] ↔ Stands key members none := by
  have hnil : valuesOf key members = [] ↔ ∀ m ∈ members, m.1 ≠ key := by
    simp [valuesOf, List.filter_eq_nil_iff]
  rw [hnil]
  constructor
  · exact .absent
  · rintro ⟨h⟩
    exact h

theorem valuesOf_append (front back : List (String × Value)) :
    valuesOf key (front ++ back) = valuesOf key front ++ valuesOf key back := by
  rw [valuesOf, List.filter_append, List.map_append]
  rfl

theorem valuesOf_cons (v : Value) (back : List (String × Value)) :
    valuesOf key ((key, v) :: back) = v :: valuesOf key back := by
  rw [valuesOf, List.filter_cons_of_pos (by exact beq_self_eq_true key)]
  rfl

theorem valuesOf_eq_singleton_iff : valuesOf key members = [v] ↔ Stands key members (some v) := by
  constructor
  · intro h
    obtain ⟨⟨k, w⟩, hfilter, rfl⟩ := List.map_eq_singleton_iff.mp h
    obtain ⟨front, back, rfl, hfront, hkey, hback⟩ := List.filter_eq_cons_iff.mp hfilter
    obtain rfl : k = key := beq_iff_eq.mp hkey
    refine .once (fun m hm heq => hfront m hm (beq_iff_eq.mpr heq)) (fun m hm heq => ?_)
    exact List.filter_eq_nil_iff.mp hback m hm (beq_iff_eq.mpr heq)
  · intro h
    cases h with
    | once hfront hback =>
      rw [valuesOf_append, valuesOf_cons, valuesOf_eq_nil_iff.mpr (.absent hfront),
        valuesOf_eq_nil_iff.mpr (.absent hback)]
      rfl

theorem valuesOf_of_stands {found : Option Value} (h : Stands key members found) :
    valuesOf key members = found.toList := by
  cases found with
  | none => exact valuesOf_eq_nil_iff.mpr h
  | some v => exact valuesOf_eq_singleton_iff.mpr h

theorem Stands.eq_some_of_mem {found : Option Value} (h : Stands key members found)
    (hmem : (key, v) ∈ members) : found = some v := by
  have hv : v ∈ valuesOf key members :=
    List.mem_map.mpr ⟨(key, v), List.mem_filter.mpr ⟨hmem, beq_self_eq_true key⟩, rfl⟩
  rw [valuesOf_of_stands h, Option.mem_toList] at hv
  exact hv

def Repeats (key : String) (members : List (String × Value)) : Prop :=
  ∃ front v between w back, members = front ++ (key, v) :: (between ++ (key, w) :: back)

theorem Stands.not_repeats {found : Option Value} (h : Stands key members found) :
    ¬Repeats key members := by
  rintro ⟨front, v, between, w, back, rfl⟩
  have hlength := congrArg List.length (valuesOf_of_stands h)
  have hatMost : found.toList.length ≤ 1 := by
    cases found with
    | none => exact Nat.zero_le 1
    | some v => exact Nat.le_refl 1
  simp only [valuesOf_append, valuesOf_cons, List.length_append, List.length_cons] at hlength
  omega

variable {α : Type} {read : Value → Option α} {absent : Option α} {a : α}

theorem field_eq_some_iff :
    field? key read absent members = some a ↔
      (Stands key members none ∧ absent = some a) ∨
        ∃ v, Stands key members (some v) ∧ read v = some a := by
  simp only [← valuesOf_eq_nil_iff, ← valuesOf_eq_singleton_iff, field?]
  match valuesOf key members with
  | [] => simp
  | [v] => simp
  | v :: w :: vs => simp

theorem field_of_perm (h : (valuesOf key members).Perm (valuesOf key others)) :
    field? key read absent members = field? key read absent others := by
  unfold field?
  generalize valuesOf key members = vs at h
  generalize valuesOf key others = ws at h
  match vs with
  | [] => rw [← h.nil_eq]
  | [v] => rw [← h.singleton_eq]
  | v :: w :: vs =>
    match ws with
    | [] | [_] => cases h.length_eq
    | _ :: _ :: _ => rfl

end OctetStream.Json
