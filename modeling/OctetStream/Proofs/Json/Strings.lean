import OctetStream.Json.Value

/-! Strings as text. The units of a string stand for characters: one each, but two escapes for the
halves of a surrogate pair. Half a pair stands for nothing. -/

namespace OctetStream.Json

def Surrogate (n : Nat) : Prop :=
  0xd800 ≤ n ∧ n ≤ 0xdfff

inductive Denotes : List StringUnit → List Char → Prop
  | nil : Denotes [] []
  | char (c : Char) {us : List StringUnit} {cs : List Char} (h : Denotes us cs) :
    Denotes (.char c :: us) (c :: cs)
  | code {n : Nat} {us : List StringUnit} {cs : List Char} (whole : ¬Surrogate n)
    (h : Denotes us cs) : Denotes (.code n :: us) (Char.ofNat n :: cs)
  | pair {hi lo : Nat} {us : List StringUnit} {cs : List Char} (high : 0xd800 ≤ hi ∧ hi ≤ 0xdbff)
    (low : 0xdc00 ≤ lo ∧ lo ≤ 0xdfff) (h : Denotes us cs) :
    Denotes (.code hi :: .code lo :: us)
      (Char.ofNat (0x10000 + (hi - 0xd800) * 0x400 + (lo - 0xdc00)) :: cs)

variable {units : List StringUnit} {acc cs : List Char} {n : Nat}

theorem isHighSurrogate_iff : isHighSurrogate n = true ↔ 0xd800 ≤ n ∧ n ≤ 0xdbff := by
  simp [isHighSurrogate]

theorem isLowSurrogate_iff : isLowSurrogate n = true ↔ 0xdc00 ≤ n ∧ n ≤ 0xdfff := by
  simp [isLowSurrogate]

theorem not_surrogate_iff :
    ¬Surrogate n ↔ ¬isHighSurrogate n = true ∧ ¬isLowSurrogate n = true := by
  rw [isHighSurrogate_iff, isLowSurrogate_iff, Surrogate]
  omega

theorem joinUnits_code (h : ¬Surrogate n) (us : List StringUnit) :
    joinUnits acc (.code n :: us) = joinUnits (Char.ofNat n :: acc) us := by
  obtain ⟨hhigh, hlow⟩ := not_surrogate_iff.mp h
  match us with
  | [] => simp [joinUnits, hhigh, hlow]
  | .char c :: us => simp [joinUnits, hhigh, hlow]
  | .code lo :: us => rw [joinUnits, if_neg hhigh, if_neg hlow]

theorem joinUnits_pair {hi lo : Nat} (high : 0xd800 ≤ hi ∧ hi ≤ 0xdbff)
    (low : 0xdc00 ≤ lo ∧ lo ≤ 0xdfff) (us : List StringUnit) :
    joinUnits acc (.code hi :: .code lo :: us) =
      joinUnits (Char.ofNat (0x10000 + (hi - 0xd800) * 0x400 + (lo - 0xdc00)) :: acc) us := by
  rw [joinUnits, if_pos (isHighSurrogate_iff.mpr high), if_pos (isLowSurrogate_iff.mpr low)]

theorem reverse_cons_append (c : Char) (acc tail : List Char) :
    (c :: acc).reverse ++ tail = acc.reverse ++ c :: tail := by
  rw [List.reverse_cons, List.append_assoc, List.singleton_append]

theorem joinUnits_of_denotes (h : Denotes units cs) (acc : List Char) :
    joinUnits acc units = some (acc.reverse ++ cs) := by
  induction h generalizing acc with
  | nil => rw [joinUnits, List.append_nil]
  | char c h ih => rw [joinUnits, ih, reverse_cons_append]
  | code whole h ih => rw [joinUnits_code whole, ih, reverse_cons_append]
  | pair high low h ih => rw [joinUnits_pair high low, ih, reverse_cons_append]

theorem denotes_of_joinUnits (h : joinUnits acc units = some cs) :
    ∃ tail, Denotes units tail ∧ cs = acc.reverse ++ tail := by
  fun_induction joinUnits acc units with
  | case1 acc =>
    cases h
    exact ⟨[], .nil, (List.append_nil _).symm⟩
  | case2 acc c rest ih =>
    obtain ⟨tail, hrest, rfl⟩ := ih h
    exact ⟨c :: tail, .char c hrest, reverse_cons_append c acc tail⟩
  | case3 acc hi lo rest high low ih =>
    obtain ⟨tail, hrest, rfl⟩ := ih h
    exact ⟨_, .pair (isHighSurrogate_iff.mp high) (isLowSurrogate_iff.mp low) hrest,
      reverse_cons_append _ acc tail⟩
  | case4 => cases h
  | case5 => cases h
  | case6 acc hi lo rest notHigh notLow ih =>
    obtain ⟨tail, hrest, rfl⟩ := ih h
    exact ⟨_, .code (not_surrogate_iff.mpr ⟨notHigh, notLow⟩) hrest, reverse_cons_append _ acc tail⟩
  | case7 => cases h
  | case8 acc n rest _ whole ih =>
    obtain ⟨tail, hrest, rfl⟩ := ih h
    rw [Bool.or_eq_true, not_or] at whole
    exact ⟨_, .code (not_surrogate_iff.mpr whole) hrest, reverse_cons_append _ acc tail⟩

theorem text_eq_some_iff {s : String} : text? units = some s ↔ Denotes units s.toList := by
  rw [text?, Option.map_eq_some_iff]
  constructor
  · rintro ⟨cs, hjoin, rfl⟩
    obtain ⟨tail, hdenotes, rfl⟩ := denotes_of_joinUnits hjoin
    rw [String.toList_ofList]
    exact hdenotes
  · intro hdenotes
    exact ⟨s.toList, joinUnits_of_denotes hdenotes [], String.ofList_toList⟩

theorem denotes_chars (cs : List Char) : Denotes (cs.map .char) cs := by
  induction cs with
  | nil => exact .nil
  | cons c cs ih => exact .char c ih

/-! ## Keys -/

inductive Named : List (List StringUnit × Value) → List (String × Value) → Prop
  | nil : Named [] []
  | cons {units : List StringUnit} {key : String} {raw : List (List StringUnit × Value)}
    {members : List (String × Value)} (v : Value) (hkey : Denotes units key.toList)
    (h : Named raw members) : Named ((units, v) :: raw) ((key, v) :: members)

variable {raw : List (List StringUnit × Value)} {members : List (String × Value)}

theorem textKeys_cons (v : Value) (raw : List (List StringUnit × Value)) :
    textKeys? ((units, v) :: raw) = (text? units).bind fun key =>
      (textKeys? raw).map ((key, v) :: ·) := by
  rw [textKeys?, List.mapM_cons]
  show ((text? units).map (·, v)).bind
    (fun m => (textKeys? raw).bind fun others => some (m :: others)) = _
  cases text? units <;> cases textKeys? raw <;> rfl

theorem textKeys_eq_some_iff : textKeys? raw = some members ↔ Named raw members := by
  constructor
  · intro h
    induction raw generalizing members with
    | nil =>
      cases h
      exact .nil
    | cons m raw ih =>
      obtain ⟨units, v⟩ := m
      rw [textKeys_cons, Option.bind_eq_some_iff] at h
      obtain ⟨key, hkey, hothers⟩ := h
      rw [Option.map_eq_some_iff] at hothers
      obtain ⟨others, hothers, rfl⟩ := hothers
      exact .cons v (text_eq_some_iff.mp hkey) (ih hothers)
  · intro h
    induction h with
    | nil => rfl
    | cons v hkey h ih => rw [textKeys_cons, text_eq_some_iff.mpr hkey, ih]; rfl

theorem textKeys_eq_none {units : List StringUnit} {v : Value} (hmem : (units, v) ∈ raw)
    (hkey : ∀ cs, ¬Denotes units cs) : textKeys? raw = none := by
  induction raw with
  | nil => cases hmem
  | cons m raw ih =>
    rw [show m = (m.1, m.2) from rfl, textKeys_cons]
    rcases List.mem_cons.mp hmem with rfl | hothers
    · have hnone : text? units = none :=
        Option.eq_none_iff_forall_ne_some.mpr fun s hs => hkey _ (text_eq_some_iff.mp hs)
      rw [hnone]
      rfl
    · rw [ih hothers]
      cases text? m.1 <;> rfl

end OctetStream.Json
