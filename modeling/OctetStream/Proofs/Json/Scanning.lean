import OctetStream.Proofs.Json.Grammar

/-! What the grammar spells is scanned to tokens. A word ends only where something follows that is
no part of a word, so behind a text the scanner may stand in a word that it has not ended; blanks
and punctuation end it. -/

namespace OctetStream.Json

/-! ## Words -/

theorem isWordChar_of_isDigit {c : Char} (h : c.isDigit = true) : isWordChar c = true := by
  simp [isWordChar, Char.isAlphanum, h]

theorem isBlank_of_isWordChar {c : Char} (h : isWordChar c = true) : isBlank c = false := by
  cases hblank : isBlank c with
  | false => rfl
  | true =>
    simp only [isBlank, Bool.or_eq_true, beq_iff_eq] at hblank
    rcases hblank with ((rfl | rfl) | rfl) | rfl <;> exact absurd h (by decide)

theorem isExponentDigits_of_allDigits {c : Char} {cs : List Char} (h : AllDigits (c :: cs)) :
    isExponentDigits (c :: cs) = true := by
  have hdigit := h c List.mem_cons_self
  unfold isExponentDigits
  split
  · rename_i hsign
    obtain ⟨rfl, -⟩ := List.cons.inj hsign
    exact absurd hdigit (by decide)
  · rename_i hsign
    obtain ⟨rfl, -⟩ := List.cons.inj hsign
    exact absurd hdigit (by decide)
  · rename_i hsame
    exact hsame ▸ List.all_eq_true.mpr h
  · rename_i hnil
    cases hnil

theorem isExponent_of_exponent {text : List Char} (h : Exponent text) : isExponent text = true := by
  cases h with
  | none => rfl
  | digits letter all =>
    have hdigits := isExponentDigits_of_allDigits all
    rcases letter with rfl | rfl <;> exact hdigits
  | signed letter plusMinus all =>
    have hdigits := List.all_eq_true.mpr all
    rcases letter with rfl | rfl <;> rcases plusMinus with rfl | rfl <;> exact hdigits

theorem Exponent.eq_nil_or {text : List Char} (h : Exponent text) :
    text = [] ∨ ∃ cs, text = 'e' :: cs ∨ text = 'E' :: cs := by
  cases h with
  | none => exact Or.inl rfl
  | digits letter all =>
    rcases letter with rfl | rfl
    · exact Or.inr ⟨_, Or.inl rfl⟩
    · exact Or.inr ⟨_, Or.inr rfl⟩
  | signed letter plusMinus all =>
    rcases letter with rfl | rfl
    · exact Or.inr ⟨_, Or.inl rfl⟩
    · exact Or.inr ⟨_, Or.inr rfl⟩

theorem dropWhile_isDigit_of_exponent {exponent : List Char} (h : Exponent exponent) :
    exponent.dropWhile Char.isDigit = exponent := by
  rcases h.eq_nil_or with rfl | ⟨cs, rfl | rfl⟩ <;> rfl

theorem dropWhile_isDigit_of_fraction {fraction exponent : List Char}
    (hfraction : Fraction fraction) (hexponent : Exponent exponent) :
    (fraction ++ exponent).dropWhile Char.isDigit = fraction ++ exponent := by
  cases hfraction with
  | none => exact dropWhile_isDigit_of_exponent hexponent
  | digits all => rfl

theorem isFraction_of_fraction {fraction exponent : List Char} (hfraction : Fraction fraction)
    (hexponent : Exponent exponent) : isFraction (fraction ++ exponent) = true := by
  have hexp := isExponent_of_exponent hexponent
  cases hfraction with
  | none => rcases hexponent.eq_nil_or with rfl | ⟨cs, rfl | rfl⟩ <;> exact hexp
  | @digits c cs all =>
    have hothers : AllDigits cs := fun d hd => all d (List.mem_cons_of_mem c hd)
    show (c.isDigit && isExponent ((cs ++ exponent).dropWhile Char.isDigit)) = true
    rw [List.dropWhile_append_of_pos hothers, dropWhile_isDigit_of_exponent hexponent, hexp,
      all c List.mem_cons_self]
    rfl

theorem isUnsigned_of_whole {whole fraction exponent : List Char} (hwhole : Whole whole)
    (hfraction : Fraction fraction) (hexponent : Exponent exponent) :
    isUnsigned (whole ++ (fraction ++ exponent)) = true := by
  have htail := isFraction_of_fraction hfraction hexponent
  cases hwhole with
  | zero => exact htail
  | @digits c cs first nonzero others =>
    rw [List.cons_append]
    unfold isUnsigned
    split
    · rename_i hzero
      exact absurd (List.cons.inj hzero).1 nonzero
    · rename_i hsame
      obtain ⟨rfl, rfl⟩ := List.cons.inj hsame
      rw [List.dropWhile_append_of_pos others, dropWhile_isDigit_of_fraction hfraction hexponent,
        first, htail]
      rfl
    · rename_i hnil
      cases hnil

theorem isNumber_of_numeral {text : List Char} (h : Numeral text) : isNumber text = true := by
  cases h with
  | negative hwhole hfraction hexponent => exact isUnsigned_of_whole hwhole hfraction hexponent
  | unsigned hwhole hfraction hexponent =>
    have hunsigned := isUnsigned_of_whole hwhole hfraction hexponent
    unfold isNumber
    split
    · rename_i hminus
      rw [hminus] at hunsigned
      exact absurd hunsigned Bool.false_ne_true
    · exact hunsigned

theorem isWordChar_of_allDigits {digits : List Char} (h : AllDigits digits) :
    ∀ c ∈ digits, isWordChar c = true :=
  fun c hc => isWordChar_of_isDigit (h c hc)

theorem isWordChar_of_whole {whole : List Char} (h : Whole whole) :
    ∀ c ∈ whole, isWordChar c = true := by
  cases h with
  | zero => exact List.all_eq_true.mp rfl
  | digits first nonzero others =>
    exact List.forall_mem_cons.mpr ⟨isWordChar_of_isDigit first, isWordChar_of_allDigits others⟩

theorem isWordChar_of_fraction {fraction : List Char} (h : Fraction fraction) :
    ∀ c ∈ fraction, isWordChar c = true := by
  cases h with
  | none => exact nofun
  | digits all => exact List.forall_mem_cons.mpr ⟨by decide, isWordChar_of_allDigits all⟩

theorem isWordChar_of_exponent {exponent : List Char} (h : Exponent exponent) :
    ∀ c ∈ exponent, isWordChar c = true := by
  cases h with
  | none => exact nofun
  | digits letter all =>
    refine List.forall_mem_cons.mpr ⟨?_, isWordChar_of_allDigits all⟩
    rcases letter with rfl | rfl <;> decide
  | signed letter plusMinus all =>
    refine List.forall_mem_cons.mpr ⟨?_, List.forall_mem_cons.mpr ⟨?_, isWordChar_of_allDigits all⟩⟩
    · rcases letter with rfl | rfl <;> decide
    · rcases plusMinus with rfl | rfl <;> decide

theorem isWordChar_of_numeral {text : List Char} (h : Numeral text) :
    ∀ c ∈ text, isWordChar c = true := by
  have hparts {whole fraction exponent : List Char} (hwhole : Whole whole)
      (hfraction : Fraction fraction) (hexponent : Exponent exponent) :
      ∀ c ∈ whole ++ (fraction ++ exponent), isWordChar c = true :=
    List.forall_mem_append.mpr ⟨isWordChar_of_whole hwhole, List.forall_mem_append.mpr
      ⟨isWordChar_of_fraction hfraction, isWordChar_of_exponent hexponent⟩⟩
  cases h with
  | unsigned hwhole hfraction hexponent => exact hparts hwhole hfraction hexponent
  | negative hwhole hfraction hexponent =>
    exact List.forall_mem_cons.mpr ⟨by decide, hparts hwhole hfraction hexponent⟩

theorem ofWord_of_numeral {text : List Char} (h : Numeral text) :
    Token.ofWord? text = some (.number text) := by
  have hnumber := isNumber_of_numeral h
  have hname {name : List Char} (hno : isNumber name = false) : text ≠ name := by
    rintro rfl
    exact absurd hnumber (hno ▸ Bool.false_ne_true)
  unfold Token.ofWord?
  rw [if_neg (hname rfl), if_neg (hname rfl), if_neg (hname rfl), if_pos hnumber]

theorem ne_nil_of_numeral {text : List Char} (h : Numeral text) : text ≠ [] := by
  rintro rfl
  exact absurd (isNumber_of_numeral h) Bool.false_ne_true

/-! ## The scanner -/

/-- What has been found, the latest first; the latest may be a word that has not ended. -/
inductive Behind : List Token → Scan → Prop
  | blank (found : List Token) : Behind found ⟨.blank, found⟩
  | word {t : Token} {found : List Token} {seen : List Char}
    (h : Token.ofWord? seen.reverse = some t) : Behind (t :: found) ⟨.word seen, found⟩

variable {found : List Token} {s : Scan}

theorem Behind.step (h : Behind found s) {c : Char} (hc : isWordChar c = false) :
    s.step c = Scan.start found c := by
  cases h with
  | blank => rfl
  | word h =>
    simp only [Scan.step, hc, Bool.false_eq_true, if_false, h]

theorem Behind.finish (h : Behind found s) : s.finish? = some found.reverse := by
  cases h with
  | blank => rfl
  | word h => simp only [Scan.finish?, h, Option.map_some]

def Scans (ts : List Token) (text : List Char) : Prop :=
  ∀ found, ∃ s, text.foldlM Scan.step ⟨.blank, found⟩ = some s ∧ Behind (ts.reverse ++ found) s

def Closes (ts : List Token) (text : List Char) : Prop :=
  ∀ found, text.foldlM Scan.step ⟨.blank, found⟩ = some ⟨.blank, ts.reverse ++ found⟩

variable {ts us : List Token} {front back : List Char}

theorem Closes.scans (h : Closes ts front) : Scans ts front :=
  fun found => ⟨_, h found, .blank _⟩

theorem Closes.append (hfront : Closes ts front) (hback : Closes us back) :
    Closes (ts ++ us) (front ++ back) := by
  intro found
  rw [List.foldlM_append, hfront found, List.reverse_append, List.append_assoc]
  exact hback _

theorem Closes.append_scans (hfront : Closes ts front) (hback : Scans us back) :
    Scans (ts ++ us) (front ++ back) := by
  intro found
  obtain ⟨s, hs, hbehind⟩ := hback (ts.reverse ++ found)
  refine ⟨s, ?_, ?_⟩
  · rw [List.foldlM_append, hfront found]
    exact hs
  · rw [List.reverse_append, List.append_assoc]
    exact hbehind

theorem start_of_blank {c : Char} (h : c = ' ' ∨ c = '\n' ∨ c = '\r' ∨ c = '\t') :
    isWordChar c = false ∧ ∀ found, Scan.start found c = some ⟨.blank, found⟩ := by
  rcases h with rfl | rfl | rfl | rfl <;> exact ⟨rfl, fun _ => rfl⟩

theorem closes_blanks {blanks : List Char} (h : Blanks blanks) : Closes [] blanks := by
  intro found
  induction blanks with
  | nil => rfl
  | cons c cs ih =>
    have hstart := (start_of_blank (h c List.mem_cons_self)).2 found
    rw [List.foldlM_cons, Scan.step, hstart]
    exact ih fun d hd => h d (List.mem_cons_of_mem c hd)

theorem Scans.append_blanks {blanks : List Char} (h : Scans ts front) (hblanks : Blanks blanks) :
    Scans ts (front ++ blanks) := by
  intro found
  obtain ⟨s, hs, hbehind⟩ := h found
  cases blanks with
  | nil =>
    rw [List.append_nil]
    exact ⟨s, hs, hbehind⟩
  | cons c cs =>
    obtain ⟨hc, hstart⟩ := start_of_blank (hblanks c List.mem_cons_self)
    have hothers := closes_blanks fun d hd => hblanks d (List.mem_cons_of_mem c hd)
    refine ⟨_, ?_, .blank _⟩
    rw [List.foldlM_append, hs, Option.bind_eq_bind, Option.bind_some, List.foldlM_cons,
      hbehind.step hc, hstart]
    exact hothers _

theorem start_of_punctuation {c : Char} {t : Token} (h : Token.ofPunctuation? c = some t) :
    isWordChar c = false ∧ ∀ found, Scan.start found c = some ⟨.blank, t :: found⟩ := by
  unfold Token.ofPunctuation? at h
  split at h <;> cases h <;> exact ⟨rfl, fun _ => rfl⟩

theorem Scans.append_punctuation {c : Char} {t : Token} (h : Scans ts front)
    (ht : Token.ofPunctuation? c = some t) : Closes (ts ++ [t]) (front ++ [c]) := by
  intro found
  obtain ⟨s, hs, hbehind⟩ := h found
  obtain ⟨hc, hstart⟩ := start_of_punctuation ht
  rw [List.foldlM_append, hs, Option.bind_eq_bind, Option.bind_some, List.foldlM_cons,
    hbehind.step hc, hstart, List.reverse_append]
  rfl

theorem closes_nil : Closes [] [] :=
  fun _ => rfl

theorem closes_punctuation {c : Char} {t : Token} (ht : Token.ofPunctuation? c = some t) :
    Closes [t] [c] :=
  closes_nil.scans.append_punctuation ht

theorem foldlM_word {word : List Char} (h : ∀ c ∈ word, isWordChar c = true) (seen : List Char) :
    word.foldlM Scan.step ⟨.word seen, found⟩ = some ⟨.word (word.reverse ++ seen), found⟩ := by
  induction word generalizing seen with
  | nil => rfl
  | cons c cs ih =>
    have hstep : Scan.step ⟨.word seen, found⟩ c = some ⟨.word (c :: seen), found⟩ :=
      if_pos (h c List.mem_cons_self)
    rw [List.foldlM_cons, hstep, List.reverse_cons, List.append_assoc]
    exact ih (fun d hd => h d (List.mem_cons_of_mem c hd)) (c :: seen)

theorem scans_word {word : List Char} {t : Token} (hne : word ≠ [])
    (hchars : word.all isWordChar = true) (ht : Token.ofWord? word = some t) : Scans [t] word := by
  intro found
  cases word with
  | nil => exact absurd rfl hne
  | cons c cs =>
    obtain ⟨hc, hcs⟩ := List.forall_mem_cons.mp (List.all_eq_true.mp hchars)
    have hquote : c ≠ '"' := by
      rintro rfl
      exact absurd hc (by decide)
    have hstart : Scan.step ⟨.blank, found⟩ c = some ⟨.word [c], found⟩ := by
      simp only [Scan.step, Scan.start, isBlank_of_isWordChar hc, Bool.false_eq_true, if_false,
        if_neg hquote, if_pos hc]
    refine ⟨⟨.word (cs.reverse ++ [c]), found⟩, ?_, .word ?_⟩
    · rw [List.foldlM_cons, hstart]
      exact foldlM_word hcs [c]
    · rw [List.reverse_append, List.reverse_reverse]
      exact ht

/-! ## Strings -/

theorem hexValue_of_hexDigit {c : Char} {n : Nat} (h : HexDigit c n) : hexValue? c = some n := by
  have hall : ∀ d : Fin 16, hexValue? d.val.digitChar = some d.val ∧
      hexValue? d.val.digitChar.toUpper = some d.val := by decide
  obtain ⟨hlt, rfl | rfl⟩ := h
  · exact (hall ⟨n, hlt⟩).1
  · exact (hall ⟨n, hlt⟩).2

theorem step_hex {c : Char} {n : Nat} (h : HexDigit c n) (seen : List StringUnit)
    (left value : Nat) :
    Scan.step ⟨.hex seen (left + 2) value, found⟩ c =
      some ⟨.hex seen (left + 1) (16 * value + n), found⟩ := by
  rw [Scan.step, hexValue_of_hexDigit h]
  rfl

theorem step_hex_last {c : Char} {n : Nat} (h : HexDigit c n) (seen : List StringUnit)
    (value : Nat) :
    Scan.step ⟨.hex seen 1 value, found⟩ c =
      some ⟨.string (.code (16 * value + n) :: seen), found⟩ := by
  rw [Scan.step, hexValue_of_hexDigit h]
  rfl

theorem escaped_of_mem {letter c : Char} (h : (letter, c) ∈ escapes) :
    letter ≠ 'u' ∧ escaped? letter = some c := by
  simp only [escapes, List.mem_cons, Prod.mk.injEq, List.not_mem_nil, or_false] at h
  rcases h with ⟨rfl, rfl⟩ | ⟨rfl, rfl⟩ | ⟨rfl, rfl⟩ | ⟨rfl, rfl⟩ | ⟨rfl, rfl⟩ | ⟨rfl, rfl⟩ |
    ⟨rfl, rfl⟩ | ⟨rfl, rfl⟩ <;> exact ⟨by decide, rfl⟩

theorem foldlM_unit {u : StringUnit} {text : List Char} (h : SpellsUnit u text)
    (seen : List StringUnit) :
    text.foldlM Scan.step ⟨.string seen, found⟩ = some ⟨.string (u :: seen), found⟩ := by
  cases h with
  | plain printable noQuote noBackslash =>
    have hcontrol := Char.not_lt.mpr printable
    simp only [List.foldlM_cons, List.foldlM_nil, Scan.step, if_neg noQuote, if_neg noBackslash,
      if_neg hcontrol]
    rfl
  | escape listed =>
    obtain ⟨hletter, hescaped⟩ := escaped_of_mem listed
    simp only [List.foldlM_cons, List.foldlM_nil, Scan.step, Option.bind_eq_bind,
      if_neg hletter, hescaped, Option.map_some]
    rfl
  | numeric h₁ h₂ h₃ h₄ =>
    have hopen : Scan.step ⟨.string seen, found⟩ '\\' = some ⟨.escape seen, found⟩ := rfl
    have hu : Scan.step ⟨.escape seen, found⟩ 'u' = some ⟨.hex seen 4 0, found⟩ := rfl
    simp only [List.foldlM_cons, List.foldlM_nil, Option.bind_eq_bind, hopen, hu, Option.bind_some,
      step_hex h₁, step_hex h₂, step_hex h₃, step_hex_last h₄, Nat.mul_zero, Nat.zero_add]
    rfl

theorem foldlM_units {units : List StringUnit} {text : List Char} (h : SpellsUnits units text)
    (seen : List StringUnit) :
    text.foldlM Scan.step ⟨.string seen, found⟩ =
      some ⟨.string (units.reverse ++ seen), found⟩ := by
  induction h generalizing seen with
  | nil => rfl
  | @cons u us text others hunit hothers ih =>
    rw [List.foldlM_append, foldlM_unit hunit, List.reverse_cons, List.append_assoc]
    exact ih (u :: seen)

theorem closes_string {units : List StringUnit} {text : List Char} (h : SpellsUnits units text) :
    Closes [.string units] ('"' :: (text ++ ['"'])) := by
  intro found
  have hopen : Scan.step ⟨.blank, found⟩ '"' = some ⟨.string [], found⟩ := rfl
  have hclose : Scan.step ⟨.string (units.reverse ++ []), found⟩ '"' =
      some ⟨.blank, .string units :: found⟩ := by
    rw [List.append_nil, Scan.step]
    simp only [if_true, List.reverse_reverse]
  rw [List.foldlM_cons, hopen, Option.bind_eq_bind, Option.bind_some, List.foldlM_append,
    foldlM_units h, Option.bind_eq_bind, Option.bind_some, List.foldlM_cons, hclose]
  rfl

end OctetStream.Json
