import OctetStream.Json.Value

/-! The grammar of JSON texts, without a scanner and without a parser: which characters spell a
number, a string and a value, and where blanks may stand. -/

namespace OctetStream.Json

def Blanks (text : List Char) : Prop :=
  ∀ c ∈ text, c = ' ' ∨ c = '\n' ∨ c = '\r' ∨ c = '\t'

/-! ## Numbers -/

def AllDigits (text : List Char) : Prop :=
  ∀ c ∈ text, c.isDigit = true

inductive Whole : List Char → Prop
  | zero : Whole ['0']
  | digits {c : Char} {cs : List Char} (first : c.isDigit = true) (nonzero : c ≠ '0')
    (others : AllDigits cs) : Whole (c :: cs)

inductive Fraction : List Char → Prop
  | none : Fraction []
  | digits {c : Char} {cs : List Char} (all : AllDigits (c :: cs)) : Fraction ('.' :: c :: cs)

inductive Exponent : List Char → Prop
  | none : Exponent []
  | digits {e c : Char} {cs : List Char} (letter : e = 'e' ∨ e = 'E') (all : AllDigits (c :: cs)) :
    Exponent (e :: c :: cs)
  | signed {e sign c : Char} {cs : List Char} (letter : e = 'e' ∨ e = 'E')
    (plusMinus : sign = '+' ∨ sign = '-') (all : AllDigits (c :: cs)) :
    Exponent (e :: sign :: c :: cs)

inductive Numeral : List Char → Prop
  | unsigned {whole fraction exponent : List Char} (hwhole : Whole whole)
    (hfraction : Fraction fraction) (hexponent : Exponent exponent) :
    Numeral (whole ++ (fraction ++ exponent))
  | negative {whole fraction exponent : List Char} (hwhole : Whole whole)
    (hfraction : Fraction fraction) (hexponent : Exponent exponent) :
    Numeral ('-' :: (whole ++ (fraction ++ exponent)))

/-! ## Strings -/

def escapes : List (Char × Char) :=
  [('"', '"'), ('\\', '\\'), ('/', '/'), ('b', '\x08'), ('f', '\x0c'), ('n', '\n'), ('r', '\r'),
    ('t', '\t')]

def HexDigit (c : Char) (n : Nat) : Prop :=
  n < 16 ∧ (c = n.digitChar ∨ c = n.digitChar.toUpper)

inductive SpellsUnit : StringUnit → List Char → Prop
  | plain {c : Char} (printable : ' ' ≤ c) (noQuote : c ≠ '"') (noBackslash : c ≠ '\\') :
    SpellsUnit (.char c) [c]
  | escape {letter c : Char} (listed : (letter, c) ∈ escapes) : SpellsUnit (.char c) ['\\', letter]
  | numeric {c₁ c₂ c₃ c₄ : Char} {n₁ n₂ n₃ n₄ : Nat} (h₁ : HexDigit c₁ n₁) (h₂ : HexDigit c₂ n₂)
    (h₃ : HexDigit c₃ n₃) (h₄ : HexDigit c₄ n₄) :
    SpellsUnit (.code (16 * (16 * (16 * n₁ + n₂) + n₃) + n₄)) ['\\', 'u', c₁, c₂, c₃, c₄]

inductive SpellsUnits : List StringUnit → List Char → Prop
  | nil : SpellsUnits [] []
  | cons {u : StringUnit} {us : List StringUnit} {text others : List Char}
    (hunit : SpellsUnit u text) (hothers : SpellsUnits us others) :
    SpellsUnits (u :: us) (text ++ others)

/-! ## Values -/

inductive Piece
  | value (v : Value)
  | item (v : Value)
  | items (vs : List Value)
  | member (key : List StringUnit) (v : Value)
  | members (ms : List (List StringUnit × Value))

inductive Spells : Piece → List Char → Prop
  | null : Spells (.value .null) "null".toList
  | bool (b : Bool) : Spells (.value (.bool b)) (toString b).toList
  | number {text : List Char} (h : Numeral text) : Spells (.value (.number text)) text
  | string {units : List StringUnit} {text : List Char} (h : SpellsUnits units text) :
    Spells (.value (.string units)) ('"' :: (text ++ ['"']))
  | emptyArray {blanks : List Char} (h : Blanks blanks) :
    Spells (.value (.array [])) ('[' :: (blanks ++ [']']))
  | array {vs : List Value} {text : List Char} (h : Spells (.items vs) text) :
    Spells (.value (.array vs)) ('[' :: (text ++ [']']))
  | emptyObject {blanks : List Char} (h : Blanks blanks) :
    Spells (.value (.object [])) ('\x7b' :: (blanks ++ ['\x7d']))
  | object {ms : List (List StringUnit × Value)} {text : List Char}
    (h : Spells (.members ms) text) :
    Spells (.value (.object ms)) ('\x7b' :: (text ++ ['\x7d']))
  | item {v : Value} {front text back : List Char} (hfront : Blanks front)
    (h : Spells (.value v) text) (hback : Blanks back) : Spells (.item v) (front ++ (text ++ back))
  | lastItem {v : Value} {text : List Char} (h : Spells (.item v) text) : Spells (.items [v]) text
  | moreItems {v : Value} {vs : List Value} {text others : List Char} (h : Spells (.item v) text)
    (hothers : Spells (.items vs) others) : Spells (.items (v :: vs)) (text ++ ',' :: others)
  | member {key : List StringUnit} {v : Value} {front name back text : List Char}
    (hfront : Blanks front) (hname : SpellsUnits key name) (hback : Blanks back)
    (h : Spells (.item v) text) :
    Spells (.member key v) (front ++ '"' :: (name ++ '"' :: (back ++ ':' :: text)))
  | lastMember {key : List StringUnit} {v : Value} {text : List Char}
    (h : Spells (.member key v) text) : Spells (.members [(key, v)]) text
  | moreMembers {key : List StringUnit} {v : Value} {ms : List (List StringUnit × Value)}
    {text others : List Char} (h : Spells (.member key v) text)
    (hothers : Spells (.members ms) others) :
    Spells (.members ((key, v) :: ms)) (text ++ ',' :: others)

def Document (v : Value) (text : String) : Prop :=
  Spells (.item v) text.toList

theorem Document.of_chars {v : Value} {text : String} {chars : List Char}
    (h : Spells (.item v) chars) (htext : text.toList = chars) : Document v text := by
  rw [Document, htext]
  exact h

/-! ## Texts without blanks and escapes -/

def isPlain (c : Char) : Bool :=
  ' ' ≤ c && c != '"' && c != '\\'

theorem spellsUnits_chars {cs : List Char} (h : cs.all isPlain = true) :
    SpellsUnits (cs.map .char) cs := by
  induction cs with
  | nil => exact .nil
  | cons c cs ih =>
    rw [List.all_cons, Bool.and_eq_true] at h
    obtain ⟨hplain, hothers⟩ := h
    simp only [isPlain, Bool.and_eq_true, decide_eq_true_eq, bne_iff_ne] at hplain
    obtain ⟨⟨printable, noQuote⟩, noBackslash⟩ := hplain
    exact .cons (.plain printable noQuote noBackslash) (ih hothers)

theorem Spells.bare {v : Value} {text : List Char} (h : Spells (.value v) text) :
    Spells (.item v) text := by
  have hitem := @Spells.item v [] text [] nofun h nofun
  rwa [List.append_nil] at hitem

theorem Spells.bareMember {key text : List Char} {v : Value}
    (hkey : key.all isPlain = true) (h : Spells (.item v) text) :
    Spells (.member (key.map .char) v) ('"' :: (key ++ '"' :: ':' :: text)) :=
  @Spells.member _ _ [] _ [] _ nofun (spellsUnits_chars hkey) nofun h

end OctetStream.Json
