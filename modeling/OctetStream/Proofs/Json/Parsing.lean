import OctetStream.Proofs.Json.Scanning

/-! What the grammar derives is parsed. The open containers that a piece stands in are kept as they
are while it is read, so one induction on the derivation covers every nesting. -/

namespace OctetStream.Json

/-- What the parser makes of the tokens of a piece, wherever the piece may stand. -/
def Piece.Parses : Piece → List Token → Prop
  | value v, ts | item v, ts =>
    ∀ outer, ts.foldlM Parse.step (.value outer) = some (.complete v outer)
  | items vs, ts => ∀ acc outer, ts.foldlM Parse.step (.value (.array acc :: outer)) =
    some (.afterItem (vs.reverse ++ acc) outer)
  | member key v, ts => ∀ acc outer, ts.foldlM Parse.step (.nextKey acc outer) =
    some (.afterMember ((key, v) :: acc) outer)
  | members ms, ts => ∀ acc outer, ts.foldlM Parse.step (.nextKey acc outer) =
    some (.afterMember (ms.reverse ++ acc) outer)

section

variable {ts us : List Token} {p q : Parse} {outer : List Frame}

theorem foldlM_step_append (h : ts.foldlM Parse.step p = some q) :
    (ts ++ us).foldlM Parse.step p = us.foldlM Parse.step q := by
  rw [List.foldlM_append, h]
  rfl

theorem foldlM_firstItem {items : List Value}
    (h : ts.foldlM Parse.step (.value (.array [] :: outer)) = some (.afterItem items outer)) :
    ts.foldlM Parse.step (.firstItem outer) = some (.afterItem items outer) := by
  cases ts with
  | nil => cases h
  | cons t ts =>
    cases t with
    | closeArray => cases h
    | _ => exact h

theorem foldlM_firstKey {ms : List (List StringUnit × Value)}
    (h : ts.foldlM Parse.step (.nextKey [] outer) = some (.afterMember ms outer)) :
    ts.foldlM Parse.step (.firstKey outer) = some (.afterMember ms outer) := by
  cases ts with
  | nil => cases h
  | cons t ts =>
    cases t with
    | string key => exact h
    | _ => cases h

theorem parses_array {vs : List Value} (h : (Piece.items vs).Parses ts) :
    (Piece.value (.array vs)).Parses ([.openArray] ++ (ts ++ [.closeArray])) := by
  intro outer
  have hitems := foldlM_firstItem (h [] outer)
  calc ([Token.openArray] ++ (ts ++ [Token.closeArray])).foldlM Parse.step (.value outer)
      = (ts ++ [Token.closeArray]).foldlM Parse.step (.firstItem outer) := rfl
    _ = [Token.closeArray].foldlM Parse.step (.afterItem (vs.reverse ++ []) outer) :=
      foldlM_step_append hitems
    _ = some (.complete (.array (vs.reverse ++ []).reverse) outer) := rfl
    _ = some (.complete (.array vs) outer) := by rw [List.append_nil, List.reverse_reverse]

theorem parses_object {ms : List (List StringUnit × Value)} (h : (Piece.members ms).Parses ts) :
    (Piece.value (.object ms)).Parses ([.openObject] ++ (ts ++ [.closeObject])) := by
  intro outer
  have hmembers := foldlM_firstKey (h [] outer)
  calc ([Token.openObject] ++ (ts ++ [Token.closeObject])).foldlM Parse.step (.value outer)
      = (ts ++ [Token.closeObject]).foldlM Parse.step (.firstKey outer) := rfl
    _ = [Token.closeObject].foldlM Parse.step (.afterMember (ms.reverse ++ []) outer) :=
      foldlM_step_append hmembers
    _ = some (.complete (.object (ms.reverse ++ []).reverse) outer) := rfl
    _ = some (.complete (.object ms) outer) := by rw [List.append_nil, List.reverse_reverse]

theorem parses_moreItems {v : Value} {vs : List Value} (h : (Piece.item v).Parses ts)
    (hothers : (Piece.items vs).Parses us) :
    (Piece.items (v :: vs)).Parses ((ts ++ [.comma]) ++ us) := by
  intro acc outer
  have hfirst : (ts ++ [Token.comma]).foldlM Parse.step (.value (.array acc :: outer)) =
      some (.value (.array (v :: acc) :: outer)) := foldlM_step_append (h _)
  rw [foldlM_step_append hfirst, hothers, List.reverse_cons, List.append_assoc]
  rfl

theorem parses_member {v : Value} (key : List StringUnit) (h : (Piece.item v).Parses ts) :
    (Piece.member key v).Parses ([.string key] ++ ([.colon] ++ ts)) :=
  fun acc outer => h (.object acc key :: outer)

theorem parses_moreMembers {key : List StringUnit} {v : Value} {ms : List (List StringUnit × Value)}
    (h : (Piece.member key v).Parses ts) (hothers : (Piece.members ms).Parses us) :
    (Piece.members ((key, v) :: ms)).Parses ((ts ++ [.comma]) ++ us) := by
  intro acc outer
  have hfirst : (ts ++ [Token.comma]).foldlM Parse.step (.nextKey acc outer) =
      some (.nextKey ((key, v) :: acc) outer) := foldlM_step_append (h acc outer)
  rw [foldlM_step_append hfirst, hothers, List.reverse_cons, List.append_assoc]
  rfl

end

section

variable {ts us : List Token} {text others : List Char}

theorem Scans.enclose {opening closing : Char} {t u : Token} (h : Scans ts text)
    (ht : Token.ofPunctuation? opening = some t) (hu : Token.ofPunctuation? closing = some u) :
    Scans ([t] ++ (ts ++ [u])) (opening :: (text ++ [closing])) :=
  ((closes_punctuation ht).append (h.append_punctuation hu)).scans

theorem Scans.append_comma (h : Scans ts text) (hothers : Scans us others) :
    Scans ((ts ++ [.comma]) ++ us) (text ++ ',' :: others) := by
  rw [show text ++ ',' :: others = (text ++ [',']) ++ others by simp]
  exact (h.append_punctuation rfl).append_scans hothers

theorem scans_member {key : List StringUnit} {front name back : List Char} (hfront : Blanks front)
    (hname : SpellsUnits key name) (hback : Blanks back) (h : Scans ts text) :
    Scans ([.string key] ++ ([.colon] ++ ts))
      (front ++ '"' :: (name ++ '"' :: (back ++ ':' :: text))) := by
  have hcolon : Closes ([] ++ [.colon]) (back ++ [':']) :=
    (closes_blanks hback).scans.append_punctuation rfl
  have hbody := (closes_string hname).append_scans (hcolon.append_scans h)
  have hall := (closes_blanks hfront).append_scans hbody
  rw [show front ++ '"' :: (name ++ '"' :: (back ++ ':' :: text)) =
    front ++ ('"' :: (name ++ ['"']) ++ ((back ++ [':']) ++ text)) by simp]
  exact hall

end

theorem parses_of_spells {piece : Piece} {text : List Char} (h : Spells piece text) :
    ∃ ts, Scans ts text ∧ piece.Parses ts := by
  induction h with
  | null => exact ⟨[.null], scans_word (by decide) rfl rfl, fun _ => rfl⟩
  | bool b =>
    cases b with
    | false => exact ⟨[.bool false], scans_word (by decide) rfl rfl, fun _ => rfl⟩
    | true => exact ⟨[.bool true], scans_word (by decide) rfl rfl, fun _ => rfl⟩
  | @number text h =>
    exact ⟨[.number text],
      scans_word (ne_nil_of_numeral h) (List.all_eq_true.mpr (isWordChar_of_numeral h))
        (ofWord_of_numeral h), fun _ => rfl⟩
  | @string units text h => exact ⟨[.string units], (closes_string h).scans, fun _ => rfl⟩
  | emptyArray h =>
    exact ⟨_, (closes_blanks h).scans.enclose (t := .openArray) (u := .closeArray) rfl rfl,
      fun _ => rfl⟩
  | emptyObject h =>
    exact ⟨_, (closes_blanks h).scans.enclose (t := .openObject) (u := .closeObject) rfl rfl,
      fun _ => rfl⟩
  | array h ih =>
    obtain ⟨ts, hscans, hparses⟩ := ih
    exact ⟨_, hscans.enclose rfl rfl, parses_array hparses⟩
  | object h ih =>
    obtain ⟨ts, hscans, hparses⟩ := ih
    exact ⟨_, hscans.enclose rfl rfl, parses_object hparses⟩
  | item hfront h hback ih =>
    obtain ⟨ts, hscans, hparses⟩ := ih
    exact ⟨ts, (closes_blanks hfront).append_scans (hscans.append_blanks hback), hparses⟩
  | lastItem h ih =>
    obtain ⟨ts, hscans, hparses⟩ := ih
    exact ⟨ts, hscans, fun acc outer => hparses (.array acc :: outer)⟩
  | moreItems h hothers ih ihothers =>
    obtain ⟨ts, hscans, hparses⟩ := ih
    obtain ⟨us, hmore, hrest⟩ := ihothers
    exact ⟨_, hscans.append_comma hmore, parses_moreItems hparses hrest⟩
  | @member key v front name back text hfront hname hback h ih =>
    obtain ⟨ts, hscans, hparses⟩ := ih
    exact ⟨_, scans_member hfront hname hback hscans, parses_member key hparses⟩
  | lastMember h ih => exact ih
  | moreMembers h hothers ih ihothers =>
    obtain ⟨ts, hscans, hparses⟩ := ih
    obtain ⟨us, hmore, hrest⟩ := ihothers
    exact ⟨_, hscans.append_comma hmore, parses_moreMembers hparses hrest⟩

theorem parse_of_document {v : Value} {text : String} (h : Document v text) :
    Value.parse? text = some v := by
  obtain ⟨ts, hscans, hparses⟩ := parses_of_spells h
  obtain ⟨s, hs, hbehind⟩ := hscans []
  have htokens : tokens? text.toList = some ts := by
    have hstart : text.toList.foldlM Scan.step {} = some s := hs
    rw [tokens?, hstart]
    exact hbehind.finish.trans (by rw [List.append_nil, List.reverse_reverse])
  rw [Value.parse?, htokens]
  show Value.ofTokens? ts = some v
  rw [Value.ofTokens?, hparses []]
  rfl

theorem Document.unique {v w : Value} {text : String} (hv : Document v text)
    (hw : Document w text) : v = w :=
  Option.some.inj ((parse_of_document hv).symm.trans (parse_of_document hw))

end OctetStream.Json
