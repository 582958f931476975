import OctetStream.Proofs.Channel.Framing
import OctetStream.Proofs.Failures
import OctetStream.Proofs.Field

/-! The payload limit of a channel. A length that a field declares is held against the limit before
any octet of the payload is asked for; a search for a NUL, whose length nothing declares, is refused
at the first octet that the limit has no room for. So a refusal has cost the length field, one octet
more than the limit, or nothing, and no payload above the limit is ever given back. -/

namespace OctetStream

open Medium

namespace ReadOp

def payloadLength : (op : ReadOp) → op.Value → Nat
  | string .., text | terminated, text => (utf8 text).length
  | terminatedBytes, content => content.length
  | run t _ _, values => values.length * t.width
  | _, _ => 0

def refusedAfter (limit : Nat) : ReadOp → Nat
  | string field _ => field.width
  | terminated | terminatedBytes => limit + 1
  | _ => 0

end ReadOp

namespace Channel

def taken (c : Channel) : Bytes :=
  match c.source with
  | some source => source.taken
  | none => []

/-- Reads that succeeded have taken these octets from the source and led to `d`. -/
structure Drew (got : Bytes) (c d : Channel) : Prop where
  ahead_eq : c.ahead = got ++ d.ahead
  taken_eq : d.taken = c.taken ++ got
  consumed_eq : d.consumed = c.consumed + got.length
  limit_eq : d.limit = c.limit

variable {α β : Type} {c d : Channel} {len max n : Nat}

theorem Drew.refl (c : Channel) : Drew [] c c :=
  ⟨rfl, (List.append_nil _).symm, rfl, rfl⟩

theorem Drew.trans {u : Channel} {front back : Bytes} (hcu : Drew front c u) (hud : Drew back u d) :
    Drew (front ++ back) c d where
  ahead_eq := by rw [hcu.ahead_eq, hud.ahead_eq, List.append_assoc]
  taken_eq := by rw [hud.taken_eq, hcu.taken_eq, List.append_assoc]
  consumed_eq := by rw [hud.consumed_eq, hcu.consumed_eq, List.length_append, Nat.add_assoc]
  limit_eq := hud.limit_eq.trans hcu.limit_eq

theorem Drew.take_ahead {got : Bytes} (h : Drew got c d) (hlength : got.length = n) :
    c.ahead.take n = got := by
  rw [h.ahead_eq]
  exact List.take_left' hlength

theorem drew_of_demand {got : Bytes} (h : demand receive n c = .ok got d) :
    got.length = n ∧ Drew got c d := by
  have hreceived := received c n
  unfold demand at h
  generalize c.receive n = outcome at hreceived h
  cases hreceived with
  | noSource absent => cases h
  | part short got stop present fewer enough cursor_eq => cases h
  | @whole source after short present enough cursor_eq =>
    cases h
    have hlength := List.length_take_of_le enough
    have hbefore := ahead_of_source present
    refine ⟨hlength, ?_, ?_, ?_, rfl⟩
    · have hafter := ahead_of_cursor (c := c)
        { c with
          source := some after
          counters := (c.counters.addShortReads short).addRead n
          consumed := c.consumed + n } present rfl cursor_eq
      rw [hafter, hbefore, List.take_append_drop]
    · simp only [taken, present, Source.taken, cursor_eq, Cursor.passed_advance]
    · rw [hlength]

theorem drew_of_readWord {t : Primitive} {order? : Option ByteOrder} {v : Word t}
    (h : readWord t order? c = .ok v d) :
    ∃ got, got.length = t.width ∧ Drew got c d ∧ v = Word.get t (order?.getD c.order) got := by
  have hread : (fetch t.width >>= fun got => pure (Word.get t (order?.getD c.order) got)) c =
      .ok v d := h
  obtain ⟨got, hfetch, rfl⟩ := Action.eq_ok_of_map hread
  obtain ⟨hlength, hdrew⟩ := drew_of_demand hfetch
  exact ⟨got, hlength, hdrew, rfl⟩

theorem drew_of_readOctet {x : UInt8} (h : readOctet c = .ok x d) :
    ∃ got, got.length = 1 ∧ Drew got c d := by
  obtain ⟨got, hfetch, -⟩ := Action.eq_ok_of_map h
  exact ⟨got, drew_of_demand hfetch⟩

/-! ## Reads that no limit is held against -/

def Unlimited (x : Action Channel α) : Prop :=
  FailsWith (fun _ => True) (fun e => ∀ len max, e ≠ .lengthLimit len max) x

theorem Unlimited.ne {x : Action Channel α} (hx : Unlimited x) :
    x c ≠ .error (.lengthLimit len max) d :=
  fun h => (hx c trivial).failure_of_eq h len max rfl

theorem unlimited_textAt (start : Nat) (b : Bytes) : Unlimited (ofExcept (textAt start b)) :=
  failsWith_textAt nofun b

-- Every read is built from these, but for what asks for a permit.
theorem requestsFail_unlimited :
    RequestsFail (fun _ : Channel => True) (fun e => ∀ len max, e ≠ .lengthLimit len max) :=
  requestsFail (fun _ => nofun) nofun

/-! ## Payloads of a known length -/

theorem eq_lengthLimit_of_payload {f : Bytes → Action Channel α} (hf : ∀ got, Unlimited (f got))
    (h : (permit n >>= fun _ => readBytes n >>= f) c = .error (.lengthLimit len max) d) :
    len = n ∧ max = c.limit ∧ c.limit < n ∧ d = c := by
  rcases Nat.lt_or_ge c.limit n with hlt | hle
  · rw [Action.bind_of_error (permit_of_lt hlt)] at h
    cases h
    exact ⟨rfl, rfl, hlt, rfl⟩
  · rw [Action.bind_of_ok (permit_of_le hle)] at h
    exact absurd h (Unlimited.ne ((requestsFail_unlimited.readBytes n).bind hf))

theorem length_payload {got : Bytes}
    (h : (permit n >>= fun _ => readBytes n) c = .ok got d) : got.length = n ∧ n ≤ c.limit := by
  rcases Nat.lt_or_ge c.limit n with hlt | hle
  · rw [Action.bind_of_error (permit_of_lt hlt)] at h
    cases h
  · rw [Action.bind_of_ok (permit_of_le hle)] at h
    have hbytes : demandAllocated receive n c = .ok got d := h
    unfold demandAllocated at hbytes
    split at hbytes
    · cases hbytes
    · exact ⟨(drew_of_demand hbytes).1, hle⟩

section

variable {field : LengthField} {order? : Option ByteOrder} {text : String}

theorem eq_lengthLimit_of_readString
    (h : readString field order? c = .error (.lengthLimit len max) d) :
    (ReadOp.string field order?).declaredLength c.order c.ahead = some len ∧ max = c.limit ∧
      c.limit < len ∧ ∃ got, got.length = field.width ∧ Drew got c d := by
  have hparts : (readWord field.primitive order? >>= fun len => permit len.toNat >>= fun _ =>
      readBytes len.toNat >>= fun got => ofExcept (textAt c.consumed got)) c =
        .error (.lengthLimit len max) d := h
  rcases Action.eq_error_of_bind hparts with hword | ⟨v, u, hword, hpayload⟩
  · exact absurd hword (Unlimited.ne (requestsFail_unlimited.readWord _ _))
  · obtain ⟨got, hlength, hdrew, rfl⟩ := drew_of_readWord hword
    obtain ⟨rfl, rfl, hlt, rfl⟩ := eq_lengthLimit_of_payload (unlimited_textAt c.consumed) hpayload
    have hgot : c.ahead.take field.width = got := hdrew.take_ahead hlength
    have hpresent : field.width ≤ c.ahead.length := by
      rw [hdrew.ahead_eq, List.length_append, hlength]
      exact Nat.le_add_right ..
    rw [ReadOp.declaredLength, if_pos hpresent, hgot, ← hdrew.limit_eq]
    exact ⟨rfl, rfl, hlt, got, hlength, hdrew⟩

theorem readString_of_limit_lt (hc : c.SourceSteady)
    (hdeclared : (ReadOp.string field order?).declaredLength c.order c.ahead = some len)
    (h : c.limit < len) : ∃ d, readString field order? c = .error (.lengthLimit len c.limit) d := by
  rw [ReadOp.declaredLength] at hdeclared
  split at hdeclared
  · rename_i hpresent
    obtain rfl := Option.some.inj hdeclared
    obtain ⟨u, hread, hpassed⟩ := demand_of_le hc hpresent
    have hlimit : u.limit = c.limit := Option.some.inj hpassed.limit_eq
    have hword : readWord field.primitive order? c = .ok _ u := Action.bind_of_ok
      (f := fun got : Bytes => pure (Word.get field.primitive (order?.getD c.order) got)) hread
    have hrefused := permit_of_lt (c := u) (hlimit.symm ▸ h)
    rw [hlimit] at hrefused
    have hparts : (readWord field.primitive order? >>= fun len => permit len.toNat >>= fun _ =>
        readBytes len.toNat >>= fun got => ofExcept (textAt c.consumed got)) c = _ :=
      (Action.bind_of_ok hword).trans (Action.bind_of_error hrefused)
    exact ⟨u, hparts⟩
  · cases hdeclared

theorem length_readString_le (h : readString field order? c = .ok text d) :
    (utf8 text).length ≤ c.limit := by
  have hparts : (readWord field.primitive order? >>= fun len =>
      permit len.toNat >>= fun _ => readBytes len.toNat) c = .ok (utf8 text) d := by
    apply textOf_eq_ok
    simp only [bind_assoc]
    exact h
  obtain ⟨v, u, hword, hpayload⟩ := Action.eq_ok_of_bind hparts
  obtain ⟨got, -, hdrew, -⟩ := drew_of_readWord hword
  obtain ⟨hlength, hle⟩ := length_payload hpayload
  rw [hlength, ← hdrew.limit_eq]
  exact hle

end

section

variable {t : Primitive} {order? : Option ByteOrder}

theorem eq_lengthLimit_of_readRun (h : readRun t n order? c = .error (.lengthLimit len max) d) :
    d = c := by
  cases hlength : runLength t n with
  | error e =>
    rw [readRun_of_error hlength] at h
    cases h
    rfl
  | ok total =>
    rw [readRun_of_ok hlength] at h
    exact (eq_lengthLimit_of_payload (fun _ => failsWith_pure _) h).2.2.2

theorem readRun_of_limit_lt (hcount : n * t.width ≤ Limits.maxCount) (h : c.limit < n * t.width) :
    readRun t n order? c = .error (.lengthLimit (n * t.width) c.limit) c := by
  rw [readRun_of_ok (if_pos hcount)]
  exact Action.bind_of_error (permit_of_lt h)

theorem readRun_refused_iff (hcount : n * t.width ≤ Limits.maxCount) :
    (∃ d, readRun t n order? c = .error (.lengthLimit (n * t.width) c.limit) d) ↔
      c.limit < n * t.width := by
  refine ⟨?_, fun h => ⟨c, readRun_of_limit_lt hcount h⟩⟩
  rintro ⟨d, h⟩
  rw [readRun_of_ok (if_pos hcount)] at h
  exact (eq_lengthLimit_of_payload (fun _ => failsWith_pure _) h).2.2.1

theorem length_readRun_le {values : List (Word t)} (h : readRun t n order? c = .ok values d) :
    values.length * t.width ≤ c.limit := by
  cases hlength : runLength t n with
  | error e =>
    rw [readRun_of_error hlength] at h
    cases h
  | ok total =>
    rw [readRun_of_ok hlength, ← runLength_eq_ok hlength, ← bind_assoc] at h
    obtain ⟨got, hpayload, rfl⟩ := Action.eq_ok_of_map h
    obtain ⟨hgot, hle⟩ := length_payload hpayload
    rw [(Word.putAll_getAll _ hgot).2]
    exact hle

theorem eq_lengthLimit_of_readFixed {loop : ByteOrder → Bytes → List (Word t)}
    (h : readFixed n order? loop c = .error (.lengthLimit len max) d) : d = c := by
  cases hlength : runLength t n with
  | error e =>
    rw [readFixed_of_error hlength] at h
    cases h
    rfl
  | ok total =>
    rw [readFixed_of_ok hlength] at h
    have hbytes := requestsFail_unlimited.readBytes total
    exact absurd (Action.eq_error_of_map h) (Unlimited.ne hbytes)

end

/-! ## The search for a NUL -/

section

variable {limit fuel count : Nat} {acc content : Bytes}

-- The octets that were read make up the count; the one that the limit has no room for is read too.
theorem eq_lengthLimit_of_collectUntilNul
    (h : collectUntilNul (some limit) fuel count acc c = .error (.lengthLimit len max) d)
    (hcount : count ≤ limit) :
    ∃ got, count + got.length = limit + 1 ∧ Drew got c d ∧ len = limit + 1 ∧ max = limit := by
  induction fuel generalizing count acc c with
  | zero =>
    have hlast := requestsFail_unlimited.readOctet.bind fun _ => failsWith_pure acc.reverse
    exact absurd h (Unlimited.ne hlast)
  | succ fuel ih =>
    rcases Action.eq_error_of_bind h with hoctet | ⟨x, u, hoctet, hrest⟩
    · exact absurd hoctet (Unlimited.ne requestsFail_unlimited.readOctet)
    obtain ⟨octet, hone, hfirst⟩ := drew_of_readOctet hoctet
    by_cases hnul : x = Bytes.nul
    · rw [if_pos hnul] at hrest
      cases hrest
    · simp only [if_neg hnul] at hrest
      by_cases hfull : limit ≤ count
      · rw [if_pos hfull] at hrest
        cases hrest
        exact ⟨octet, by omega, hfirst, by omega, rfl⟩
      · rw [if_neg hfull] at hrest
        obtain ⟨got, hlength, hdrew, hanswer⟩ := ih hrest (by omega)
        refine ⟨octet ++ got, ?_, hfirst.trans hdrew, hanswer⟩
        rw [List.length_append]
        omega

theorem length_collectUntilNul_le
    (h : collectUntilNul (some limit) fuel count acc c = .ok content d)
    (hacc : acc.length = count) (hcount : count ≤ limit) : content.length ≤ limit := by
  have hfound : acc.reverse.length ≤ limit := by
    rw [List.length_reverse, hacc]
    exact hcount
  induction fuel generalizing count acc c with
  | zero =>
    obtain ⟨-, -, rfl⟩ := Action.eq_ok_of_map h
    exact hfound
  | succ fuel ih =>
    obtain ⟨x, u, -, hrest⟩ := Action.eq_ok_of_bind h
    by_cases hnul : x = Bytes.nul
    · rw [if_pos hnul] at hrest
      cases hrest
      exact hfound
    · simp only [if_neg hnul] at hrest
      by_cases hfull : limit ≤ count
      · rw [if_pos hfull] at hrest
        cases hrest
      · rw [if_neg hfull] at hrest
        have hlonger : (x :: acc).length = count + 1 := by rw [List.length_cons, hacc]
        refine ih hrest hlonger (by omega) ?_
        rw [List.length_reverse, hlonger]
        omega

end

theorem eq_lengthLimit_of_readUntilNul (h : readUntilNul c = .error (.lengthLimit len max) d) :
    ∃ got, got.length = c.limit + 1 ∧ Drew got c d := by
  have hcollect : collectUntilNul (some c.limit) c.supply 0 [] c =
      .error (.lengthLimit len max) d := h
  obtain ⟨got, hlength, hdrew, -⟩ := eq_lengthLimit_of_collectUntilNul hcollect (Nat.zero_le _)
  rw [Nat.zero_add] at hlength
  exact ⟨got, hlength, hdrew⟩

theorem length_readUntilNul_le {content : Bytes} (h : readUntilNul c = .ok content d) :
    content.length ≤ c.limit := by
  have hcollect : collectUntilNul (some c.limit) c.supply 0 [] c = .ok content d := h
  exact length_collectUntilNul_le hcollect rfl (Nat.zero_le _)

inductive Searched (c : Channel) : EStateM.Result StreamError Channel Bytes → Prop
  | found {after} (mem : Bytes.nul ∈ c.ahead) (room : c.ahead.idxOf Bytes.nul ≤ c.limit)
    (consumed_eq : after.consumed = c.consumed + (c.ahead.idxOf Bytes.nul + 1)) :
    Searched c (.ok (c.ahead.take (c.ahead.idxOf Bytes.nul)) after)
  | refused {after} (more : c.limit < c.ahead.length)
    (clean : Bytes.nul ∉ c.ahead.take (c.limit + 1))
    (consumed_eq : after.consumed = c.consumed + (c.limit + 1)) :
    Searched c (.error (.lengthLimit (c.limit + 1) c.limit) after)
  | dry {after} (text : String) (few : c.ahead.length ≤ c.limit) (clean : Bytes.nul ∉ c.ahead)
    (consumed_eq : after.consumed = c.consumed + c.ahead.length) :
    Searched c (.error (.sourceFailure text) after)

theorem searched_of_mem (hc : c.SourceSteady) (hmem : Bytes.nul ∈ c.ahead)
    (hroom : c.ahead.idxOf Bytes.nul ≤ c.limit) : Searched c (readUntilNul c) := by
  have hlimit : ∀ max, payloadLimit c = some max → c.ahead.idxOf Bytes.nul ≤ max := by
    intro max hmax
    obtain rfl := Option.some.inj hmax
    exact hroom
  obtain ⟨after, hread, hpassed⟩ := Readable.yields_readUntilNul_of_mem (s := c) hc hmem hlimit
  rw [hread]
  exact .found hmem hroom hpassed.offset_eq

theorem searched_of_clean (hc : c.SourceSteady) (hmore : c.limit < c.ahead.length)
    (hclean : Bytes.nul ∉ c.ahead.take (c.limit + 1)) : Searched c (readUntilNul c) := by
  have hsplit : c.ahead =
      c.ahead.take c.limit ++ c.ahead[c.limit] :: c.ahead.drop (c.limit + 1) := by
    rw [← List.drop_eq_getElem_cons hmore, List.take_append_drop]
  have hlength : (c.ahead.take c.limit).length = c.limit :=
    List.length_take_of_le (Nat.le_of_lt hmore)
  have hfront : Bytes.nul ∉ c.ahead.take c.limit := fun hmem =>
    hclean (List.take_subset_take_left _ (Nat.le_succ _) hmem)
  have hlast : c.ahead[c.limit] ≠ Bytes.nul := fun hnul =>
    hclean (List.mem_take_iff_getElem.mpr ⟨c.limit, by omega, hnul⟩)
  obtain ⟨fuel, hfuel⟩ := Nat.exists_eq_add_of_lt hmore
  obtain ⟨t, hpassed, hwalk⟩ := Readable.walk_collectUntilNul (some c.limit) (fuel + 1) 0 []
    (s := c) hc hfront hsplit (fun max hmax => by
      obtain rfl := Option.some.inj hmax
      exact Nat.le_of_eq ((Nat.zero_add _).trans hlength))
  obtain ⟨u, hoctet, hlastPassed⟩ :=
    Readable.yields_readOctet hpassed.ready (hpassed.ahead_append hsplit)
  have hconsumed : u.consumed = c.consumed + ((c.ahead.take c.limit).length + 1) :=
    (hpassed.trans hlastPassed).offset_eq
  rw [hlength] at hconsumed hwalk
  have hsupply : c.supply = fuel + 1 + c.limit := by
    rw [c.supply_eq]
    omega
  have hrefused : readUntilNul c = .error (.lengthLimit (c.limit + 1) c.limit) u := by
    show collectUntilNul (some c.limit) c.supply 0 [] c = _
    rw [hsupply, hwalk, Nat.zero_add]
    refine (Action.bind_of_ok hoctet).trans ?_
    simp only [if_neg hlast, Nat.le_refl, if_true]
    rfl
  rw [hrefused]
  exact .refused hmore hclean hconsumed

theorem searched_of_few (hc : c.SourceSteady) (hfew : c.ahead.length ≤ c.limit)
    (hclean : Bytes.nul ∉ c.ahead) : Searched c (readUntilNul c) := by
  have hall : c.ahead = c.ahead ++ [] := (List.append_nil _).symm
  obtain ⟨t, hpassed, hwalk⟩ := Readable.walk_collectUntilNul (some c.limit) 0 0 [] (s := c) hc
    hclean hall (fun max hmax => by
      obtain rfl := Option.some.inj hmax
      rw [Nat.zero_add]
      exact hfew)
  have hnone : t.ahead = [] := hpassed.ahead_append hall
  have hempty : t.ahead.length < 1 := by
    rw [hnone]
    exact Nat.one_pos
  obtain ⟨text, after, hcut, -, hconsumed⟩ := demand_of_lt hpassed.ready hempty
  have hoctet : readOctet t = .error (.sourceFailure text) after := Action.bind_of_error hcut
  have hdry : readUntilNul c = .error (.sourceFailure text) after := by
    show collectUntilNul (some c.limit) c.supply 0 [] c = _
    rw [c.supply_eq, ← Nat.zero_add c.ahead.length, hwalk]
    exact Action.bind_of_error hoctet
  rw [hdry]
  exact .dry text hfew hclean (hconsumed.trans hpassed.offset_eq)

theorem searched (hc : c.SourceSteady) : Searched c (readUntilNul c) := by
  rcases Nat.lt_or_ge c.limit c.ahead.length with hmore | hfew
  · by_cases hmem : Bytes.nul ∈ c.ahead.take (c.limit + 1)
    · obtain ⟨hahead, hplace⟩ := Bytes.nul_mem_take_iff.mp hmem
      exact searched_of_mem hc hahead (Nat.le_of_lt_succ hplace)
    · exact searched_of_clean hc hmore hmem
  · by_cases hmem : Bytes.nul ∈ c.ahead
    · have hplace := List.idxOf_lt_length_of_mem hmem
      exact searched_of_mem hc hmem (by omega)
    · exact searched_of_few hc hfew hmem

theorem Searched.outcome_iff {r : EStateM.Result StreamError Channel Bytes} (h : Searched c r) :
    let k := c.ahead.idxOf Bytes.nul
    let found := Bytes.nul ∈ c.ahead ∧ k ≤ c.limit
    let tooLong := c.limit < c.ahead.length ∧ Bytes.nul ∉ c.ahead.take (c.limit + 1)
    ((∃ after, r = .ok (c.ahead.take k) after ∧ after.consumed = c.consumed + (k + 1)) ↔ found) ∧
    ((∃ after, r = .error (.lengthLimit (c.limit + 1) c.limit) after ∧
      after.consumed = c.consumed + (c.limit + 1)) ↔ tooLong) ∧
    ((∃ text after, r = .error (.sourceFailure text) after ∧
      after.consumed = c.consumed + c.ahead.length) ↔ ¬found ∧ ¬tooLong) := by
  intro k found tooLong
  cases h with
  | found mem room consumed_eq =>
    have hplace : Bytes.nul ∈ c.ahead.take (c.limit + 1) :=
      Bytes.nul_mem_take_iff.mpr ⟨mem, Nat.lt_succ_of_le room⟩
    have hfound : found := ⟨mem, room⟩
    refine ⟨⟨fun _ => hfound, fun _ => ⟨_, rfl, consumed_eq⟩⟩, ⟨?_, fun h => absurd hplace h.2⟩,
      ⟨?_, fun h => absurd hfound h.1⟩⟩
    · rintro ⟨after, h, -⟩
      cases h
    · rintro ⟨text, after, h, -⟩
      cases h
  | refused more clean consumed_eq =>
    have hnotFound : ¬found := fun h =>
      clean (Bytes.nul_mem_take_iff.mpr ⟨h.1, Nat.lt_succ_of_le h.2⟩)
    have htooLong : tooLong := ⟨more, clean⟩
    refine ⟨⟨?_, fun h => absurd h hnotFound⟩, ⟨fun _ => htooLong, fun _ => ⟨_, rfl, consumed_eq⟩⟩,
      ⟨?_, fun h => absurd htooLong h.2⟩⟩
    · rintro ⟨after, h, -⟩
      cases h
    · rintro ⟨text, after, h, -⟩
      cases h
  | dry text few clean consumed_eq =>
    have hnotFound : ¬found := fun h => clean h.1
    have hnotTooLong : ¬tooLong := fun h => Nat.not_lt.mpr few h.1
    refine ⟨⟨?_, fun h => absurd h hnotFound⟩, ⟨?_, fun h => absurd h hnotTooLong⟩,
      ⟨fun _ => ⟨hnotFound, hnotTooLong⟩, fun _ => ⟨text, _, rfl, consumed_eq⟩⟩⟩
    · rintro ⟨after, h, -⟩
      cases h
    · rintro ⟨after, h, -⟩
      cases h

/-! ## All reads, on any source -/

theorem payloadLength_le {op : ReadOp} {v : op.Value} (h : op.perform c = .ok v d) :
    op.payloadLength v ≤ c.limit := by
  cases op with
  | string field order? => exact length_readString_le h
  | terminated => exact length_readUntilNul_le (textOf_eq_ok h)
  | terminatedBytes => exact length_readUntilNul_le h
  | run t n order? => exact length_readRun_le h
  | bytes n | into dest | word t order? | cstring width | cstringBytes width | array t n order?
  | fill t dest order? => exact Nat.zero_le _

theorem drew_of_refused {op : ReadOp} (h : op.perform c = .error (.lengthLimit len max) d) :
    ∃ got, got.length = op.refusedAfter c.limit ∧ Drew got c d := by
  cases op with
  | bytes n => exact absurd h (Unlimited.ne (requestsFail_unlimited.readBytes n))
  | into dest =>
    have hinto : slotsOf (readInto dest) c = .error (.lengthLimit len max) d := h
    rw [slotsOf_readInto] at hinto
    exact absurd (Action.eq_error_of_map hinto) (Unlimited.ne (requestsFail_unlimited.fetch _))
  | word t order? => exact absurd h (Unlimited.ne (requestsFail_unlimited.readWord t order?))
  | string field order? => exact (eq_lengthLimit_of_readString h).2.2.2
  | cstring width =>
    have htext := requestsFail_unlimited.textOf (requestsFail_unlimited.readCStringBytes width)
      (s := c) trivial nofun
    exact absurd rfl (htext.failure_of_eq h len max)
  | cstringBytes width =>
    exact absurd h (Unlimited.ne (requestsFail_unlimited.readCStringBytes width))
  | terminated =>
    rcases Action.eq_error_of_bind (f := fun got => ofExcept (textAt c.consumed got)) h with
      hsearch | ⟨content, u, -, htext⟩
    · exact eq_lengthLimit_of_readUntilNul hsearch
    · exact absurd htext (unlimited_textAt _ _).ne
  | terminatedBytes => exact eq_lengthLimit_of_readUntilNul h
  | array t n order? =>
    obtain rfl := eq_lengthLimit_of_readFixed h
    exact ⟨[], rfl, .refl d⟩
  | run t n order? =>
    obtain rfl := eq_lengthLimit_of_readRun h
    exact ⟨[], rfl, .refl d⟩
  | fill t dest order? =>
    have hfill : slotsOf (fillRun dest order?) c = .error (.lengthLimit len max) d := h
    rw [slotsOf_fillRun] at hfill
    obtain rfl := eq_lengthLimit_of_readFixed hfill
    exact ⟨[], rfl, .refl d⟩

/-- The payload limit of a channel, to the octet. From a steady source a text is refused if and only
if its declared length is above the limit, once that length is read; a search for a NUL finds one
that has at most as many octets before it as the limit allows, or is refused one octet behind the
limit, or finds the source empty; a run is refused if and only if its octets are above the limit,
and the channel is as before. Whatever the source does, no answer holds a payload above the limit,
and a read that is refused has taken the length field, one octet more than the limit, or nothing. -/
theorem payload_limit_is_exact (c : Channel) :
    let r := c.ahead
    let max := c.limit
    let k := r.idxOf Bytes.nul
    let found := Bytes.nul ∈ r ∧ k ≤ max
    let tooLong := max < r.length ∧ Bytes.nul ∉ r.take (max + 1)
    (c.SourceSteady →
      (∀ field order? declared,
        (ReadOp.string field order?).declaredLength c.order r = some declared →
        ((∃ after, readString field order? c = .error (.lengthLimit declared max) after) ↔
          max < declared) ∧
        ∀ len bound after, readString field order? c = .error (.lengthLimit len bound) after →
          len = declared ∧ bound = max ∧ after.consumed = c.consumed + field.width ∧
          after.taken = c.taken ++ r.take field.width) ∧
      ((∃ after, readTerminatedBytes c = .ok (r.take k) after ∧
        after.consumed = c.consumed + (k + 1)) ↔ found) ∧
      ((∃ after, readTerminatedBytes c = .error (.lengthLimit (max + 1) max) after ∧
        after.consumed = c.consumed + (max + 1)) ↔ tooLong) ∧
      ((∃ text after, readTerminatedBytes c = .error (.sourceFailure text) after ∧
        after.consumed = c.consumed + r.length) ↔ ¬found ∧ ¬tooLong) ∧
      ∀ t n order?, n * t.width ≤ Limits.maxCount →
        ((∃ after, readRun t n order? c = .error (.lengthLimit (n * t.width) max) after) ↔
          max < n * t.width) ∧
        (max < n * t.width →
          readRun t n order? c = .error (.lengthLimit (n * t.width) max) c)) ∧
    ∀ op : ReadOp,
      (∀ v after, op.perform c = .ok v after → op.payloadLength v ≤ max) ∧
      ∀ len bound after, op.perform c = .error (.lengthLimit len bound) after →
        after.consumed = c.consumed + op.refusedAfter max ∧
        ∃ got, got.length = op.refusedAfter max ∧ after.taken = c.taken ++ got := by
  intro r max k found tooLong
  constructor
  · intro hsteady
    have hsearched : Searched c (readTerminatedBytes c) := searched hsteady
    obtain ⟨hfound, hrefused, hdry⟩ := hsearched.outcome_iff
    refine ⟨fun field order? declared hdeclared => ⟨⟨?_, ?_⟩, ?_⟩, hfound, hrefused, hdry, ?_⟩
    · rintro ⟨after, h⟩
      exact (eq_lengthLimit_of_readString h).2.2.1
    · exact readString_of_limit_lt hsteady hdeclared
    · intro len bound after h
      obtain ⟨hlen, rfl, -, got, hlength, hdrew⟩ := eq_lengthLimit_of_readString h
      have hgot : r.take field.width = got := hdrew.take_ahead hlength
      rw [hgot, ← hlength]
      exact ⟨Option.some.inj (hlen.symm.trans hdeclared), rfl, hdrew.consumed_eq, hdrew.taken_eq⟩
    · exact fun t n order? hcount => ⟨readRun_refused_iff hcount, readRun_of_limit_lt hcount⟩
  · refine fun op => ⟨fun v after h => payloadLength_le h, fun len bound after h => ?_⟩
    obtain ⟨got, hlength, hdrew⟩ := drew_of_refused h
    rw [← hlength]
    exact ⟨hdrew.consumed_eq, got, rfl, hdrew.taken_eq⟩

theorem payload_limit_of_four :
    let c := reader (.ofBytes [5, 7, 7, 7, 7, 0] [.transfer 1, .fail .interrupt])
      { payloadLimit := 4 }
    (∃ after, readString .short (some .little) c = .error (.lengthLimit 1797 4) after) ∧
      ∃ after, readTerminatedBytes c = .error (.lengthLimit 5 4) after ∧ after.consumed = 5 := by
  intro c
  have hdelays : ∀ event ∈ [Event.transfer 1, .fail .interrupt], event.Delays := by decide
  have hsteady : c.SourceSteady := ⟨_, rfl, hdelays, rfl⟩
  obtain ⟨hstring, -, hrefused, -⟩ := (payload_limit_is_exact c).1 hsteady
  have hdeclared : (ReadOp.string .short (some .little)).declaredLength c.order c.ahead =
      some 1797 := by decide
  exact ⟨(hstring _ _ _ hdeclared).1.mpr (by decide), hrefused.mpr (by decide)⟩

end Channel
end OctetStream
