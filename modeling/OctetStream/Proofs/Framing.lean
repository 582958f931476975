import OctetStream.Proofs.Comparison
import OctetStream.WriteOp

/-! Transfers that succeed. From a readable state the octets ahead can be had one request after the
other, into a writable state octets can be put; each read takes exactly its own octets, whatever
stands behind them. -/

namespace OctetStream

namespace Medium

variable {σ α β : Type} [Medium σ]

/-- From `s`, reads have taken the next `n` octets in so many transfers and led to `t`. -/
structure Passed (ahead : σ → Bytes) (Ready : σ → Prop) (transfers n : Nat) (s t : σ) : Prop where
  ready : Ready t
  ahead_eq : ahead t = (ahead s).drop n
  order_eq : order t = order s
  limit_eq : payloadLimit t = payloadLimit s
  offset_eq : offset t = offset s + n
  counters_eq :
    (counters t).withoutShortReads = ((counters s).addReads transfers n).withoutShortReads

structure Put (written : σ → Bytes) (Ready : σ → Prop) (transfers : Nat) (b : Bytes) (s t : σ) :
    Prop where
  ready : Ready t
  written_eq : written t = written s ++ b
  order_eq : order t = order s
  counters_eq : counters t = (counters s).addWrites transfers b.length

namespace Passed

variable {ahead : σ → Bytes} {Ready : σ → Prop} {s t u : σ}

theorem refl (h : Ready s) : Passed ahead Ready 0 0 s s :=
  ⟨h, rfl, rfl, rfl, rfl, rfl⟩

theorem trans {j k m n : Nat} (hst : Passed ahead Ready j m s t)
    (htu : Passed ahead Ready k n t u) : Passed ahead Ready (j + k) (m + n) s u where
  ready := htu.ready
  ahead_eq := by rw [htu.ahead_eq, hst.ahead_eq, List.drop_drop]
  order_eq := htu.order_eq.trans hst.order_eq
  limit_eq := htu.limit_eq.trans hst.limit_eq
  offset_eq := by rw [htu.offset_eq, hst.offset_eq, Nat.add_assoc]
  counters_eq := by
    rw [htu.counters_eq, ← Counters.addReads_addReads]
    exact congrArg (Counters.addReads k n) hst.counters_eq

theorem ahead_append {k : Nat} {b rest : Bytes} (h : Passed ahead Ready k b.length s t)
    (hb : ahead s = b ++ rest) : ahead t = rest := by
  rw [h.ahead_eq, hb, List.drop_left]

end Passed

namespace Put

variable {written : σ → Bytes} {Ready : σ → Prop} {s t u : σ}

theorem refl (h : Ready s) : Put written Ready 0 [] s s :=
  ⟨h, (List.append_nil _).symm, rfl, rfl⟩

theorem trans {j k : Nat} {b c : Bytes} (hst : Put written Ready j b s t)
    (htu : Put written Ready k c t u) : Put written Ready (j + k) (b ++ c) s u where
  ready := htu.ready
  written_eq := by rw [htu.written_eq, hst.written_eq, List.append_assoc]
  order_eq := htu.order_eq.trans hst.order_eq
  counters_eq := by
    rw [htu.counters_eq, hst.counters_eq, Counters.addWrites_addWrites, List.length_append]

end Put

theorem textOf_eq_ok {x : Action σ Bytes} {s t : σ} {text : String}
    (h : (do let start ← currentOffset; ofExcept (textAt start (← x))) s = .ok text t) :
    x s = .ok (utf8 text) t := by
  have hbody : (x >>= fun got => ofExcept (textAt (offset s) got)) s = .ok text t := h
  obtain ⟨got, u, hx, htext⟩ := Action.eq_ok_of_bind hbody
  unfold textAt at htext
  cases hdecode : ofUtf8? got with
  | none =>
    rw [hdecode] at htext
    cases htext
  | some s =>
    rw [hdecode] at htext
    cases htext
    rw [utf8_of_ofUtf8? hdecode]
    exact hx

end Medium

open Medium

class Readable (σ : Type) [Medium σ] where
  ahead : σ → Bytes
  Ready : σ → Prop
  fetch_of_le : ∀ {n s}, Ready s → n ≤ (ahead s).length →
    ∃ t, fetch n s = .ok ((ahead s).take n) t ∧ Passed ahead Ready 1 n s t
  readBytes_of_le : ∀ {n s}, Ready s → n ≤ (ahead s).length → n ≤ Limits.maxAllocation →
    ∃ t, readBytes n s = .ok ((ahead s).take n) t ∧ Passed ahead Ready 1 n s t
  atomically_of_ok : ∀ {α : Type} {x : Action σ α} {s t a}, x s = .ok a t →
    Medium.atomically x s = .ok a t
  length_ahead_le : ∀ s, (ahead s).length ≤ supply s

class Writable (σ : Type) [Medium σ] where
  written : σ → Bytes
  Ready : σ → Prop
  send_of_ready : ∀ {s}, Ready s → ∀ b, ∃ t, send b s = .ok () t ∧ Put written Ready 1 b s t

namespace Readable

variable {σ α β : Type} [Medium σ] [Readable σ] {s : σ}

/-- From `s`, `x` takes the next `n` octets in so many transfers and answers `a`. -/
def Yields (x : Action σ α) (s : σ) (a : α) (transfers n : Nat) : Prop :=
  ∃ t, x s = .ok a t ∧ Passed ahead Ready transfers n s t

theorem yields_pure (hs : Ready s) (a : α) : Yields (pure a) s a 0 0 :=
  ⟨s, rfl, .refl hs⟩

theorem Yields.bind {x : Action σ α} {f : α → Action σ β} {a : α} {b : β} {j k m n p q : Nat}
    (hx : Yields x s a j m) (hf : ∀ t, Passed ahead Ready j m s t → Yields (f a) t b k n)
    (hp : j + k = p) (hq : m + n = q) : Yields (x >>= f) s b p q := by
  obtain ⟨t, hxs, hst⟩ := hx
  obtain ⟨u, hft, htu⟩ := hf t hst
  subst hp hq
  exact ⟨u, (Action.bind_of_ok hxs).trans hft, hst.trans htu⟩

theorem Yields.map {x : Action σ α} {a : α} {k n : Nat} (hx : Yields x s a k n) (g : α → β) :
    Yields (x >>= fun a => pure (g a)) s (g a) k n :=
  hx.bind (fun _ hst => yields_pure hst.ready _) rfl rfl

theorem Yields.atomically {x : Action σ α} {a : α} {k n : Nat} (hx : Yields x s a k n) :
    Yields (Medium.atomically x) s a k n := by
  obtain ⟨t, hxs, hst⟩ := hx
  exact ⟨t, atomically_of_ok hxs, hst⟩

variable {b rest : Bytes}

theorem yields_fetch (hs : Ready s) (h : ahead s = b ++ rest) :
    Yields (fetch b.length) s b 1 b.length := by
  have hle : b.length ≤ (ahead s).length := by
    rw [h, List.length_append]
    exact Nat.le_add_right ..
  have hread := fetch_of_le hs hle
  rw [h, List.take_left] at hread
  exact hread

theorem yields_readBytes (hs : Ready s) (h : ahead s = b ++ rest)
    (hb : b.length ≤ Limits.maxAllocation) : Yields (readBytes b.length) s b 1 b.length := by
  have hle : b.length ≤ (ahead s).length := by
    rw [h, List.length_append]
    exact Nat.le_add_right ..
  have hread := readBytes_of_le hs hle hb
  rw [h, List.take_left] at hread
  exact hread

theorem yields_permit (hs : Ready s) {n : Nat} (hn : ∀ max, payloadLimit s = some max → n ≤ max) :
    Yields (permit n) s () 0 0 := by
  refine ⟨s, ?_, .refl hs⟩
  unfold permit
  cases hmax : payloadLimit s with
  | none => rfl
  | some max => simp only [if_pos (hn max hmax)]

theorem yields_readWord (hs : Ready s) {t : Primitive} {order? : Option ByteOrder} {v : Word t}
    (h : ahead s = v.put (order?.getD (order s)) ++ rest) :
    Yields (readWord t order?) s v 1 (v.put (order?.getD (order s))).length := by
  have hfetch := yields_fetch hs h
  have hword := hfetch.map (Word.get t (order?.getD (order s)))
  rw [Word.get_put, Word.length_put] at hword
  rw [Word.length_put]
  exact hword

theorem Yields.of_eq {x y : Action σ α} {a : α} {k n : Nat} (hxy : x s = y s)
    (hy : Yields y s a k n) : Yields x s a k n := by
  obtain ⟨t, hys, hst⟩ := hy
  exact ⟨t, hxy.trans hys, hst⟩

theorem Yields.text {x : Action σ Bytes} {text : String} {k n : Nat}
    (hx : Yields x s (utf8 text) k n) :
    Yields (do let start ← currentOffset; ofExcept (textAt start (← x))) s text k n := by
  have hat : textAt (offset s) (utf8 text) = .ok text := by
    unfold textAt
    rw [ofUtf8?_utf8]
  have hbody : Yields (x >>= fun b => ofExcept (textAt (offset s) b)) s text k n := by
    refine hx.bind (fun t hst => ?_) (Nat.add_zero _) (Nat.add_zero _)
    rw [hat]
    exact yields_pure hst.ready text
  exact hbody

theorem yields_readOctet (hs : Ready s) {c : UInt8} (h : ahead s = c :: rest) :
    Yields readOctet s c 1 1 :=
  (yields_fetch (b := [c]) hs h).map fun b => b.headD Bytes.nul

theorem walk_collectUntilNul (limit : Option Nat) (fuel count : Nat) (acc : Bytes)
    {content : Bytes} (hs : Ready s) (hclean : Bytes.nul ∉ content) (h : ahead s = content ++ rest)
    (hlimit : ∀ max, limit = some max → count + content.length ≤ max) :
    ∃ t, Passed ahead Ready content.length content.length s t ∧
      collectUntilNul limit (fuel + content.length) count acc s =
        collectUntilNul limit fuel (count + content.length) (content.reverse ++ acc) t := by
  induction content generalizing s count acc with
  | nil => exact ⟨s, .refl hs, rfl⟩
  | cons c content ih =>
    obtain ⟨hc, hcontent⟩ := not_or.mp (mt List.mem_cons.mpr hclean)
    rw [List.length_cons] at hlimit ⊢
    obtain ⟨t, hread, hst⟩ := yields_readOctet hs h
    have hroom : ∀ max, limit = some max → count + 1 + content.length ≤ max := by
      intro max hmax
      have hcount := hlimit max hmax
      omega
    obtain ⟨u, htu, hrest⟩ := ih (count + 1) (c :: acc) hst.ready hcontent
      (hst.ahead_append (b := [c]) h) hroom
    have hstep : collectUntilNul limit (fuel + content.length + 1) count acc s =
        collectUntilNul limit (fuel + content.length) (count + 1) (c :: acc) t := by
      refine (Action.bind_of_ok hread).trans ?_
      rw [if_neg (Ne.symm hc)]
      cases limit with
      | none => rfl
      | some max =>
        have hcount := hlimit max rfl
        simp only [if_neg (show ¬max ≤ count by omega)]
    refine ⟨u, ?_, ?_⟩
    · rw [Nat.add_comm]
      exact hst.trans htu
    · rw [← Nat.add_assoc, hstep, hrest, List.reverse_cons, List.append_assoc, Nat.add_right_comm]
      rfl

theorem yields_collectUntilNul (limit : Option Nat) (fuel count : Nat) (acc : Bytes)
    {content : Bytes} (hs : Ready s) (hclean : Bytes.nul ∉ content)
    (h : ahead s = content ++ Bytes.nul :: rest) (hfuel : content.length ≤ fuel)
    (hlimit : ∀ max, limit = some max → count + content.length ≤ max) :
    Yields (collectUntilNul limit fuel count acc) s (acc.reverse ++ content)
      (content.length + 1) (content.length + 1) := by
  obtain ⟨left, rfl⟩ := Nat.exists_eq_add_of_le' hfuel
  obtain ⟨t, hst, hwalk⟩ := walk_collectUntilNul limit left count acc hs hclean h hlimit
  obtain ⟨u, hread, htu⟩ := yields_readOctet hst.ready (hst.ahead_append h)
  refine ⟨u, ?_, hst.trans htu⟩
  have hanswer : (content.reverse ++ acc).reverse = acc.reverse ++ content := by
    rw [List.reverse_append, List.reverse_reverse]
  rw [hwalk, ← hanswer]
  -- The NUL is read also when no fuel is left.
  cases left with
  | zero => exact Action.bind_of_ok hread
  | succ left =>
    refine (Action.bind_of_ok hread).trans ?_
    rw [if_pos rfl]
    rfl

theorem yields_readUntilNul {content : Bytes} (hs : Ready s) (hclean : Bytes.nul ∉ content)
    (h : ahead s = content ++ Bytes.nul :: rest)
    (hlimit : ∀ max, payloadLimit s = some max → content.length ≤ max) :
    Yields readUntilNul s content (content.length + 1) (content.length + 1) := by
  have hsupply := length_ahead_le s
  rw [h, List.length_append] at hsupply
  refine yields_collectUntilNul (payloadLimit s) (supply s) 0 [] hs hclean h (by omega) ?_
  intro max hmax
  rw [Nat.zero_add]
  exact hlimit max hmax

theorem yields_readUntilNul_of_mem (hs : Ready s) (hmem : Bytes.nul ∈ ahead s)
    (hlimit : ∀ max, payloadLimit s = some max → (ahead s).idxOf Bytes.nul ≤ max) :
    Yields readUntilNul s ((ahead s).take ((ahead s).idxOf Bytes.nul))
      ((ahead s).idxOf Bytes.nul + 1) ((ahead s).idxOf Bytes.nul + 1) := by
  have hlength := Bytes.length_untilNul hmem
  rcases Bytes.eq_untilNul_or (ahead s) with hclean | ⟨rest, hsplit⟩
  · exact absurd hmem (Bytes.untilNul_eq_self_iff.mp hclean)
  · have hread := yields_readUntilNul hs (Bytes.nul_not_mem_untilNul _) hsplit
      fun max hmax => Nat.le_trans (Nat.le_of_eq hlength) (hlimit max hmax)
    rw [hlength, Bytes.untilNul_eq_take] at hread
    exact hread

end Readable
end OctetStream
