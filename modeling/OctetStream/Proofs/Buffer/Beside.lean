import OctetStream.Buffer
import OctetStream.Proofs.Comparison

/-! Two buffers side by side. They agree on every read where they agree on single requests for
octets and the second has at least the octets that the first has left: only the search for a NUL
asks how many there are, and no answer depends on it. -/

namespace OctetStream.Buffer

open Medium

section

variable {α : Type} {x y : Action Buffer α} {b c : Buffer}

theorem results_atomically {C : Comparison Buffer Buffer}
    (hrewind : ∀ e f b' c', C.failures e b' f c' → C.failures e (b.rewound e b') f (c.rewound f c'))
    (hxy : C.Results (x b) (y c)) : C.Results (atomically x b) (atomically y c) := by
  cases hx : x b with
  | ok a b' =>
    obtain ⟨c', hy, hstates⟩ := hxy.of_ok hx
    rw [atomically_of_ok hx, atomically_of_ok hy]
    exact ⟨rfl, hstates⟩
  | error e b' =>
    rw [atomically_of_error hx]
    cases hy : y c with
    | ok a' c' =>
      rw [hx, hy] at hxy
      exact Comparison.results_of_waives hxy _
    | error f c' =>
      rw [atomically_of_error hy]
      rw [hx, hy] at hxy
      exact hxy.imp id (hrewind e f b' c')

end

theorem demand_eq_ok {n : Nat} {b after : Buffer} {got : Bytes}
    (h : demand receive n b = .ok got after) :
    n ≤ b.remaining ∧ got = b.unread.take n ∧ after = b.advance n := by
  rcases Nat.lt_or_ge b.remaining n with hlt | hle
  · rw [demand_of_lt hlt] at h
    cases h
  · rw [demand_of_le hle] at h
    cases h
    exact ⟨hle, rfl, rfl⟩

theorem readBytes_eq_advance {n : Nat} {b after : Buffer} {got : Bytes}
    (h : readBytes n b = .ok got after) :
    n ≤ b.remaining ∧ got = b.unread.take n ∧ after = b.advance n := by
  rw [readBytes_eq_demand] at h
  exact demand_eq_ok h

theorem readOctet_ok {b after : Buffer} {c : UInt8} (h : readOctet b = .ok c after) :
    b.remaining = after.remaining + 1 := by
  obtain ⟨got, hfetch, -⟩ := Action.eq_ok_of_map h
  obtain ⟨hle, -, rfl⟩ := demand_eq_ok hfetch
  rw [remaining_advance]
  omega

theorem collectUntilNul_congr (limit : Option Nat) {m n : Nat} (count : Nat) (acc : Bytes)
    {b : Buffer} (hm : b.remaining ≤ m) (hn : b.remaining ≤ n) :
    collectUntilNul limit m count acc b = collectUntilNul limit n count acc b := by
  induction m generalizing n count acc b with
  | zero =>
    cases n with
    | zero => rfl
    | succ n =>
      cases hread : readOctet b with
      | ok c after =>
        have hleft := readOctet_ok hread
        omega
      | error e after => exact (Action.bind_of_error hread).trans (Action.bind_of_error hread).symm
  | succ m ih =>
    cases hread : readOctet b with
    | error e after =>
      have hfails (k : Nat) : collectUntilNul limit k count acc b = .error e after := by
        cases k <;> exact Action.bind_of_error hread
      rw [hfails, hfails]
    | ok c after =>
      have hleft := readOctet_ok hread
      -- There was an octet to read, so the other search has fuel for it as well.
      obtain ⟨n, rfl⟩ : ∃ k, n = k + 1 := ⟨n - 1, by omega⟩
      have hrest : collectUntilNul limit m (count + 1) (c :: acc) after =
          collectUntilNul limit n (count + 1) (c :: acc) after := by
        apply ih
        · omega
        · omega
      refine (Action.bind_of_ok hread).trans (.trans ?_ (Action.bind_of_ok hread).symm)
      by_cases hc : c = Bytes.nul
      · simp only [if_pos hc]
      · simp only [if_neg hc]
        cases limit with
        | none => exact hrest
        | some max =>
          by_cases hmax : max ≤ count
          · simp only [if_pos hmax]
          · simp only [if_neg hmax]
            exact hrest

theorem related_readBytes {C : Comparison Buffer Buffer} {n : Nat}
    (h : C.Related (demand receive n) (demand receive n)) :
    C.Related (readBytes n) (readBytes n) := by
  rw [readBytes_eq_demand]
  exact h

theorem agrees_of_demand {C : Comparison Buffer Buffer}
    (horder : ∀ {b c}, C.states b c → b.order = c.order)
    (hleft : ∀ {b c}, C.states b c → b.remaining ≤ c.remaining)
    (hdemand : ∀ n, C.Related (demand receive n) (demand receive n))
    (hrewound : ∀ {e f b c b' c'}, C.states b c → C.failures e b' f c' →
      C.failures e (b.rewound e b') f (c.rewound f c'))
    (hutf8 : ∀ {b c b' c'}, C.states b c → C.states b' c' →
      C.failures (.invalidUtf8 b.position) b' (.invalidUtf8 c.position) c')
    (hlimit : ∀ {b c} (len max : Nat), C.states b c →
      C.failures (.lengthLimit len max) b (.lengthLimit len max) c) : C.Agrees where
  order := horder
  fetch := hdemand
  readBytes n := related_readBytes (hdemand n)
  payload n :=
    Comparison.Related.bind (fun _ _ h => ⟨rfl, h⟩) fun _ => related_readBytes (hdemand n)
  untilNul b c h := by
    show C.Results (collectUntilNul none b.remaining 0 [] b)
      (collectUntilNul none c.remaining 0 [] c)
    rw [collectUntilNul_congr none 0 [] (Nat.le_refl _) (hleft h)]
    exact Comparison.related_collectUntilNul (hdemand 1) (fun len max _ _ h => hlimit len max h)
      none _ 0 [] b c h
  atomically h := results_atomically fun _ _ _ _ => hrewound h
  invalidUtf8 := hutf8
  lengthLimit := hlimit

def holding (C : Comparison Buffer Buffer) (data data' : Bytes) : Comparison Buffer Buffer where
  states b c := C.states b c ∧ b.data = data ∧ c.data = data'
  failures e b f c := C.failures e b f c ∧ b.data = data ∧ c.data = data'
  waives := C.waives

section

variable {C : Comparison Buffer Buffer} {data data' : Bytes}

theorem results_of_holding {α : Type} {r q : EStateM.Result StreamError Buffer α}
    (h : (holding C data data').Results r q) : C.Results r q := by
  cases r with
  | ok a b =>
    cases q with
    | ok a' c => exact ⟨h.1, h.2.1⟩
    | error f c => exact h
  | error e b =>
    cases q with
    | ok a' c => exact h
    | error f c => exact h.imp id And.left

theorem related_demand_holding {n : Nat} (h : C.Related (demand receive n) (demand receive n)) :
    (holding C data data').Related (demand receive n) (demand receive n) := by
  rintro b c ⟨hbc, hb, hc⟩
  have hresults := h b c hbc
  rcases Nat.lt_or_ge b.remaining n with hblt | hble
  · rw [demand_of_lt hblt] at hresults ⊢
    rcases Nat.lt_or_ge c.remaining n with hclt | hcle
    · rw [demand_of_lt hclt] at hresults ⊢
      exact hresults.imp id fun hfailed => ⟨hfailed, hb, hc⟩
    · rw [demand_of_le hcle] at hresults ⊢
      exact hresults
  · rw [demand_of_le hble] at hresults ⊢
    rcases Nat.lt_or_ge c.remaining n with hclt | hcle
    · rw [demand_of_lt hclt] at hresults ⊢
      exact hresults
    · rw [demand_of_le hcle] at hresults ⊢
      exact ⟨hresults.1, hresults.2, (data_advance n b).trans hb, (data_advance n c).trans hc⟩

/-- Requests for octets keep the octets of both buffers, so both go back to the cursors with which a
read of several parts began. -/
theorem holding_agrees
    (horder : ∀ {b c}, C.states b c → b.order = c.order)
    (hleft : ∀ {b c}, C.states b c → b.remaining ≤ c.remaining)
    (hdemand : ∀ n, C.Related (demand receive n) (demand receive n))
    (hrewound : ∀ {e f b c b' c'}, C.states b c → C.failures e b' f c' →
      (b.rewound e b').cursor = b.cursor → (c.rewound f c').cursor = c.cursor →
      C.failures e (b.rewound e b') f (c.rewound f c'))
    (hutf8 : ∀ {b c b' c'}, C.states b c → C.states b' c' →
      C.failures (.invalidUtf8 b.position) b' (.invalidUtf8 c.position) c')
    (hlimit : ∀ {b c} (len max : Nat), C.states b c →
      C.failures (.lengthLimit len max) b (.lengthLimit len max) c) :
    (holding C data data').Agrees := by
  apply agrees_of_demand
  · exact fun h => horder h.1
  · exact fun h => hleft h.1
  · exact fun n => related_demand_holding (hdemand n)
  · rintro e f b c b' c' ⟨hbc, hb, hc⟩ ⟨hfailed, hb', hc'⟩
    refine ⟨hrewound hbc hfailed ?_ ?_, (data_rewound b e b').trans hb', ?_⟩
    · exact cursor_rewound e (hb'.trans hb.symm)
    · exact cursor_rewound f (hc'.trans hc.symm)
    · exact (data_rewound c f c').trans hc'
  · exact fun h hafter => ⟨hutf8 h.1 hafter.1, hafter.2⟩
  · exact fun len max h => ⟨hlimit len max h.1, h.2⟩

end

end OctetStream.Buffer
