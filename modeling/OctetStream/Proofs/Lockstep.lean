import OctetStream.Proofs.Comparison
import OctetStream.Proofs.Session

/-! Two media that are in lockstep, so that matching states answer the basic operations alike and
go on to matching states, give the same replies to every session. -/

namespace OctetStream

variable {σ τ α : Type}

def Comparison.exact (R : σ → τ → Prop) : Comparison σ τ where
  states := R
  failures e s f t := e = f ∧ R s t
  waives _ := False

theorem Comparison.settle_congr {R : σ → τ → Prop} {x : Action σ α} {y : Action τ α} {s : σ}
    {t : τ} (h : (exact R).Results (x s) (y t)) :
    (x.settle s).1 = (y.settle t).1 ∧ R (x.settle s).2 (y.settle t).2 := by
  cases hx : x s with
  | ok a s' =>
    obtain ⟨t', hy, hst⟩ := h.of_ok hx
    rw [Action.settle_of_ok hx, Action.settle_of_ok hy]
    exact ⟨rfl, hst⟩
  | error e s' =>
    obtain ⟨f, t', hy, rfl, hst⟩ := h.of_error id hx
    rw [Action.settle_of_error hx, Action.settle_of_error hy]
    exact ⟨rfl, hst⟩

open Medium

structure ReadLockstep [Medium σ] [Medium τ] (R : σ → τ → Prop) : Prop where
  order : ∀ {s t}, R s t → Medium.order s = Medium.order t
  offset : ∀ {s t}, R s t → Medium.offset s = Medium.offset t
  limit : ∀ {s t}, R s t → payloadLimit s = payloadLimit t
  supply : ∀ {s t}, R s t → Medium.supply s = Medium.supply t
  receive : ∀ (n : Nat) {s t}, R s t →
    (Medium.receive n s).1 = (Medium.receive n t).1 ∧
      R (Medium.receive n s).2 (Medium.receive n t).2
  readBytes : ∀ n, (Comparison.exact R).Related (Medium.readBytes n) (Medium.readBytes n)
  atomically : ∀ {α : Type} {x : Action σ α} {y : Action τ α} {s t}, R s t →
    (Comparison.exact R).Results (x s) (y t) →
    (Comparison.exact R).Results (Medium.atomically x s) (Medium.atomically y t)

structure Lockstep [Medium σ] [Medium τ] (R : σ → τ → Prop) : Prop extends ReadLockstep R where
  send : ∀ data, (Comparison.exact R).Related (Medium.send data) (Medium.send data)

theorem Comparison.related_demand {R : σ → τ → Prop} {f : Nat → σ → Receipt × σ}
    {g : Nat → τ → Receipt × τ} {n : Nat}
    (h : ∀ {s t}, R s t → (f n s).1 = (g n t).1 ∧ R (f n s).2 (g n t).2) :
    (exact R).Related (demand f n) (demand g n) := by
  intro s t hst
  obtain ⟨hreceipt, hnext⟩ := h hst
  unfold demand
  rcases hf : f n s with ⟨⟨got, failure⟩, s'⟩
  rcases hg : g n t with ⟨receipt, t'⟩
  rw [hf, hg] at hreceipt hnext
  obtain rfl : ⟨got, failure⟩ = receipt := hreceipt
  cases failure with
  | none => exact ⟨rfl, hnext⟩
  | some e => exact Or.inr ⟨rfl, hnext⟩

theorem Comparison.related_demandAllocated {R : σ → τ → Prop} {f : Nat → σ → Receipt × σ}
    {g : Nat → τ → Receipt × τ} {n : Nat}
    (h : ∀ {s t}, R s t → (f n s).1 = (g n t).1 ∧ R (f n s).2 (g n t).2) :
    (exact R).Related (demandAllocated f n) (demandAllocated g n) := by
  unfold demandAllocated
  by_cases hn : Limits.maxAllocation < n
  · simp only [if_pos hn]
    exact related_throw fun _ _ hst => ⟨rfl, hst⟩
  · simp only [if_neg hn]
    exact related_demand h

section

variable [Medium σ] [Medium τ] {R : σ → τ → Prop}

namespace ReadLockstep

variable (h : ReadLockstep R)
include h

theorem permit (n : Nat) : (Comparison.exact R).Related (Medium.permit n) (Medium.permit n) := by
  intro s t hst
  unfold Medium.permit
  rw [h.limit hst]
  cases payloadLimit t with
  | none => exact ⟨rfl, hst⟩
  | some max =>
    by_cases hn : n ≤ max
    · simp only [if_pos hn]
      exact ⟨rfl, hst⟩
    · simp only [if_neg hn]
      exact Or.inr ⟨rfl, hst⟩

theorem agrees : (Comparison.exact R).Agrees where
  order := h.order
  fetch n := Comparison.related_demand (h.receive n)
  readBytes := h.readBytes
  payload n := (h.permit n).bind fun _ => h.readBytes n
  untilNul := by
    intro s t hst
    show (Comparison.exact R).Results (collectUntilNul (payloadLimit s) (Medium.supply s) 0 [] s)
      (collectUntilNul (payloadLimit t) (Medium.supply t) 0 [] t)
    rw [h.limit hst, h.supply hst]
    exact Comparison.related_collectUntilNul (Comparison.related_demand (h.receive 1))
      (fun _ _ _ _ hst => ⟨rfl, hst⟩) _ _ _ _ s t hst
  atomically := h.atomically
  invalidUtf8 := fun hst hst' => ⟨congrArg StreamError.invalidUtf8 (h.offset hst), hst'⟩
  lengthLimit := fun _ _ hst => ⟨rfl, hst⟩

theorem fillRun {t : Primitive} (dest : List (Word t)) (order? : Option ByteOrder) {s : σ} {u : τ}
    (hst : R s u) :
    (Medium.fillRun dest order? s).1 = (Medium.fillRun dest order? u).1 ∧
      R (Medium.fillRun dest order? s).2 (Medium.fillRun dest order? u).2 := by
  have hread := h.agrees.readFixed dest.length order? (fun order => Word.fillAll order dest) s u hst
  unfold Medium.fillRun
  cases hs : readFixed dest.length order? (fun order => Word.fillAll order dest) s with
  | ok values s' =>
    obtain ⟨u', hu, hnext⟩ := hread.of_ok hs
    rw [hu]
    exact ⟨rfl, hnext⟩
  | error e s' =>
    obtain ⟨f, u', hu, rfl, hnext⟩ := hread.of_error id hs
    rw [hu]
    exact ⟨rfl, hnext⟩

theorem perform {request : Request} (hread : ∀ op, request ≠ .write op) (s : σ) (t : τ)
    (hst : R s t) :
    (request.perform s).1 = (request.perform t).1 ∧
      R (request.perform s).2 (request.perform t).2 := by
  cases request with
  | read op => exact Comparison.settle_congr (h.agrees.perform op s t hst)
  | readInto dest =>
    obtain ⟨hreceipt, hnext⟩ := h.receive dest.length hst
    refine ⟨?_, hnext⟩
    simp only [Request.perform, Medium.readInto, hreceipt]
  | fillRun _ dest order? => exact h.fillRun dest order? hst
  | write op => exact absurd rfl (hread op)

end ReadLockstep

theorem Comparison.related_write (horder : ∀ {s t}, R s t → Medium.order s = Medium.order t)
    (hsend : ∀ data, (exact R).Related (Medium.send data) (Medium.send data)) (op : WriteOp) :
    (exact R).Related op.perform op.perform := by
  intro s t hst
  unfold WriteOp.perform
  rw [horder hst]
  cases op.payload (Medium.order t) with
  | ok data => exact hsend data s t hst
  | error e => exact Or.inr ⟨rfl, hst⟩

theorem Lockstep.perform (h : Lockstep R) (request : Request) (s : σ) (t : τ) (hst : R s t) :
    (request.perform s).1 = (request.perform t).1 ∧
      R (request.perform s).2 (request.perform t).2 := by
  cases request with
  | write op =>
    exact Comparison.settle_congr (Comparison.related_write h.order h.send op s t hst)
  | _ =>
    refine h.toReadLockstep.perform ?_ s t hst
    exact nofun

end

end OctetStream
