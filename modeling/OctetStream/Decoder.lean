import OctetStream.ReadOp

/-! Programs of reads. Each read may depend on the values of those before it, and the first that
fails ends the program. -/

namespace OctetStream

inductive Decoder (α : Type) : Type
  | done (value : α)
  | read (op : ReadOp) (next : op.Value → Decoder α)

namespace Decoder

def ofRead (op : ReadOp) : Decoder op.Value :=
  read op done

def bind {α β : Type} : Decoder α → (α → Decoder β) → Decoder β
  | done a, f => f a
  | read op next, f => read op fun v => (next v).bind f

instance : Monad Decoder where
  pure := done
  bind := bind

def perform {α σ : Type} [Medium σ] : Decoder α → Action σ α
  | done a => pure a
  | read op next => do
    let v ← op.perform
    (next v).perform

theorem bind_done {α : Type} (p : Decoder α) : p.bind done = p := by
  induction p with
  | done a => rfl
  | read op next ih => exact congrArg (read op) (funext ih)

theorem bind_bind {α β γ : Type} (p : Decoder α) (f : α → Decoder β) (g : β → Decoder γ) :
    (p.bind f).bind g = p.bind fun a => (f a).bind g := by
  induction p with
  | done a => rfl
  | read op next ih => exact congrArg (read op) (funext ih)

instance : LawfulMonad Decoder :=
  LawfulMonad.mk' _ bind_done (fun _ _ => rfl) bind_bind

theorem perform_pure {α σ : Type} [Medium σ] (a : α) :
    (pure a : Decoder α).perform = (pure a : Action σ α) := rfl

theorem perform_bind {α β σ : Type} [Medium σ] (p : Decoder α) (f : α → Decoder β) :
    ((p >>= f).perform : Action σ β) = p.perform >>= fun a => (f a).perform := by
  induction p with
  | done a => rfl
  | read op next ih =>
    funext s
    show EStateM.bind _ _ s = EStateM.bind (EStateM.bind _ _) _ s
    simp only [EStateM.bind]
    cases op.perform s with
    | ok v s => exact congrFun (ih v) s
    | error e s => rfl

theorem perform_ofRead {σ : Type} [Medium σ] (op : ReadOp) :
    ((ofRead op).perform : Action σ op.Value) = op.perform := by
  funext s
  show EStateM.bind _ _ s = _
  simp only [EStateM.bind]
  cases op.perform s <;> rfl

end Decoder
end OctetStream
