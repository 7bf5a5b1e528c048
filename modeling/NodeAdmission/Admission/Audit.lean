import NodeAdmission.Admission.Rejection
import NodeAdmission.Chain.View
/-!
# Audits

Judging a record is a computation that may end with a rejection and that asks the chain questions.
An `Audit` is such a computation after the fact: its outcome, and the questions it asked in order.
A rejection ends an audit; what was asked before it stays on the list.
-/

namespace NodeAdmission

/-- A question to the chain. -/
inductive Query where
  /-- Is this a block of the active chain, and a recent one? -/
  | anchor (a : Anchor) (enforce : Bool)
  /-- Which transaction made this output? -/
  | output (o : OutPoint)
deriving DecidableEq

/-- An outcome with the questions that led to it. -/
structure Audit (α : Type) where
  /-- The answer, or the reason why there is none. -/
  outcome : Except Rejection α
  /-- The questions asked, in order. -/
  queries : List Query

namespace Audit

variable {α β : Type}

/-- An answer that needs no question. -/
protected def pure (a : α) : Audit α := { outcome := .ok a, queries := [] }

/-- Goes on with the answer of a first audit. -/
protected def bind (m : Audit α) (f : α → Audit β) : Audit β :=
  match m.outcome with
  | .ok a => { outcome := (f a).outcome, queries := m.queries ++ (f a).queries }
  | .error e => { outcome := .error e, queries := m.queries }

instance : Monad Audit where
  pure := Audit.pure
  bind := Audit.bind

@[simp] theorem pure_def (a : α) : (pure a : Audit α) = ⟨.ok a, []⟩ := rfl

@[simp] theorem ok_bind (a : α) (qs : List Query) (f : α → Audit β) :
    ((⟨.ok a, qs⟩ : Audit α) >>= f) = ⟨(f a).outcome, qs ++ (f a).queries⟩ := rfl

@[simp] theorem error_bind (e : Rejection) (qs : List Query) (f : α → Audit β) :
    ((⟨.error e, qs⟩ : Audit α) >>= f) = ⟨.error e, qs⟩ := rfl

/-- An audit answers where its first part does and the rest answers to that. -/
theorem outcome_bind_eq_ok_iff {m : Audit α} {f : α → Audit β} {b : β} :
    (m >>= f).outcome = .ok b ↔ ∃ a, m.outcome = .ok a ∧ (f a).outcome = .ok b := by
  rcases m with ⟨_ | a, qs⟩ <;> simp

/-- A first part without an answer of its own has to be passed. -/
theorem outcome_unit_bind_eq_ok_iff {m : Audit Unit} {f : Unit → Audit β} {b : β} :
    (m >>= f).outcome = .ok b ↔ m.outcome = .ok () ∧ (f ()).outcome = .ok b := by
  rw [outcome_bind_eq_ok_iff]
  exact ⟨fun ⟨(), h⟩ ↦ h, fun h ↦ ⟨(), h⟩⟩

/-- Two audits with one first part have one outcome, if they have where that part answers. -/
theorem outcome_bind_congr {m : Audit α} {f g : α → Audit β}
    (h : ∀ a, m.outcome = .ok a → (f a).outcome = (g a).outcome) :
    (m >>= f).outcome = (m >>= g).outcome := by
  rcases m with ⟨_ | a, qs⟩
  · rfl
  · exact h a rfl

/-- Two audits with one first part are one audit, if they are where that part answers. -/
theorem bind_congr {m : Audit α} {f g : α → Audit β} (h : ∀ a, m.outcome = .ok a → f a = g a) :
    m >>= f = m >>= g := by
  rcases m with ⟨_ | a, qs⟩
  · rfl
  · rw [ok_bind, ok_bind, h a rfl]

instance : LawfulMonad Audit := .mk' Audit
  (by
    rintro α ⟨_ | a, qs⟩
    · rfl
    · exact congrArg (Audit.mk (.ok a)) (List.append_nil qs))
  (fun _ _ ↦ rfl)
  (by
    rintro α β γ ⟨_ | a, qs⟩ f g
    · rfl
    · rw [ok_bind, ok_bind]
      rcases f a with ⟨_ | b, qs'⟩
      · rfl
      · simp [List.append_assoc])

/-- An outcome that needs no question. -/
def ofExcept (outcome : Except Rejection α) : Audit α := { outcome, queries := [] }

@[simp] theorem outcome_ofExcept (outcome : Except Rejection α) :
    (ofExcept outcome).outcome = outcome := rfl

/-- Ends the audit. -/
def reject (reason : Rejection) : Audit α := ofExcept (.error reason)

/-- Ends the audit unless a condition holds. -/
def require (condition : Bool) (reason : Rejection) : Audit Unit :=
  if condition then pure () else reject reason

@[simp] theorem outcome_require_eq_ok_iff {condition : Bool} {reason : Rejection} {u : Unit} :
    (require condition reason).outcome = .ok u ↔ condition = true := by
  cases condition <;> simp [require, reject]

/-- The value, or the end of the audit where there is none. -/
def get? (value : Option α) (reason : Rejection) : Audit α :=
  match value with
  | some a => pure a
  | none => reject reason

@[simp] theorem outcome_get?_eq_ok_iff {value : Option α} {reason : Rejection} {a : α} :
    (get? value reason).outcome = .ok a ↔ value = some a := by
  cases value <;> simp [get?, reject]

/-- Asks whether an anchor holds. -/
def askAnchor (chain : ChainAccess) (a : Anchor) (enforce : Bool) : Audit Bool :=
  { outcome := .ok (chain.checkAnchor a enforce), queries := [.anchor a enforce] }

@[simp] theorem outcome_askAnchor (chain : ChainAccess) (a : Anchor) (enforce : Bool) :
    (askAnchor chain a enforce).outcome = .ok (chain.checkAnchor a enforce) := rfl

/-- Asks for the transaction that made an output. -/
def askOutput (chain : ChainAccess) (o : OutPoint) : Audit (Option Transaction) :=
  { outcome := .ok (chain.lookup o), queries := [.output o] }

@[simp] theorem outcome_askOutput (chain : ChainAccess) (o : OutPoint) :
    (askOutput chain o).outcome = .ok (chain.lookup o) := rfl

end Audit

end NodeAdmission
