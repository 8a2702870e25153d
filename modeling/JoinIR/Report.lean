/-
# JoinIR.Report — results that come with notices

A **report** is what a piece of work leaves behind: the notices in order, and an outcome, which is
a result or an error. Notices stay when the work fails.

Reports compose: the second piece of work starts only if the first has a result, and its notices
follow those of the first (`Report.bind_of_ok`, `Report.bind_of_error`). They form a lawful monad.
-/
import JoinIR.Notice

namespace JoinIR

/-- The notices of a piece of work, in order, and its outcome. -/
structure Report (ε α : Type) where
  notices : List Notice
  outcome : Except ε α

namespace Report

variable {ε ε' α β γ : Type}

/-- A result without notices. -/
def ok (a : α) : Report ε α := ⟨[], .ok a⟩

/-- An error without notices. -/
def fail (e : ε) : Report ε α := ⟨[], .error e⟩

/-- One notice. -/
def note (n : Notice) : Report ε Unit := ⟨[n], .ok ()⟩

/-- An outcome without notices. -/
def ofExcept (r : Except ε α) : Report ε α := ⟨[], r⟩

/-- Two pieces of work, one after the other. -/
def bind (r : Report ε α) (f : α → Report ε β) : Report ε β :=
  match r.outcome with
  | .ok a => ⟨r.notices ++ (f a).notices, (f a).outcome⟩
  | .error e => ⟨r.notices, .error e⟩

instance : Monad (Report ε) where
  pure := ok
  bind := bind

/-- The same work with another error. -/
def mapError (f : ε → ε') (r : Report ε α) : Report ε' α := ⟨r.notices, r.outcome.mapError f⟩

@[simp] theorem notices_pure (a : α) : (pure a : Report ε α).notices = [] := rfl

@[simp] theorem outcome_pure (a : α) : (pure a : Report ε α).outcome = .ok a := rfl

@[simp] theorem notices_fail (e : ε) : (fail e : Report ε α).notices = [] := rfl

@[simp] theorem outcome_fail (e : ε) : (fail e : Report ε α).outcome = .error e := rfl

@[simp] theorem notices_note (n : Notice) : (note n : Report ε Unit).notices = [n] := rfl

@[simp] theorem outcome_note (n : Notice) : (note n : Report ε Unit).outcome = .ok () := rfl

theorem bind_of_ok {r : Report ε α} {a : α} (h : r.outcome = .ok a) (f : α → Report ε β) :
    r >>= f = ⟨r.notices ++ (f a).notices, (f a).outcome⟩ := by
  change bind r f = _
  rw [bind, h]

theorem bind_of_error {r : Report ε α} {e : ε} (h : r.outcome = .error e) (f : α → Report ε β) :
    r >>= f = ⟨r.notices, .error e⟩ := by
  change bind r f = _
  rw [bind, h]

theorem outcome_bind (r : Report ε α) (f : α → Report ε β) :
    (r >>= f).outcome = r.outcome >>= fun a => (f a).outcome := by
  cases h : r.outcome with
  | ok a => rw [bind_of_ok h]; rfl
  | error e => rw [bind_of_error h]; rfl

instance : LawfulMonad (Report ε) := LawfulMonad.mk' (Report ε)
  (fun r => by
    change bind r (fun a => ok a) = r
    rcases r with ⟨ns, _ | a⟩ <;> simp [bind, ok])
  (fun a f => by
    change bind (ok a) f = f a
    simp [bind, ok])
  (fun r f g => by
    change bind (bind r f) g = bind r fun a => bind (f a) g
    rcases r with ⟨ns, _ | a⟩
    · rfl
    · simp only [bind]
      rcases f a with ⟨ms, _ | b⟩ <;> simp)

end Report

end JoinIR
