import Mathlib.Tactic

/-!
# Operations in place

An operation in place reads and changes a state step by step, and may fail on its way. What it has
changed by then stays changed: nothing is rolled back. So an operation that leaves its state alone
when it fails has to make all its checks before its first change.

## Main definitions

* `InPlace`: operations in place
* `InPlace.outcome`: the answer, and the state that is left behind
* `InPlace.within`: an operation on a part of the state
* `InPlace.Performs`: an operation that is carried out as a whole or not at all

## Main results

* `InPlace.outcome_bind`: one operation after another
* `InPlace.Performs.eq_of_error`: a failure leaves the state as it was
-/

namespace ItemConditions

/-- **An operation in place**: it answers or fails, and what it has changed stays changed. -/
abbrev InPlace (σ ε α : Type) := ExceptT ε (StateM σ) α

namespace InPlace

variable {σ τ ε ε' α β : Type} {x : InPlace σ ε α} {f : σ → Except ε (α × σ)} {s after : σ}

/-- **What an operation answers**, and the state that it leaves behind. -/
def outcome (x : InPlace σ ε α) (s : σ) : Except ε α × σ := (x.run.run s).run

/-- An operation on a part of the state. -/
def within (part : σ → τ) (put : τ → σ → σ) (x : InPlace τ ε α) : InPlace σ ε α :=
  ExceptT.mk fun s => ((x.outcome (part s)).1, put (x.outcome (part s)).2 s)

/-- The answer of an operation, a failure like any other answer. -/
def attempt (x : InPlace σ ε α) : InPlace σ ε' (Except ε α) := ExceptT.lift x.run

/-! ## Outcomes -/

@[simp] theorem outcome_pure (a : α) (s : σ) :
    (pure a : InPlace σ ε α).outcome s = (.ok a, s) := rfl

@[simp] theorem outcome_throw (e : ε) (s : σ) :
    (throw e : InPlace σ ε α).outcome s = (.error e, s) := rfl

@[simp] theorem outcome_get (s : σ) : (get : InPlace σ ε σ).outcome s = (.ok s, s) := rfl

@[simp] theorem outcome_modify (f : σ → σ) (s : σ) :
    (modify f : InPlace σ ε PUnit).outcome s = (.ok ⟨⟩, f s) := rfl

@[simp] theorem outcome_attempt (x : InPlace σ ε α) (s : σ) :
    (attempt x : InPlace σ ε' (Except ε α)).outcome s = (.ok (x.outcome s).1, (x.outcome s).2) :=
  rfl

@[simp] theorem outcome_adapt (g : ε → ε') (x : InPlace σ ε α) (s : σ) :
    outcome (ExceptT.adapt g x : InPlace σ ε' α) s
      = ((x.outcome s).1.mapError g, (x.outcome s).2) := rfl

@[simp] theorem outcome_within (part : σ → τ) (put : τ → σ → σ) (x : InPlace τ ε α) (s : σ) :
    (within part put x).outcome s
      = ((x.outcome (part s)).1, put (x.outcome (part s)).2 s) := rfl

/-- **One operation after another**: the second starts from the state that the first one leaves. -/
theorem outcome_bind (x : InPlace σ ε α) (k : α → InPlace σ ε β) (s : σ) :
    (x >>= k).outcome s = match x.outcome s with
      | (.ok a, after) => (k a).outcome after
      | (.error e, after) => (.error e, after) := by
  simp only [outcome, ExceptT.run_bind, StateT.run_bind]
  rcases x.run.run s with ⟨_ | _, _⟩ <;> rfl

@[simp] theorem outcome_map (g : α → β) (x : InPlace σ ε α) (s : σ) :
    (g <$> x).outcome s = ((x.outcome s).1.map g, (x.outcome s).2) := by
  rw [map_eq_pure_bind, outcome_bind]
  rcases x.outcome s with ⟨_ | _, _⟩ <;> rfl

/-! ## All or nothing -/

/-- The answer and the state that are left behind by what succeeds with a new state, or fails and
leaves the old one. -/
def settled (s : σ) : Except ε (α × σ) → Except ε α × σ
  | .ok (a, after) => (.ok a, after)
  | .error e => (.error e, s)

/-- **An operation that is carried out as a whole or not at all**, as the function says. -/
def Performs (x : InPlace σ ε α) (f : σ → Except ε (α × σ)) : Prop :=
  ∀ s, x.outcome s = settled s (f s)

@[simp] theorem settled_ok (s after : σ) (a : α) :
    settled s (.ok (a, after) : Except ε (α × σ)) = (.ok a, after) := rfl

@[simp] theorem settled_error (s : σ) (e : ε) :
    settled s (.error e : Except ε (α × σ)) = (.error e, s) := rfl

namespace Performs

theorem answer_ok {a : α} (h : Performs x f) (hf : f s = .ok (a, after)) :
    x.outcome s = (.ok a, after) := by
  rw [h s, hf, settled_ok]

theorem answer_error {e : ε} (h : Performs x f) (hf : f s = .error e) :
    x.outcome s = (.error e, s) := by
  rw [h s, hf, settled_error]

/-- **A failure** leaves the state as it was. -/
theorem eq_of_error {e : ε} (h : Performs x f) (he : x.outcome s = (.error e, after)) :
    after = s := by
  cases hf : f s with
  | error e' =>
    rw [h.answer_error hf] at he
    exact (Prod.mk.inj he).2.symm
  | ok r =>
    rw [h.answer_ok hf] at he
    exact absurd (Prod.mk.inj he).1 (by simp)

variable {x : InPlace σ ε Unit} {f : σ → Except ε σ}

/-- An operation without an answer that succeeds. -/
theorem outcome_of_ok (h : Performs x fun s => (f s).map fun after => ((), after))
    (hf : f s = .ok after) : x.outcome s = (.ok (), after) :=
  h.answer_ok (congrArg (Except.map fun after => ((), after)) hf)

/-- An operation without an answer that fails. -/
theorem outcome_of_error {e : ε} (h : Performs x fun s => (f s).map fun after => ((), after))
    (hf : f s = .error e) : x.outcome s = (.error e, s) :=
  h.answer_error (congrArg (Except.map fun after => ((), after)) hf)

end Performs

end InPlace

end ItemConditions
