import Mathlib.Data.List.Basic

/-! Computations that may fail. `Agrees` compares two of them, where the second one may also fail
with an excuse. `Traced` computations log events until they end or fail. -/

namespace Starnet.Lib

variable {ε κ α β γ δ : Type}

/-! ### Two computations -/

/-- The second outcome has an excuse, or is the first one, up to a relation on results. -/
inductive Agrees (excuse : ε → Prop) (R : α → β → Prop) : Except ε α → Except ε β → Prop
  | excused {x : Except ε α} {e : ε} (h : excuse e) : Agrees excuse R x (.error e)
  | failed (e : ε) : Agrees excuse R (.error e) (.error e)
  | returned {a : α} {b : β} (related : R a b) : Agrees excuse R (.ok a) (.ok b)

namespace Agrees

variable {excuse : ε → Prop} {R : α → β → Prop} {S : γ → δ → Prop} {x : Except ε α}
  {y : Except ε β}

theorem bind {f : α → Except ε γ} {g : β → Except ε δ} (first : Agrees excuse R x y)
    (next : ∀ a b, R a b → Agrees excuse S (f a) (g b)) :
    Agrees excuse S (x >>= f) (y >>= g) := by
  cases first with
  | excused h => exact .excused h
  | failed e => exact .failed e
  | returned related => exact next _ _ related

/-- Without the excuses, the second outcome is the first one. -/
theorem unexcused {y : Except ε α} (agrees : Agrees excuse Eq x y)
    (none : ∀ e, excuse e → y ≠ .error e) : y = x := by
  cases agrees with
  | excused h => exact absurd rfl (none _ h)
  | failed e => rfl
  | returned related => rw [related]

end Agrees

/-! ### Events -/

/-- A computation with the events until its end. -/
structure Traced (ε κ α : Type) where
  outcome : Except ε α
  log : List κ

namespace Traced

/-- A computation without events. -/
def lift (x : Except ε α) : Traced ε κ α := ⟨x, []⟩

/-- A computation with one event, which comes first. -/
def event (e : κ) (x : Except ε α) : Traced ε κ α := ⟨x, [e]⟩

instance : Monad (Traced ε κ) where
  pure a := ⟨.ok a, []⟩
  bind x f :=
    match x.outcome with
    | .error e => ⟨.error e, x.log⟩
    | .ok a => ⟨(f a).outcome, x.log ++ (f a).log⟩

@[simp] theorem outcome_pure (a : α) : (pure a : Traced ε κ α).outcome = .ok a := rfl

@[simp] theorem outcome_lift (x : Except ε α) : (lift x : Traced ε κ α).outcome = x := rfl

@[simp] theorem outcome_event (e : κ) (x : Except ε α) : (event e x).outcome = x := rfl

/-- Without the events, a computation in steps is the same one on outcomes. -/
@[simp] theorem outcome_bind (x : Traced ε κ α) (f : α → Traced ε κ β) :
    (x >>= f).outcome = x.outcome >>= fun a => (f a).outcome := by
  change (match x.outcome with
    | .error e => (⟨.error e, x.log⟩ : Traced ε κ β)
    | .ok a => ⟨(f a).outcome, x.log ++ (f a).log⟩).outcome = _
  cases x.outcome with
  | error e => rfl
  | ok a => rfl

theorem mem_log_bind {x : Traced ε κ α} {f : α → Traced ε κ β} {e : κ} :
    e ∈ (x >>= f).log ↔ e ∈ x.log ∨ ∃ a, x.outcome = .ok a ∧ e ∈ (f a).log := by
  obtain ⟨outcome, log⟩ := x
  cases outcome with
  | error err => simp [Bind.bind]
  | ok a => simp [Bind.bind]

/-- Each event is `allowed`, and one that is `fatal` is followed by that failure; results and
failures satisfy `returns` and `fails`. -/
structure Sound (allowed : κ → Prop) (fatal : κ → Option ε) (fails : ε → Prop) (returns : α → Prop)
    (x : Traced ε κ α) : Prop where
  events : ∀ e ∈ x.log, allowed e
  ends : ∀ e ∈ x.log, ∀ err, fatal e = some err → x.outcome = .error err
  returned : ∀ a, x.outcome = .ok a → returns a
  failed : ∀ err, x.outcome = .error err → fails err

namespace Sound

variable {allowed : κ → Prop} {fatal : κ → Option ε} {fails : ε → Prop} {returns : α → Prop}

theorem pure {a : α} (h : returns a) :
    Sound allowed fatal fails returns (Pure.pure a : Traced ε κ α) where
  events _ mem := absurd mem List.not_mem_nil
  ends _ mem := absurd mem List.not_mem_nil
  returned _ eq := by cases eq; exact h
  failed _ eq := by cases eq

theorem throw {err : ε} (h : fails err) :
    Sound allowed fatal fails returns (lift (.error err) : Traced ε κ α) where
  events _ mem := absurd mem List.not_mem_nil
  ends _ mem := absurd mem List.not_mem_nil
  returned _ eq := by cases eq
  failed _ eq := by cases eq; exact h

theorem event {e : κ} {x : Except ε α} (good : allowed e)
    (ends : ∀ err, fatal e = some err → x = .error err) (returned : ∀ a, x = .ok a → returns a)
    (failed : ∀ err, x = .error err → fails err) :
    Sound allowed fatal fails returns (Traced.event e x) where
  events _ mem := List.mem_singleton.mp mem ▸ good
  ends _ mem err last := ends err (List.mem_singleton.mp mem ▸ last)
  returned := returned
  failed := failed

theorem mono {x : Traced ε κ α} {returns' : α → Prop} (sound : Sound allowed fatal fails returns x)
    (imp : ∀ a, returns a → returns' a) : Sound allowed fatal fails returns' x :=
  { sound with returned := fun a eq => imp a (sound.returned a eq) }

theorem bind {x : Traced ε κ α} {f : α → Traced ε κ β} {returns' : β → Prop}
    (first : Sound allowed fatal fails returns x)
    (next : ∀ a, returns a → Sound allowed fatal fails returns' (f a)) :
    Sound allowed fatal fails returns' (x >>= f) where
  events e mem := by
    rcases mem_log_bind.mp mem with mem | ⟨a, eq, mem⟩
    · exact first.events e mem
    · exact (next a (first.returned a eq)).events e mem
  ends e mem err last := by
    rw [outcome_bind]
    rcases mem_log_bind.mp mem with mem | ⟨a, eq, mem⟩
    · rw [first.ends e mem err last]
      rfl
    · rw [eq]
      exact (next a (first.returned a eq)).ends e mem err last
  returned b eq := by
    rw [outcome_bind] at eq
    cases result : x.outcome with
    | error err =>
      rw [result] at eq
      cases eq
    | ok a =>
      rw [result] at eq
      exact (next a (first.returned a result)).returned b eq
  failed err eq := by
    rw [outcome_bind] at eq
    cases result : x.outcome with
    | error err' =>
      rw [result] at eq
      cases eq
      exact first.failed err result
    | ok a =>
      rw [result] at eq
      exact (next a (first.returned a result)).failed err eq

end Sound

end Traced

end Starnet.Lib
