import Mathlib.Tactic.Cases
import Mathlib.Data.Nat.Notation

/-!
Programs that change a state and may raise. What a program has changed before it raises
stays changed.
-/
namespace Tortuga.Raising

section
variable {ε σ α β : Type}

/-- The state that a program leaves, with a result or with an error. -/
def final : EStateM.Result ε σ α → σ
  | .ok _ t => t
  | .error _ t => t

/-- From a state with `P` the program returns with `Q`, or raises and leaves a state with `R`. -/
structure Leads (P : σ → Prop) (f : EStateM ε σ α) (Q : α → σ → Prop) (R : σ → Prop) : Prop where
  returns : ∀ s a t, P s → f s = .ok a t → Q a t
  raises : ∀ s e t, P s → f s = .error e t → R t

variable {f : EStateM ε σ α} {g : α → EStateM ε σ β} {s t u : σ} {a : α} {b : β} {e : ε}

theorem bind_ok : (f >>= g) s = .ok b u ↔ ∃ a t, f s = .ok a t ∧ g a t = .ok b u := by
  show EStateM.bind f g s = _ ↔ _
  rw [EStateM.bind]
  cases f s with
  | ok a t =>
    constructor
    · exact fun after => ⟨a, t, rfl, after⟩
    · rintro ⟨_, _, same, after⟩
      cases same
      exact after
  | error e t => simp

theorem bind_error : (f >>= g) s = .error e u ↔ f s = .error e u ∨ ∃ a t, f s = .ok a t ∧ g a t = .error e u := by
  show EStateM.bind f g s = _ ↔ _
  rw [EStateM.bind]
  cases f s with
  | ok a t =>
    constructor
    · exact fun after => .inr ⟨a, t, rfl, after⟩
    · rintro (raised | ⟨_, _, same, after⟩)
      · contradiction
      · cases same
        exact after
  | error e t => simp

/-- Without a state there is only the result. -/
theorem except_bind_ok {x : Except ε α} {k : α → Except ε β} : x >>= k = .ok b ↔ ∃ a, x = .ok a ∧ k a = .ok b := by
  cases x with
  | error raised =>
    constructor
    · intro same
      cases same
    · rintro ⟨_, same, _⟩
      cases same
  | ok a =>
    constructor
    · exact fun same => ⟨a, rfl, same⟩
    · rintro ⟨_, same, rest⟩
      cases same
      exact rest

theorem bind_of_ok (first : f s = .ok a t) : (f >>= g) s = g a t := by
  show EStateM.bind f g s = _
  rw [EStateM.bind, first]

theorem bind_of_error (first : f s = .error e t) : (f >>= g) s = .error e t := by
  show EStateM.bind f g s = _
  rw [EStateM.bind, first]

@[simp] theorem pure_run (a : α) (s : σ) : (pure a : EStateM ε σ α) s = .ok a s := rfl
@[simp] theorem get_run (s : σ) : (get : EStateM ε σ σ) s = .ok s s := rfl
@[simp] theorem modify_run (h : σ → σ) (s : σ) : (modify h : EStateM ε σ Unit) s = .ok () (h s) := rfl
@[simp] theorem throw_run (e : ε) (s : σ) : (throw e : EStateM ε σ α) s = .error e s := rfl

/-! ### Rules -/

variable {P P' : σ → Prop} {Q Q' : α → σ → Prop} {R R' : σ → Prop}

theorem Leads.weaken (leads : Leads P f Q R) (before : ∀ s, P' s → P s) (after : ∀ a t, Q a t → Q' a t)
    (raised : ∀ t, R t → R' t) : Leads P' f Q' R' where
  returns s a t start run := after a t (leads.returns s a t (before s start) run)
  raises s e t start run := raised t (leads.raises s e t (before s start) run)

theorem Leads.bind {T : β → σ → Prop} (first : Leads P f Q R) (rest : ∀ a, Leads (Q a) (g a) T R) : Leads P (f >>= g) T R where
  returns s b u start run := by
    obtain ⟨a, t, before, after⟩ := bind_ok.mp run
    exact (rest a).returns t b u (first.returns s a t start before) after
  raises s e u start run := by
    rcases bind_error.mp run with before | ⟨a, t, before, after⟩
    · exact first.raises s e u start before
    · exact (rest a).raises t e u (first.returns s a t start before) after

theorem Leads.pure (a : α) (now : ∀ s, P s → Q a s) : Leads P (pure a : EStateM ε σ α) Q R where
  returns s _ _ start run := by
    cases run
    exact now s start
  raises s _ _ _ run := by cases run

theorem Leads.throw (e : ε) (now : ∀ s, P s → R s) : Leads P (throw e : EStateM ε σ α) Q R where
  returns s _ _ _ run := by cases run
  raises s _ _ start run := by
    cases run
    exact now s start

theorem Leads.modify {Q : Unit → σ → Prop} (h : σ → σ) (now : ∀ s, P s → Q () (h s)) :
    Leads P (modify h : EStateM ε σ Unit) Q R where
  returns s _ _ start run := by
    cases run
    exact now s start
  raises s _ _ _ run := by cases run

/-- What is read is known of the state from then on. -/
theorem Leads.get : Leads P (get : EStateM ε σ σ) (fun a s => a = s ∧ P s) R where
  returns s _ _ start run := by
    cases run
    exact ⟨rfl, start⟩
  raises s _ _ _ run := by cases run

/-- The state before may be taken as given. -/
theorem Leads.given (each : ∀ s, P s → Leads (· = s) f Q R) : Leads P f Q R where
  returns s a t start run := (each s start).returns s a t rfl run
  raises s e t start run := (each s start).raises s e t rfl run

/-- A fact among what is known first may be used as a hypothesis. -/
theorem Leads.fact {c : Prop} (leads : c → Leads P f Q R) : Leads (fun s => c ∧ P s) f Q R where
  returns s a t start run := (leads start.1).returns s a t start.2 run
  raises s e t start run := (leads start.1).raises s e t start.2 run

theorem Leads.ite {c : Prop} [Decidable c] {f g : EStateM ε σ α} (yes : c → Leads P f Q R) (no : ¬ c → Leads P g Q R) :
    Leads P (if c then f else g) Q R := by
  split
  · next holds => exact yes holds
  · next fails => exact no fails

/-- What holds whether the program returns or raises holds of the state it leaves. -/
theorem Leads.final (leads : Leads P f (fun _ => R) R) (start : P s) : R (final (f s)) := by
  cases run : f s with
  | ok a t => exact leads.returns s a t start run
  | error e t => exact leads.raises s e t start run

end

end Tortuga.Raising
