import Mathlib.Data.Nat.Notation
import Tortuga.Programs

/-!
Programs that come to an end against surroundings that are a function.
-/
namespace Tortuga.Termination
open Tortuga.Programs Tortuga.Programs.Prog
set_option linter.unusedSimpArgs false

section
variable {Op : Type} {Ans : Op → Type} {Loop T : Type} {α β σ : Type} {env : T → (o : Op) → Ans o × T}

/-- More rounds of a loop, each of which can do at least as much, come to the same end. -/
theorem iterate_mono {once once' : σ → T → Option ((σ ⊕ β) × T)} (more : ∀ x t r, once x t = some r → once' x t = some r)
    {n m : ℕ} (le : n ≤ m) {x : σ} {t : T} {r : β × T} (found : iterate once n x t = some r) :
    iterate once' m x t = some r := by
  induction n generalizing m x t with
  | zero => cases found
  | succ n ih =>
    obtain ⟨m, rfl⟩ : ∃ k, m = k + 1 := ⟨m - 1, by omega⟩
    rw [iterate] at found ⊢
    cases first : once x t with
    | none => simp [first] at found
    | some s =>
      rw [more x t s first]
      obtain ⟨z | b, u⟩ := s
      · exact ih (Nat.le_of_succ_le_succ le) (by simpa [first] using found)
      · simpa [first] using found

theorem exec_mono {p : Prog Op Ans Loop α} {fuel more : ℕ} (le : fuel ≤ more) {t : T} {r : α × T}
    (found : exec env fuel p t = some r) : exec env more p t = some r := by
  induction p generalizing t with
  | ret a => exact found
  | fault => exact found
  | ask o k ih => exact ih _ found
  | loop l x body k ihBody ihK =>
    rw [exec] at found ⊢
    cases exit : iterate (fun y u => exec env fuel (body y) u) fuel x t with
    | none => simp [exit] at found
    | some s =>
      rw [iterate_mono (fun y u r here => ihBody y here) le exit]
      rw [exit] at found
      exact ihK s.1 found

/-- The program ends with `a` and leaves the surroundings in `u`. -/
def Ends (env : T → (o : Op) → Ans o × T) (p : Prog Op Ans Loop α) (t : T) (a : α) (u : T) : Prop :=
  ∃ fuel, exec env fuel p t = some (a, u)

variable {t u v : T} {a b : α}

theorem Ends.unique {p : Prog Op Ans Loop α} (first : Ends env p t a u) (second : Ends env p t b v) : a = b ∧ u = v := by
  obtain ⟨n, one⟩ := first
  obtain ⟨m, two⟩ := second
  have same := (exec_mono (Nat.le_max_left n m) one).symm.trans (exec_mono (Nat.le_max_right n m) two)
  simpa using same

@[simp] theorem ends_ret : Ends env (.ret a : Prog Op Ans Loop α) t b u ↔ b = a ∧ u = t := by
  simp [Ends, eq_comm]

@[simp] theorem not_ends_fault : ¬ Ends env (.fault : Prog Op Ans Loop α) t a u := by
  simp [Ends]

theorem ends_ask {o : Op} {k : Ans o → Prog Op Ans Loop α} :
    Ends env (.ask o k) t a u ↔ Ends env (k (env t o).1) (env t o).2 a u := Iff.rfl

theorem ends_bind {p : Prog Op Ans Loop α} {f : α → Prog Op Ans Loop β} {c : β} :
    Ends env (p.bind f) t c u ↔ ∃ a v, Ends env p t a v ∧ Ends env (f a) v c u := by
  constructor
  · rintro ⟨fuel, found⟩
    rw [exec_bind] at found
    obtain ⟨⟨a, v⟩, first, rest⟩ := Option.bind_eq_some_iff.mp found
    exact ⟨a, v, ⟨fuel, first⟩, fuel, rest⟩
  · rintro ⟨a, v, ⟨n, first⟩, m, rest⟩
    refine ⟨max n m, ?_⟩
    rw [exec_bind, exec_mono (Nat.le_max_left n m) first]
    exact exec_mono (Nat.le_max_right n m) rest

/-- After a first part that ends, only the rest matters. -/
theorem Ends.bind {p : Prog Op Ans Loop α} (first : Ends env p t a v) {f : α → Prog Op Ans Loop β} {c : β} :
    Ends env (p.bind f) t c u ↔ Ends env (f a) v c u := by
  rw [ends_bind]
  constructor
  · rintro ⟨b, w, other, rest⟩
    obtain ⟨rfl, rfl⟩ := first.unique other
    exact rest
  · exact fun rest => ⟨a, v, first, rest⟩

/-- A loop ends as it does after one round. -/
theorem ends_loop {l : Loop} {x : σ} {body : σ → Prog Op Ans Loop (σ ⊕ β)} {k : β → Prog Op Ans Loop α} :
    Ends env (.loop l x body k) t a u ↔ Ends env (unroll l body k x) t a u := by
  constructor
  · rintro ⟨fuel, found⟩
    rw [exec] at found
    cases fuel with
    | zero => simp [iterate] at found
    | succ n =>
      refine ⟨n + 1, ?_⟩
      rw [unroll, exec_bind]
      rw [iterate] at found
      cases first : exec env (n + 1) (body x) t with
      | none => simp [first] at found
      | some s =>
        obtain ⟨z | b, w⟩ := s
        · simp only [first, Option.bind_some] at found ⊢
          rw [exec]
          cases exit : iterate (fun y u => exec env (n + 1) (body y) u) n z w with
          | none => simp [exit] at found
          | some r =>
            rw [iterate_mono (fun _ _ _ here => here) (Nat.le_succ n) exit]
            simpa [exit] using found
        · simpa [first] using found
  · rintro ⟨fuel, found⟩
    refine ⟨fuel + 1, ?_⟩
    rw [unroll, exec_bind] at found
    obtain ⟨⟨z | b, w⟩, first, rest⟩ := Option.bind_eq_some_iff.mp found
    · rw [exec, iterate, exec_mono (Nat.le_succ fuel) first]
      simp only [exec] at rest ⊢
      cases exit : iterate (fun y u => exec env fuel (body y) u) fuel z w with
      | none => simp [exit] at rest
      | some r =>
        rw [iterate_mono (fun y u r here => exec_mono (Nat.le_succ fuel) here) (Nat.le_refl fuel) exit]
        rw [exit] at rest
        exact exec_mono (Nat.le_succ fuel) rest
    · rw [exec, iterate, exec_mono (Nat.le_succ fuel) first]
      exact exec_mono (Nat.le_succ fuel) rest

/-- A loop whose every round ends where another begins does not end. -/
theorem not_ends_of_rounds {l : Loop} {body : σ → Prog Op Ans Loop (σ ⊕ β)} {k : β → Prog Op Ans Loop α} {I : σ → T → Prop}
    (round : ∀ x t, I x t → ∃ z u, Ends env (body x) t (.inl z) u ∧ I z u) {x : σ} (start : I x t) :
    ¬ Ends env (.loop l x body k) t a u := by
  rintro ⟨fuel, found⟩
  have stuck : ∀ n x t, I x t → iterate (fun y u => exec env fuel (body y) u) n x t = none := by
    intro n
    induction n with
    | zero => exact fun _ _ _ => rfl
    | succ n ih =>
      intro x t inv
      obtain ⟨z, v, ends, next⟩ := round x t inv
      rw [iterate]
      cases once : exec env fuel (body x) t with
      | none => rfl
      | some s =>
        obtain ⟨s, w⟩ := s
        obtain ⟨rfl, rfl⟩ := ends.unique ⟨fuel, once⟩
        exact ih _ _ next
  rw [exec, stuck fuel x t start] at found
  cases found

end

end Tortuga.Termination
