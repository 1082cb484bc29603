import Mathlib.Data.Nat.Notation

/-!
Machines whose step may be impossible, and the states that a list of actions leads to.
-/
namespace Tortuga.Machines

section
variable {S A : Type}

/-- The state after a list of actions, when each of them is possible. -/
def runs (step : S → A → Option S) : S → List A → Option S
  | s, [] => some s
  | s, a :: rest => (step s a).bind fun t => runs step t rest

variable {step : S → A → Option S} {s t : S} {a : A} {xs ys : List A}

@[simp] theorem runs_nil : runs step s [] = some s := rfl

theorem runs_cons : runs step s (a :: xs) = (step s a).bind fun t => runs step t xs := rfl

theorem runs_append : runs step s (xs ++ ys) = (runs step s xs).bind fun t => runs step t ys := by
  induction xs generalizing s with
  | nil => rfl
  | cons a xs ih =>
    rw [List.cons_append, runs_cons, runs_cons]
    cases step s a with
    | none => rfl
    | some t => exact ih

theorem runs_snoc : runs step s (xs ++ [a]) = (runs step s xs).bind fun t => step t a := by
  rw [runs_append]
  cases runs step s xs with
  | none => rfl
  | some t =>
    show (step t a).bind some = step t a
    cases step t a <;> rfl

/-- The actions at the front of a run are possible. -/
theorem runs_front (run : runs step s (xs ++ ys) = some t) : ∃ u, runs step s xs = some u ∧ runs step u ys = some t := by
  rw [runs_append] at run
  exact Option.bind_eq_some_iff.mp run

/-- What holds first, with no action done, and is kept by each action holds of every state.
    The invariant may speak of the actions done. -/
theorem runs_invariant {I : List A → S → Prop} (start : I [] s)
    (keeps : ∀ xs a t u, runs step s xs = some t → I xs t → step t a = some u → I (xs ++ [a]) u)
    (run : runs step s xs = some t) : I xs t := by
  -- The actions done so far move from the list to come to the invariant.
  have from_here : ∀ ys zs u, runs step s zs = some u → I zs u → runs step u ys = some t → I (zs ++ ys) t := by
    intro ys
    induction ys with
    | nil =>
      intro zs u _ inv same
      cases Option.some_inj.mp same
      rwa [List.append_nil]
    | cons a ys ih =>
      intro zs u before inv rest
      rw [runs_cons] at rest
      obtain ⟨v, stepped, later⟩ := Option.bind_eq_some_iff.mp rest
      have moved : runs step s (zs ++ [a]) = some v := by rw [runs_snoc, before]; exact stepped
      have kept := ih (zs ++ [a]) v moved (keeps zs a u v before inv stepped) later
      rwa [List.append_assoc] at kept
  exact from_here xs [] s rfl start run

/-- `P` holds of every action of a run in the state that the action finds. -/
def Every (step : S → A → Option S) (P : S → A → Prop) : S → List A → Prop
  | _, [] => True
  | s, a :: rest => P s a ∧ ∀ t ∈ step s a, Every step P t rest

instance everyDecidable (step : S → A → Option S) (P : S → A → Prop) [∀ s a, Decidable (P s a)] :
    ∀ (s : S) (acts : List A), Decidable (Every step P s acts)
  | _, [] => isTrue trivial
  | s, a :: rest => @instDecidableAnd _ _ _ (@Option.decidableForallMem _ _ (fun t => everyDecidable step P t rest) (step s a))

/-- What holds first and is kept by each possible action with `P` holds after a run whose actions have `P`. -/
theorem runs_every {P : S → A → Prop} {I : S → Prop} (keeps : ∀ s a t, I s → P s a → step s a = some t → I t)
    (start : I s) (every : Every step P s xs) (run : runs step s xs = some t) : I t := by
  induction xs generalizing s with
  | nil =>
    cases Option.some_inj.mp run
    exact start
  | cons a xs ih =>
    obtain ⟨u, stepped, rest⟩ := Option.bind_eq_some_iff.mp run
    exact ih (keeps s a u start every.1 stepped) (every.2 u stepped) rest

theorem every_of_all {P : S → A → Prop} (all : ∀ a ∈ xs, ∀ s, P s a) : Every step P s xs := by
  induction xs generalizing s with
  | nil => trivial
  | cons a xs ih => exact ⟨all a List.mem_cons_self s, fun t _ => ih fun b member => all b (List.mem_cons_of_mem a member)⟩

/-- The actions after the front of a run find what the front leaves. -/
theorem every_back {P : S → A → Prop} (every : Every step P s (xs ++ ys)) (run : runs step s xs = some t) : Every step P t ys := by
  induction xs generalizing s with
  | nil =>
    cases Option.some_inj.mp run
    exact every
  | cons a xs ih =>
    obtain ⟨u, stepped, rest⟩ := Option.bind_eq_some_iff.mp run
    exact ih (every.2 u stepped) rest

theorem every_front {P : S → A → Prop} (every : Every step P s (xs ++ ys)) : Every step P s xs := by
  induction xs generalizing s with
  | nil => trivial
  | cons a xs ih => exact ⟨every.1, fun u stepped => ih (every.2 u stepped)⟩

theorem every_append {P : S → A → Prop} (front : Every step P s xs) (back : ∀ t, runs step s xs = some t → Every step P t ys) :
    Every step P s (xs ++ ys) := by
  induction xs generalizing s with
  | nil => exact back s rfl
  | cons a xs ih =>
    refine ⟨front.1, fun u stepped => ih (front.2 u stepped) fun t run => back t ?_⟩
    rw [runs_cons, stepped]
    exact run

/-- As `runs_every`, where the invariant speaks of the actions done. -/
theorem runs_every_acts {P : S → A → Prop} {I : List A → S → Prop}
    (keeps : ∀ xs a t u, I xs t → P t a → step t a = some u → I (xs ++ [a]) u) (start : I [] s) (every : Every step P s xs)
    (run : runs step s xs = some t) : I xs t := by
  have kept := runs_invariant (I := fun xs t => Every step P s xs → I xs t) (fun _ => start)
    (fun xs a t u run inv stepped every => keeps xs a t u (inv (every_front every)) (every_back every run).1 stepped) run
  exact kept every

/-- Where an invariant holds, one property of an action may give another. -/
theorem every_of_every {P Q : S → A → Prop} {I : S → Prop} (keeps : ∀ s a t, I s → P s a → step s a = some t → I t)
    (gives : ∀ s a, I s → P s a → Q s a) (start : I s) (every : Every step P s xs) : Every step Q s xs := by
  induction xs generalizing s with
  | nil => trivial
  | cons a xs ih => exact ⟨gives s a start every.1, fun t stepped => ih (keeps s a t start every.1 stepped) (every.2 t stepped)⟩

/-- When the first action without `P` does a harm that stays, a run that ends without harm has `P` throughout. -/
theorem every_of_runs {P : S → A → Prop} {I H : S → Prop} (keeps : ∀ s a t, I s → P s a → step s a = some t → I t)
    (stays : ∀ s a t, H s → step s a = some t → H t)
    (breaks : ∀ s a t, I s → step s a = some t → ¬ P s a → H t) (start : I s) (run : runs step s xs = some t)
    (fine : ¬ H t) : Every step P s xs := by
  induction xs generalizing s with
  | nil => trivial
  | cons a xs ih =>
    obtain ⟨u, stepped, rest⟩ := Option.bind_eq_some_iff.mp run
    have later : ¬ H u := fun harmed =>
      fine (runs_invariant (I := fun _ => H) harmed (fun _ a v w _ now moved => stays v a w now moved) rest)
    have first : P s a := Classical.byContradiction (fun bad => later (breaks s a u start stepped bad))
    refine ⟨first, fun v moved => ?_⟩
    cases Option.some_inj.mp (stepped.symm.trans moved)
    exact ih (keeps s a u start first stepped) rest

/-- When the first action without `P` leaves a state that is not good, runs whose states are all good have `P` throughout. -/
theorem every_of_good {P : S → A → Prop} {I Good : S → Prop} (keeps : ∀ s a t, I s → P s a → step s a = some t → I t)
    (breaks : ∀ s a t, I s → step s a = some t → ¬ P s a → ¬ Good t) (start : I s) (run : runs step s xs = some t)
    (good : ∀ front back u, xs = front ++ back → runs step s front = some u → Good u) : Every step P s xs := by
  induction xs generalizing s with
  | nil => trivial
  | cons a xs ih =>
    obtain ⟨u, stepped, rest⟩ := Option.bind_eq_some_iff.mp run
    have shift : ∀ front v, runs step u front = some v → runs step s (a :: front) = some v := by
      intro front v after
      rw [runs_cons, stepped]
      exact after
    have first : P s a := by
      refine Classical.byContradiction (fun bad => breaks s a u start stepped bad ?_)
      exact good [a] xs u rfl (shift [] u rfl)
    refine ⟨first, fun v moved => ?_⟩
    cases Option.some_inj.mp (stepped.symm.trans moved)
    refine ih (keeps s a u start first stepped) rest ?_
    rintro front back w rfl after
    exact good (a :: front) back w rfl (shift front w after)

end

/-! ### Machines whose every step is possible -/

section
variable {S A : Type} (next : S → A → S)

/-- The state after a list of actions. -/
def after (s : S) (acts : List A) : S := acts.foldl next s

/-- `P` holds of every action in the state that the action finds. -/
def Each (P : S → A → Prop) : S → List A → Prop
  | _, [] => True
  | s, a :: rest => P s a ∧ Each P (next s a) rest

instance eachDecidable (P : S → A → Prop) [∀ s a, Decidable (P s a)] : ∀ (s : S) (acts : List A), Decidable (Each next P s acts)
  | _, [] => isTrue trivial
  | s, a :: rest => @instDecidableAnd _ _ _ (eachDecidable P (next s a) rest)

variable {next} {P : S → A → Prop} {I : S → Prop} {s : S}

@[simp] theorem after_nil : after next s [] = s := rfl

@[simp] theorem after_cons (a : A) (rest : List A) : after next s (a :: rest) = after next (next s a) rest := rfl

theorem after_append (xs ys : List A) : after next s (xs ++ ys) = after next (after next s xs) ys := List.foldl_append

/-- What holds first and is kept by each action with `P` holds after actions with `P`. -/
theorem after_invariant (keeps : ∀ t a, I t → P t a → I (next t a)) (start : I s) {acts : List A}
    (each : Each next P s acts) : I (after next s acts) := by
  induction acts generalizing s with
  | nil => exact start
  | cons a rest ih => exact ih (keeps s a start each.1) each.2

/-- Where an invariant holds that actions with `P` keep, two properties of actions may be the same. -/
theorem each_iff {Q : S → A → Prop} (keeps : ∀ t a, I t → P t a → I (next t a)) (same : ∀ t a, I t → (P t a ↔ Q t a))
    (start : I s) {acts : List A} : Each next P s acts ↔ Each next Q s acts := by
  induction acts generalizing s with
  | nil => exact Iff.rfl
  | cons a rest ih =>
    constructor
    · rintro ⟨first, later⟩
      exact ⟨(same s a start).mp first, (ih (keeps s a start first)).mp later⟩
    · rintro ⟨first, later⟩
      have first := (same s a start).mpr first
      exact ⟨first, (ih (keeps s a start first)).mpr later⟩

end

end Tortuga.Machines
