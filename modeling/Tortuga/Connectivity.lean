import Mathlib.Logic.Relation
import Mathlib.Data.Nat.Notation

/-!
What is connected when the vertices of a graph are added one after the other: two vertices become
connected exactly when each is connected to a neighbour of the new one, or is it.
-/
namespace Tortuga.Connectivity

section
variable (E : ℕ → ℕ → Prop)

/-- An edge between vertices that are there already. -/
def Within (n p q : ℕ) : Prop := p < n ∧ q < n ∧ E p q

/-- Connected by vertices below `n`. -/
def Connected (n : ℕ) : ℕ → ℕ → Prop := Relation.ReflTransGen (Within E n)

/-- The vertex is `n`, or is connected to a neighbour of it. -/
def Touches (n p : ℕ) : Prop := p = n ∨ ∃ a, a < n ∧ E a n ∧ Connected E n p a

/-- The first vertex that `p` is connected to. -/
structure Earliest (n p f : ℕ) : Prop where
  connected : Connected E n p f
  first : ∀ q, Connected E n p q → f ≤ q

variable {E} {m n p q r f g : ℕ}

theorem Connected.refl : Connected E n p p := Relation.ReflTransGen.refl

theorem Connected.trans (first : Connected E n p q) (second : Connected E n q r) : Connected E n p r :=
  Relation.ReflTransGen.trans first second

theorem Connected.symm (symmetric : ∀ p q, E p q → E q p) (connected : Connected E n p q) : Connected E n q p := by
  induction connected with
  | refl => exact .refl
  | @tail a b _ inside ih => exact .head ⟨inside.2.1, inside.1, symmetric a b inside.2.2⟩ ih

theorem Connected.mono (more : m ≤ n) (connected : Connected E m p q) : Connected E n p q := by
  induction connected with
  | refl => exact .refl
  | @tail a b _ inside ih =>
    exact .tail ih ⟨Nat.lt_of_lt_of_le inside.1 more, Nat.lt_of_lt_of_le inside.2.1 more, inside.2.2⟩

/-- A vertex that is not there yet is connected to itself only. -/
theorem Connected.of_ge (connected : Connected E n p q) (new : n ≤ q) : p = q := by
  rcases Relation.ReflTransGen.cases_tail connected with same | ⟨r, _, inside⟩
  · exact same.symm
  · exact absurd inside.2.1 (Nat.not_lt.mpr new)

/-- What is connected to a vertex that is there is there too. -/
theorem Connected.lt (connected : Connected E n p q) (there : p < n) : q < n := by
  rcases Relation.ReflTransGen.cases_tail connected with same | ⟨r, _, inside⟩
  · rw [same]
    exact there
  · exact inside.2.1

theorem Touches.connected (touches : Touches E n p) : Connected E (n + 1) p n := by
  rcases touches with rfl | ⟨a, less, edge, connected⟩
  · exact .refl
  · exact (connected.mono (Nat.le_succ n)).trans (.single ⟨Nat.lt_succ_of_lt less, Nat.lt_succ_self n, edge⟩)

theorem Touches.of_connected (touches : Touches E n q) (way : Connected E n p q) : Touches E n p := by
  rcases touches with rfl | ⟨a, less, edge, rest⟩
  · exact .inl (way.of_ge (Nat.le_refl _))
  · exact .inr ⟨a, less, edge, way.trans rest⟩

theorem connected_succ (symmetric : ∀ p q, E p q → E q p) :
    Connected E (n + 1) p q ↔ Connected E n p q ∨ Touches E n p ∧ Touches E n q := by
  constructor
  · intro connected
    induction connected with
    | refl => exact .inl .refl
    | @tail b c _ inside ih =>
      obtain ⟨left, right, edge⟩ := inside
      -- The last edge is an old one, or one end of it is the new vertex.
      have last : Connected E n b c ∨ Touches E n b ∧ Touches E n c := by
        rcases Nat.lt_succ_iff_lt_or_eq.mp left with old | rfl
        · rcases Nat.lt_succ_iff_lt_or_eq.mp right with fine | rfl
          · exact .inl (.single ⟨old, fine, edge⟩)
          · exact .inr ⟨.inr ⟨b, old, edge, .refl⟩, .inl rfl⟩
        · rcases Nat.lt_succ_iff_lt_or_eq.mp right with fine | rfl
          · exact .inr ⟨.inl rfl, .inr ⟨c, fine, symmetric b c edge, .refl⟩⟩
          · exact .inl .refl
      rcases ih with old | ⟨start, middle⟩
      · rcases last with more | ⟨middle, stop⟩
        · exact .inl (old.trans more)
        · exact .inr ⟨middle.of_connected old, stop⟩
      · rcases last with more | ⟨_, stop⟩
        · exact .inr ⟨start, middle.of_connected (more.symm symmetric)⟩
        · exact .inr ⟨start, stop⟩
  · rintro (old | ⟨start, stop⟩)
    · exact old.mono (Nat.le_succ n)
    · exact start.connected.trans (stop.connected.symm symmetric)

/-- A vertex without edges to those before it changes nothing. -/
theorem connected_isolated (symmetric : ∀ p q, E p q → E q p) (alone : ∀ a, a < n → ¬ E a n) :
    Connected E (n + 1) p q ↔ Connected E n p q := by
  rw [connected_succ symmetric]
  refine ⟨fun way => ?_, .inl⟩
  rcases way with old | ⟨start, stop⟩
  · exact old
  · rcases start with rfl | ⟨a, less, edge, _⟩
    · rcases stop with rfl | ⟨a, less, edge, _⟩
      · exact .refl
      · exact absurd edge (alone a less)
    · exact absurd edge (alone a less)

/-- What becomes connected to the new vertex. -/
theorem connected_new (symmetric : ∀ p q, E p q → E q p) (less : p < n) : Connected E (n + 1) p n ↔ Touches E n p := by
  rw [connected_succ symmetric]
  constructor
  · rintro (connected | ⟨touches, _⟩)
    · exact absurd (connected.of_ge (Nat.le_refl n)) (Nat.ne_of_lt less)
    · exact touches
  · intro touches
    exact .inr ⟨touches, .inl rfl⟩

/-- Labels keep to what is connected when a vertex is added: what touches it takes its label, and what does not
    keeps one of its own. -/
theorem labels_succ {M : ℕ → Prop} {l l' : ℕ → ℕ} (symmetric : ∀ p q, E p q → E q p)
    (old : ∀ p < n, ∀ q < n, M p → M q → (l p = l q ↔ Connected E n p q))
    (leads : ∀ p < n, M p → l' p = l' n ∧ Touches E n p ∨ l' p = l p ∧ l p ≠ l' n ∧ ¬ Touches E n p) :
    ∀ p < n + 1, ∀ q < n + 1, M p → M q → (l' p = l' q ↔ Connected E (n + 1) p q) := by
  have new {p : ℕ} (less : p < n) (there : M p) : l' p = l' n ↔ Connected E (n + 1) p n := by
    rw [connected_new symmetric less]
    rcases leads p less there with ⟨here, touches⟩ | ⟨here, other, apart⟩
    · exact ⟨fun _ => touches, fun _ => here⟩
    · rw [here]
      exact ⟨fun same => absurd same other, fun touches => absurd touches apart⟩
  have both {p q : ℕ} (less : p < n) (less' : q < n) (there : M p) (there' : M q) : l' p = l' q ↔ Connected E (n + 1) p q := by
    rw [connected_succ symmetric]
    rcases leads p less there with ⟨here, touches⟩ | ⟨here, other, apart⟩
    · rcases leads q less' there' with ⟨here', touches'⟩ | ⟨here', other', apart'⟩
      · rw [here, here']
        exact ⟨fun _ => .inr ⟨touches, touches'⟩, fun _ => rfl⟩
      · rw [here, here']
        constructor
        · intro same
          exact absurd same.symm other'
        · rintro (connected | ⟨_, touches'⟩)
          · exact absurd (touches.of_connected (connected.symm symmetric)) apart'
          · exact absurd touches' apart'
    · rcases leads q less' there' with ⟨here', touches'⟩ | ⟨here', _, _⟩
      · rw [here, here']
        constructor
        · intro same
          exact absurd same other
        · rintro (connected | ⟨touches, _⟩)
          · exact absurd (touches'.of_connected connected) apart
          · exact absurd touches apart
      · rw [here, here', old p less q less' there there']
        exact ⟨.inl, fun way => way.resolve_right fun ⟨touches, _⟩ => apart touches⟩
  intro p less q less' there there'
  rcases Nat.lt_succ_iff_lt_or_eq.mp less with less | rfl
  · rcases Nat.lt_succ_iff_lt_or_eq.mp less' with less' | rfl
    · exact both less less' there there'
    · exact new less there
  · rcases Nat.lt_succ_iff_lt_or_eq.mp less' with less' | rfl
    · rw [eq_comm, new less' there']
      exact ⟨fun connected => connected.symm symmetric, fun connected => connected.symm symmetric⟩
    · exact ⟨fun _ => .refl, fun _ => rfl⟩

theorem Earliest.unique (one : Earliest E n p f) (other : Earliest E n p g) : f = g :=
  Nat.le_antisymm (one.first g other.connected) (other.first f one.connected)

theorem Earliest.le (earliest : Earliest E n p f) : f ≤ p := earliest.first p .refl

end

end Tortuga.Connectivity
