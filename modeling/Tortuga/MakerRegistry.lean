import Mathlib.Data.List.Basic
import Mathlib.Data.List.Induction
import Mathlib.Logic.Function.Basic
import Tortuga.Precedence

/-!
The registry of makers (`core/include/Maker.h`): a maker puts itself there under its key when it is
constructed and takes that key out when it is destroyed, and who leaves it empty deletes it.
-/
namespace Tortuga.MakerRegistry
open Tortuga.Precedence (split_concat)

/-- What is done with the makers of one kind, which are numbered in the order of their construction. -/
inductive Op (K P : Type) where
  | make (key : K)
  | destroy (maker : ℕ)
  | isKeyRegistered (key : K)
  | newObject (param : P)
  deriving DecidableEq, Repr

/-- What comes of it. `touchedDeleted` is for the use of a registry that has been deleted. -/
inductive Outcome (K : Type) where
  | done
  | registered (found : Bool)
  | created (maker : ℕ)
  | makerNotFound (key : K)
  | touchedDeleted
  deriving DecidableEq, Repr

/-- How many makers were made, and the keys of those that live. -/
structure Makers (K : Type) where
  made : ℕ
  live : ℕ → Option K

/-- The registry is a multimap, with the makers of one key in the order of their insertion. It is `none`
    once it is deleted, when the static pointer to it is still there. -/
structure World (K : Type) where
  makers : Makers K
  registry : Option (List (K × ℕ))

section
variable {K P : Type} [DecidableEq K] (extractKey : P → K)

def Makers.step (makers : Makers K) : Op K P → Makers K
  | .make key => ⟨makers.made + 1, Function.update makers.live makers.made (some key)⟩
  | .destroy maker => ⟨makers.made, Function.update makers.live maker none⟩
  | .isKeyRegistered _ | .newObject _ => makers

/-- The constructor. -/
def register (makers : Makers K) (key : K) : Option (List (K × ℕ)) → Option (List (K × ℕ)) × Outcome K
  | none => (none, .touchedDeleted)
  | some registry => (some (registry ++ [(key, makers.made)]), .done)

/-- The destructor, of a maker with that key. -/
def unregister (key : K) : Option (List (K × ℕ)) → Option (List (K × ℕ)) × Outcome K
  | none => (none, .touchedDeleted)
  | some registry =>
    let registry := registry.filter fun entry => entry.1 ≠ key
    -- Free up registry if we are the last in the registry
    (if registry.length = 0 then none else some registry, .done)

def isKeyRegistered (key : K) : Option (List (K × ℕ)) → Outcome K
  | none => .touchedDeleted
  | some registry => .registered (registry.find? fun entry => entry.1 = key).isSome

/-- The first maker of the key. -/
def lookupMaker (key : K) : Option (List (K × ℕ)) → Outcome K
  | none => .touchedDeleted
  | some registry =>
    match registry.find? fun entry => entry.1 = key with
    | none => .makerNotFound key
    | some entry => .created entry.2

/-- What it leaves and what comes of it. The destruction of a maker that does not live is none. -/
def World.step (w : World K) (op : Op K P) : World K × Outcome K :=
  match op with
  | .make key =>
    let (registry, outcome) := register w.makers key w.registry
    (⟨w.makers.step op, registry⟩, outcome)
  | .destroy maker =>
    match w.makers.live maker with
    | none => (w, .done)
    | some key =>
      let (registry, outcome) := unregister key w.registry
      (⟨w.makers.step op, registry⟩, outcome)
  | .isKeyRegistered key => (w, isKeyRegistered key w.registry)
  | .newObject param => (w, lookupMaker (extractKey param) w.registry)

/-- Before any maker, when the first use is still to create the registry. -/
def World.first : World K := ⟨⟨0, fun _ => none⟩, some []⟩

def run (ops : List (Op K P)) : World K := ops.foldl (fun w op => (w.step extractKey op).1) World.first

/-- What comes of the last of them. -/
def outcome (ops : List (Op K P)) (op : Op K P) : Outcome K := ((run extractKey ops).step extractKey op).2

/-! ### What is meant -/

/-- How many makers were made, and which live. -/
def makers (ops : List (Op K P)) : Makers K := ops.foldl Makers.step ⟨0, fun _ => none⟩

/-- A maker of that key lives. -/
def Lives (ops : List (Op K P)) (key : K) : Prop := ∃ maker, (makers ops).live maker = some key

/-- After `ops` the next one does not touch a deleted registry, and finds what lives. -/
structure Right (ops : List (Op K P)) (op : Op K P) : Prop where
  untouched : outcome extractKey ops op ≠ .touchedDeleted
  registered : ∀ key, op = .isKeyRegistered key → (outcome extractKey ops op = .registered true ↔ Lives ops key)
  created : ∀ param, op = .newObject param →
    ((∃ maker, outcome extractKey ops op = .created maker) ↔ Lives ops (extractKey param))
  uses : ∀ param maker, op = .newObject param → outcome extractKey ops op = .created maker →
    (makers ops).live maker = some (extractKey param)

/-- The same of each one of a run. -/
def RunRight (ops : List (Op K P)) : Prop := ∀ before op after, ops = before ++ op :: after → Right extractKey before op

/-! ### When it is so -/

/-- A maker stands from its construction until a maker of its key is destroyed. -/
inductive Standing : List (Op K P) → ℕ → K → Prop where
  | made (ops : List (Op K P)) (key : K) : Standing (ops ++ [.make key]) (makers ops).made key
  | stays (ops : List (Op K P)) (op : Op K P) (maker : ℕ) (key : K) (stands : Standing ops maker key)
      (stay : ∀ other, op = .destroy other → (makers ops).live other ≠ some key) : Standing (ops ++ [op]) maker key

/-- A maker was destroyed that left none standing. -/
def Emptied (ops : List (Op K P)) : Prop := ∃ before maker key after, ops = before ++ .destroy maker :: after ∧
  (makers before).live maker = some key ∧ ∀ other key', ¬ Standing (before ++ [.destroy maker]) other key'

/-- Nothing is done after a destruction that left no maker standing, and where a maker lives of the key
    that is looked up, one stands. -/
structure Fits (ops : List (Op K P)) (op : Op K P) : Prop where
  kept : (∀ maker, op = .destroy maker → (makers ops).live maker ≠ none) → ¬ Emptied ops
  stands : ∀ key, (op = .isKeyRegistered key ∨ ∃ param, op = .newObject param ∧ extractKey param = key) →
    Lives ops key → ∃ maker, Standing ops maker key

def RunFits (ops : List (Op K P)) : Prop := ∀ before op after, ops = before ++ op :: after → Fits extractKey before op

/-! ### Makers that stand -/

section
omit [DecidableEq K]
variable {ops : List (Op K P)} {op : Op K P} {maker : ℕ} {key : K}

theorem live_make (m : Makers K) : (m.step (.make key : Op K P)).live maker = if maker = m.made then some key else m.live maker :=
  Function.update_apply ..

theorem live_destroy (m : Makers K) (other : ℕ) :
    (m.step (.destroy other : Op K P)).live maker = if maker = other then none else m.live maker :=
  Function.update_apply ..

theorem makers_append : makers (ops ++ [op]) = (makers ops).step op := by rw [makers, List.foldl_append]; rfl

theorem run_append [DecidableEq K] : run extractKey (ops ++ [op]) = ((run extractKey ops).step extractKey op).1 := by
  rw [run, List.foldl_append]
  rfl

theorem live_lt_made (lives : (makers ops).live maker = some key) : maker < (makers ops).made := by
  induction ops using List.reverseRecOn generalizing maker key with
  | nil => cases lives
  | append_singleton ops op ih =>
    rw [makers_append] at lives ⊢
    cases op with
    | make key' =>
      rw [live_make] at lives
      split_ifs at lives with same
      · exact Nat.lt_succ_of_le (Nat.le_of_eq same)
      · exact Nat.lt_succ_of_lt (ih lives)
    | destroy other =>
      rw [live_destroy] at lives
      split_ifs at lives
      exact ih lives
    | isKeyRegistered _ => exact ih lives
    | newObject _ => exact ih lives

theorem standing_append : Standing (ops ++ [op]) maker key ↔
    (op = .make key ∧ maker = (makers ops).made) ∨
      (Standing ops maker key ∧ ∀ other, op = .destroy other → (makers ops).live other ≠ some key) := by
  constructor
  · generalize all : ops ++ [op] = whole
    intro stands
    cases stands with
    | made before key =>
      obtain ⟨rfl, same⟩ := List.append_inj' all rfl
      exact .inl ⟨(List.cons.inj same).1, rfl⟩
    | stays before last maker key stands stay =>
      obtain ⟨rfl, same⟩ := List.append_inj' all rfl
      obtain rfl := (List.cons.inj same).1
      exact .inr ⟨stands, stay⟩
  · rintro (⟨rfl, rfl⟩ | ⟨stands, stay⟩)
    · exact .made ops key
    · exact .stays ops op maker key stands stay

theorem standing_nil : ¬ Standing ([] : List (Op K P)) maker key := by
  generalize none : ([] : List (Op K P)) = ops
  intro stands
  cases stands <;> simp at none

/-- What stands lives. -/
theorem Standing.lives (stands : Standing ops maker key) : (makers ops).live maker = some key := by
  induction ops using List.reverseRecOn with
  | nil => exact absurd stands standing_nil
  | append_singleton ops op ih =>
    rw [makers_append]
    rcases standing_append.mp stands with ⟨rfl, rfl⟩ | ⟨stands, stay⟩
    · rw [live_make, if_pos rfl]
    · have lives := ih stands
      cases op with
      | make _ =>
        rw [live_make, if_neg (Nat.ne_of_lt (live_lt_made lives))]
        exact lives
      | destroy other =>
        have apart : maker ≠ other := fun same => stay other rfl (same ▸ lives)
        rw [live_destroy, if_neg apart]
        exact lives
      | isKeyRegistered _ => exact lives
      | newObject _ => exact lives

theorem emptied_append : Emptied (ops ++ [op]) ↔ Emptied ops ∨ ∃ maker key, op = .destroy maker ∧
    (makers ops).live maker = some key ∧ ∀ other key', ¬ Standing (ops ++ [op]) other key' := by
  constructor
  · rintro ⟨before, maker, key, after, split, lives, nothing⟩
    rcases split_concat.mp split with ⟨rfl, rfl, -⟩ | ⟨rest, -, split⟩
    · exact .inr ⟨maker, key, rfl, lives, nothing⟩
    · exact .inl ⟨before, maker, key, rest, split, lives, nothing⟩
  · rintro (⟨before, maker, key, after, rfl, lives, nothing⟩ | ⟨maker, key, rfl, lives, nothing⟩)
    · exact ⟨before, maker, key, after ++ [op], by simp, lives, nothing⟩
    · exact ⟨ops, maker, key, [], rfl, lives, nothing⟩

end

/-! ### The registry -/

variable {extractKey} {ops : List (Op K P)}

theorem makers_run : (run extractKey ops).makers = makers ops := by
  induction ops using List.reverseRecOn with
  | nil => rfl
  | append_singleton ops op ih =>
    rw [run_append, makers_append, ← ih]
    cases op with
    | make key => rfl
    | destroy maker =>
      rw [World.step]
      cases lives : (run extractKey ops).makers.live maker with
      | none =>
        have same := Function.update_eq_self maker (run extractKey ops).makers.live
        rw [lives] at same
        rw [Makers.step, same]
      | some key => rfl
    | isKeyRegistered key => rfl
    | newObject param => rfl

/-- The registry has the makers that stand, until a destruction leaves none. -/
def Registered (ops : List (Op K P)) : Option (List (K × ℕ)) → Prop
  | none => Emptied ops
  | some registry => ¬ Emptied ops ∧ ∀ maker key, (key, maker) ∈ registry ↔ Standing ops maker key

omit [DecidableEq K] in
/-- A step that neither makes nor destroys a maker changes nothing here. -/
theorem Registered.stays {op : Op K P} {registry : Option (List (K × ℕ))} (was : Registered ops registry)
    (made : ∀ key, op ≠ .make key) (destroyed : ∀ maker key, op = .destroy maker → (makers ops).live maker ≠ some key) :
    Registered (ops ++ [op]) registry := by
  have emptied : Emptied (ops ++ [op]) ↔ Emptied ops := by
    rw [emptied_append]
    exact or_iff_left fun ⟨maker, key, same, lives, _⟩ => destroyed maker key same lives
  cases registry with
  | none => exact emptied.mpr was
  | some registry =>
    refine ⟨fun now => was.1 (emptied.mp now), fun maker key => ?_⟩
    rw [was.2 maker key, standing_append, or_iff_right fun made' => made key made'.1]
    exact ⟨fun stands => ⟨stands, fun other => destroyed other key⟩, And.left⟩

omit [DecidableEq K] in
theorem Registered.register {key : K} {registry : Option (List (K × ℕ))} (was : Registered ops registry) :
    Registered (ops ++ [.make key]) (register (makers ops) key registry).1 := by
  have emptied : Emptied (ops ++ [.make key]) ↔ Emptied ops := by simp [emptied_append]
  cases registry with
  | none => exact emptied.mpr was
  | some registry =>
    refine ⟨fun now => was.1 (emptied.mp now), fun maker key' => ?_⟩
    rw [List.mem_append, was.2 maker key', standing_append]
    simp [or_comm, eq_comm]

theorem Registered.unregister {maker : ℕ} {key : K} {registry : Option (List (K × ℕ))} (was : Registered ops registry)
    (lives : (makers ops).live maker = some key) :
    Registered (ops ++ [.destroy maker]) (unregister key registry).1 := by
  cases registry with
  | none => exact emptied_append.mpr (.inl was)
  | some registry =>
    have left (other : ℕ) (key' : K) : (key', other) ∈ registry.filter (fun entry => entry.1 ≠ key) ↔
        Standing (ops ++ [.destroy maker]) other key' := by
      have apart : (∀ gone, (.destroy maker : Op K P) = .destroy gone → (makers ops).live gone ≠ some key') ↔ key' ≠ key := by
        simp [lives, ne_comm (a := key')]
      rw [List.mem_filter, was.2 other key', standing_append, apart]
      simp
    simp only [MakerRegistry.unregister]
    split_ifs with empty
    · rw [List.length_eq_zero_iff] at empty
      refine emptied_append.mpr (.inr ⟨maker, key, rfl, lives, fun other key' stands => ?_⟩)
      have mem := (left other key').mpr stands
      rw [empty] at mem
      cases mem
    · refine ⟨fun now => ?_, left⟩
      rcases emptied_append.mp now with before | ⟨_, _, _, _, nothing⟩
      · exact was.1 before
      · rw [List.length_eq_zero_iff, List.eq_nil_iff_forall_not_mem] at empty
        exact empty fun entry mem => nothing entry.2 entry.1 ((left entry.2 entry.1).mp mem)

theorem registered_run : Registered ops (run extractKey ops).registry := by
  induction ops using List.reverseRecOn with
  | nil =>
    refine ⟨?_, fun maker key => ?_⟩
    · rintro ⟨before, maker, key, after, split, -⟩
      simp at split
    · simp [standing_nil]
  | append_singleton ops op ih =>
    rw [run_append]
    cases op with
    | make key =>
      rw [World.step, makers_run]
      exact ih.register
    | destroy maker =>
      rw [World.step, makers_run]
      cases lives : (makers ops).live maker with
      | none => exact ih.stays (fun _ same => by cases same) fun other key same => by cases same; simp [lives]
      | some key => exact ih.unregister lives
    | isKeyRegistered key => exact ih.stays (fun _ same => by cases same) fun _ _ same => by cases same
    | newObject param => exact ih.stays (fun _ same => by cases same) fun _ _ same => by cases same

/-! ### What is found -/

theorem find_key {registry : List (K × ℕ)} {key : K} {entry : K × ℕ}
    (found : registry.find? (fun entry => entry.1 = key) = some entry) : entry ∈ registry ∧ entry.1 = key :=
  ⟨List.mem_of_find?_eq_some found, by simpa using List.find?_some found⟩

/-- A maker of the key is found exactly when one stands. -/
theorem find_standing {registry : List (K × ℕ)} (was : Registered ops (some registry)) (key : K) :
    (registry.find? fun entry => entry.1 = key).isSome ↔ ∃ maker, Standing ops maker key := by
  rw [List.find?_isSome]
  constructor
  · rintro ⟨⟨key', maker⟩, mem, same⟩
    obtain rfl : key' = key := by simpa using same
    exact ⟨maker, (was.2 maker key').mp mem⟩
  · rintro ⟨maker, stands⟩
    exact ⟨(key, maker), (was.2 maker key).mpr stands, by simp⟩

/-- With a registry, what is looked up is right exactly when a maker of the key stands if one lives. -/
theorem found_iff {registry : List (K × ℕ)} (was : Registered ops (some registry)) (key : K) :
    ((registry.find? fun entry => entry.1 = key).isSome ↔ Lives ops key) ↔ (Lives ops key → ∃ maker, Standing ops maker key) := by
  rw [find_standing was]
  exact ⟨Iff.mpr, fun stands => ⟨fun ⟨maker, there⟩ => ⟨maker, there.lives⟩, stands⟩⟩

theorem lookupMaker_created {registry : List (K × ℕ)} (key : K) :
    (∃ maker, lookupMaker key (some registry) = .created maker) ↔ (registry.find? fun entry => entry.1 = key).isSome := by
  rw [lookupMaker]
  cases registry.find? fun entry => entry.1 = key with
  | none => simp
  | some entry => simp

variable (extractKey) in
theorem emptied_iff : (run extractKey ops).registry = none ↔ Emptied ops := by
  have was : Registered ops (run extractKey ops).registry := registered_run
  cases registry : (run extractKey ops).registry with
  | none =>
    rw [registry] at was
    exact iff_of_true rfl was
  | some entries =>
    rw [registry] at was
    exact iff_of_false (fun none => by cases none) was.1

/-- All but the destruction of what does not live uses the registry. -/
theorem touched_iff {op : Op K P} : outcome extractKey ops op = .touchedDeleted ↔
    (∀ maker, op = .destroy maker → (makers ops).live maker ≠ none) ∧ Emptied ops := by
  rw [← emptied_iff extractKey, outcome]
  cases op with
  | make key =>
    rw [World.step]
    cases (run extractKey ops).registry <;> simp [register]
  | destroy maker =>
    rw [World.step, makers_run]
    cases lives : (makers ops).live maker with
    | none => simp [lives]
    | some key => cases (run extractKey ops).registry <;> simp [unregister, lives]
  | isKeyRegistered key =>
    rw [World.step]
    cases (run extractKey ops).registry <;> simp [isKeyRegistered]
  | newObject param =>
    rw [World.step]
    cases (run extractKey ops).registry with
    | none => simp [lookupMaker]
    | some registry =>
      rw [lookupMaker]
      cases registry.find? fun entry => entry.1 = extractKey param <;> simp

theorem untouched_iff {op : Op K P} : outcome extractKey ops op ≠ .touchedDeleted ↔
    ((∀ maker, op = .destroy maker → (makers ops).live maker ≠ none) → ¬ Emptied ops) := by
  rw [ne_eq, touched_iff, not_and]

variable (extractKey) in
theorem kept (kept : ¬ Emptied ops) : ∃ registry, (run extractKey ops).registry = some registry ∧ Registered ops (some registry) := by
  have was : Registered ops (run extractKey ops).registry := registered_run
  cases there : (run extractKey ops).registry with
  | none => exact absurd ((emptied_iff extractKey).mp there) kept
  | some registry => exact ⟨registry, rfl, there ▸ was⟩

variable (extractKey) in
theorem registered_iff (key : K) (there : ¬ Emptied ops) :
    (outcome extractKey ops (.isKeyRegistered key) = .registered true ↔ Lives ops key) ↔
      (Lives ops key → ∃ maker, Standing ops maker key) := by
  obtain ⟨registry, there, was⟩ := kept extractKey there
  rw [← found_iff was, outcome, World.step, there, isKeyRegistered]
  simp

theorem created_iff (param : P) (there : ¬ Emptied ops) :
    ((∃ maker, outcome extractKey ops (.newObject param) = .created maker) ↔ Lives ops (extractKey param)) ↔
      (Lives ops (extractKey param) → ∃ maker, Standing ops maker (extractKey param)) := by
  obtain ⟨registry, there, was⟩ := kept extractKey there
  rw [← found_iff was, ← lookupMaker_created, outcome, World.step, there]

/-- An object is only created by a maker of its key that lives. -/
theorem created_lives {param : P} {maker : ℕ} (created : outcome extractKey ops (.newObject param) = .created maker) :
    (makers ops).live maker = some (extractKey param) := by
  have was : Registered ops (run extractKey ops).registry := registered_run
  rw [outcome, World.step] at created
  cases there : (run extractKey ops).registry with
  | none =>
    rw [there, lookupMaker] at created
    cases created
  | some registry =>
    rw [there] at was created
    rw [lookupMaker] at created
    cases found : registry.find? fun entry => entry.1 = extractKey param with
    | none => simp [found] at created
    | some entry =>
      obtain rfl : entry.2 = maker := by simpa [found] using created
      obtain ⟨mem, same⟩ := find_key found
      rw [← same]
      exact ((was.2 entry.2 entry.1).mp mem).lives

theorem right_iff_fits (op : Op K P) : Right extractKey ops op ↔ Fits extractKey ops op := by
  cases op with
  | make key =>
    exact ⟨fun right => ⟨untouched_iff.mp right.untouched, by simp⟩,
      fun fits => ⟨untouched_iff.mpr fits.kept, by simp, by simp, by simp⟩⟩
  | destroy maker =>
    exact ⟨fun right => ⟨untouched_iff.mp right.untouched, by simp⟩,
      fun fits => ⟨untouched_iff.mpr fits.kept, by simp, by simp, by simp⟩⟩
  | isKeyRegistered key =>
    constructor
    · intro right
      have kept := untouched_iff.mp right.untouched
      refine ⟨kept, fun key' looked => ?_⟩
      obtain rfl : key = key' := by simpa using looked
      exact (registered_iff extractKey key (kept (by simp))).mp (right.registered key rfl)
    · intro fits
      have there := fits.kept (by simp)
      refine ⟨untouched_iff.mpr fits.kept, fun key' same => ?_, by simp, by simp⟩
      obtain rfl : key = key' := by simpa using same
      exact (registered_iff extractKey key there).mpr (fits.stands key (.inl rfl))
  | newObject param =>
    constructor
    · intro right
      have kept := untouched_iff.mp right.untouched
      refine ⟨kept, fun key looked => ?_⟩
      obtain rfl : extractKey param = key := by simpa using looked
      exact (created_iff param (kept (by simp))).mp (right.created param rfl)
    · intro fits
      have there := fits.kept (by simp)
      refine ⟨untouched_iff.mpr fits.kept, by simp, fun param' same => ?_, fun param' maker same created => ?_⟩
      · obtain rfl : param = param' := by simpa using same
        exact (created_iff param there).mpr (fits.stands _ (.inr ⟨param, rfl, rfl⟩))
      · obtain rfl : param = param' := by simpa using same
        exact created_lives created

variable (extractKey) in
/-- A run is as is meant exactly when nothing is done after a destruction that left no maker standing,
    and one stands of each key that is looked up if one lives. -/
theorem registry_right (ops : List (Op K P)) : RunRight extractKey ops ↔ RunFits extractKey ops :=
  forall₄_congr fun _ op _ _ => right_iff_fits op

end

/-- Of two makers under one key the first is destroyed, and the other is not found any more. One that is
    made after the last was destroyed uses the registry that was deleted. -/
theorem registry_wrong :
    ¬ RunRight (id : ℕ → ℕ) [.make 5, .make 5, .make 6, .destroy 0, .isKeyRegistered 5] ∧
    ¬ RunRight (id : ℕ → ℕ) [.make 5, .destroy 0, .make 5] := by
  constructor
  · intro right
    have found := (right [.make 5, .make 5, .make 6, .destroy 0] (.isKeyRegistered 5) [] rfl).registered 5 rfl
    exact absurd (found.mpr ⟨1, rfl⟩) (by decide)
  · intro right
    exact (right [.make 5, .destroy 0] (.make 5) [] rfl).untouched (by decide)

end Tortuga.MakerRegistry
