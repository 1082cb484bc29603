import Mathlib.Data.List.Induction
import Mathlib.Data.String.Basic
import Tortuga.Machines
import Tortuga.SortedMaps

/-!
`EventPublisherRegistry`: the publishers by name. A name that is taken stays with its
publisher, and an entry is taken out by its name alone.
-/
namespace Tortuga.PublisherRegistry
open Tortuga.Machines
open Tortuga.SortedMaps
set_option linter.unusedSimpArgs false

/-! ### The registry -/

/-- What `getRegistry` holds. The calls come one at a time: each has the write lock. -/
abbrev Registry (P : Type) := SortedMap String P

section
variable {P : Type} (getPublisherName : P → String)

def lookupByName (registry : Registry P) (name : String) : Option P := registry.get? name

/-- `map::insert` leaves an entry that is there as it is. -/
def registerPublisher (registry : Registry P) (publisher : P) : Registry P :=
  match registry.get? (getPublisherName publisher) with
  | none => registry.set (getPublisherName publisher) publisher
  | some _ => registry

def unRegisterPublisher (registry : Registry P) (publisher : P) : Registry P :=
  match registry.get? (getPublisherName publisher) with
  | none => registry
  | some _ => registry.erase (getPublisherName publisher)

/-- A call of one of the two. -/
inductive Act (P : Type) where
  | register (publisher : P)
  | unRegister (publisher : P)
  deriving DecidableEq, Repr

def next (registry : Registry P) : Act P → Registry P
  | .register publisher => registerPublisher getPublisherName registry publisher
  | .unRegister publisher => unRegisterPublisher getPublisherName registry publisher

/-- The registry after some calls. -/
def registryAfter (acts : List (Act P)) : Registry P := after (next getPublisherName) .empty acts

/-! ### What the calls say -/

/-- The publisher has been registered, and not unregistered since. -/
def Registered (publisher : P) (acts : List (Act P)) : Prop :=
  ∃ front back, acts = front ++ .register publisher :: back ∧ .unRegister publisher ∉ back

/-- The publishers that have been registered under a name, in this order, since the last one was unregistered under it. -/
def since (name : String) (acts : List (Act P)) : List P :=
  acts.foldl (fun held act =>
    match act with
    | .register publisher => if getPublisherName publisher = name then held ++ [publisher] else held
    | .unRegister publisher => if getPublisherName publisher = name then [] else held) []

variable {getPublisherName} {acts : List (Act P)} {name : String} {p q : P}

theorem registered_register : Registered p (acts ++ [.register p]) := ⟨acts, [], rfl, by simp⟩

theorem Registered.snoc {act : Act P} (registered : Registered p acts) (other : act ≠ .unRegister p) :
    Registered p (acts ++ [act]) := by
  obtain ⟨front, back, rfl, kept⟩ := registered
  refine ⟨front, back ++ [act], by simp, ?_⟩
  intro mem
  rcases List.mem_append.mp mem with before | last
  · exact kept before
  · exact other (List.mem_singleton.mp last).symm

theorem since_register : since getPublisherName name (acts ++ [.register p]) =
    if getPublisherName p = name then since getPublisherName name acts ++ [p] else since getPublisherName name acts := by
  rw [since, List.foldl_append]
  rfl

theorem since_unRegister : since getPublisherName name (acts ++ [.unRegister p]) =
    if getPublisherName p = name then [] else since getPublisherName name acts := by
  rw [since, List.foldl_append]
  rfl

/-- These publishers have the name and are registered still. -/
theorem mem_since (mem : p ∈ since getPublisherName name acts) : getPublisherName p = name ∧ Registered p acts := by
  induction acts using List.reverseRecOn with
  | nil => cases mem
  | append_singleton acts act ih =>
    cases act with
    | register q =>
      rw [since_register] at mem
      split at mem
      case isTrue named =>
        rcases List.mem_append.mp mem with before | last
        · exact ⟨(ih before).1, (ih before).2.snoc (by simp)⟩
        · cases List.mem_singleton.mp last
          exact ⟨named, registered_register⟩
      case isFalse => exact ⟨(ih mem).1, (ih mem).2.snoc (by simp)⟩
    | unRegister q =>
      rw [since_unRegister] at mem
      split at mem
      case isTrue => cases mem
      case isFalse other =>
        have before := ih mem
        refine ⟨before.1, before.2.snoc ?_⟩
        intro same
        cases Act.unRegister.inj same
        exact other before.1

/-! ### The entries -/

theorem registryAfter_snoc {act : Act P} :
    registryAfter getPublisherName (acts ++ [act]) = next getPublisherName (registryAfter getPublisherName acts) act := by
  rw [registryAfter, after_append]
  rfl

theorem lookup_register {registry : Registry P} :
    lookupByName (registerPublisher getPublisherName registry p) name =
      (lookupByName registry name).or (if getPublisherName p = name then some p else none) := by
  unfold lookupByName registerPublisher
  by_cases same : getPublisherName p = name
  · subst same
    cases taken : registry.get? (getPublisherName p) with
    | none => simp
    | some holder => simp [taken]
  · have other : name ≠ getPublisherName p := Ne.symm same
    rw [if_neg same, Option.or_none]
    cases registry.get? (getPublisherName p) with
    | none => exact registry.get?_set_ne other p
    | some holder => rfl

theorem lookup_unRegister {registry : Registry P} :
    lookupByName (unRegisterPublisher getPublisherName registry p) name =
      if getPublisherName p = name then none else lookupByName registry name := by
  unfold lookupByName unRegisterPublisher
  by_cases same : getPublisherName p = name
  · subst same
    cases taken : registry.get? (getPublisherName p) with
    | none => simp [taken]
    | some holder => simp [SortedMap.get?_erase]
  · have other : name ≠ getPublisherName p := Ne.symm same
    rw [if_neg same]
    cases registry.get? (getPublisherName p) with
    | none => rfl
    | some holder => simp [SortedMap.get?_erase, other]

/-- The entry of a name is the first publisher that came after the name was free. -/
theorem lookup_since : lookupByName (registryAfter getPublisherName acts) name = (since getPublisherName name acts).head? := by
  induction acts using List.reverseRecOn with
  | nil => rfl
  | append_singleton acts act ih =>
    rw [registryAfter_snoc]
    cases act with
    | register p =>
      rw [next, lookup_register, ih, since_register]
      split
      case isTrue => rw [List.head?_append, List.head?_singleton]
      case isFalse => rw [Option.or_none]
    | unRegister p =>
      rw [next, lookup_unRegister, ih, since_unRegister]
      split <;> rfl

/-- No entry of another publisher goes when this one is unregistered. -/
def Spares (getPublisherName : P → String) (acts : List (Act P)) (p : P) : Prop :=
  ∀ name q, q ≠ p → lookupByName (registryAfter getPublisherName acts) name = some q →
    lookupByName (registryAfter getPublisherName (acts ++ [.unRegister p])) name = some q

theorem spares_iff : Spares getPublisherName acts p ↔ ∀ q, (since getPublisherName (getPublisherName p) acts).head? = some q → q = p := by
  unfold Spares
  simp only [registryAfter_snoc, next, lookup_unRegister]
  constructor
  · intro spares q first
    refine Classical.byContradiction (fun other => ?_)
    have kept := spares (getPublisherName p) q other (lookup_since.trans first)
    rw [if_pos rfl] at kept
    cases kept
  · intro own name q other found
    rw [if_neg]
    · exact found
    · rintro rfl
      exact other (own q (lookup_since.symm.trans found))

/-- After every sequence of calls a name gives a publisher that has this name and is registered. The entry of another
    publisher is spared exactly when the first one registered under the name, since the name was last
    unregistered, is the one that goes. -/
theorem registry_correct (getPublisherName : P → String) (acts : List (Act P)) :
    (∀ name p, lookupByName (registryAfter getPublisherName acts) name = some p → getPublisherName p = name ∧ Registered p acts) ∧
      ∀ p, Spares getPublisherName acts p ↔
        ∀ q, (since getPublisherName (getPublisherName p) acts).head? = some q → q = p := by
  refine ⟨fun name p found => ?_, fun p => spares_iff⟩
  rw [lookup_since] at found
  exact mem_since (List.mem_of_head? found)

/-- The second of two publishers with one name takes the entry of the first with it. -/
theorem registry_shared : lookupByName (registryAfter (fun _ : Bool => "Camera") [.register false, .register true]) "Camera" = some false ∧
    lookupByName (registryAfter (fun _ : Bool => "Camera") [.register false, .register true, .unRegister true]) "Camera" = none ∧
    Registered false [.register false, .register true, .unRegister true] := by
  refine ⟨by decide +kernel, by decide +kernel, [], [.register true, .unRegister true], rfl, by decide⟩

end

/-! ### The publishers -/

section
variable {P : Type} (getPublisherName : P → String)

/-- A publisher comes or goes. -/
inductive Life (P : Type) where
  | construct (publisher : P)
  | destroy (publisher : P)
  deriving DecidableEq, Repr

/-- What the constructor and the destructor of `EventPublisher` call. -/
def Life.acts : Life P → List (Act P)
  | .construct publisher => if getPublisherName publisher ≠ "UNNAMED" then [.register publisher] else []
  | .destroy publisher => if getPublisherName publisher ≠ "UNNAMED" then [.unRegister publisher] else []

variable {getPublisherName}

/-- A publisher without a name of its own is not recorded. -/
theorem unnamed_absent (lives : List (Life P)) :
    lookupByName (registryAfter getPublisherName (lives.flatMap (Life.acts getPublisherName))) "UNNAMED" = none := by
  rw [lookup_since]
  induction lives using List.reverseRecOn with
  | nil => rfl
  | append_singleton lives life ih =>
    rw [List.flatMap_append, List.flatMap_singleton]
    cases life with
    | construct p =>
      rw [Life.acts]
      split
      case isTrue named => rw [since_register, if_neg named, ih]
      case isFalse => rw [List.append_nil, ih]
    | destroy p =>
      rw [Life.acts]
      split
      case isTrue named => rw [since_unRegister, if_neg named, ih]
      case isFalse => rw [List.append_nil, ih]

end

end Tortuga.PublisherRegistry
