import Mathlib.Data.List.Perm.Subperm
import Mathlib.Data.String.Basic
import Mathlib.Logic.Function.Basic
import Tortuga.Precedence
import Tortuga.Raising
import Tortuga.SortedMaps

/-!
`load_modules` (`module.py`): the modules of a configuration are loaded when the lists of what
they depend on have become empty. A module that is registered already is left out, and nobody
takes it out of the lists.
-/
namespace Tortuga.ModuleLoading
open Tortuga.Precedence
open Tortuga.Raising (except_bind_ok)
open Tortuga.SortedMaps
set_option linter.unusedSimpArgs false

abbrev Name := String

/-- `depends_on` of a node: a list object, which other nodes may have too, or something else. -/
inductive DependsOn where
  | missing
  | list (object : ℕ)
  | other (type : String)
  deriving DecidableEq, Repr

structure ConfigNode where
  type : Name
  dependsOn : DependsOn
  deriving DecidableEq, Repr

/-- The section `Modules`, and what its list objects hold. -/
structure Config where
  modules : SortedMap Name ConfigNode
  lists : ℕ → List Name

inductive PyError where
  | keyError (text : String)
  | typeError (text : String)
  | valueError
  | raised (text : String)
  deriving DecidableEq, Repr

/-- A value of `mod_depends`. Without a list object `depends` is an empty list that nobody else has. -/
structure Entry (C : Type) where
  depends : Option ℕ
  modType : C
  deriving DecidableEq, Repr

/-- The variables of `load_modules`, what the list objects hold by now, and the calls of `_load_func`. -/
structure Loader (C : Type) where
  modDepends : SortedMap Name (Entry C)
  modDependees : Name → List Name
  lists : ℕ → List Name
  loaded : List (Name × C)
  cycle : Bool

section
variable {C : Type}

def Entry.current (lists : ℕ → List Name) (e : Entry C) : List Name := e.depends.elim [] lists

def Loader.names (s : Loader C) : List Name := s.loaded.map Prod.fst

/-! ### The lists of dependencies -/

/-- The body of the loop over `depends`. -/
def addDependee (config : Config) (name : Name) (dependees : Name → List Name) (dep : Name) :
    Except PyError (Name → List Name) :=
  if dep ∈ config.modules.keys then .ok (Function.update dependees dep (dependees dep ++ [name]))
  else .error (.keyError ("No module called \"" ++ dep ++ "\" could be found"))

variable (classes : Name → Option C) (registry : List Name) (config : Config)

/-- The body of the loop over `mod_nodes`. `classes` are those that `Component.get_class` knows. -/
def addNode (s : Loader C) (name : Name) : Except PyError (Loader C) :=
  match config.modules.get? name with
  | none => .ok s
  | some node =>
    match classes node.type with
    | none => .error (.keyError node.type)
    | some modType =>
      if name ∈ registry then .ok s
      else match node.dependsOn with
        | .missing => .ok { s with modDepends := s.modDepends.set name ⟨none, modType⟩ }
        | .other type => .error (.typeError ("'depends_on' must be a list not " ++ type))
        | .list object => do
          let dependees ← (config.lists object).foldlM (addDependee config name) s.modDependees
          return { s with modDependees := dependees, modDepends := s.modDepends.set name ⟨some object, modType⟩ }

/-! ### Loading -/

/-- `deps.remove(name)` and what follows. The entry that was read is put back as it is. -/
def Loader.remove (name : Name) (object : ℕ) (dependent : Name) (entry : Entry C) (s : Loader C) : Loader C :=
  { s with
    lists := Function.update s.lists object ((s.lists object).erase name)
    modDepends := s.modDepends.set dependent entry }

/-- The body of the loop over the dependents of `name`. -/
def updateDependent (name : Name) (s : Loader C) (dependent : Name) : Except PyError (Loader C) :=
  match s.modDepends.get? dependent with
  | none => .error (.keyError dependent)
  | some entry =>
    match entry.depends with
    | none => .error .valueError
    | some object =>
      if name ∈ s.lists object then .ok (s.remove name object dependent entry) else .error .valueError

/-- The body of the loop over the items of `mod_depends`. An item has the list object, not what was in it. -/
def visit (s : Loader C) (item : Name × Entry C) : Except PyError (Loader C) :=
  if item.2.current s.lists = [] then do
    let s := { s with loaded := s.loaded ++ [(item.1, item.2.modType)] }
    let s ← (s.modDependees item.1).foldlM (updateDependent item.1) s
    return { s with modDepends := s.modDepends.erase item.1, cycle := false }
  else return s

/-- The items of a dictionary, in the order that the interpreter has them in at this point of the run. -/
def items {V : Type} (order : ℕ → List Name → List Name) (k : ℕ) (m : SortedMap Name V) : List (Name × V) :=
  (order k m.keys).filterMap fun name => (m.get? name).map fun value => (name, value)

/-- The loop over `mod_depends`, and nothing where it takes more rounds than `fuel`. -/
def passes (order : ℕ → List Name → List Name) : ℕ → ℕ → Loader C → Option (Except PyError (Loader C))
  | 0, _, _ => none
  | fuel + 1, k, s =>
    if s.modDepends.entries = [] then some (.ok s)
    else match (items order k s.modDepends).foldlM visit { s with cycle := true } with
      | .error e => some (.error e)
      | .ok s => if s.cycle then some (.error (.raised "Cycle found in module dependencies")) else passes order fuel (k + 1) s

def Loader.new (config : Config) : Loader C := ⟨.empty, fun _ => [], config.lists, [], true⟩

def loadModules (order : ℕ → List Name → List Name) (fuel : ℕ) : Option (Except PyError (Loader C)) :=
  match (order 0 config.modules.keys).foldlM (addNode classes registry config) (Loader.new config) with
  | .error e => some (.error e)
  | .ok s => passes order fuel 1 s

/-! ### What is meant -/

/-- The list `depends_on` of a module. -/
def depends (n : Name) : List Name :=
  match config.modules.get? n with
  | some ⟨_, .list object⟩ => config.lists object
  | _ => []

/-- The module is in the configuration and not registered yet. -/
def Pending (n : Name) : Prop := n ∈ config.modules.keys ∧ n ∉ registry

instance (n : Name) : Decidable (Pending registry config n) := inferInstanceAs (Decidable (_ ∧ _))

/-- Every type is that of a class, and what the modules to be loaded depend on are lists of modules. -/
structure Valid : Prop where
  known : ∀ n node, config.modules.get? n = some node → classes node.type ≠ none
  list : ∀ n node, config.modules.get? n = some node → n ∉ registry → ∀ type, node.dependsOn ≠ .other type
  named : ∀ n, Pending registry config n → ∀ d ∈ depends config n, d ∈ config.modules.keys

/-- Each module that was not registered is loaded once, with its own type, when all that it depends on is there. -/
structure LoadsAll (s : Loader C) : Prop where
  nodup : s.names.Nodup
  all : ∀ n, n ∈ s.names ↔ Pending registry config n
  typed : ∀ call ∈ s.loaded, ∃ node, config.modules.get? call.1 = some node ∧ classes node.type = some call.2
  order : Respects (fun d n => d ∈ depends config n ∧ d ∉ registry) s.names

/-- `load_modules` comes to its end without an error, and has loaded all modules. -/
def Loads (order : ℕ → List Name → List Name) : Prop :=
  ∃ fuel s, loadModules classes registry config order fuel = some (.ok s) ∧ LoadsAll classes registry config s

/-- No module to be loaded depends on one that is registered, and no two of them have one list that is not empty. -/
def Separate : Prop :=
  (∀ n, Pending registry config n → ∀ d ∈ depends config n, d ∉ registry) ∧
  ∀ n m node node' object, Pending registry config n → Pending registry config m → config.modules.get? n = some node →
    config.modules.get? m = some node' → node.dependsOn = .list object → node'.dependsOn = .list object → n ≠ m →
    config.lists object = []

/-! ### What one step does -/

def DependsOn.object : DependsOn → Option ℕ
  | .list object => some object
  | _ => none

/-- The entry of a module that is to be loaded. -/
def entryOf (n : Name) : Option (Entry C) :=
  if n ∈ registry then none
  else (config.modules.get? n).bind fun node => (classes node.type).map fun c => ⟨node.dependsOn.object, c⟩

/-- The module has the list object `r`. -/
def Loader.on (s : Loader C) (r : ℕ) (m : Name) : Bool := decide ((s.modDepends.get? m).bind Entry.depends = some r)

/-- What the loop over the dependents `l` of a module does. -/
structure Removed (name : Name) (l : List Name) (s s' : Loader C) : Prop where
  map : ∀ m, s'.modDepends.get? m = s.modDepends.get? m
  dependees : s'.modDependees = s.modDependees
  loaded : s'.loaded = s.loaded
  cycle : s'.cycle = s.cycle
  there : ∀ m ∈ l, s.modDepends.get? m ≠ none
  others : ∀ r, (s'.lists r).filter (· ≠ name) = (s.lists r).filter (· ≠ name)
  taken : ∀ r, (s'.lists r).count name + l.countP (s.on r) = (s.lists r).count name

/-- What loading a module does. -/
structure Load (s s' : Loader C) (n : Name) (e : Entry C) : Prop where
  loaded : s'.loaded = s.loaded ++ [(n, e.modType)]
  map : ∀ m, s'.modDepends.get? m = if m = n then none else s.modDepends.get? m
  dependees : s'.modDependees = s.modDependees
  cycle : s'.cycle = false
  there : ∀ m ∈ s.modDependees n, s.modDepends.get? m ≠ none
  others : ∀ r, (s'.lists r).filter (· ≠ n) = (s.lists r).filter (· ≠ n)
  taken : ∀ r, (s'.lists r).count n + (s.modDependees n).countP (s.on r) = (s.lists r).count n

variable {classes registry config} {s s' : Loader C} {n m name : Name} {e : Entry C} {l : List Name}

theorem updateDependent_ok : updateDependent name s m = .ok s' ↔
    ∃ e r, s.modDepends.get? m = some e ∧ e.depends = some r ∧ name ∈ s.lists r ∧ s' = s.remove name r m e := by
  rw [updateDependent]
  cases found : s.modDepends.get? m with
  | none => simp
  | some e =>
    cases object : e.depends with
    | none => simp [object]
    | some r =>
      by_cases here : name ∈ s.lists r
      · simp [object, here, eq_comm]
      · simp [object, here]

theorem remove_lists (r r' : ℕ) : (s.remove name r m e).lists r' = if r' = r then (s.lists r).erase name else s.lists r' :=
  Function.update_apply _ _ _ _

theorem remove_map (found : s.modDepends.get? m = some e) (r : ℕ) (k : Name) :
    (s.remove name r m e).modDepends.get? k = s.modDepends.get? k := by
  rw [Loader.remove, SortedMap.get?_set]
  by_cases equal : k = m
  · rw [if_pos equal, equal, found]
  · rw [if_neg equal]

theorem on_congr (same : ∀ k, s'.modDepends.get? k = s.modDepends.get? k) (r : ℕ) (l : List Name) :
    l.countP (s'.on r) = l.countP (s.on r) := by
  refine List.countP_congr fun k _ => ?_
  rw [Loader.on, Loader.on, same]

theorem removed_nil : Removed name [] s s where
  map _ := rfl
  dependees := rfl
  loaded := rfl
  cycle := rfl
  there _ member := absurd member List.not_mem_nil
  others _ := rfl
  taken _ := rfl

/-- One dependent, and then the others. -/
theorem Removed.cons {t : Loader C} (first : updateDependent name s m = .ok t) (rest : Removed name l t s') :
    Removed name (m :: l) s s' := by
  obtain ⟨e, object, found, own, here, rfl⟩ := updateDependent_ok.mp first
  have same (k : Name) : (s.remove name object m e).modDepends.get? k = s.modDepends.get? k := remove_map found object k
  refine ⟨fun k => (rest.map k).trans (same k), rest.dependees, rest.loaded, rest.cycle, ?_, fun r => ?_, fun r => ?_⟩
  · intro k member
    rcases List.mem_cons.mp member with rfl | later
    · rw [found]
      exact Option.some_ne_none e
    · rw [← same k]
      exact rest.there k later
  · rw [rest.others r, remove_lists]
    by_cases equal : r = object
    · rw [if_pos equal, equal, ← List.erase_filter]
      exact List.erase_of_not_mem (by simp)
    · rw [if_neg equal]
  · have taken := rest.taken r
    rw [on_congr same, remove_lists] at taken
    rw [List.countP_cons]
    by_cases equal : r = object
    · have positive := List.count_pos_iff.mpr here
      have mine : s.on r m = true := by simp [Loader.on, found, own, equal]
      rw [if_pos equal, List.count_erase_self] at taken
      rw [if_pos mine, equal]
      rw [equal] at taken
      omega
    · have other : ¬ s.on r m = true := by
        simp [Loader.on, found, own]
        exact fun same => equal same.symm
      rw [if_neg equal] at taken
      rw [if_neg other]
      exact taken

theorem updateDependents_ok (done : l.foldlM (updateDependent name) s = .ok s') : Removed name l s s' := by
  induction l generalizing s with
  | nil =>
    cases done
    exact removed_nil
  | cons m l ih =>
    rw [List.foldlM_cons] at done
    obtain ⟨t, first, rest⟩ := except_bind_ok.mp done
    exact (ih rest).cons first

/-- As long as the lists hold the name often enough, all goes well. -/
theorem updateDependents_exists (there : ∀ m ∈ l, ∃ r, (s.modDepends.get? m).bind Entry.depends = some r)
    (enough : ∀ r, l.countP (s.on r) ≤ (s.lists r).count name) : ∃ s', l.foldlM (updateDependent name) s = .ok s' := by
  induction l generalizing s with
  | nil => exact ⟨s, rfl⟩
  | cons m l ih =>
    obtain ⟨object, own⟩ := there m List.mem_cons_self
    obtain ⟨e, found, depends⟩ := Option.bind_eq_some_iff.mp own
    have mine : s.on object m = true := by simp [Loader.on, found, depends]
    have here : name ∈ s.lists object := by
      have := enough object
      rw [List.countP_cons, if_pos mine] at this
      exact List.count_pos_iff.mp (by omega)
    have first := updateDependent_ok.mpr ⟨e, object, found, depends, here, rfl⟩
    have one := removed_nil.cons first
    have later (k : Name) (member : k ∈ l) : ∃ r, ((s.remove name object m e).modDepends.get? k).bind Entry.depends = some r := by
      rw [one.map k]
      exact there k (List.mem_cons_of_mem m member)
    have left (r : ℕ) : l.countP ((s.remove name object m e).on r) ≤ ((s.remove name object m e).lists r).count name := by
      have before := enough r
      have taken := one.taken r
      rw [on_congr one.map]
      rw [List.countP_cons] at before taken
      rw [List.countP_nil] at taken
      omega
    obtain ⟨s', rest⟩ := ih later left
    refine ⟨s', ?_⟩
    rw [List.foldlM_cons, first]
    exact rest

theorem visit_ok (done : visit s (n, e) = .ok s') :
    e.current s.lists ≠ [] ∧ s' = s ∨ e.current s.lists = [] ∧ Load s s' n e := by
  rw [visit] at done
  split at done
  · next empty =>
    obtain ⟨t, removed, same⟩ := except_bind_ok.mp done
    cases same
    have after := updateDependents_ok removed
    refine .inr ⟨empty, ?_, fun m => ?_, after.dependees, rfl, after.there, after.others, after.taken⟩
    · exact after.loaded
    · dsimp only
      rw [SortedMap.get?_erase, after.map]
  · next busy =>
    cases done
    exact .inl ⟨busy, rfl⟩

/-! ### The first loop -/

/-- How often a module is among the dependents of `d`. -/
def Dependees (registry : List Name) (config : Config) (seen : List Name) (dependees : Name → List Name) : Prop :=
  ∀ d n, (dependees d).count n = if n ∈ seen ∧ Pending registry config n then (depends config n).count d else 0

/-- What the loop over the nodes has built when it has seen some of them. -/
structure Gathered (classes : Name → Option C) (registry : List Name) (config : Config) (seen : List Name) (s : Loader C) : Prop where
  map : ∀ n, s.modDepends.get? n = if n ∈ seen then entryOf classes registry config n else none
  dependees : Dependees registry config seen s.modDependees
  lists : s.lists = config.lists
  loaded : s.loaded = []

theorem entryOf_some : entryOf classes registry config n = some e ↔ Pending registry config n ∧
    ∃ node, config.modules.get? n = some node ∧ classes node.type = some e.modType ∧ node.dependsOn.object = e.depends := by
  rw [entryOf]
  by_cases registered : n ∈ registry
  · simp [registered, Pending]
  · rw [if_neg registered]
    constructor
    · intro found
      obtain ⟨node, known, rest⟩ := Option.bind_eq_some_iff.mp found
      obtain ⟨c, type, rfl⟩ := Option.map_eq_some_iff.mp rest
      exact ⟨⟨config.modules.mem_keys.mpr ⟨node, known⟩, registered⟩, node, known, type, rfl⟩
    · rintro ⟨_, node, known, type, object⟩
      rw [known, Option.bind_some, type, Option.map_some, object]

/-- The list object of a module holds what the module depends on. -/
theorem depends_of_entry (found : entryOf classes registry config n = some e) : depends config n = e.current config.lists := by
  obtain ⟨_, ⟨type, dependsOn⟩, known, _, object⟩ := entryOf_some.mp found
  rw [depends, known, Entry.current, ← object]
  cases dependsOn <;> rfl

theorem depends_of_list {r : ℕ} (found : entryOf classes registry config n = some e) (own : e.depends = some r) :
    depends config n = config.lists r := by
  rw [depends_of_entry found, Entry.current, own, Option.elim_some]

theorem entry_of_pending (valid : Valid classes registry config) (pending : Pending registry config n) :
    ∃ e, entryOf classes registry config n = some e := by
  obtain ⟨node, known⟩ := config.modules.mem_keys.mp pending.1
  obtain ⟨c, type⟩ := Option.ne_none_iff_exists'.mp (valid.known n node known)
  exact ⟨⟨node.dependsOn.object, c⟩, entryOf_some.mpr ⟨pending, node, known, type, rfl⟩⟩

theorem addDependees (dependees : Name → List Name) (named : ∀ d ∈ l, d ∈ config.modules.keys) :
    ∃ dependees', l.foldlM (addDependee config n) dependees = .ok dependees' ∧
      ∀ d m, (dependees' d).count m = (dependees d).count m + if m = n then l.count d else 0 := by
  induction l generalizing dependees with
  | nil => exact ⟨dependees, rfl, fun d m => by simp⟩
  | cons x l ih =>
    obtain ⟨dependees', rest, counts⟩ := ih (Function.update dependees x (dependees x ++ [n]))
      fun d member => named d (List.mem_cons_of_mem x member)
    refine ⟨dependees', ?_, fun d m => ?_⟩
    · rw [List.foldlM_cons, addDependee, if_pos (named x List.mem_cons_self)]
      exact rest
    · rw [counts, Function.update_apply, List.count_cons]
      by_cases same : d = x
      · rw [if_pos same, List.count_append, List.count_singleton, same]
        by_cases here : m = n
        · simp [here]
          omega
        · simp [here, Ne.symm here]
      · simp [same, Ne.symm same]

theorem gathered_nil : Gathered classes registry config [] (Loader.new config : Loader C) where
  map n := by simp [Loader.new]
  dependees d n := by simp [Loader.new]
  lists := rfl
  loaded := rfl

/-- One node more. -/
theorem Gathered.addNode {seen : List Name} (gathered : Gathered classes registry config seen s)
    (valid : Valid classes registry config) (new : n ∉ seen) :
    ∃ s', addNode classes registry config s n = .ok s' ∧ Gathered classes registry config (seen ++ [n]) s' := by
  -- Nothing is added for a module that is not to be loaded.
  have skipped (none : entryOf classes registry config n = none) (idle : ¬ Pending registry config n) :
      Gathered classes registry config (seen ++ [n]) s := by
    refine ⟨fun m => ?_, fun d m => ?_, gathered.lists, gathered.loaded⟩
    · rw [gathered.map]
      by_cases same : m = n
      · rw [same, if_neg new, none, ite_self]
      · simp [same]
    · rw [gathered.dependees]
      by_cases same : m = n
      · rw [same, if_neg fun both => idle both.2, if_neg fun both => idle both.2]
      · simp [same]
  rw [ModuleLoading.addNode]
  cases known : config.modules.get? n with
  | none =>
    have idle : ¬ Pending registry config n := fun pending => by
      obtain ⟨node, found⟩ := config.modules.mem_keys.mp pending.1
      rw [known] at found
      cases found
    refine ⟨s, rfl, skipped ?_ idle⟩
    rw [entryOf, known]
    simp
  | some node =>
    obtain ⟨c, type⟩ := Option.ne_none_iff_exists'.mp (valid.known n node known)
    simp only [type]
    by_cases registered : n ∈ registry
    · rw [if_pos registered]
      exact ⟨s, rfl, skipped (if_pos registered) fun pending => pending.2 registered⟩
    · rw [if_neg registered]
      have pending : Pending registry config n := ⟨config.modules.mem_keys.mpr ⟨node, known⟩, registered⟩
      have entry : entryOf classes registry config n = some ⟨node.dependsOn.object, c⟩ :=
        entryOf_some.mpr ⟨pending, node, known, type, rfl⟩
      have map (m : Name) : (s.modDepends.set n ⟨node.dependsOn.object, c⟩).get? m =
          if m ∈ seen ++ [n] then entryOf classes registry config m else none := by
        rw [SortedMap.get?_set]
        by_cases same : m = n
        · rw [if_pos same, same, if_pos (by simp), entry]
        · rw [if_neg same, gathered.map]
          simp [same]
      have named := valid.named n pending
      have counts (dependees' : Name → List Name)
          (added : ∀ d m, (dependees' d).count m = (s.modDependees d).count m + if m = n then (depends config n).count d else 0) :
          Dependees registry config (seen ++ [n]) dependees' := by
        intro d m
        rw [added, gathered.dependees]
        by_cases same : m = n
        · rw [same, if_neg fun both => new both.1, if_pos rfl, if_pos ⟨by simp, pending⟩, Nat.zero_add]
        · simp [same]
      cases list : node.dependsOn with
      | missing =>
        rw [list] at map
        refine ⟨_, rfl, map, counts _ fun d m => ?_, gathered.lists, gathered.loaded⟩
        have free : depends config n = [] := by
          obtain ⟨type, dependsOn⟩ := node
          cases list
          rw [depends, known]
        rw [free]
        simp
      | other type => exact absurd list (valid.list n node known registered type)
      | list object =>
        have own : depends config n = config.lists object := by
          obtain ⟨type, dependsOn⟩ := node
          cases list
          rw [depends, known]
        rw [list] at map
        rw [own] at named counts
        obtain ⟨dependees', added, same⟩ := addDependees s.modDependees named
        dsimp only
        rw [added]
        exact ⟨_, rfl, map, counts _ same, gathered.lists, gathered.loaded⟩

theorem gather (valid : Valid classes registry config) (names : List Name) (distinct : names.Nodup) :
    ∃ s, names.foldlM (addNode classes registry config) (Loader.new config) = .ok s ∧ Gathered classes registry config names s := by
  have rest (l seen : List Name) (s : Loader C) (fresh : (seen ++ l).Nodup) (gathered : Gathered classes registry config seen s) :
      ∃ s', l.foldlM (addNode classes registry config) s = .ok s' ∧ Gathered classes registry config (seen ++ l) s' := by
    induction l generalizing seen s with
    | nil => exact ⟨s, rfl, by rwa [List.append_nil]⟩
    | cons n l ih =>
      have new : n ∉ seen := fun member => (List.nodup_append.mp fresh).2.2 n member n List.mem_cons_self rfl
      obtain ⟨t, first, one⟩ := gathered.addNode valid new
      rw [List.append_cons] at fresh
      obtain ⟨s', more, all⟩ := ih (seen ++ [n]) t fresh one
      refine ⟨s', ?_, by rwa [List.append_cons]⟩
      rw [List.foldlM_cons, first]
      exact more
  exact rest names [] _ distinct gathered_nil

/-! ### Any run -/

/-- The entry of the module has the list object `r`. -/
def has (classes : Name → Option C) (registry : List Name) (config : Config) (r : ℕ) (m : Name) : Bool :=
  decide ((entryOf classes registry config m).bind Entry.depends = some r)

/-- What is kept of every run without an error. -/
structure Kept (classes : Name → Option C) (registry : List Name) (config : Config) (s : Loader C) : Prop where
  entry : ∀ n e, s.modDepends.get? n = some e → entryOf classes registry config n = some e
  dependees : Dependees registry config config.modules.keys s.modDependees
  fewer : ∀ r d, (s.lists r).count d ≤ (config.lists r).count d
  stays : ∀ r, ∀ d ∈ registry, (s.lists r).count d = (config.lists r).count d
  free : ∀ n ∈ s.names, ∀ d ∈ depends config n, d ∉ registry
  enough : ∀ a ∈ s.names, ∀ r, (s.modDependees a).countP (has classes registry config r) ≤ (config.lists r).count a

/-- The counts of the names that are not taken out of the lists. -/
theorem count_of_others {x y : List Name} {d : Name} (same : x.filter (· ≠ n) = y.filter (· ≠ n)) (other : d ≠ n) :
    x.count d = y.count d := by
  have counts := congrArg (List.count d) same
  rwa [List.count_filter (by simpa using other), List.count_filter (by simpa using other)] at counts

theorem Load.names (load : Load s s' n e) : s'.names = s.names ++ [n] := by
  rw [Loader.names, load.loaded, List.map_append]
  rfl

theorem Kept.visit (kept : Kept classes registry config s) (item : entryOf classes registry config n = some e)
    (done : visit s (n, e) = .ok s') : Kept classes registry config s' := by
  rcases visit_ok done with ⟨_, rfl⟩ | ⟨empty, load⟩
  · exact kept
  · obtain ⟨⟨_, fresh⟩, _⟩ := entryOf_some.mp item
    refine ⟨fun m e found => ?_, ?_, fun r d => ?_, fun r d registered => ?_, fun m member d need => ?_, fun a member r => ?_⟩
    · rw [load.map] at found
      split at found
      · cases found
      · exact kept.entry m e found
    · rw [load.dependees]
      exact kept.dependees
    · by_cases same : d = n
      · have taken := load.taken r
        have before := kept.fewer r d
        rw [same] at before ⊢
        omega
      · rw [count_of_others (load.others r) same]
        exact kept.fewer r d
    · have other : d ≠ n := by
        rintro rfl
        exact fresh registered
      rw [count_of_others (load.others r) other]
      exact kept.stays r d registered
    · rw [load.names] at member
      rcases List.mem_append.mp member with old | new
      · exact kept.free m old d need
      · -- The list of the module was empty, and registered names stay in the lists.
        cases List.mem_singleton.mp new
        intro registered
        rw [depends_of_entry item] at need
        cases object : e.depends with
        | none => simp [Entry.current, object] at need
        | some r =>
          rw [Entry.current, object, Option.elim_some] at need empty
          have count := kept.stays r d registered
          rw [empty, List.count_nil] at count
          exact List.count_eq_zero.mp count.symm need
    · rw [load.dependees]
      rw [load.names] at member
      rcases List.mem_append.mp member with old | new
      · exact kept.enough a old r
      · cases List.mem_singleton.mp new
        have same : (s.modDependees n).countP (s.on r) = (s.modDependees n).countP (has classes registry config r) := by
          refine List.countP_congr fun m there => ?_
          obtain ⟨e, found⟩ := Option.ne_none_iff_exists'.mp (load.there m there)
          rw [Loader.on, has, found, kept.entry m e found]
        have taken := load.taken r
        have before := kept.fewer r n
        omega

/-- The items of a round are entries of `mod_depends`. -/
theorem mem_items {V : Type} {order : ℕ → List Name → List Name} {k : ℕ} {map : SortedMap Name V} {item : Name × V} :
    item ∈ items order k map → map.get? item.1 = some item.2 := by
  intro member
  obtain ⟨name, _, found⟩ := List.mem_filterMap.mp member
  obtain ⟨value, here, rfl⟩ := Option.map_eq_some_iff.mp found
  exact here

theorem Kept.visitAll {l : List (Name × Entry C)} (kept : Kept classes registry config s)
    (all : ∀ item ∈ l, entryOf classes registry config item.1 = some item.2) (done : l.foldlM ModuleLoading.visit s = .ok s') :
    Kept classes registry config s' := by
  induction l generalizing s with
  | nil =>
    cases done
    exact kept
  | cons item l ih =>
    rw [List.foldlM_cons] at done
    obtain ⟨t, first, rest⟩ := except_bind_ok.mp done
    exact ih (kept.visit (all item List.mem_cons_self) first) (fun item member => all item (List.mem_cons_of_mem _ member)) rest

theorem Kept.passes {order : ℕ → List Name → List Name} {fuel k : ℕ} (kept : Kept classes registry config s)
    (done : passes order fuel k s = some (.ok s')) : Kept classes registry config s' := by
  induction fuel generalizing k s with
  | zero => cases done
  | succ fuel ih =>
    rw [ModuleLoading.passes] at done
    split at done
    · cases done
      exact kept
    · split at done
      · cases done
      · next t round =>
        have start : Kept classes registry config { s with cycle := true } :=
          ⟨kept.entry, kept.dependees, kept.fewer, kept.stays, kept.free, kept.enough⟩
        have after := start.visitAll (fun item member => kept.entry _ _ (mem_items member)) round
        split at done
        · cases done
        · exact ih after done

theorem Gathered.kept {names : List Name} (gathered : Gathered classes registry config names s)
    (all : ∀ n, n ∈ names ↔ n ∈ config.modules.keys) : Kept classes registry config s := by
  have none : s.names = [] := by rw [Loader.names, gathered.loaded, List.map_nil]
  refine ⟨fun n e found => ?_, fun d n => ?_, fun r d => ?_, fun r d _ => ?_, fun n member => ?_, fun a member => ?_⟩
  · rw [gathered.map] at found
    split at found
    · exact found
    · cases found
  · simp only [gathered.dependees d n, all n]
  · rw [gathered.lists]
  · rw [gathered.lists]
  · rw [none] at member
    cases member
  · rw [none] at member
    cases member

/-- Two different elements of a kind, counted one by one. -/
theorem count_add_count_le {p : Name → Bool} (first : p n = true) (second : p m = true) (apart : n ≠ m) (l : List Name) :
    l.count n + l.count m ≤ l.countP p := by
  induction l with
  | nil => simp
  | cons x l ih =>
    rw [List.count_cons, List.count_cons, List.countP_cons]
    by_cases one : x = n
    · subst one
      simp [first, apart]
      omega
    · by_cases two : x = m
      · subst two
        simp [second, one]
        omega
      · simp [one, two]
        omega

/-- A run that loads all modules meets none that depends on a registered one, and no list that two of them have. -/
theorem separate_of_loads (valid : Valid classes registry config) (kept : Kept classes registry config s)
    (all : ∀ n, n ∈ s.names ↔ Pending registry config n) : Separate registry config := by
  refine ⟨fun n pending => kept.free n ((all n).mpr pending), ?_⟩
  intro n m node node' object pending pending' known known' list list' apart
  obtain ⟨c, type⟩ := Option.ne_none_iff_exists'.mp (valid.known n node known)
  obtain ⟨c', type'⟩ := Option.ne_none_iff_exists'.mp (valid.known m node' known')
  have entry : entryOf classes registry config n = some ⟨some object, c⟩ := entryOf_some.mpr ⟨pending, node, known, type, by rw [list]; rfl⟩
  have entry' : entryOf classes registry config m = some ⟨some object, c'⟩ :=
    entryOf_some.mpr ⟨pending', node', known', type', by rw [list']; rfl⟩
  have own : depends config n = config.lists object := depends_of_list entry rfl
  have own' : depends config m = config.lists object := depends_of_list entry' rfl
  refine List.eq_nil_iff_forall_not_mem.mpr fun a member => ?_
  -- `a` has been taken out of the list once for each of the two.
  rw [← own] at member
  have there := valid.named n pending a member
  have loaded := (all a).mpr ⟨there, kept.free n ((all n).mpr pending) a member⟩
  have enough := kept.enough a loaded object
  have first : has classes registry config object n = true := by simp [has, entry]
  have second : has classes registry config object m = true := by simp [has, entry']
  have twice := count_add_count_le first second apart (s.modDependees a)
  rw [kept.dependees, kept.dependees, if_pos ⟨pending.1, pending⟩, if_pos ⟨pending'.1, pending'⟩, own, own'] at twice
  have positive := List.count_pos_iff.mpr member
  rw [own] at positive
  omega

/-! ### Runs without such modules -/

/-- The lists hold what has not been loaded yet, and what has been loaded came after what it depends on. -/
structure Inv (classes : Name → Option C) (registry : List Name) (config : Config) (s : Loader C) : Prop where
  map : ∀ n, s.modDepends.get? n = if n ∈ s.names then none else entryOf classes registry config n
  dependees : Dependees registry config config.modules.keys s.modDependees
  lists : ∀ n e r, entryOf classes registry config n = some e → e.depends = some r →
    s.lists r = (config.lists r).filter (· ∉ s.names)
  nodup : s.names.Nodup
  typed : ∀ call ∈ s.loaded, ∃ e, entryOf classes registry config call.1 = some e ∧ e.modType = call.2
  order : Respects (fun d n => d ∈ depends config n ∧ d ∉ registry) s.names

theorem Inv.pending (inv : Inv classes registry config s) (member : n ∈ s.names) : Pending registry config n := by
  obtain ⟨call, there, rfl⟩ := List.mem_map.mp member
  obtain ⟨e, entry, _⟩ := inv.typed call there
  exact (entryOf_some.mp entry).1

/-- What depends on a module that has not been loaded has not been loaded either. -/
theorem Inv.waits (inv : Inv classes registry config s) (item : entryOf classes registry config n = some e) (fresh : n ∉ s.names)
    (need : n ∈ depends config m) : m ∉ s.names := by
  intro loaded
  obtain ⟨before, after, split⟩ := List.append_of_mem loaded
  have first : n ∈ before := inv.order before m after split n ⟨need, (entryOf_some.mp item).1.2⟩
  rw [split] at fresh
  exact fresh (List.mem_append_left _ first)

theorem Inv.depends_of_mem (inv : Inv classes registry config s) (member : m ∈ s.modDependees n) :
    Pending registry config m ∧ n ∈ depends config m := by
  have positive := List.count_pos_iff.mpr member
  rw [inv.dependees] at positive
  split at positive
  · next both => exact ⟨both.2, List.count_pos_iff.mp positive⟩
  · omega

/-- A module is free just when all that it depends on has been loaded. -/
theorem Inv.free_iff (inv : Inv classes registry config s) (item : entryOf classes registry config n = some e) :
    e.current s.lists = [] ↔ ∀ d ∈ depends config n, d ∈ s.names := by
  rw [depends_of_entry item, Entry.current, Entry.current]
  cases object : e.depends with
  | none => simp
  | some r =>
    rw [Option.elim_some, Option.elim_some, inv.lists n e r item object, List.filter_eq_nil_iff]
    simp

/-- The dependents of a module are taken out of lists that are theirs alone. -/
theorem Inv.enough (inv : Inv classes registry config s) (separate : Separate registry config) (fresh : n ∉ s.names) (r : ℕ) :
    (s.modDependees n).countP (s.on r) ≤ (s.lists r).count n ∧
      ∀ m ∈ s.modDependees n, s.on r m = true → (s.lists r).count n ≤ (s.modDependees n).countP (s.on r) := by
  by_cases any : ∃ m ∈ s.modDependees n, s.on r m = true
  case neg =>
    have nothing : (s.modDependees n).countP (s.on r) = 0 := by
      refine List.countP_eq_zero.mpr fun m member on => any ⟨m, member, on⟩
    rw [nothing]
    exact ⟨Nat.zero_le _, fun m member on => absurd ⟨m, member, on⟩ any⟩
  obtain ⟨m, member, on⟩ := any
  obtain ⟨pending, need⟩ := inv.depends_of_mem member
  have object (k : Name) (on : s.on r k = true) : ∃ e node, entryOf classes registry config k = some e ∧ e.depends = some r ∧
      config.modules.get? k = some node ∧ node.dependsOn = .list r ∧ Pending registry config k := by
    obtain ⟨e, found, own⟩ := Option.bind_eq_some_iff.mp (of_decide_eq_true on)
    rw [inv.map] at found
    split at found
    · cases found
    · obtain ⟨pending, node, known, _, same⟩ := entryOf_some.mp found
      refine ⟨e, node, found, own, known, ?_, pending⟩
      rw [own] at same
      cases list : node.dependsOn with
      | missing => simp [list, DependsOn.object] at same
      | other => simp [list, DependsOn.object] at same
      | list object => simpa [list, DependsOn.object] using same
  obtain ⟨e, node, entry, own, found, list, _⟩ := object m on
  have holds := depends_of_list entry own
  -- No other module has the list.
  have only (k : Name) (there : k ∈ s.modDependees n) : s.on r k = true ↔ k = m := by
    constructor
    · intro on'
      obtain ⟨_, node', _, _, found', list', pending'⟩ := object k on'
      by_contra apart
      have empty := separate.2 k m node' node r pending' pending found' found list' list apart
      rw [holds, empty] at need
      cases need
    · rintro rfl
      exact on
  have counted : (s.modDependees n).countP (s.on r) = (config.lists r).count n := by
    rw [List.countP_congr (q := (· == m)) fun k there => by rw [only k there]; simp, ← List.count_eq_countP,
      inv.dependees, if_pos ⟨pending.1, pending⟩, holds]
  have left : (s.lists r).count n = (config.lists r).count n := by
    rw [inv.lists m e r entry own, List.count_filter (by simpa using fresh)]
  rw [counted, left]
  exact ⟨Nat.le_refl _, fun _ _ _ => Nat.le_refl _⟩

theorem Inv.load (inv : Inv classes registry config s) (separate : Separate registry config)
    (item : entryOf classes registry config n = some e) (fresh : n ∉ s.names) (free : ∀ d ∈ depends config n, d ∈ s.names)
    (load : Load s s' n e) : Inv classes registry config s' := by
  have names := load.names
  refine ⟨fun m => ?_, ?_, fun m e' r entry own => ?_, ?_, fun call member => ?_, ?_⟩
  · rw [load.map, names, inv.map]
    by_cases same : m = n
    · simp [same]
    · simp [same]
  · rw [load.dependees]
    exact inv.dependees
  · -- What is left of the list is what was in it, without the module.
    have none : (s'.lists r).count n = 0 := by
      have taken := load.taken r
      by_cases positive : (s.lists r).count n = 0
      · omega
      have need : n ∈ depends config m := by
        rw [depends_of_list entry own]
        have there := List.count_pos_iff.mp (Nat.pos_of_ne_zero positive)
        rw [inv.lists m e' r entry own] at there
        exact List.mem_of_mem_filter there
      have waits := inv.waits item fresh need
      have dependent : m ∈ s.modDependees n := by
        have pending := (entryOf_some.mp entry).1
        rw [← List.count_pos_iff, inv.dependees, if_pos ⟨pending.1, pending⟩]
        exact List.count_pos_iff.mpr need
      have on : s.on r m = true := by
        rw [Loader.on, inv.map, if_neg waits, entry, Option.bind_some, own]
        simp
      have all := (inv.enough separate fresh r).2 m dependent on
      omega
    have whole : (s'.lists r).filter (· ≠ n) = s'.lists r := by
      refine List.filter_eq_self.mpr fun d member => ?_
      rw [decide_eq_true_eq]
      rintro rfl
      exact List.count_eq_zero.mp none member
    rw [← whole, load.others, inv.lists m e' r entry own, List.filter_filter, names]
    refine List.filter_congr fun d _ => ?_
    simp [and_comm]
  · rw [names]
    refine List.nodup_append.mpr ⟨inv.nodup, List.nodup_singleton n, fun a member b last => ?_⟩
    rw [List.mem_singleton.mp last]
    rintro rfl
    exact fresh member
  · rw [load.loaded] at member
    rcases List.mem_append.mp member with old | new
    · exact inv.typed call old
    · rw [List.mem_singleton.mp new]
      exact ⟨e, item, rfl⟩
  · rw [names]
    exact inv.order.snoc fun d need => free d need.1

/-- A visit makes no error, and loads a module that is free. -/
theorem Inv.visit (inv : Inv classes registry config s) (valid : Valid classes registry config) (separate : Separate registry config)
    (item : entryOf classes registry config n = some e) (fresh : n ∉ s.names) : ∃ s', ModuleLoading.visit s (n, e) = .ok s' ∧
      Inv classes registry config s' ∧
      (s' = s ∧ (¬ ∀ d ∈ depends config n, d ∈ s.names) ∨ s'.names = s.names ++ [n] ∧ s'.cycle = false) := by
  by_cases free : ∀ d ∈ depends config n, d ∈ s.names
  · have empty := (inv.free_iff item).mpr free
    have there (m : Name) (member : m ∈ s.modDependees n) : ∃ r, (s.modDepends.get? m).bind Entry.depends = some r := by
      obtain ⟨pending, need⟩ := inv.depends_of_mem member
      obtain ⟨e', entry⟩ := entry_of_pending valid pending
      rw [inv.map, if_neg (inv.waits item fresh need), entry, Option.bind_some]
      rw [depends_of_entry entry] at need
      cases object : e'.depends with
      | none => simp [Entry.current, object] at need
      | some r => exact ⟨r, rfl⟩
    obtain ⟨t, removed⟩ := updateDependents_exists (s := { s with loaded := s.loaded ++ [(n, e.modType)] }) there
      fun r => (inv.enough separate fresh r).1
    have done : ModuleLoading.visit s (n, e) = .ok { t with modDepends := t.modDepends.erase n, cycle := false } := by
      rw [ModuleLoading.visit, if_pos empty]
      exact except_bind_ok.mpr ⟨t, removed, rfl⟩
    rcases visit_ok done with ⟨busy, _⟩ | ⟨_, load⟩
    · exact absurd empty busy
    · exact ⟨_, done, inv.load separate item fresh free load, .inr ⟨load.names, load.cycle⟩⟩
  · refine ⟨s, ?_, inv, .inl ⟨rfl, free⟩⟩
    rw [ModuleLoading.visit, if_neg (mt (inv.free_iff item).mp free)]
    rfl

/-- A round loads every module that was free when it began. -/
theorem Inv.visitAll {l : List (Name × Entry C)} (inv : Inv classes registry config s) (valid : Valid classes registry config)
    (separate : Separate registry config) (all : ∀ item ∈ l, entryOf classes registry config item.1 = some item.2)
    (distinct : (l.map Prod.fst).Nodup) (fresh : ∀ item ∈ l, item.1 ∉ s.names) : ∃ s', l.foldlM ModuleLoading.visit s = .ok s' ∧
      Inv classes registry config s' ∧ s.names <+: s'.names ∧ (s'.cycle = true → s.cycle = true ∧ s'.names = s.names) ∧
      ∀ item ∈ l, (∀ d ∈ depends config item.1, d ∈ s.names) → item.1 ∈ s'.names := by
  induction l generalizing s with
  | nil => exact ⟨s, rfl, inv, List.prefix_rfl, fun set => ⟨set, rfl⟩, fun item member => absurd member List.not_mem_nil⟩
  | cons item l ih =>
    obtain ⟨n, e⟩ := item
    have entry := all (n, e) List.mem_cons_self
    obtain ⟨apart, distinct⟩ := List.nodup_cons.mp distinct
    obtain ⟨t, first, now, what⟩ := inv.visit valid separate entry (fresh (n, e) List.mem_cons_self)
    have later (item : Name × Entry C) (member : item ∈ l) : item.1 ∉ t.names := by
      have old := fresh item (List.mem_cons_of_mem _ member)
      rcases what with ⟨rfl, _⟩ | ⟨names, _⟩
      · exact old
      · rw [names]
        intro there
        rcases List.mem_append.mp there with early | last
        · exact old early
        · have same : item.1 = n := List.mem_singleton.mp last
          exact apart (List.mem_map.mpr ⟨item, member, same⟩)
    obtain ⟨s', rest, inv', more, idle, loads⟩ := ih now (fun item member => all item (List.mem_cons_of_mem _ member)) distinct later
    have grows : s.names <+: t.names := by
      rcases what with ⟨rfl, _⟩ | ⟨names, _⟩
      · exact List.prefix_rfl
      · rw [names]
        exact List.prefix_append _ _
    refine ⟨s', ?_, inv', grows.trans more, fun set => ?_, ?_⟩
    · rw [List.foldlM_cons]
      exact except_bind_ok.mpr ⟨t, first, rest⟩
    · obtain ⟨before, same⟩ := idle set
      rcases what with ⟨rfl, _⟩ | ⟨_, cleared⟩
      · exact ⟨before, same⟩
      · rw [before] at cleared
        cases cleared
    · intro item member free
      rcases List.mem_cons.mp member with rfl | behind
      · rcases what with ⟨rfl, busy⟩ | ⟨names, _⟩
        · exact absurd free busy
        · refine more.subset ?_
          rw [names]
          exact List.mem_append_right _ (List.mem_singleton.mpr rfl)
      · exact loads item behind fun d need => grows.subset (free d need)

/-! ### Whole runs -/

theorem Gathered.inv {names : List Name} (gathered : Gathered classes registry config names s)
    (all : ∀ n, n ∈ names ↔ n ∈ config.modules.keys) : Inv classes registry config s := by
  have none : s.names = [] := by rw [Loader.names, gathered.loaded, List.map_nil]
  refine ⟨fun n => ?_, (gathered.kept all).dependees, fun n e r _ _ => ?_, ?_, fun call member => ?_, ?_⟩
  · rw [gathered.map, none, if_neg List.not_mem_nil]
    by_cases there : n ∈ names
    · rw [if_pos there]
    · rw [if_neg there]
      refine (Option.eq_none_iff_forall_ne_some.mpr fun e found => there ?_).symm
      exact (all n).mpr (entryOf_some.mp found).1.1
  · rw [gathered.lists, none]
    simp
  · rw [none]
    exact List.nodup_nil
  · rw [gathered.loaded] at member
    cases member
  · rw [none]
    exact respects_nil

theorem map_fst_items {V : Type} (order : ℕ → List Name → List Name) (k : ℕ) (map : SortedMap Name V) :
    ((items order k map).map Prod.fst).Sublist (order k map.keys) := by
  rw [items]
  induction order k map.keys with
  | nil => exact List.Sublist.slnil
  | cons name l ih =>
    cases found : map.get? name with
    | none =>
      rw [List.filterMap_cons_none (by rw [found, Option.map_none])]
      exact ih.cons name
    | some value =>
      rw [List.filterMap_cons_some (by rw [found, Option.map_some]), List.map_cons]
      exact ih.cons_cons name

variable {order : ℕ → List Name → List Name}

theorem mem_items_of_get? {V : Type} {k : ℕ} {map : SortedMap Name V} {value : V} (permutes : ∀ k l, (order k l).Perm l)
    (found : map.get? n = some value) : (n, value) ∈ items order k map := by
  refine List.mem_filterMap.mpr ⟨n, (permutes k map.keys).mem_iff.mpr (map.mem_keys.mpr ⟨value, found⟩), ?_⟩
  rw [found, Option.map_some]

/-- While there are modules left, a round loads one of them. -/
theorem Inv.round (inv : Inv classes registry config s) (valid : Valid classes registry config) (separate : Separate registry config)
    (acyclic : Acyclic fun d n => d ∈ depends config n) (permutes : ∀ k l, (order k l).Perm l) (k : ℕ)
    (left : s.modDepends.entries ≠ []) : ∃ s', (items order k s.modDepends).foldlM ModuleLoading.visit { s with cycle := true } = .ok s' ∧
      Inv classes registry config s' ∧ s'.cycle = false ∧ s.names.length < s'.names.length := by
  have start : Inv classes registry config { s with cycle := true } := ⟨inv.map, inv.dependees, inv.lists, inv.nodup, inv.typed, inv.order⟩
  have known (item : Name × Entry C) (member : item ∈ items order k s.modDepends) :
      item.1 ∉ s.names ∧ entryOf classes registry config item.1 = some item.2 := by
    have found := mem_items member
    rw [inv.map] at found
    split at found
    · cases found
    · next fresh => exact ⟨fresh, found⟩
  have distinct : ((items order k s.modDepends).map Prod.fst).Nodup :=
    ((permutes k _).nodup_iff.mpr s.modDepends.keys_nodup).sublist (map_fst_items order k s.modDepends)
  obtain ⟨s', done, after, grows, idle, loads⟩ := start.visitAll valid separate (fun item member => (known item member).2) distinct
    fun item member => (known item member).1
  -- Among the modules that are left there is one that depends on none of them.
  have nonempty : s.modDepends.keys ≠ [] := fun none => left (List.map_eq_nil_iff.mp none)
  obtain ⟨n, there, first⟩ := acyclic.exists_first nonempty
  obtain ⟨e, found⟩ := s.modDepends.mem_keys.mp there
  obtain ⟨fresh, entry⟩ := known (n, e) (mem_items_of_get? permutes found)
  have free (d : Name) (need : d ∈ depends config n) : d ∈ s.names := by
    by_contra missing
    have pending := (entryOf_some.mp entry).1
    have waiting : Pending registry config d := ⟨valid.named n pending d need, separate.1 n pending d need⟩
    obtain ⟨e', entry'⟩ := entry_of_pending valid waiting
    refine first d (s.modDepends.mem_keys.mpr ⟨e', ?_⟩) need
    rw [inv.map, if_neg missing, entry']
  have here := loads (n, e) (mem_items_of_get? permutes found) free
  have more : s.names.length < s'.names.length := by
    refine lt_of_le_of_ne grows.length_le fun same => ?_
    have whole : s.names = s'.names := grows.eq_of_length same
    exact fresh (whole.symm ▸ here)
  refine ⟨s', done, after, ?_, more⟩
  cases set : s'.cycle with
  | false => rfl
  | true =>
    rw [(idle set).2] at more
    exact absurd more (lt_irrefl _)

theorem Inv.loadsAll (inv : Inv classes registry config s) (valid : Valid classes registry config) (none : s.modDepends.entries = []) :
    LoadsAll classes registry config s := by
  refine ⟨inv.nodup, fun n => ⟨inv.pending, fun pending => ?_⟩, fun call member => ?_, inv.order⟩
  · by_contra missing
    obtain ⟨e, entry⟩ := entry_of_pending valid pending
    have found := inv.map n
    rw [if_neg missing, entry, SortedMap.get?, none] at found
    cases found
  · obtain ⟨e, entry, same⟩ := inv.typed call member
    obtain ⟨_, node, known, type, _⟩ := entryOf_some.mp entry
    exact ⟨node, known, by rw [type, same]⟩

/-- All modules are among the keys of the configuration, so that the rounds come to an end. -/
theorem Inv.passes (inv : Inv classes registry config s) (valid : Valid classes registry config) (separate : Separate registry config)
    (acyclic : Acyclic fun d n => d ∈ depends config n) (permutes : ∀ k l, (order k l).Perm l) (k fuel : ℕ)
    (enough : config.modules.keys.length < s.names.length + fuel) :
    ∃ s', passes order fuel k s = some (.ok s') ∧ LoadsAll classes registry config s' := by
  induction fuel generalizing k s with
  | zero =>
    have fits : s.names.length ≤ config.modules.keys.length :=
      (inv.nodup.subperm fun n member => (inv.pending member).1).length_le
    omega
  | succ fuel ih =>
    rw [ModuleLoading.passes]
    by_cases none : s.modDepends.entries = []
    · rw [if_pos none]
      exact ⟨s, rfl, inv.loadsAll valid none⟩
    · obtain ⟨t, round, after, cleared, more⟩ := inv.round valid separate acyclic permutes k none
      obtain ⟨s', rest, all⟩ := ih after (k + 1) (by omega)
      refine ⟨s', ?_, all⟩
      rw [if_neg none, round]
      simp only [cleared]
      exact rest

end

variable {C : Type} {classes : Name → Option C} {registry : List Name} {config : Config} {order : ℕ → List Name → List Name}

/-- `load_modules` loads an acyclic configuration as long as nothing in it depends on a module that
    is registered already. -/
theorem loadModules_correct (valid : Valid classes registry config) (acyclic : Acyclic fun d n => d ∈ depends config n)
    (permutes : ∀ k l, (order k l).Perm l) : Loads classes registry config order ↔ Separate registry config := by
  have distinct : (order 0 config.modules.keys).Nodup := (permutes 0 _).nodup_iff.mpr config.modules.keys_nodup
  obtain ⟨s, first, gathered⟩ := gather valid _ distinct
  have all (n : Name) : n ∈ order 0 config.modules.keys ↔ n ∈ config.modules.keys := (permutes 0 _).mem_iff
  constructor
  · rintro ⟨fuel, s', done, all'⟩
    rw [loadModules, first] at done
    exact separate_of_loads valid ((gathered.kept all).passes done) all'.all
  · intro separate
    obtain ⟨s', done, loads⟩ := (gathered.inv all).passes valid separate acyclic permutes 1 (config.modules.keys.length + 1) (by omega)
    exact ⟨config.modules.keys.length + 1, s', by rw [loadModules, first]; exact done, loads⟩

/-- The configuration of the unit test. -/
def testConfig : Config where
  modules := {
    entries := [("Manager", ⟨"SuperModule", .missing⟩), ("Servant1", ⟨"Sub1Module", .list 0⟩), ("Servant2", ⟨"Sub2Module", .list 1⟩),
      ("SubServant", ⟨"SubSubModule", .list 2⟩)]
    sorted := by decide +kernel }
  lists := fun
    | 0 => ["Manager"]
    | 1 => ["Manager"]
    | 2 => ["Servant1", "Servant2"]
    | _ => []

theorem valid_of_keys {C : Type} {classes : Name → Option C} {registry : List Name} {config : Config} (known : ∀ t, classes t ≠ none)
    (lists : ∀ e ∈ config.modules.entries, ∀ t, e.2.dependsOn ≠ .other t)
    (named : ∀ n ∈ config.modules.keys, ∀ d ∈ depends config n, d ∈ config.modules.keys) : Valid classes registry config where
  known _ node _ := known node.type
  list _ _ found _ := lists _ (config.modules.mem_entries.mpr found)
  named n pending := named n pending.1

theorem mem_keys_of_depends {config : Config} {d n : Name} (need : d ∈ depends config n) : n ∈ config.modules.keys := by
  rw [depends] at need
  split at need
  · next found => exact config.modules.mem_keys.mpr ⟨_, found⟩
  · cases need

theorem testConfig_acyclic : Acyclic fun d n => d ∈ depends testConfig n := by
  refine acyclic_of_rank (fun n => if n = "Manager" then 0 else if n = "SubServant" then 2 else 1) fun d n need => ?_
  have grows : ∀ n ∈ testConfig.modules.keys, ∀ d ∈ depends testConfig n, (if d = "Manager" then 0 else if d = "SubServant" then 2 else 1) <
      if n = "Manager" then 0 else if n = "SubServant" then 2 else 1 := by decide +kernel
  exact grows n (mem_keys_of_depends need) d need

theorem testConfig_valid (registry : List Name) : Valid some registry testConfig :=
  valid_of_keys (fun _ => Option.some_ne_none _)
    (by
      intro e member t other
      have : ∀ e ∈ testConfig.modules.entries, e.2.dependsOn = .missing ∨ e.2.dependsOn.object ≠ none := by decide +kernel
      rcases this e member with missing | list
      · rw [missing] at other
        cases other
      · rw [other] at list
        exact list rfl)
    (by decide +kernel)

theorem loadModules_test : Loads some [] testConfig fun _ l => l :=
  (loadModules_correct (testConfig_valid []) testConfig_acyclic fun _ l => List.Perm.refl l).mpr
    ⟨fun _ _ _ _ => List.not_mem_nil, by
      intro n m node node' object _ _ found found' list list' apart
      have alone : ∀ e ∈ testConfig.modules.entries, ∀ e' ∈ testConfig.modules.entries,
          e.2.dependsOn.object = e'.2.dependsOn.object → e.2.dependsOn.object = none ∨ e.1 = e'.1 := by decide +kernel
      have same : node.dependsOn.object = node'.dependsOn.object := by rw [list, list']
      rcases alone _ (testConfig.modules.mem_entries.mpr found) _ (testConfig.modules.mem_entries.mpr found') same with none | equal
      · rw [list] at none
        cases none
      · exact absurd equal apart⟩

/-- Once the manager is registered, nothing takes it out of the lists of its servants. -/
theorem loadModules_registered : Valid some ["Manager"] testConfig ∧ (Acyclic fun d n => d ∈ depends testConfig n) ∧
    loadModules some ["Manager"] testConfig (fun _ l => l) 1 = some (.error (.raised "Cycle found in module dependencies")) ∧
    ¬ Loads some ["Manager"] testConfig fun _ l => l := by
  have stuck (fuel : ℕ) : loadModules some ["Manager"] testConfig (fun _ l => l) (fuel + 1) =
      some (.error (.raised "Cycle found in module dependencies")) := rfl
  refine ⟨testConfig_valid _, testConfig_acyclic, stuck 0, ?_⟩
  rintro ⟨fuel, s, done, _⟩
  cases fuel with
  | zero => cases done
  | succ fuel =>
    rw [stuck] at done
    cases done

end Tortuga.ModuleLoading
