import Tortuga.Dependencies

/-!
`Application.cpp`: the subsystems of a configuration are created in the order of the
dependency graph, and destroyed in the reverse of the order that is left when the bad ones
are taken out of it.
-/
namespace Tortuga.StartUp
open Tortuga.SortedMaps
open Tortuga.Precedence
open Tortuga.Dependencies
set_option linter.unusedSimpArgs false

/-- The calls that the keys of a section ask for. -/
inductive Call where
  | background (interval : Int)
  | setPriority (priority : Priority)
  | setAffinity (core : Int)
  | unbackground
  deriving DecidableEq, Repr

section
variable {S : Type}

/-- The registered makers, by type: each makes a subsystem of its name, its section and
    the subsystems that it depends on. -/
abbrev Makers (S : Type) := Name → Option (Name → Section → List S → S)

/-- The members of the class. `created` has the names in the order of the creation, and
    `calls` what was called on the subsystems; the class keeps neither. -/
structure Application (S : Type) where
  subsystems : SortedMap Name S
  order : List Name
  created : List Name
  calls : List (Name × Call)

/-- The variables of the loop that creates the subsystems. -/
structure Creation (S : Type) where
  subsystems : SortedMap Name S
  created : List Name
  badSubsystemNames : List Name
  invalidSystems : SortedMap Name Unit

/-- The list `deps`, or nothing when a dependency is not satisfied. -/
def dependencies (c : Creation S) : List Name → Option (List S)
  | [] => some []
  | depName :: rest =>
    match c.subsystems.get? depName with
    | none => none
    | some subsystem =>
      if c.invalidSystems.get? depName = some () then none
      else (dependencies c rest).map fun deps => subsystem :: deps

/-- `newObject`, which finds no maker for some types. -/
def create (makers : Makers S) (name : Name) (sec : Section) (deps : List S) (c : Creation S) : Creation S :=
  match makers sec.type with
  | none => { c with invalidSystems := c.invalidSystems.set name () }
  | some maker => { c with subsystems := c.subsystems.set name (maker name sec deps), created := c.created ++ [name] }

/-- The body of the loop that creates the subsystems. -/
def createSubsystem (makers : Makers S) (config : SectionConfig) (g : DependencyGraph) (c : Creation S) (name : Name) :
    Creation S :=
  if name = "creationMode" then c
  else
    match config.get? name with
    | none => { c with badSubsystemNames := c.badSubsystemNames ++ [name] }
    | some sec =>
      match dependencies c (g.getDependencies name) with
      | none => { c with badSubsystemNames := c.badSubsystemNames ++ [name] }
      | some deps => create makers name sec deps c

/-- `remove_from_order`: the first place of the name. -/
def removeFromOrder (order : List Name) (name : Name) : List Name := order.erase name

/-- `m_subsystems[name]->…`: an empty pointer when there is no such subsystem. -/
def callOn (name : Name) (calls : List Call) (app : Application S) : Option (Application S) :=
  if calls = [] then some app
  else
    match app.subsystems.get? name with
    | none => none
    | some _ => some { app with calls := app.calls ++ calls.map fun call => (name, call) }

/-- The calls of the last loop of the constructor. -/
def setUp (sec : Section) : List Call :=
  (sec.updateInterval.map Call.background).toList ++ (sec.priority.map Call.setPriority).toList ++
    (sec.affinity.map Call.setAffinity).toList

/-- The last loop of the constructor. -/
def setUpAll (config : SectionConfig) : List Name → Application S → Option (Application S)
  | [], app => some app
  | name :: rest, app => (callOn name (((config.get? name).map setUp).getD []) app).bind (setUpAll config rest)

/-- `SubsystemCreationMode`, which is "warning" unless it is "error". -/
def modeOf (configured : Option String) : String :=
  let mode := configured.getD "warning"
  if mode ≠ "error" ∧ mode ≠ "warning" then "warning" else mode

/-- The constructor. It does not return where the sort throws, where an empty pointer is
    followed, and where the mode is "error" and a subsystem is bad. -/
def application (topologicalSort : Graph → Option (List ℕ)) (makers : Makers S) (mode : Option String)
    (config : SectionConfig) : Option (Application S) :=
  (dependencyGraph topologicalSort config).bind fun g =>
    let c := g.getOrder.foldl (createSubsystem makers config g) ⟨.empty, [], [], .empty⟩
    let bad := c.badSubsystemNames ++ c.invalidSystems.keys
    if modeOf mode = "error" ∧ bad ≠ [] then none
    else
      let order := bad.foldl removeFromOrder g.getOrder
      setUpAll config order { subsystems := c.subsystems, order := order, created := c.created, calls := [] }

/-- The loop of the destructor over the names that are left, the last one of the order first. -/
def shutDownAll : List Name → Application S → Option (Application S)
  | [], app => some app
  | name :: rest, app =>
    (callOn name [.unbackground] app).bind fun app =>
      shutDownAll rest { app with subsystems := app.subsystems.erase name }

/-- The destructor. -/
def shutDown (app : Application S) : Option (Application S) := shutDownAll app.order.reverse app

/-! ### What is meant -/

/-- The name has a section, and a maker is registered for its type. -/
def Startable (makers : Makers S) (config : SectionConfig) (n : Name) : Prop :=
  ∃ sec, config.get? n = some sec ∧ makers sec.type ≠ none

/-- There is a subsystem of the name. -/
def Live (app : Application S) (n : Name) : Prop := ∃ s, app.subsystems.get? n = some s

/-- The subsystems that there should be have been created, each once and after what it
    depends on; all names of the order are live, and the destructor comes to its end. -/
structure StartsUp (makers : Makers S) (config : SectionConfig) (app : Application S) : Prop where
  largest : ∀ n, Live app n ↔ Largest (Startable makers config) (DependsOn config) n
  created : ∀ n, n ∈ app.created ↔ Live app n
  once : app.created.Nodup
  respects : Respects (DependsOn config) app.created
  live : ∀ n ∈ app.order, Live app n
  shutsDown : ∃ ended, shutDown app = some ended

/-! ### The loop that creates the subsystems -/

/-- A name that is to be taken out of the order. -/
def Bad (c : Creation S) (n : Name) : Prop := n ∈ c.badSubsystemNames ++ c.invalidSystems.keys

/-- What the loop has done with the names of `done`. -/
structure Created (makers : Makers S) (config : SectionConfig) (done : List Name) (c : Creation S) : Prop where
  subsystems : ∀ n, (∃ s, c.subsystems.get? n = some s) ↔ n ∈ c.created
  within : ∀ n ∈ c.created, n ∈ done ∧ n ≠ "creationMode" ∧ ¬ Bad c n
  nodup : c.created.Nodup
  respects : Respects (DependsOn config) c.created
  bad : ∀ n, Bad c n → n ∈ done ∧ n ≠ "creationMode"
  all : ∀ n ∈ done, n ≠ "creationMode" → n ∈ c.created ∨ Bad c n
  largest : "creationMode" ∉ done → ∀ n ∈ done, n ∈ c.created ↔ Largest (Startable makers config) (DependsOn config) n

variable {makers : Makers S} {config : SectionConfig} {done : List Name} {c : Creation S}

theorem nothing_created (makers : Makers S) (config : SectionConfig) :
    Created makers config [] ⟨.empty, [], [], .empty⟩ where
  subsystems n := by simp
  within n mem := by cases mem
  nodup := List.nodup_nil
  respects := respects_nil
  bad n mem := by cases mem
  all n mem := by cases mem
  largest _ n mem := by cases mem

/-- The dependencies are satisfied exactly when all of them have been created. -/
theorem dependencies_isSome (created : Created makers config done c) (names : List Name) :
    dependencies c names ≠ none ↔ ∀ d ∈ names, d ∈ c.created := by
  induction names with
  | nil => simp [dependencies]
  | cons d rest ih =>
    unfold dependencies
    cases value : c.subsystems.get? d with
    | none =>
      have absent : d ∉ c.created := by
        intro mem
        obtain ⟨s, found⟩ := (created.subsystems d).mpr mem
        rw [value] at found
        cases found
      simp [absent]
    | some s =>
      have here : d ∈ c.created := (created.subsystems d).mp ⟨s, value⟩
      have valid : ¬ c.invalidSystems.get? d = some () := by
        intro invalid
        exact (created.within d here).2.2 (List.mem_append_right _ (SortedMap.mem_keys _ |>.mpr ⟨(), invalid⟩))
      simp only [valid, ↓reduceIte, ne_eq, Option.map_eq_none_iff, List.forall_mem_cons, here, true_and]
      exact ih

/-- A name that is bad changes neither the subsystems nor what was created. -/
theorem Created.skip {name : Name} (created : Created makers config done c) {e : Creation S} (fresh : name ∉ done)
    (special : name ≠ "creationMode") (same : e.subsystems = c.subsystems) (kept : e.created = c.created)
    (bad : ∀ n, Bad e n ↔ Bad c n ∨ n = name)
    (not : "creationMode" ∉ done → ¬ Largest (Startable makers config) (DependsOn config) name) :
    Created makers config (done ++ [name]) e where
  subsystems n := by rw [same, kept, created.subsystems]
  within n mem := by
    rw [kept] at mem
    obtain ⟨before, plain, fine⟩ := created.within n mem
    refine ⟨List.mem_append_left _ before, plain, fun is => ?_⟩
    rcases (bad n).mp is with was | rfl
    · exact fine was
    · exact fresh before
  nodup := by rw [kept]; exact created.nodup
  respects := by rw [kept]; exact created.respects
  bad n is := by
    rcases (bad n).mp is with was | rfl
    · exact ⟨List.mem_append_left _ (created.bad n was).1, (created.bad n was).2⟩
    · exact ⟨by simp, special⟩
  all n mem plain := by
    rw [kept]
    rcases List.mem_append.mp mem with before | last
    · exact (created.all n before plain).imp_right fun was => (bad n).mpr (.inl was)
    · exact .inr ((bad n).mpr (.inr (List.mem_singleton.mp last)))
  largest none n mem := by
    have none : "creationMode" ∉ done := fun is => none (List.mem_append_left _ is)
    rw [kept]
    rcases List.mem_append.mp mem with before | last
    · exact created.largest none n before
    · cases List.mem_singleton.mp last
      exact ⟨fun mem => absurd (created.within _ mem).1 fresh, fun is => absurd is (not none)⟩

/-- A subsystem is created, after all that it depends on. -/
theorem Created.add {name : Name} (created : Created makers config done c) (fresh : name ∉ done)
    (special : name ≠ "creationMode") (s : S) (has : ∀ d, DependsOn config d name → d ∈ c.created)
    (startable : Startable makers config name) :
    Created makers config (done ++ [name])
      { c with subsystems := c.subsystems.set name s, created := c.created ++ [name] } where
  subsystems n := by
    dsimp only
    rw [SortedMap.get?_set, List.mem_append, List.mem_singleton]
    by_cases same : n = name
    · simp [same]
    · simp [same, created.subsystems]
  within n mem := by
    rcases List.mem_append.mp mem with before | last
    · obtain ⟨inside, rest⟩ := created.within n before
      exact ⟨List.mem_append_left _ inside, rest⟩
    · cases List.mem_singleton.mp last
      exact ⟨by simp, special, fun is => fresh (created.bad name is).1⟩
  nodup := by
    refine List.nodup_append.mpr ⟨created.nodup, by simp, fun a mem b last same => ?_⟩
    rw [same, List.mem_singleton.mp last] at mem
    exact fresh (created.within name mem).1
  respects := created.respects.snoc has
  bad n is := ⟨List.mem_append_left _ (created.bad n is).1, (created.bad n is).2⟩
  all n mem plain := by
    rcases List.mem_append.mp mem with before | last
    · exact (created.all n before plain).imp_left (List.mem_append_left _)
    · exact .inl (List.mem_append_right _ last)
  largest none n mem := by
    have before : "creationMode" ∉ done := fun is => none (List.mem_append_left _ is)
    have known := created.largest before
    rw [List.mem_append, List.mem_singleton]
    rcases List.mem_append.mp mem with inside | last
    · have other : n ≠ name := by
        rintro rfl
        exact fresh inside
      simp [other, known n inside]
    · cases List.mem_singleton.mp last
      refine ⟨fun _ => largest_iff.mpr ⟨startable, fun d depends => ?_⟩, fun _ => .inr rfl⟩
      exact (known d (created.within d (has d depends)).1).mp (has d depends)

/-- One round of the loop. What the name depends on has had its round. -/
theorem createSubsystem_created {g : DependencyGraph} {name : Name} (created : Created makers config done c)
    (fresh : name ∉ done) (before : ∀ d, DependsOn config d name → d ∈ done)
    (deps : ∀ d, d ∈ g.getDependencies name ↔ DependsOn config d name) :
    Created makers config (done ++ [name]) (createSubsystem makers config g c name) := by
  unfold createSubsystem
  by_cases special : name = "creationMode"
  · rw [if_pos special]
    refine ⟨created.subsystems, fun n mem => ?_, created.nodup, created.respects, fun n is => ?_, fun n mem plain => ?_,
      fun none => absurd (by rw [special]; simp) none⟩
    · exact ⟨List.mem_append_left _ (created.within n mem).1, (created.within n mem).2⟩
    · exact ⟨List.mem_append_left _ (created.bad n is).1, (created.bad n is).2⟩
    · rcases List.mem_append.mp mem with inside | last
      · exact created.all n inside plain
      · exact absurd ((List.mem_singleton.mp last).trans special) plain
  rw [if_neg special]
  have one_more (n : Name) : Bad { c with badSubsystemNames := c.badSubsystemNames ++ [name] } n ↔ Bad c n ∨ n = name := by
    simp only [Bad, List.mem_append, List.mem_singleton]
    exact or_right_comm
  have invalid (n : Name) : Bad { c with invalidSystems := c.invalidSystems.set name () } n ↔ Bad c n ∨ n = name := by
    have keys : n ∈ (c.invalidSystems.set name ()).keys ↔ n ∈ c.invalidSystems.keys ∨ n = name := by
      rw [SortedMap.mem_keys, SortedMap.mem_keys, SortedMap.get?_set]
      by_cases same : n = name <;> simp [same]
    simp only [Bad, List.mem_append, keys, or_assoc]
  cases section' : config.get? name with
  | none =>
    refine created.skip fresh special rfl rfl one_more fun _ is => ?_
    obtain ⟨sec, found, _⟩ := (largest_iff.mp is).1
    rw [section'] at found
    cases found
  | some sec =>
    have satisfied := dependencies_isSome created (g.getDependencies name)
    simp only [deps] at satisfied
    cases value : dependencies c (g.getDependencies name) with
    | none =>
      rw [value] at satisfied
      -- A dependency that has not been created keeps the name out of the largest set.
      refine created.skip fresh special rfl rfl one_more fun none is => satisfied.mpr (fun d depends => ?_) rfl
      exact (created.largest none d (before d depends)).mpr ((largest_iff.mp is).2 d depends)
    | some list =>
      rw [value] at satisfied
      have has := satisfied.mp (by simp)
      show Created makers config (done ++ [name]) (create makers name sec list c)
      unfold create
      cases maker : makers sec.type with
      | none =>
        refine created.skip fresh special rfl rfl invalid fun _ is => ?_
        obtain ⟨sec', found, registered⟩ := (largest_iff.mp is).1
        rw [section'] at found
        cases found
        exact registered maker
      | some make =>
        exact created.add fresh special _ has ⟨sec, section', by rw [maker]; exact Option.some_ne_none _⟩

/-- The whole loop, over an order that respects the dependencies. -/
theorem createAll_created {g : DependencyGraph} (names : List Name) (created : Created makers config done c)
    (nodup : (done ++ names).Nodup) (respects : Respects (DependsOn config) (done ++ names))
    (deps : ∀ s d, d ∈ g.getDependencies s ↔ DependsOn config d s) :
    Created makers config (done ++ names) (names.foldl (createSubsystem makers config g) c) := by
  induction names generalizing done c with
  | nil => rwa [List.append_nil]
  | cons name rest ih =>
    have whole : done ++ name :: rest = done ++ [name] ++ rest := by simp
    have fresh : name ∉ done := fun mem =>
      (List.nodup_append.mp nodup).2.2 name mem name List.mem_cons_self rfl
    have next := createSubsystem_created created fresh (respects done name rest rfl) (deps name)
    rw [whole] at nodup respects ⊢
    exact ih next nodup respects

/-! ### The order that is left, and the destructor -/

theorem mem_removeAll {order : List Name} (nodup : order.Nodup) (bad : List Name) :
    (bad.foldl removeFromOrder order).Nodup ∧ ∀ n, n ∈ bad.foldl removeFromOrder order ↔ n ∈ order ∧ n ∉ bad := by
  induction bad generalizing order with
  | nil => exact ⟨nodup, by simp⟩
  | cons name rest ih =>
    obtain ⟨kept, mem⟩ := ih (nodup.erase name)
    refine ⟨kept, fun n => ?_⟩
    rw [List.foldl_cons, removeFromOrder, mem, nodup.mem_erase_iff, List.mem_cons, not_or]
    exact ⟨fun ⟨⟨other, inside⟩, fine⟩ => ⟨inside, other, fine⟩, fun ⟨inside, other, fine⟩ => ⟨⟨other, inside⟩, fine⟩⟩

theorem callOn_live {app : Application S} {name : Name} (live : Live app name) (calls : List Call) :
    ∃ after, callOn name calls app = some { app with calls := after } := by
  obtain ⟨s, found⟩ := live
  unfold callOn
  split
  · exact ⟨app.calls, rfl⟩
  · rw [found]
    exact ⟨_, rfl⟩

theorem setUpAll_live (config : SectionConfig) (names : List Name) (app : Application S) (live : ∀ n ∈ names, Live app n) :
    ∃ after, setUpAll config names app = some { app with calls := after } := by
  induction names generalizing app with
  | nil => exact ⟨app.calls, rfl⟩
  | cons name rest ih =>
    obtain ⟨calls, called⟩ := callOn_live (live name List.mem_cons_self) (((config.get? name).map setUp).getD [])
    unfold setUpAll
    rw [called, Option.bind_some]
    exact ih _ fun n mem => live n (List.mem_cons_of_mem _ mem)

/-- The calls of the constructor's last loop change no subsystem. -/
theorem setUpAll_keeps {names : List Name} {app ended : Application S} (ends : setUpAll config names app = some ended) :
    ended.subsystems = app.subsystems ∧ ended.order = app.order ∧ ended.created = app.created := by
  induction names generalizing app with
  | nil =>
    cases Option.some_inj.mp ends
    exact ⟨rfl, rfl, rfl⟩
  | cons name rest ih =>
    unfold setUpAll at ends
    obtain ⟨next, called, later⟩ := Option.bind_eq_some_iff.mp ends
    obtain ⟨same, same', same''⟩ := ih later
    unfold callOn at called
    split at called
    · cases called
      exact ⟨same, same', same''⟩
    · cases value : app.subsystems.get? name with
      | none =>
        rw [value] at called
        cases called
      | some s =>
        rw [value] at called
        cases called
        exact ⟨same, same', same''⟩

theorem shutDownAll_live (names : List Name) (nodup : names.Nodup) {app : Application S} (live : ∀ n ∈ names, Live app n) :
    ∃ ended, shutDownAll names app = some ended := by
  induction names generalizing app with
  | nil => exact ⟨app, rfl⟩
  | cons name rest ih =>
    obtain ⟨fresh, distinct⟩ := List.nodup_cons.mp nodup
    obtain ⟨calls, called⟩ := callOn_live (live name List.mem_cons_self) [.unbackground]
    unfold shutDownAll
    rw [called, Option.bind_some]
    refine ih distinct fun n mem => ?_
    obtain ⟨s, found⟩ := live n (List.mem_cons_of_mem _ mem)
    have other : n ≠ name := by
      rintro rfl
      exact fresh mem
    exact ⟨s, by rw [SortedMap.get?_erase, if_neg other, found]⟩

end

/-- In the mode "warning" a configuration without cycles starts up and shuts down as it
    should exactly when "creationMode" is neither a section nor a name that one depends on:
    the loop skips this name, but leaves it in the order. -/
theorem application_startsUp {S : Type} (topologicalSort : Graph → Option (List ℕ)) (makers : Makers S) (mode : Option String)
    (config : SectionConfig) (acyclic : Acyclic (DependsOn config)) (sorts : Sorts topologicalSort (build config).graph)
    (warning : modeOf mode = "warning") :
    (∃ app, application topologicalSort makers mode config = some app ∧ StartsUp makers config app) ↔
      ¬ ("creationMode" ∈ config.keys ∨ ∃ s, DependsOn config "creationMode" s) := by
  obtain ⟨g, given, nodup, names, respects, deps⟩ := dependencyGraph_order topologicalSort config acyclic sorts
  have created := createAll_created (g := g) g.getOrder (nothing_created makers config) nodup respects fun s => (deps s).2
  rw [List.nil_append] at created
  generalize loop : g.getOrder.foldl (createSubsystem makers config g) ⟨.empty, [], [], .empty⟩ = c at created
  obtain ⟨distinct, left⟩ := mem_removeAll nodup (c.badSubsystemNames ++ c.invalidSystems.keys)
  have constructed : application topologicalSort makers mode config =
      setUpAll config ((c.badSubsystemNames ++ c.invalidSystems.keys).foldl removeFromOrder g.getOrder)
        { subsystems := c.subsystems
          order := (c.badSubsystemNames ++ c.invalidSystems.keys).foldl removeFromOrder g.getOrder
          created := c.created
          calls := [] } := by
    unfold application
    rw [given, Option.bind_some, loop, warning]
    rfl
  rw [constructed, ← names]
  constructor
  · rintro ⟨app, ended, starts⟩ mem
    obtain ⟨same, order, _⟩ := setUpAll_keeps ended
    -- The name is still in the order, but it has no subsystem.
    have inside : "creationMode" ∈ app.order := by
      rw [order]
      exact (left _).mpr ⟨mem, fun bad => (created.bad _ bad).2 rfl⟩
    obtain ⟨s, found⟩ := starts.live _ inside
    rw [same] at found
    exact (created.within _ ((created.subsystems _).mp ⟨s, found⟩)).2.1 rfl
  · intro none
    have live : ∀ n ∈ (c.badSubsystemNames ++ c.invalidSystems.keys).foldl removeFromOrder g.getOrder,
        ∃ s, c.subsystems.get? n = some s := by
      intro n mem
      obtain ⟨inside, fine⟩ := (left n).mp mem
      have plain : n ≠ "creationMode" := by
        rintro rfl
        exact none inside
      exact (created.subsystems n).mpr ((created.all n inside plain).resolve_right fine)
    obtain ⟨calls, ended⟩ := setUpAll_live config _ (Application.mk c.subsystems _ c.created []) live
    refine ⟨_, ended, fun n => ?_, fun n => (created.subsystems n).symm, created.nodup, created.respects, live, ?_⟩
    · refine Iff.trans (created.subsystems n) ⟨fun mem => ?_, fun largest => ?_⟩
      · exact (created.largest none n (created.within n mem).1).mp mem
      · obtain ⟨sec, found, _⟩ := (largest_iff.mp largest).1
        exact (created.largest none n ((names n).mpr (.inl (config.mem_keys.mpr ⟨sec, found⟩)))).mpr largest
    · exact shutDownAll_live _ (List.nodup_reverse.mpr distinct) fun n mem => live n (List.mem_reverse.mp mem)

/-! ### A section of the name that is skipped -/

/-- A subsystem and a section "creationMode". -/
def modeYml : SectionConfig where
  entries := [("Manager", ⟨"MockSubsystem", none, none, none, none⟩), ("creationMode", ⟨"None", none, none, none, none⟩)]
  sorted := by decide +kernel

/-- The maker of the unit tests. -/
def mockMakers (type : Name) : Option (Name → Section → List Unit → Unit) :=
  if type = "MockSubsystem" then some fun _ _ _ => () else none

/-- The sort of the library for a graph without vertices. -/
def emptySort (_ : Graph) : Option (List ℕ) := some []

theorem modeYml_order :
    (application emptySort mockMakers none modeYml).map (fun app => (app.order, app.subsystems.get? "creationMode")) =
      some (["Manager", "creationMode"], none) := by decide +kernel

theorem modeYml_acyclic : Acyclic (DependsOn modeYml) := by
  have nothing : ∀ e ∈ modeYml.entries, e.2.names = [] := by decide +kernel
  refine acyclic_of_rank (fun _ => 0) fun d s depends => ?_
  obtain ⟨e, mem, named, _⟩ := dependsOn_iff.mp depends
  rw [nothing e mem] at named
  cases named

theorem emptySort_sorts : Sorts emptySort (build modeYml).graph := by
  have graph : (build modeYml).graph = ⟨0, []⟩ := by decide +kernel
  rw [graph]
  exact fun _ => ⟨[], rfl, List.nodup_nil, by simp, respects_nil⟩

/-- The section is left in the order, and the destructor follows its empty pointer. -/
theorem modeYml_not_live : Acyclic (DependsOn modeYml) ∧ Sorts emptySort (build modeYml).graph ∧ modeOf none = "warning" ∧
    ¬ ∃ app, application emptySort mockMakers none modeYml = some app ∧ StartsUp mockMakers modeYml app := by
  refine ⟨modeYml_acyclic, emptySort_sorts, by decide +kernel, ?_⟩
  rintro ⟨app, constructed, starts⟩
  have facts := modeYml_order
  rw [constructed, Option.map_some, Option.some_inj, Prod.mk.injEq] at facts
  obtain ⟨s, found⟩ := starts.live "creationMode" (by rw [facts.1]; simp)
  rw [facts.2] at found
  cases found

/-- The configuration of the graph's unit test, which has no such name. -/
theorem subsystemsYml_startsUp :
    (∃ app, application testSort mockMakers none subsystemsYml = some app ∧ StartsUp mockMakers subsystemsYml app) ↔
      ¬ ("creationMode" ∈ subsystemsYml.keys ∨ ∃ s, DependsOn subsystemsYml "creationMode" s) :=
  application_startsUp testSort mockMakers none subsystemsYml subsystemsYml_acyclic testSort_sorts (by decide +kernel)

end Tortuga.StartUp
