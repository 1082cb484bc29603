import Mathlib.Data.List.Nodup
import Mathlib.Data.String.Basic
import Tortuga.Precedence
import Tortuga.SortedMaps

/-!
`DependencyGraph.cpp`: the order in which the sections of a configuration are started. The
sections and the names that they depend on become the vertices of a graph, which a
topological sort of the library brings into an order (`topologicalSort`, a parameter).
-/
namespace Tortuga.Dependencies
open Tortuga.SortedMaps
open Tortuga.Precedence
set_option linter.unusedSimpArgs false

abbrev Name := String

inductive Priority where
  | rtHigh
  | rtNormal
  | rtLow
  | high
  | normal
  | low
  deriving DecidableEq, Repr

/-- A section: the type of its subsystem, and the keys that it may have or not. -/
structure Section where
  type : Name
  dependsOn : Option (List Name)
  updateInterval : Option Int
  priority : Option Priority
  affinity : Option Int
  deriving DecidableEq, Repr

/-- The node of the configuration that holds the sections. Its `subNodes` are its keys. -/
abbrev SectionConfig := SortedMap Name Section

/-- A graph with its vertices numbered in the order in which they were added. -/
structure Graph where
  vertices : ℕ
  edges : List (ℕ × ℕ)
  deriving DecidableEq, Repr

/-- The variables of the constructor. -/
structure Build where
  inGraph : SortedMap Name Bool
  nameToVertex : SortedMap Name ℕ
  vertexToName : List Name
  edges : List (ℕ × ℕ)
  sectionDeps : SortedMap Name (List Name)

def Build.graph (b : Build) : Graph := ⟨b.vertexToName.length, b.edges⟩

/-- The vertex of a name, added to the graph when there is none yet. -/
def vertexOf (name : Name) (b : Build) : ℕ × Build :=
  match b.nameToVertex.get? name with
  | some vertex => (vertex, b)
  | none =>
    (b.vertexToName.length,
      { b with
        nameToVertex := b.nameToVertex.set name b.vertexToName.length
        vertexToName := b.vertexToName ++ [name] })

/-- `depNames.push_back`, unless the name is there. -/
def addName (depNames : List Name) (dependencyName : Name) : List Name :=
  if dependencyName ∈ depNames then depNames else depNames ++ [dependencyName]

/-- The body of the loop over `depends_on`. -/
def addDependency (subsystemVertex : ℕ) (b : Build) (dependencyName : Name) : Build :=
  let found := vertexOf dependencyName { b with inGraph := b.inGraph.set dependencyName true }
  { found.2 with edges := found.2.edges ++ [(found.1, subsystemVertex)] }

/-- The body of the loop over the sections. The loop over `depends_on` fills `depNames`
    and the graph. -/
def addSection (b : Build) (entry : Name × Section) : Build :=
  let b := if b.inGraph.get? entry.1 = none then { b with inGraph := b.inGraph.set entry.1 false } else b
  match entry.2.dependsOn with
  | none => b
  | some deps =>
    let found := vertexOf entry.1 { b with inGraph := b.inGraph.set entry.1 true }
    let b := deps.foldl (addDependency found.1) found.2
    { b with sectionDeps := b.sectionDeps.set entry.1 (deps.foldl addName []) }

def build (config : SectionConfig) : Build :=
  config.entries.foldl addSection ⟨.empty, .empty, [], [], .empty⟩

/-- The members of the class. -/
structure DependencyGraph where
  sectionDeps : SortedMap Name (List Name)
  order : List Name

def DependencyGraph.getOrder (g : DependencyGraph) : List Name := g.order

/-- `m_sectionDeps[section]`: an empty list for a name that is not in the map. -/
def DependencyGraph.getDependencies (g : DependencyGraph) (name : Name) : List Name := (g.sectionDeps.get? name).getD []

/-- The sections that are not in the graph. -/
def standalone (b : Build) : List Name := (b.inGraph.entries.filter fun e => !e.2).map Prod.fst

/-- The constructor. `topologicalSort` gives the vertices in the order in which the library
    writes them, or nothing where it throws `not_a_dag`; the `front_inserter` puts each in
    front of the ones before. -/
def dependencyGraph (topologicalSort : Graph → Option (List ℕ)) (config : SectionConfig) : Option DependencyGraph :=
  let b := build config
  (topologicalSort b.graph).map fun written =>
    let creationOrder := written.foldl (fun order vertex => vertex :: order) []
    { sectionDeps := b.sectionDeps
      order := standalone b ++ creationOrder.map fun vertex => (b.vertexToName[vertex]?).getD "" }

/-! ### What is meant -/

/-- `d` is in the list `depends_on` of the section `s`. -/
def DependsOn (config : SectionConfig) (d s : Name) : Prop :=
  ∃ sec deps, config.get? s = some sec ∧ sec.dependsOn = some deps ∧ d ∈ deps

/-- What the library says of its sort: of a graph without cycles it writes each vertex once,
    and for each edge the vertex at its end before the vertex at its start. -/
structure ReverseOrder (g : Graph) (written : List ℕ) : Prop where
  nodup : written.Nodup
  all : ∀ v, v ∈ written ↔ v < g.vertices
  respects : Respects (fun v u => (u, v) ∈ g.edges) written

/-- The sort of the library is right about a graph. -/
def Sorts (topologicalSort : Graph → Option (List ℕ)) (g : Graph) : Prop :=
  Acyclic (fun u v => (u, v) ∈ g.edges) → ∃ written, topologicalSort g = some written ∧ ReverseOrder g written

/-! ### The loops -/

section
variable {sections part : Name → Prop} {needs : Name → Name → Prop} {b c : Build}

/-- The vertices are numbered by name, and the edges lead between them. -/
structure Indexed (part : Name → Prop) (needs : Name → Name → Prop) (b : Build) : Prop where
  vertex : ∀ n v, b.nameToVertex.get? n = some v ↔ b.vertexToName[v]? = some n
  names : ∀ n, n ∈ b.vertexToName ↔ part n
  inside : ∀ u v, (u, v) ∈ b.edges → u < b.vertexToName.length ∧ v < b.vertexToName.length
  edges : ∀ d s, needs d s ↔ ∃ u v, (u, v) ∈ b.edges ∧ b.vertexToName[u]? = some d ∧ b.vertexToName[v]? = some s

/-- What the loop over the sections has built. `sections` are those it has seen, `part`
    the names in the graph. -/
structure Built (sections part : Name → Prop) (needs : Name → Name → Prop) (b : Build) : Prop where
  indexed : Indexed part needs b
  inGraph : ∀ n, b.inGraph.get? n = some true ↔ part n
  apart : ∀ n, b.inGraph.get? n = some false ↔ sections n ∧ ¬ part n

theorem Built.congr {sections' part' : Name → Prop} {needs' : Name → Name → Prop} (built : Built sections part needs b)
    (same : ∀ n, sections n ↔ sections' n) (same' : ∀ n, part n ↔ part' n) (same'' : ∀ d s, needs d s ↔ needs' d s) :
    Built sections' part' needs' b := by
  have h : sections = sections' := funext fun n => propext (same n)
  have h' : part = part' := funext fun n => propext (same' n)
  have h'' : needs = needs' := funext fun d => funext fun s => propext (same'' d s)
  rwa [← h, ← h', ← h'']

theorem empty_built : Built (fun _ => False) (fun _ => False) (fun _ _ => False) ⟨.empty, .empty, [], [], .empty⟩ := by
  refine ⟨⟨?_, ?_, ?_, ?_⟩, ?_, ?_⟩ <;> simp

/-- Two vertices have two names. -/
theorem Indexed.injective (indexed : Indexed part needs b) {u v : ℕ} {n : Name} (first : b.vertexToName[u]? = some n)
    (second : b.vertexToName[v]? = some n) : u = v := by
  have := (indexed.vertex n u).mpr first
  rw [(indexed.vertex n v).mpr second] at this
  exact (Option.some_inj.mp this).symm

/-- What `vertexOf` does: the name has its vertex, and nothing else is changed. -/
structure Placed (name : Name) (b : Build) (found : ℕ × Build) : Prop where
  here : found.2.vertexToName[found.1]? = some name
  grown : b.vertexToName <+: found.2.vertexToName
  inGraph : found.2.inGraph = b.inGraph
  sectionDeps : found.2.sectionDeps = b.sectionDeps

theorem getElem?_of_prefix {xs ys : List Name} {i : ℕ} {n : Name} (grown : xs <+: ys) (here : xs[i]? = some n) :
    ys[i]? = some n := by
  obtain ⟨rest, rfl⟩ := grown
  have inside := (List.getElem?_eq_some_iff.mp here).1
  rwa [List.getElem?_append_left inside]

theorem vertexOf_placed (indexed : Indexed part needs b) (name : Name) : Placed name b (vertexOf name b) := by
  unfold vertexOf
  split
  case h_1 v found => exact ⟨(indexed.vertex name v).mp found, List.prefix_rfl, rfl, rfl⟩
  case h_2 => exact ⟨by simp, List.prefix_append _ _, rfl, rfl⟩

theorem vertexOf_indexed (indexed : Indexed part needs b) (name : Name) :
    Indexed (fun n => part n ∨ n = name) needs (vertexOf name b).2 := by
  unfold vertexOf
  split
  case h_1 v found =>
    refine ⟨indexed.vertex, fun n => ?_, indexed.inside, indexed.edges⟩
    rw [indexed.names]
    refine ⟨.inl, fun cases => ?_⟩
    rcases cases with was | rfl
    · exact was
    · exact (indexed.names n).mp (List.mem_of_getElem? ((indexed.vertex n v).mp found))
  case h_2 absent =>
    have fresh : ∀ v : ℕ, b.vertexToName[v]? ≠ some name := by
      intro v here
      rw [(indexed.vertex name v).mpr here] at absent
      cases absent
    have before : ∀ (v : ℕ) (n : Name), n ≠ name →
        ((b.vertexToName ++ [name])[v]? = some n ↔ b.vertexToName[v]? = some n) := by
      intro v n other
      rw [List.getElem?_append]
      split
      · exact Iff.rfl
      case isFalse outside =>
        constructor
        · intro last
          have := List.mem_of_getElem? last
          exact absurd (List.mem_singleton.mp this) other
        · intro here
          exact absurd (List.getElem?_eq_some_iff.mp here).1 outside
    refine ⟨fun n v => ?_, fun n => by simp [indexed.names], fun u v edge => ?_, fun d s => ?_⟩
    · dsimp only
      rw [SortedMap.get?_set]
      by_cases same : n = name
      · rw [if_pos same, Option.some_inj, same, List.getElem?_append]
        split
        case isTrue inside =>
          constructor
          · intro here
            omega
          · intro here
            exact absurd here (fresh v)
        case isFalse outside =>
          rw [List.getElem?_singleton]
          split
          · simp
            omega
          · simp
            omega
      · rw [if_neg same, indexed.vertex, before v n same]
    · have := indexed.inside u v edge
      simp only [List.length_append, List.length_singleton]
      omega
    · rw [indexed.edges]
      refine exists_congr fun u => exists_congr fun v => and_congr_right fun edge => ?_
      obtain ⟨left, right⟩ := indexed.inside u v edge
      rw [List.getElem?_append_left left, List.getElem?_append_left right]

/-- One more edge. -/
theorem Indexed.edge (indexed : Indexed part needs b) {u v : ℕ} {d s : Name} (start : b.vertexToName[u]? = some d)
    (target : b.vertexToName[v]? = some s) :
    Indexed part (fun x y => needs x y ∨ x = d ∧ y = s) { b with edges := b.edges ++ [(u, v)] } := by
  refine ⟨indexed.vertex, indexed.names, fun i j edge => ?_, fun x y => ?_⟩
  · rcases List.mem_append.mp edge with old | new
    · exact indexed.inside i j old
    · cases List.mem_singleton.mp new
      exact ⟨(List.getElem?_eq_some_iff.mp start).1, (List.getElem?_eq_some_iff.mp target).1⟩
  · rw [indexed.edges]
    constructor
    · rintro (⟨i, j, edge, left, right⟩ | ⟨rfl, rfl⟩)
      · exact ⟨i, j, List.mem_append_left _ edge, left, right⟩
      · exact ⟨u, v, by simp, start, target⟩
    · rintro ⟨i, j, edge, left, right⟩
      rcases List.mem_append.mp edge with old | new
      · exact .inl ⟨i, j, old, left, right⟩
      · cases List.mem_singleton.mp new
        rw [start] at left
        rw [target] at right
        exact .inr ⟨(Option.some_inj.mp left).symm, (Option.some_inj.mp right).symm⟩

/-- `inGraph[name] = true`, and the vertex of the name. -/
theorem Built.place (built : Built sections part needs b) (name : Name) :
    Built sections (fun n => part n ∨ n = name) needs (vertexOf name { b with inGraph := b.inGraph.set name true }).2 := by
  have indexed : Indexed part needs { b with inGraph := b.inGraph.set name true } :=
    ⟨built.indexed.vertex, built.indexed.names, built.indexed.inside, built.indexed.edges⟩
  have placed := vertexOf_placed indexed name
  refine ⟨vertexOf_indexed indexed name, fun n => ?_, fun n => ?_⟩
  · rw [placed.inGraph, SortedMap.get?_set]
    by_cases same : n = name
    · simp [same]
    · simp [same, built.inGraph]
  · rw [placed.inGraph, SortedMap.get?_set]
    by_cases same : n = name
    · simp [same]
    · simp [same, built.apart]

theorem addDependency_built (built : Built sections part needs b) {v : ℕ} {s : Name} (target : b.vertexToName[v]? = some s)
    (d : Name) :
    Built sections (fun n => part n ∨ n = d) (fun x y => needs x y ∨ x = d ∧ y = s) (addDependency v b d) ∧
      (addDependency v b d).vertexToName[v]? = some s ∧ (addDependency v b d).sectionDeps = b.sectionDeps := by
  have placed := vertexOf_placed (b := { b with inGraph := b.inGraph.set d true })
    ⟨built.indexed.vertex, built.indexed.names, built.indexed.inside, built.indexed.edges⟩ d
  have more := built.place d
  have still := getElem?_of_prefix placed.grown target
  exact ⟨⟨more.indexed.edge placed.here still, more.inGraph, more.apart⟩, still, placed.sectionDeps⟩

theorem addDependencies_built (deps : List Name) (built : Built sections part needs b) {v : ℕ} {s : Name}
    (target : b.vertexToName[v]? = some s) :
    Built sections (fun n => part n ∨ n ∈ deps) (fun x y => needs x y ∨ x ∈ deps ∧ y = s)
        (deps.foldl (addDependency v) b) ∧
      (deps.foldl (addDependency v) b).sectionDeps = b.sectionDeps := by
  induction deps generalizing b part needs with
  | nil => exact ⟨built.congr (fun _ => Iff.rfl) (by simp) (by simp), rfl⟩
  | cons d rest ih =>
    obtain ⟨first, still, kept⟩ := addDependency_built built target d
    obtain ⟨later, kept'⟩ := ih first still
    refine ⟨later.congr (fun _ => Iff.rfl) (fun n => ?_) (fun x y => ?_), kept'.trans kept⟩
    · rw [List.mem_cons, or_assoc]
    · rw [List.mem_cons, or_assoc, or_and_right]

/-- A section is in `inGraph`, with `false` when it is new. -/
theorem Built.see (built : Built sections part needs b) (name : Name) :
    Built (fun n => sections n ∨ n = name) part needs
      (if b.inGraph.get? name = none then { b with inGraph := b.inGraph.set name false } else b) := by
  split
  case isTrue absent =>
    have notPart : ¬ part name := by
      intro is
      rw [(built.inGraph name).mpr is] at absent
      cases absent
    refine ⟨⟨built.indexed.vertex, built.indexed.names, built.indexed.inside, built.indexed.edges⟩, fun n => ?_, fun n => ?_⟩
    · dsimp only
      rw [SortedMap.get?_set]
      by_cases same : n = name
      · simp [same, notPart]
      · simp [same, built.inGraph]
    · dsimp only
      rw [SortedMap.get?_set]
      by_cases same : n = name
      · simp [same, notPart]
      · simp [same, built.apart]
  case isFalse present =>
    refine ⟨built.indexed, built.inGraph, fun n => ?_⟩
    rw [built.apart]
    refine ⟨fun ⟨is, not⟩ => ⟨.inl is, not⟩, fun ⟨cases, not⟩ => ⟨?_, not⟩⟩
    rcases cases with is | rfl
    · exact is
    · cases value : b.inGraph.get? n with
      | none => exact absurd value present
      | some inGraph =>
        cases inGraph with
        | true => exact absurd ((built.inGraph n).mp value) not
        | false => exact ((built.apart n).mp value).1

/-- The names of a list `depends_on`. -/
def Section.names (sec : Section) : List Name := sec.dependsOn.getD []

theorem addSection_built (built : Built sections part needs b) (entry : Name × Section) :
    Built (fun n => sections n ∨ n = entry.1) (fun n => part n ∨ ∃ deps, entry.2.dependsOn = some deps ∧ (n = entry.1 ∨ n ∈ deps))
        (fun x y => needs x y ∨ x ∈ entry.2.names ∧ y = entry.1) (addSection b entry) ∧
      (addSection b entry).sectionDeps =
        entry.2.dependsOn.elim b.sectionDeps fun deps => b.sectionDeps.set entry.1 (deps.foldl addName []) := by
  have seen := built.see entry.1
  have kept : (if b.inGraph.get? entry.1 = none then { b with inGraph := b.inGraph.set entry.1 false } else b).sectionDeps =
      b.sectionDeps := by
    split <;> rfl
  unfold addSection Section.names
  cases entry.2.dependsOn with
  | none => exact ⟨seen.congr (fun _ => Iff.rfl) (by simp) (by simp), kept⟩
  | some deps =>
    generalize (if b.inGraph.get? entry.1 = none then { b with inGraph := b.inGraph.set entry.1 false } else b) = c at seen kept
    have placed := vertexOf_placed (b := { c with inGraph := c.inGraph.set entry.1 true })
      ⟨seen.indexed.vertex, seen.indexed.names, seen.indexed.inside, seen.indexed.edges⟩ entry.1
    obtain ⟨whole, kept'⟩ := addDependencies_built deps (seen.place entry.1) placed.here
    have names (n : Name) : (part n ∨ n = entry.1) ∨ n ∈ deps ↔
        part n ∨ ∃ ds, some deps = some ds ∧ (n = entry.1 ∨ n ∈ ds) := by
      simp [or_assoc]
    have same := whole.congr (fun _ => Iff.rfl) names (fun _ _ => Iff.rfl)
    refine ⟨⟨⟨same.indexed.vertex, same.indexed.names, same.indexed.inside, same.indexed.edges⟩, same.inGraph, same.apart⟩, ?_⟩
    show SortedMap.set _ _ _ = SortedMap.set _ _ _
    rw [kept', placed.sectionDeps, kept]

theorem addSections_built (entries : List (Name × Section)) (built : Built sections part needs b) :
    Built (fun n => sections n ∨ n ∈ entries.map Prod.fst)
      (fun n => part n ∨ ∃ e ∈ entries, ∃ deps, e.2.dependsOn = some deps ∧ (n = e.1 ∨ n ∈ deps))
      (fun x y => needs x y ∨ ∃ e ∈ entries, x ∈ e.2.names ∧ y = e.1) (entries.foldl addSection b) := by
  induction entries generalizing b sections part needs with
  | nil => exact built.congr (by simp) (by simp) (by simp)
  | cons e rest ih =>
    refine (ih (addSection_built built e).1).congr (fun n => ?_) (fun n => ?_) (fun x y => ?_)
    · simp [or_assoc]
    · simp only [List.mem_cons, exists_eq_or_imp, or_assoc]
    · simp only [List.mem_cons, exists_eq_or_imp, or_assoc]

/-- `m_sectionDeps` after the loop. -/
theorem addSections_sectionDeps (entries : List (Name × Section)) (built : Built sections part needs b)
    (distinct : (entries.map Prod.fst).Nodup) (name : Name) :
    (entries.foldl addSection b).sectionDeps.get? name =
      ((entries.lookup name).bind fun sec => sec.dependsOn.map fun deps => deps.foldl addName []).or
        (b.sectionDeps.get? name) := by
  induction entries generalizing b sections part needs with
  | nil => rfl
  | cons e rest ih =>
    obtain ⟨fresh, distinct⟩ := List.nodup_cons.mp distinct
    obtain ⟨first, kept⟩ := addSection_built built e
    rw [List.foldl_cons, ih first distinct, kept, lookup_cons_if]
    by_cases here : name = e.1
    · have absent : rest.lookup name = none := by
        rw [List.lookup_eq_none_iff]
        intro other mem
        rw [here]
        have apart : e.1 ≠ other.1 := by
          intro same
          rw [same] at fresh
          exact fresh (List.mem_map_of_mem mem)
        simpa using apart
      rw [absent, if_pos here, Option.bind_none, Option.none_or, Option.bind_some]
      cases e.2.dependsOn with
      | none => rfl
      | some deps => rw [here, Option.elim_some, SortedMap.get?_set_self, Option.map_some, Option.some_or]
    · rw [if_neg here]
      cases e.2.dependsOn with
      | none => rfl
      | some deps => simp [SortedMap.get?_set_ne _ here]

/-- `depNames` has the names of the list, each once. -/
theorem addNames_spec (deps before : List Name) (distinct : before.Nodup) :
    (deps.foldl addName before).Nodup ∧ ∀ d, d ∈ deps.foldl addName before ↔ d ∈ before ∨ d ∈ deps := by
  induction deps generalizing before with
  | nil => exact ⟨distinct, by simp⟩
  | cons n rest ih =>
    rw [List.foldl_cons, addName]
    split
    case isTrue there =>
      obtain ⟨nodup, mem⟩ := ih before distinct
      refine ⟨nodup, fun d => ?_⟩
      rw [mem, List.mem_cons]
      refine ⟨fun cases => cases.imp_right .inr, ?_⟩
      rintro (was | rfl | later)
      · exact .inl was
      · exact .inl there
      · exact .inr later
    case isFalse new =>
      obtain ⟨nodup, mem⟩ := ih (before ++ [n]) (List.nodup_append.mpr ⟨distinct, by simp, by simpa using fun a mem (same : a = n) => new (same ▸ mem)⟩)
      refine ⟨nodup, fun d => ?_⟩
      rw [mem, List.mem_append, List.mem_singleton, List.mem_cons, or_assoc]

end

/-! ### The order -/

section
variable {config : SectionConfig}

/-- A section with a list `depends_on`, or a name in such a list. -/
def InGraph (config : SectionConfig) (n : Name) : Prop :=
  ∃ e ∈ config.entries, ∃ deps, e.2.dependsOn = some deps ∧ (n = e.1 ∨ n ∈ deps)

theorem dependsOn_iff {d s : Name} : DependsOn config d s ↔ ∃ e ∈ config.entries, d ∈ e.2.names ∧ s = e.1 := by
  constructor
  · rintro ⟨sec, deps, found, has, mem⟩
    refine ⟨(s, sec), config.mem_entries.mpr found, ?_, rfl⟩
    rw [Section.names, has]
    exact mem
  · rintro ⟨⟨s, sec⟩, mem, names, rfl⟩
    cases has : sec.dependsOn with
    | none =>
      rw [Section.names, has] at names
      cases names
    | some deps =>
      rw [Section.names, has] at names
      exact ⟨sec, deps, config.mem_entries.mp mem, has, names⟩

theorem build_built (config : SectionConfig) :
    Built (fun n => n ∈ config.keys) (InGraph config) (DependsOn config) (build config) := by
  refine (addSections_built config.entries empty_built).congr (fun n => ?_) (fun n => ?_) (fun d s => ?_)
  · rw [false_or]
    rfl
  · rw [false_or]
    rfl
  · rw [false_or, dependsOn_iff]

/-- What a section depends on is in the graph, and so is the section. -/
theorem DependsOn.inGraph {d s : Name} (depends : DependsOn config d s) : InGraph config d ∧ InGraph config s := by
  obtain ⟨sec, deps, found, has, mem⟩ := depends
  have entry := config.mem_entries.mpr found
  exact ⟨⟨(s, sec), entry, deps, has, .inr mem⟩, (s, sec), entry, deps, has, .inl rfl⟩

theorem inGraph_or_key {n : Name} : n ∈ config.keys ∨ InGraph config n ↔ n ∈ config.keys ∨ ∃ s, DependsOn config n s := by
  constructor
  · rintro (key | ⟨⟨s, sec⟩, mem, deps, has, rfl | named⟩)
    · exact .inl key
    · exact .inl (List.mem_map_of_mem (f := Prod.fst) mem)
    · exact .inr ⟨s, sec, deps, config.mem_entries.mp mem, has, named⟩
  · rintro (key | ⟨s, depends⟩)
    · exact .inl key
    · exact .inr depends.inGraph.1

theorem mem_standalone {n : Name} : n ∈ standalone (build config) ↔ n ∈ config.keys ∧ ¬ InGraph config n := by
  rw [← (build_built config).apart, ← SortedMap.mem_entries]
  unfold standalone
  constructor
  · intro mem
    obtain ⟨⟨m, flag⟩, member, rfl⟩ := List.mem_map.mp mem
    obtain ⟨entry, off⟩ := List.mem_filter.mp member
    cases flag with
    | true => cases off
    | false => exact entry
  · intro entry
    exact List.mem_map.mpr ⟨(n, false), List.mem_filter.mpr ⟨entry, rfl⟩, rfl⟩

theorem standalone_nodup (b : Build) : (standalone b).Nodup :=
  List.Nodup.sublist (List.filter_sublist.map _) b.inGraph.keys_nodup

/-- The graph has no cycles when the configuration has none. -/
theorem graph_acyclic (acyclic : Acyclic (DependsOn config)) : Acyclic fun u v => (u, v) ∈ (build config).graph.edges := by
  have indexed := (build_built config).indexed
  refine Acyclic.of_map (fun v => ((build config).vertexToName[v]?).getD "") (fun u v edge => ?_) acyclic
  obtain ⟨left, right⟩ := indexed.inside u v edge
  refine (indexed.edges _ _).mpr ⟨u, v, edge, ?_, ?_⟩
  · rw [List.getElem?_eq_getElem left]
    rfl
  · rw [List.getElem?_eq_getElem right]
    rfl

/-- The names of the vertices in the order of the sort. -/
theorem sorted_names {written : List ℕ} (sorted : ReverseOrder (build config).graph written) :
    ((written.reverse.map fun v => ((build config).vertexToName[v]?).getD "").Nodup ∧
      (∀ n, n ∈ written.reverse.map (fun v => ((build config).vertexToName[v]?).getD "") ↔ InGraph config n)) ∧
      Respects (DependsOn config) (written.reverse.map fun v => ((build config).vertexToName[v]?).getD "") := by
  have indexed := (build_built config).indexed
  have named : ∀ v, v ∈ written.reverse → ∃ n, (build config).vertexToName[v]? = some n := by
    intro v mem
    have inside := (sorted.all v).mp (List.mem_reverse.mp mem)
    exact ⟨_, List.getElem?_eq_getElem inside⟩
  refine ⟨⟨?_, fun n => ?_⟩, ?_⟩
  · refine List.Nodup.map_on (fun u mem v mem' same => ?_) (List.nodup_reverse.mpr sorted.nodup)
    obtain ⟨n, first⟩ := named u mem
    obtain ⟨m, second⟩ := named v mem'
    rw [first, second] at same
    cases same
    exact indexed.injective first second
  · rw [← indexed.names, List.mem_map]
    constructor
    · rintro ⟨v, mem, rfl⟩
      obtain ⟨n, here⟩ := named v mem
      rw [here]
      exact List.mem_of_getElem? here
    · intro mem
      obtain ⟨v, inside, here⟩ := List.mem_iff_getElem.mp mem
      refine ⟨v, List.mem_reverse.mpr ((sorted.all v).mpr inside), ?_⟩
      rw [List.getElem?_eq_getElem inside, here]
      rfl
  · have order := sorted.respects.reverse sorted.nodup fun v u edge => (sorted.all u).mpr (indexed.inside u v edge).1
    refine order.map fun v mem d depends => ?_
    obtain ⟨u, w, edge, left, right⟩ := (indexed.edges _ _).mp depends
    obtain ⟨n, here⟩ := named v mem
    rw [here] at right
    cases indexed.injective right here
    exact ⟨u, edge, by rw [left]; rfl⟩

theorem foldl_front (written front : List ℕ) :
    written.foldl (fun order vertex => vertex :: order) front = written.reverse ++ front := by
  induction written generalizing front with
  | nil => rfl
  | cons v rest ih => rw [List.foldl_cons, ih, List.reverse_cons, List.append_assoc, List.singleton_append]

/-- `m_sectionDeps` once all is built. -/
theorem build_sectionDeps (config : SectionConfig) (s : Name) :
    (build config).sectionDeps.get? s = (config.get? s).bind fun sec => sec.dependsOn.map fun deps => deps.foldl addName [] := by
  rw [build, addSections_sectionDeps config.entries empty_built config.keys_nodup s, SortedMap.get?_empty, Option.or_none]
  rfl

theorem getDependencies_spec {g : DependencyGraph} (deps : g.sectionDeps = (build config).sectionDeps) (s : Name) :
    (g.getDependencies s).Nodup ∧ ∀ d, d ∈ g.getDependencies s ↔ DependsOn config d s := by
  unfold DependencyGraph.getDependencies DependsOn
  rw [deps, build_sectionDeps]
  cases config.get? s with
  | none => simp
  | some sec =>
    cases has : sec.dependsOn with
    | none => simp [has]
    | some deps =>
      obtain ⟨nodup, mem⟩ := addNames_spec deps [] List.nodup_nil
      refine ⟨by simpa [has] using nodup, fun d => ?_⟩
      have := mem d
      simp only [List.not_mem_nil, false_or] at this
      simp [has, this]

end

theorem dependencyGraph_order (topologicalSort : Graph → Option (List ℕ)) (config : SectionConfig)
    (acyclic : Acyclic (DependsOn config)) (sorts : Sorts topologicalSort (build config).graph) :
    ∃ g, dependencyGraph topologicalSort config = some g ∧ g.getOrder.Nodup ∧
      (∀ n, n ∈ g.getOrder ↔ n ∈ config.keys ∨ ∃ s, DependsOn config n s) ∧ Respects (DependsOn config) g.getOrder ∧
      ∀ s, (g.getDependencies s).Nodup ∧ ∀ d, d ∈ g.getDependencies s ↔ DependsOn config d s := by
  obtain ⟨written, given, sorted⟩ := sorts (graph_acyclic acyclic)
  obtain ⟨⟨nodup, names⟩, respects⟩ := sorted_names sorted
  refine ⟨_, by rw [dependencyGraph, given]; rfl, ?_, fun n => ?_, ?_, getDependencies_spec rfl⟩
  all_goals simp only [DependencyGraph.getOrder, foldl_front, List.append_nil]
  · refine List.nodup_append.mpr ⟨standalone_nodup _, nodup, fun a first b second same => ?_⟩
    rw [same] at first
    exact (mem_standalone.mp first).2 ((names b).mp second)
  · rw [List.mem_append, mem_standalone, names, ← inGraph_or_key]
    by_cases is : InGraph config n <;> simp [is]
  · exact respects.after_free fun s mem d depends => (mem_standalone.mp mem).2 depends.inGraph.2

/-- Where the declared dependencies have no cycle, the order holds each section and each
    name that is depended on once, everything after what it depends on, and the
    dependencies of a section are the names of its list, each once. -/
theorem dependencyGraph_correct (topologicalSort : Graph → Option (List ℕ)) (config : SectionConfig)
    (acyclic : Acyclic (DependsOn config)) (sorts : Sorts topologicalSort (build config).graph) :
    ∃ g, dependencyGraph topologicalSort config = some g ∧ g.getOrder.Nodup ∧
      (∀ n, n ∈ g.getOrder ↔ n ∈ config.keys ∨ ∃ s, DependsOn config n s) ∧ Respects (DependsOn config) g.getOrder ∧
      ∀ s, (g.getDependencies s).Nodup ∧ ∀ d, d ∈ g.getDependencies s ↔ DependsOn config d s :=
  dependencyGraph_order topologicalSort config acyclic sorts

/-- The sections of the unit test of the graph. -/
def subsystemsYml : SectionConfig where
  entries :=
    [("Manager", ⟨"MockSubsystem", none, none, none, none⟩),
      ("Servant1", ⟨"MockSubsystem", some ["Manager"], none, none, none⟩),
      ("Servant2", ⟨"MockSubsystem", some ["Manager"], none, none, none⟩),
      ("SubServant", ⟨"MockSubsystem", some ["Servant1", "Servant2"], none, none, none⟩)]
  sorted := by decide +kernel

/-- What the sort of the library writes for the graph of these sections. -/
def testSort (_ : Graph) : Option (List ℕ) := some [3, 0, 2, 1]

theorem subsystemsYml_graph : (build subsystemsYml).graph = ⟨4, [(1, 0), (1, 2), (0, 3), (2, 3)]⟩ := by
  decide +kernel

example : (dependencyGraph testSort subsystemsYml).map DependencyGraph.getOrder =
    some ["Manager", "Servant2", "Servant1", "SubServant"] := by decide +kernel

theorem subsystemsYml_acyclic : Acyclic (DependsOn subsystemsYml) := by
  refine acyclic_of_rank (fun n => if n = "Manager" then 0 else if n = "SubServant" then 2 else 1) fun d s depends => ?_
  have grows : ∀ e ∈ subsystemsYml.entries, ∀ d ∈ e.2.names, (if d = "Manager" then 0 else if d = "SubServant" then 2 else 1) <
      if e.1 = "Manager" then 0 else if e.1 = "SubServant" then 2 else 1 := by decide +kernel
  obtain ⟨e, mem, named, rfl⟩ := dependsOn_iff.mp depends
  exact grows e mem d named

theorem testSort_sorts : Sorts testSort (build subsystemsYml).graph := by
  rw [subsystemsYml_graph]
  intro _
  refine ⟨_, rfl, by decide, fun v => ?_, ?_⟩
  · simp only [List.mem_cons, List.not_mem_nil, or_false]
    omega
  · have first : Respects (fun v u => (u, v) ∈ [(1, 0), (1, 2), (0, 3), (2, 3)]) [3] :=
      respects_nil.snoc (by simp)
    exact ((first.snoc (b := 0) (by simp)).snoc (b := 2) (by simp)).snoc (b := 1) (by simp)

/-- The configuration of the unit test, in the order that the sort of the library gives. -/
theorem dependencyGraph_test : ∃ g, dependencyGraph testSort subsystemsYml = some g ∧ g.getOrder.Nodup ∧
    (∀ n, n ∈ g.getOrder ↔ n ∈ subsystemsYml.keys ∨ ∃ s, DependsOn subsystemsYml n s) ∧
    Respects (DependsOn subsystemsYml) g.getOrder ∧
    ∀ s, (g.getDependencies s).Nodup ∧ ∀ d, d ∈ g.getDependencies s ↔ DependsOn subsystemsYml d s :=
  dependencyGraph_correct testSort subsystemsYml subsystemsYml_acyclic testSort_sorts

end Tortuga.Dependencies
