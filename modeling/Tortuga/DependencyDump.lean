import Mathlib.Data.List.Induction
import Mathlib.Data.List.Nodup
import Mathlib.Data.List.Perm.Subperm
import Tortuga.Dependencies

/-!
`writeDependencyGraph`: the graph of the sections in the Graphviz format. The writer takes it
that the sections with dependencies are the last ones of the order.
-/
namespace Tortuga.DependencyDump
open Tortuga.SortedMaps
open Tortuga.Precedence
open Tortuga.Dependencies
set_option linter.unusedSimpArgs false

/-! ### The writer -/

/-- A line of the file. -/
inductive Line where
  | header
  | label (vertex : ℕ) (name : Name)
  | edge (source vertex : ℕ)
  | footer
  deriving DecidableEq, Repr

def Line.text : Line → String
  | .header => "digraph G \x7b"
  | .label vertex name => toString vertex ++ "[label=\"" ++ name ++ "\"];"
  | .edge source vertex => toString source ++ "->" ++ toString vertex ++ " ;"
  | .footer => "\x7d"

/-- Everything that the stream gets, each line with its end. -/
def text (lines : List Line) : String := String.join (lines.map fun line => line.text ++ "\n")

/-- The loop over `m_order`: the translation table, and the lines written so far. -/
def writeLabels (order : List Name) : SortedMap Name ℕ × List Line :=
  order.zipIdx.foldl (fun state entry => (state.1.set entry.1 entry.2, state.2 ++ [.label entry.2 entry.1])) (.empty, [.header])

/-- `nameToVertex[name]`: zero for a name that is not in the table. -/
def vertex (nameToVertex : SortedMap Name ℕ) (name : Name) : ℕ := (nameToVertex.get? name).getD 0

/-- The second loop, from some place of `m_order` on. What `find` gives is used at once: for a
    name that is not in `m_sectionDeps` this is the end of the map, and nothing is known of what follows. -/
def writeEdges (nameToVertex : SortedMap Name ℕ) (sectionDeps : SortedMap Name (List Name)) : List Name → Option (List Line)
  | [] => some []
  | name :: rest =>
    (sectionDeps.get? name).bind fun deps =>
      (writeEdges nameToVertex sectionDeps rest).map fun lines =>
        deps.map (fun dep => .edge (vertex nameToVertex dep) (vertex nameToVertex name)) ++ lines

def writeDependencyGraph (g : DependencyGraph) : Option (List Line) :=
  let labels := writeLabels g.order
  (writeEdges labels.1 g.sectionDeps (g.order.drop (g.order.length - g.sectionDeps.keys.length))).map fun edges =>
    labels.2 ++ edges ++ [.footer]

/-! ### What is meant -/

/-- A section, or a name that a section depends on. -/
def Named (config : SectionConfig) (n : Name) : Prop := n ∈ config.keys ∨ ∃ s, DependsOn config n s

/-- The section has a list `depends_on`, which may be empty. -/
def HasList (config : SectionConfig) (n : Name) : Prop :=
  ∃ sec deps, config.get? n = some sec ∧ sec.dependsOn = some deps

/-- One label for each name and one edge for each dependency of a section, between the header and the footer.
    The names have different vertices. -/
def Depicts (config : SectionConfig) (lines : List Line) : Prop :=
  ∃ (number : Name → ℕ) (body : List Line), lines = .header :: body ++ [.footer] ∧ body.Nodup ∧
    (∀ n m, Named config n → Named config m → number n = number m → n = m) ∧
    ∀ line, line ∈ body ↔ (∃ n, Named config n ∧ line = .label (number n) n) ∨
      ∃ d s, DependsOn config d s ∧ line = .edge (number d) (number s)

/-! ### The labels -/

theorem foldl_labels (entries : List (Name × ℕ)) (table : SortedMap Name ℕ) (lines : List Line) :
    (entries.foldl (fun state entry => (state.1.set entry.1 entry.2, state.2 ++ [Line.label entry.2 entry.1])) (table, lines)).2 =
      lines ++ entries.map fun entry => .label entry.2 entry.1 := by
  induction entries generalizing table lines with
  | nil => simp
  | cons e rest ih => rw [List.foldl_cons, ih, List.map_cons, List.append_assoc, List.singleton_append]

theorem foldl_table (entries : List (Name × ℕ)) (table : SortedMap Name ℕ) (lines : List Line)
    (distinct : (entries.map Prod.fst).Nodup) {n : Name} {i : ℕ} (mem : (n, i) ∈ entries) :
    (entries.foldl (fun state entry => (state.1.set entry.1 entry.2, state.2 ++ [Line.label entry.2 entry.1])) (table, lines)).1.get? n =
      some i := by
  induction entries using List.reverseRecOn with
  | nil => cases mem
  | append_singleton front e ih =>
    rw [List.map_append, List.nodup_append] at distinct
    obtain ⟨distinct, -, apart⟩ := distinct
    rw [List.foldl_append, List.foldl_cons, List.foldl_nil]
    rcases List.mem_append.mp mem with before | last
    · have other : n ≠ e.1 := apart n (List.mem_map_of_mem (f := Prod.fst) before) e.1 (by simp)
      rw [SortedMap.get?_set_ne _ other]
      exact ih distinct before
    · cases List.mem_singleton.mp last
      exact SortedMap.get?_set_self _ _ _

section
variable {order : List Name}

theorem writeLabels_lines : (writeLabels order).2 = .header :: order.zipIdx.map fun entry => .label entry.2 entry.1 :=
  foldl_labels order.zipIdx .empty [.header]

/-- The vertex of a name is its place in the order. -/
theorem vertex_writeLabels (distinct : order.Nodup) {n : Name} {i : ℕ} (here : order[i]? = some n) :
    vertex (writeLabels order).1 n = i := by
  have mem : (n, i) ∈ order.zipIdx := List.mk_mem_zipIdx_iff_getElem?.mpr here
  have names : (order.zipIdx.map Prod.fst).Nodup := by rwa [List.zipIdx_map_fst]
  rw [vertex, writeLabels, foldl_table order.zipIdx .empty [.header] names mem]
  rfl

theorem vertex_injective (distinct : order.Nodup) {n m : Name} (first : n ∈ order) (second : m ∈ order)
    (same : vertex (writeLabels order).1 n = vertex (writeLabels order).1 m) : n = m := by
  obtain ⟨i, here⟩ := List.mem_iff_getElem?.mp first
  obtain ⟨j, there⟩ := List.mem_iff_getElem?.mp second
  rw [vertex_writeLabels distinct here, vertex_writeLabels distinct there] at same
  subst same
  exact Option.some_inj.mp (here.symm.trans there)

theorem mem_labels (distinct : order.Nodup) {line : Line} :
    line ∈ order.zipIdx.map (fun entry => Line.label entry.2 entry.1) ↔
      ∃ n ∈ order, line = .label (vertex (writeLabels order).1 n) n := by
  rw [List.mem_map]
  constructor
  · rintro ⟨⟨n, i⟩, mem, rfl⟩
    have here := List.mk_mem_zipIdx_iff_getElem?.mp mem
    exact ⟨n, List.mem_of_getElem? here, by rw [vertex_writeLabels distinct here]⟩
  · rintro ⟨n, mem, rfl⟩
    obtain ⟨i, here⟩ := List.mem_iff_getElem?.mp mem
    exact ⟨(n, i), List.mk_mem_zipIdx_iff_getElem?.mpr here, by rw [vertex_writeLabels distinct here]⟩

theorem labels_nodup (distinct : order.Nodup) : (order.zipIdx.map fun entry => Line.label entry.2 entry.1).Nodup := by
  refine List.Nodup.map (fun e f same => ?_) (List.Nodup.of_map Prod.fst (by rwa [List.zipIdx_map_fst]))
  obtain ⟨second, first⟩ := Line.label.inj same
  exact Prod.ext first second

end

/-! ### The edges -/

section
variable {table : SortedMap Name ℕ} {sectionDeps : SortedMap Name (List Name)} {names : List Name}

/-- The lines are there exactly when all the names have lists. -/
theorem writeEdges_isSome : (writeEdges table sectionDeps names).isSome ↔ ∀ n ∈ names, (sectionDeps.get? n).isSome := by
  induction names with
  | nil => simp [writeEdges]
  | cons name rest ih =>
    rw [writeEdges, List.forall_mem_cons, ← ih]
    cases sectionDeps.get? name with
    | none => simp
    | some deps => simp

theorem writeEdges_spec {lines : List Line} (written : writeEdges table sectionDeps names = some lines) :
    lines = names.flatMap fun name =>
      ((sectionDeps.get? name).getD []).map fun dep => .edge (vertex table dep) (vertex table name) := by
  induction names generalizing lines with
  | nil =>
    cases written
    rfl
  | cons name rest ih =>
    rw [writeEdges] at written
    cases found : sectionDeps.get? name with
    | none =>
      rw [found] at written
      cases written
    | some deps =>
      rw [found, Option.bind_some, Option.map_eq_some_iff] at written
      obtain ⟨others, after, rfl⟩ := written
      rw [ih after, List.flatMap_cons, found, Option.getD_some]

end

/-! ### Where the lists stand in the order -/

/-- Once an element has a property all later ones have it: the list has two parts. -/
theorem parts_of_pairwise {α : Type} {p : α → Prop} {l : List α} (last : l.Pairwise fun a b => p a → p b) :
    ∃ front back, l = front ++ back ∧ (∀ a ∈ front, ¬ p a) ∧ ∀ a ∈ back, p a := by
  induction l with
  | nil => exact ⟨[], [], rfl, by simp, by simp⟩
  | cons a rest ih =>
    obtain ⟨first, later⟩ := List.pairwise_cons.mp last
    by_cases has : p a
    · refine ⟨[], a :: rest, rfl, by simp, ?_⟩
      intro b mem
      rcases List.mem_cons.mp mem with rfl | after
      · exact has
      · exact first b after has
    · obtain ⟨front, back, rfl, none, all⟩ := ih later
      refine ⟨a :: front, back, rfl, ?_, all⟩
      intro b mem
      rcases List.mem_cons.mp mem with rfl | after
      · exact has
      · exact none b after

theorem pairwise_of_parts {α : Type} {p : α → Prop} {front back : List α} (none : ∀ a ∈ front, ¬ p a) (all : ∀ a ∈ back, p a) :
    (front ++ back).Pairwise fun a b => p a → p b := by
  refine List.pairwise_append.mpr ⟨?_, ?_, ?_⟩
  · exact List.pairwise_of_forall_mem_list (fun a mem _ _ has => absurd has (none a mem))
  · exact List.pairwise_of_forall_mem_list (fun _ _ b mem _ => all b mem)
  · intro a _ b mem _
    exact all b mem

section
variable {α : Type} {p : α → Prop} {l own : List α}

/-- When the last elements have a property, as many of them as there are elements with it, no other element has it. -/
theorem mem_drop_of_all (distinct : l.Nodup) (once : own.Nodup) (mem_own : ∀ a, a ∈ own ↔ p a) (inside : ∀ a ∈ own, a ∈ l)
    (all : ∀ a ∈ l.drop (l.length - own.length), p a) {a : α} (has : p a) : a ∈ l.drop (l.length - own.length) := by
  have few : own.length ≤ l.length := (List.subperm_of_subset once inside).length_le
  have within : l.drop (l.length - own.length) ⊆ own := fun a mem => (mem_own a).mpr (all a mem)
  have sub := List.subperm_of_subset (distinct.sublist (List.drop_sublist _ l)) within
  refine (sub.perm_of_length_le ?_).symm.subset ((mem_own a).mpr has)
  rw [List.length_drop]
  omega

/-- The elements with a property are the last ones exactly when as many of the last ones as there are such elements
    have it. -/
theorem pairwise_iff_drop (distinct : l.Nodup) (once : own.Nodup) (mem_own : ∀ a, a ∈ own ↔ p a) (inside : ∀ a ∈ own, a ∈ l) :
    (l.Pairwise fun a b => p a → p b) ↔ ∀ a ∈ l.drop (l.length - own.length), p a := by
  constructor
  · intro last
    obtain ⟨front, back, rfl, none, all⟩ := parts_of_pairwise last
    have same : back.Perm own := by
      refine (List.perm_ext_iff_of_nodup (List.nodup_append.mp distinct).2.1 once).mpr (fun a => ?_)
      rw [mem_own]
      refine ⟨all a, fun has => ?_⟩
      rcases List.mem_append.mp (inside a ((mem_own a).mpr has)) with before | here
      · exact absurd has (none a before)
      · exact here
    rw [List.length_append, same.length_eq, Nat.add_sub_cancel, List.drop_left]
    exact all
  · intro all
    have split := List.take_append_drop (l.length - own.length) l
    have apart := (List.nodup_append.mp (split.symm ▸ distinct)).2.2
    rw [← split]
    refine pairwise_of_parts (fun a mem has => ?_) all
    exact apart a mem a (mem_drop_of_all distinct once mem_own inside all has) rfl

end

/-! ### The whole file -/

section
variable {config : SectionConfig} {g : DependencyGraph}

theorem hasList_iff {n : Name} : HasList config n ↔ ((build config).sectionDeps.get? n).isSome := by
  rw [build_sectionDeps, HasList]
  cases config.get? n with
  | none => simp
  | some sec =>
    cases has : sec.dependsOn with
    | none => simp [has]
    | some deps => simp [has]

theorem hasList_of_dependsOn {d s : Name} (depends : DependsOn config d s) : HasList config s := by
  obtain ⟨sec, deps, found, has, -⟩ := depends
  exact ⟨sec, deps, found, has⟩

theorem HasList.named {n : Name} (has : HasList config n) : Named config n := by
  obtain ⟨sec, deps, found, -⟩ := has
  exact .inl (config.mem_keys.mpr ⟨sec, found⟩)

/-- What the constructor leaves in the members. -/
structure Made (config : SectionConfig) (g : DependencyGraph) : Prop where
  deps : g.sectionDeps = (build config).sectionDeps
  distinct : g.order.Nodup
  named : ∀ n, n ∈ g.order ↔ Named config n

theorem Made.mem_keys (made : Made config g) (n : Name) : n ∈ g.sectionDeps.keys ↔ HasList config n := by
  rw [hasList_iff, SortedMap.mem_keys, made.deps, Option.isSome_iff_exists]

theorem Made.keys_inside (made : Made config g) : ∀ n ∈ g.sectionDeps.keys, n ∈ g.order :=
  fun n mem => (made.named n).mpr ((made.mem_keys n).mp mem).named

/-- The writer comes to its end exactly when the sections with lists are the last ones. -/
theorem Made.written_iff (made : Made config g) : (writeDependencyGraph g).isSome ↔
    g.order.Pairwise fun n m => HasList config n → HasList config m := by
  rw [pairwise_iff_drop made.distinct g.sectionDeps.keys_nodup made.mem_keys made.keys_inside,
    writeDependencyGraph, Option.isSome_map, writeEdges_isSome, made.deps]
  simp only [hasList_iff]

/-- The edges into the sections at the end of the order. -/
theorem Made.mem_edges (made : Made config g) {back : List Name} (whole : ∀ n, HasList config n → n ∈ back)
    (number : Name → ℕ) {line : Line} :
    line ∈ back.flatMap (fun name => ((g.sectionDeps.get? name).getD []).map fun dep => Line.edge (number dep) (number name)) ↔
      ∃ d s, DependsOn config d s ∧ line = .edge (number d) (number s) := by
  have deps (s : Name) := getDependencies_spec made.deps s
  simp only [DependencyGraph.getDependencies] at deps
  rw [List.mem_flatMap]
  constructor
  · rintro ⟨s, -, mem⟩
    obtain ⟨d, found, rfl⟩ := List.mem_map.mp mem
    exact ⟨d, s, ((deps s).2 d).mp found, rfl⟩
  · rintro ⟨d, s, depends, rfl⟩
    exact ⟨s, whole s (hasList_of_dependsOn depends), List.mem_map.mpr ⟨d, ((deps s).2 d).mpr depends, rfl⟩⟩

theorem Made.edges_nodup (made : Made config g) {back : List Name} (once : back.Nodup) (inside : ∀ n ∈ back, n ∈ g.order)
    {number : Name → ℕ} (injective : ∀ n ∈ g.order, ∀ m ∈ g.order, number n = number m → n = m) :
    (back.flatMap fun name => ((g.sectionDeps.get? name).getD []).map fun dep => Line.edge (number dep) (number name)).Nodup := by
  have deps (s : Name) := getDependencies_spec made.deps s
  simp only [DependencyGraph.getDependencies] at deps
  refine List.nodup_flatMap.mpr ⟨fun s mem => ?_, ?_⟩
  · refine List.Nodup.map_on (fun d first e second same => ?_) (deps s).1
    have inOrder : ∀ d ∈ (g.sectionDeps.get? s).getD [], d ∈ g.order :=
      fun d mem => (made.named d).mpr (.inr ⟨s, ((deps s).2 d).mp mem⟩)
    exact injective d (inOrder d first) e (inOrder e second) (Line.edge.inj same).1
  · refine once.imp_of_mem (fun {s t} first second apart => ?_)
    intro line left right
    obtain ⟨d, -, rfl⟩ := List.mem_map.mp left
    obtain ⟨e, -, same⟩ := List.mem_map.mp right
    exact apart (injective s (inside s first) t (inside t second) (Line.edge.inj same).2.symm)

/-- What is written is the graph. -/
theorem Made.depicts (made : Made config g) {lines : List Line} (written : writeDependencyGraph g = some lines) :
    Depicts config lines := by
  have last := made.written_iff.mp (by rw [written]; rfl)
  obtain ⟨edges, found, rfl⟩ := Option.map_eq_some_iff.mp written
  have all := (pairwise_iff_drop made.distinct g.sectionDeps.keys_nodup made.mem_keys made.keys_inside).mp last
  have whole (n : Name) : HasList config n → n ∈ g.order.drop (g.order.length - g.sectionDeps.keys.length) :=
    mem_drop_of_all made.distinct g.sectionDeps.keys_nodup made.mem_keys made.keys_inside all
  have injective : ∀ n ∈ g.order, ∀ m ∈ g.order, vertex (writeLabels g.order).1 n = vertex (writeLabels g.order).1 m → n = m :=
    fun n first m second same => vertex_injective made.distinct first second same
  rw [writeEdges_spec found, writeLabels_lines]
  refine ⟨vertex (writeLabels g.order).1, _ ++ _, rfl, List.nodup_append.mpr ⟨labels_nodup made.distinct, ?_, ?_⟩, ?_, fun line => ?_⟩
  · exact made.edges_nodup (made.distinct.sublist (List.drop_sublist _ _)) (fun n mem => List.mem_of_mem_drop mem) injective
  · rintro _ left line right rfl
    obtain ⟨n, -, rfl⟩ := (mem_labels made.distinct).mp left
    obtain ⟨d, s, -, same⟩ := (made.mem_edges whole _).mp right
    cases same
  · exact fun n m first second same => injective n ((made.named n).mpr first) m ((made.named m).mpr second) same
  · rw [List.mem_append, mem_labels made.distinct, made.mem_edges whole]
    simp only [made.named]

end

/-- The file shows the graph of the sections exactly when in the order no name without a list `depends_on` stands after
    a section with one. Otherwise the writer uses an entry that is not there. -/
theorem dump_correct (topologicalSort : Graph → Option (List ℕ)) (config : SectionConfig)
    (acyclic : Acyclic (DependsOn config)) (sorts : Sorts topologicalSort (build config).graph) :
    ∃ g, dependencyGraph topologicalSort config = some g ∧
      ((∃ lines, writeDependencyGraph g = some lines ∧ Depicts config lines) ↔
        g.getOrder.Pairwise fun n m => HasList config n → HasList config m) := by
  obtain ⟨g, made, distinct, named, -, -⟩ := dependencyGraph_order topologicalSort config acyclic sorts
  have deps : g.sectionDeps = (build config).sectionDeps := by
    obtain ⟨written, -, rfl⟩ := Option.map_eq_some_iff.mp made
    rfl
  have whole : Made config g := ⟨deps, distinct, named⟩
  refine ⟨g, made, ?_⟩
  rw [DependencyGraph.getOrder, ← whole.written_iff]
  constructor
  · rintro ⟨lines, written, -⟩
    rw [written]
    rfl
  · intro some
    obtain ⟨lines, written⟩ := Option.isSome_iff_exists.mp some
    exact ⟨lines, written, whole.depicts written⟩

/-- The sections of the unit test. -/
theorem dump_correct_test : ∃ g, dependencyGraph testSort subsystemsYml = some g ∧
    ((∃ lines, writeDependencyGraph g = some lines ∧ Depicts subsystemsYml lines) ↔
      g.getOrder.Pairwise fun n m => HasList subsystemsYml n → HasList subsystemsYml m) :=
  dump_correct testSort subsystemsYml subsystemsYml_acyclic testSort_sorts

example : ((dependencyGraph testSort subsystemsYml).bind writeDependencyGraph).map text =
    some ("digraph G \x7b\n0[label=\"Manager\"];\n1[label=\"Servant2\"];\n2[label=\"Servant1\"];\n" ++
      "3[label=\"SubServant\"];\n0->1 ;\n0->2 ;\n2->3 ;\n1->3 ;\n\x7d\n") := by decide +kernel

/-! ### Two chains -/

/-- Two sections that depend on one other each. -/
def twoChains : SectionConfig where
  entries :=
    [("A", ⟨"MockSubsystem", none, none, none, none⟩),
      ("B", ⟨"MockSubsystem", some ["A"], none, none, none⟩),
      ("C", ⟨"MockSubsystem", none, none, none, none⟩),
      ("D", ⟨"MockSubsystem", some ["C"], none, none, none⟩)]
  sorted := by decide +kernel

/-- What the sort of the library writes for them. -/
def chainSort (_ : Graph) : Option (List ℕ) := some [0, 1, 2, 3]

theorem twoChains_graph : (build twoChains).graph = ⟨4, [(1, 0), (3, 2)]⟩ := by
  decide +kernel

theorem twoChains_acyclic : Acyclic (DependsOn twoChains) := by
  refine acyclic_of_rank (fun n => if n = "A" ∨ n = "C" then 0 else 1) (fun d s depends => ?_)
  have grows : ∀ e ∈ twoChains.entries, ∀ d ∈ e.2.names, (if d = "A" ∨ d = "C" then 0 else 1) <
      if e.1 = "A" ∨ e.1 = "C" then 0 else 1 := by decide +kernel
  obtain ⟨e, mem, named, rfl⟩ := dependsOn_iff.mp depends
  exact grows e mem d named

theorem chainSort_sorts : Sorts chainSort (build twoChains).graph := by
  rw [twoChains_graph]
  intro _
  refine ⟨_, rfl, by decide, fun v => ?_, ?_⟩
  · simp only [List.mem_cons, List.not_mem_nil, or_false]
    omega
  · have first : Respects (fun v u => (u, v) ∈ [(1, 0), (3, 2)]) [0] := respects_nil.snoc (by simp)
    exact ((first.snoc (b := 1) (by simp)).snoc (b := 2) (by simp)).snoc (b := 3) (by simp)

/-- In the order `C`, `D`, `A`, `B` the last two names are not the two sections with a list. -/
theorem dump_fails : Acyclic (DependsOn twoChains) ∧ Sorts chainSort (build twoChains).graph ∧
    ∃ g, dependencyGraph chainSort twoChains = some g ∧ writeDependencyGraph g = none := by
  refine ⟨twoChains_acyclic, chainSort_sorts, _, rfl, ?_⟩
  decide +kernel

end Tortuga.DependencyDump
