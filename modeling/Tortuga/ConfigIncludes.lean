import Mathlib.Data.List.Perm.Subperm
import Mathlib.Data.String.Basic
import Mathlib.Logic.Relation
import Tortuga.Precedence
import Tortuga.SortedMaps

/-!
`includeIfNeeded`: the entries of another file are put into a node, then those of the file
which that one includes, and so on. Only a file that includes itself is noticed.
-/
namespace Tortuga.ConfigIncludes
open Tortuga.Precedence
open Tortuga.SortedMaps
set_option linter.unusedSimpArgs false

/-! ### The interpreter's part -/

/-- A value of a node. Only texts can be paths. -/
inductive Value (V : Type) where
  | text (s : String)
  | bool (b : Bool)
  | other (v : V)
  deriving DecidableEq, Repr

/-- A Python dictionary with its keys. -/
abbrev Dict (V : Type) := SortedMap String (Value V)

/-- What the interpreter raises. -/
inductive PyError where
  | keyError
  | attributeError
  | ioError
  | runtimeError
  deriving DecidableEq, Repr

/-- The files by their full paths, with nothing for one that does not hold a dictionary, the full path of an `INCLUDE`,
    and how many calls of `add_include` may be open at a time. -/
structure World (V : Type) where
  files : SortedMap String (Option (Dict V))
  fullPath : String → String
  limit : ℕ

section
variable {V : Type} (w : World V)

/-- `yaml.load(file(..))` for the path in an `INCLUDE`. -/
def load : Value V → Except PyError (Dict V)
  | .text path =>
    match w.files.get? (w.fullPath path) with
    | none => .error .ioError
    | some none => .error .attributeError
    | some (some cfg) => .ok cfg
  | .bool _ | .other _ => .error .attributeError

/-- The loop over the items of `cfg`. -/
def merge (node cfg : Dict V) : Dict V := cfg.entries.foldl (fun node item => node.set item.1 item.2) node

/-- `add_include`, with the number of calls that may still be open. The node keeps what it has been given before an error. -/
def addInclude [DecidableEq V] : ℕ → Dict V → Dict V × Option PyError
  | 0, node => (node, some .runtimeError)
  | calls + 1, node =>
    match node.get? "INCLUDE" with
    | none => (node, some .keyError)
    | some includePath =>
      match load w includePath with
      | .error raised => (node, some raised)
      | .ok cfg =>
        let node := merge node cfg
        if some includePath = node.get? "INCLUDE" then (node.set "INCLUDE_LOADED" (.bool true), none)
        else addInclude calls node

def includeIfNeeded [DecidableEq V] (node : Dict V) : Dict V × Option PyError :=
  if node.get? "INCLUDE_LOADED" = none ∧ node.get? "INCLUDE" ≠ none then addInclude w w.limit node else (node, none)

/-! ### What is meant -/

/-- The file of the first value has the second one as its `INCLUDE`. -/
def Includes (v v' : Value V) : Prop := ∃ cfg, load w v = .ok cfg ∧ cfg.get? "INCLUDE" = some v'

/-- The file is loaded for a value that is reached from another one. -/
def Reachable (v : Value V) (cfg : Dict V) : Prop := ∃ v', Relation.ReflTransGen (Includes w) v v' ∧ load w v' = .ok cfg

/-- The files that a value leads to, up to one without an `INCLUDE` or with the one that it was loaded for. -/
inductive Chain : Value V → List (Dict V) → Prop where
  | last {v cfg} : load w v = .ok cfg → (cfg.get? "INCLUDE" = none ∨ cfg.get? "INCLUDE" = some v) → Chain v [cfg]
  | next {v v' cfg cfgs} : load w v = .ok cfg → cfg.get? "INCLUDE" = some v' → v' ≠ v → Chain v' cfgs → Chain v (cfg :: cfgs)

/-- The node has an `INCLUDE` that has not been followed yet. -/
def Needed (node : Dict V) (v : Value V) : Prop := node.get? "INCLUDE_LOADED" = none ∧ node.get? "INCLUDE" = some v

/-- The includes of the node come to an end before too many calls are open. -/
def Ends (node : Dict V) : Prop := ∀ v, Needed node v → ∃ cfgs, Chain w v cfgs ∧ cfgs.length ≤ w.limit

/-- The node has come to hold the entries of all files that are reachable, and nothing else but its own ones and the mark. -/
structure Union (node node' : Dict V) (v : Value V) : Prop where
  all : ∀ cfg, Reachable w v cfg → ∀ key ∈ cfg.keys, key ∈ node'.keys
  own : ∀ key ∈ node.keys, key ∈ node'.keys
  only : ∀ key value, node'.get? key = some value → key = "INCLUDE_LOADED" ∧ value = .bool true ∨
    (∃ cfg, Reachable w v cfg ∧ cfg.get? key = some value) ∨
    node.get? key = some value ∧ ∀ cfg, Reachable w v cfg → key ∉ cfg.keys
  loaded : node'.get? "INCLUDE_LOADED" = some (.bool true)

/-- Every file holds a dictionary, and every `INCLUDE` in it names a file. -/
def Closed : Prop :=
  ∀ path file, w.files.get? path = some file → ∃ cfg, file = some cfg ∧
    ∀ v, cfg.get? "INCLUDE" = some v → ∃ cfg', load w v = .ok cfg'

/-! ### One file -/

variable {w} {node cfg : Dict V} {cfgs : List (Dict V)} {v v' : Value V} {calls : ℕ}

theorem get?_merge (key : String) : (merge node cfg).get? key = (cfg.get? key).or (node.get? key) :=
  node.get?_setAll cfg.entries cfg.keys_nodup key

theorem addInclude_last [DecidableEq V] (here : node.get? "INCLUDE" = some v) (file : load w v = .ok cfg)
    (last : cfg.get? "INCLUDE" = none ∨ cfg.get? "INCLUDE" = some v) :
    addInclude w (calls + 1) node = ((merge node cfg).set "INCLUDE_LOADED" (.bool true), none) := by
  have same : some v = (merge node cfg).get? "INCLUDE" := by
    rw [get?_merge, here]
    rcases last with none | self
    · rw [none, Option.none_or]
    · rw [self, Option.some_or]
  simp only [addInclude, here, file]
  rw [if_pos same]

theorem addInclude_next [DecidableEq V] (calls : ℕ) (here : node.get? "INCLUDE" = some v) (file : load w v = .ok cfg)
    (next : cfg.get? "INCLUDE" = some v') (other : v' ≠ v) :
    addInclude w (calls + 1) node = addInclude w calls (merge node cfg) ∧ (merge node cfg).get? "INCLUDE" = some v' := by
  have after : (merge node cfg).get? "INCLUDE" = some v' := by rw [get?_merge, next, Option.some_or]
  have apart : ¬ some v = (merge node cfg).get? "INCLUDE" := by
    rw [after, Option.some_inj]
    exact Ne.symm other
  simp only [addInclude, here, file]
  rw [if_neg apart]
  exact ⟨rfl, after⟩

/-- Either a file ends the chain, or it leads to another value. -/
theorem last_or_next (v : Value V) (cfg : Dict V) :
    (cfg.get? "INCLUDE" = none ∨ cfg.get? "INCLUDE" = some v) ∨ ∃ v', cfg.get? "INCLUDE" = some v' ∧ v' ≠ v := by
  cases found : cfg.get? "INCLUDE" with
  | none => exact .inl (.inl rfl)
  | some v' =>
    by_cases same : v' = v
    · exact .inl (.inr (by rw [same]))
    · exact .inr ⟨v', rfl, same⟩

/-! ### All files -/

/-- With enough calls the files of the chain are merged one after the other. -/
theorem addInclude_chain [DecidableEq V] (chain : Chain w v cfgs) (here : node.get? "INCLUDE" = some v) (enough : cfgs.length ≤ calls) :
    addInclude w calls node = ((cfgs.foldl merge node).set "INCLUDE_LOADED" (.bool true), none) := by
  induction chain generalizing node calls with
  | last file last =>
    obtain ⟨calls, rfl⟩ := Nat.exists_eq_add_of_le' (show 1 ≤ calls from enough)
    exact addInclude_last here file last
  | next file next other chain ih =>
    obtain ⟨calls, rfl⟩ := Nat.exists_eq_add_of_le' (Nat.le_trans (Nat.le_add_left 1 _) enough)
    obtain ⟨step, there⟩ := addInclude_next calls here file next other
    rw [step, ih there (Nat.le_of_succ_le_succ enough), List.foldl_cons]

/-- A return without an error is the end of a chain. -/
theorem chain_of_addInclude [DecidableEq V] (here : node.get? "INCLUDE" = some v) (returned : (addInclude w calls node).2 = none) :
    ∃ cfgs, Chain w v cfgs ∧ cfgs.length ≤ calls := by
  induction calls generalizing node v with
  | zero => cases returned
  | succ calls ih =>
    cases file : load w v with
    | error raised =>
      simp only [addInclude, here, file] at returned
      cases returned
    | ok cfg =>
      rcases last_or_next v cfg with last | ⟨v', next, other⟩
      · exact ⟨[cfg], .last file last, by simp⟩
      · obtain ⟨step, there⟩ := addInclude_next calls here file next other
        rw [step] at returned
        obtain ⟨cfgs, chain, short⟩ := ih there returned
        exact ⟨cfg :: cfgs, .next file next other chain, Nat.succ_le_succ short⟩

theorem includeIfNeeded_needed [DecidableEq V] (needed : Needed node v) : includeIfNeeded w node = addInclude w w.limit node := by
  have : node.get? "INCLUDE" ≠ none := by simp [needed.2]
  rw [includeIfNeeded, if_pos ⟨needed.1, this⟩]

theorem includeIfNeeded_not [DecidableEq V] (none : ∀ v, ¬ Needed node v) : includeIfNeeded w node = (node, Option.none) := by
  rw [includeIfNeeded, if_neg]
  rintro ⟨fresh, has⟩
  obtain ⟨v, here⟩ := Option.ne_none_iff_exists'.mp has
  exact none v ⟨fresh, here⟩

theorem returns_iff [DecidableEq V] : (includeIfNeeded w node).2 = none ↔ Ends w node := by
  constructor
  · intro returned v needed
    rw [includeIfNeeded_needed needed] at returned
    exact chain_of_addInclude needed.2 returned
  · intro ends
    by_cases needed : ∃ v, Needed node v
    · obtain ⟨v, needed⟩ := needed
      obtain ⟨cfgs, chain, short⟩ := ends v needed
      rw [includeIfNeeded_needed needed, addInclude_chain chain needed.2 short]
    · rw [includeIfNeeded_not (fun v has => needed ⟨v, has⟩)]

/-! ### The entries -/

theorem includes_unique (file : load w v = .ok cfg) (next : cfg.get? "INCLUDE" = some v') {u : Value V}
    (includes : Includes w v u) : u = v' := by
  obtain ⟨cfg', file', next'⟩ := includes
  cases file.symm.trans file'
  exact Option.some_inj.mp (next'.symm.trans next)

/-- From the last file on there is nothing but the value itself. -/
theorem reached_of_last (file : load w v = .ok cfg) (last : cfg.get? "INCLUDE" = none ∨ cfg.get? "INCLUDE" = some v)
    {u : Value V} (path : Relation.ReflTransGen (Includes w) v u) : u = v := by
  induction path with
  | refl => rfl
  | tail _ step ih =>
    subst ih
    obtain ⟨cfg', file', next⟩ := step
    cases file.symm.trans file'
    rcases last with none | self
    · rw [none] at next
      cases next
    · exact Option.some_inj.mp (next.symm.trans self)

/-- The files of a chain are those that can be reached. -/
theorem Chain.mem_iff (chain : Chain w v cfgs) (c : Dict V) : c ∈ cfgs ↔ Reachable w v c := by
  induction chain with
  | @last v cfg file last =>
    rw [List.mem_singleton]
    constructor
    · rintro rfl
      exact ⟨v, .refl, file⟩
    · rintro ⟨u, path, file'⟩
      have same := reached_of_last file last path
      subst same
      exact (Except.ok.inj (file.symm.trans file')).symm
  | @next v v' cfg cfgs file next other chain ih =>
    rw [List.mem_cons, ih]
    constructor
    · rintro (rfl | ⟨u, path, file'⟩)
      · exact ⟨v, .refl, file⟩
      · exact ⟨u, path.head ⟨cfg, file, next⟩, file'⟩
    · rintro ⟨u, path, file'⟩
      rcases path.cases_head with rfl | ⟨v'', first, rest⟩
      · exact .inl (Except.ok.inj (file'.symm.trans file))
      · cases includes_unique file next first
        exact .inr ⟨u, rest, file'⟩

theorem mem_keys_merge {key : String} : key ∈ (merge node cfg).keys ↔ key ∈ cfg.keys ∨ key ∈ node.keys := by
  simp only [SortedMap.mem_keys, get?_merge]
  cases cfg.get? key with
  | none => simp
  | some value => simp

theorem mem_keys_mergeAll {key : String} :
    key ∈ (cfgs.foldl merge node).keys ↔ key ∈ node.keys ∨ ∃ cfg ∈ cfgs, key ∈ cfg.keys := by
  induction cfgs generalizing node with
  | nil => simp
  | cons cfg rest ih =>
    rw [List.foldl_cons, ih, mem_keys_merge]
    simp only [List.mem_cons, exists_eq_or_imp]
    rw [or_comm (a := key ∈ cfg.keys), or_assoc]

/-- An entry comes from one of the files, or from the node when no file has the key. -/
theorem get?_mergeAll {key : String} {value : Value V} (found : (cfgs.foldl merge node).get? key = some value) :
    (∃ cfg ∈ cfgs, cfg.get? key = some value) ∨ node.get? key = some value ∧ ∀ cfg ∈ cfgs, key ∉ cfg.keys := by
  induction cfgs generalizing node with
  | nil => exact .inr ⟨found, by simp⟩
  | cons cfg rest ih =>
    rcases ih found with ⟨other, mem, here⟩ | ⟨here, none⟩
    · exact .inl ⟨other, List.mem_cons_of_mem _ mem, here⟩
    rw [get?_merge] at here
    cases own : cfg.get? key with
    | some first =>
      rw [own, Option.some_or] at here
      exact .inl ⟨cfg, List.mem_cons_self, own.trans here⟩
    | none =>
      rw [own, Option.none_or] at here
      refine .inr ⟨here, ?_⟩
      rw [List.forall_mem_cons]
      refine ⟨?_, none⟩
      rw [SortedMap.mem_keys, own]
      simp

theorem Chain.union (chain : Chain w v cfgs) :
    Union w node ((cfgs.foldl merge node).set "INCLUDE_LOADED" (.bool true)) v := by
  have keys (key : String) (mem : key ∈ (cfgs.foldl merge node).keys) :
      key ∈ ((cfgs.foldl merge node).set "INCLUDE_LOADED" (.bool true)).keys := by
    rw [SortedMap.mem_keys] at mem ⊢
    rw [SortedMap.get?_set]
    split
    · exact ⟨_, rfl⟩
    · exact mem
  refine ⟨fun cfg reached key mem => ?_, fun key mem => ?_, fun key value found => ?_, SortedMap.get?_set_self _ _ _⟩
  · exact keys key (mem_keys_mergeAll.mpr (.inr ⟨cfg, (chain.mem_iff cfg).mpr reached, mem⟩))
  · exact keys key (mem_keys_mergeAll.mpr (.inl mem))
  · rw [SortedMap.get?_set] at found
    split at found
    case isTrue mark => exact .inl ⟨mark, (Option.some_inj.mp found).symm⟩
    case isFalse =>
      right
      rcases get?_mergeAll found with ⟨cfg, mem, here⟩ | ⟨here, none⟩
      · exact .inl ⟨cfg, (chain.mem_iff cfg).mp mem, here⟩
      · exact .inr ⟨here, fun cfg reached => none cfg ((chain.mem_iff cfg).mpr reached)⟩

/-! ### Cycles -/

/-- The value is of another file, or another way to name the same one. -/
def Leads (w : World V) (v v' : Value V) : Prop := Includes w v v' ∧ v' ≠ v

theorem load_text (file : load w v = .ok cfg) : ∃ path, w.files.get? path = some (some cfg) ∧
    ∀ cfg', w.files.get? path = some (some cfg') → cfg' = cfg := by
  cases v with
  | text s =>
    simp only [load] at file
    cases found : w.files.get? (w.fullPath s) with
    | none =>
      rw [found] at file
      cases file
    | some content =>
      rw [found] at file
      cases content with
      | none => cases file
      | some cfg' =>
        cases Except.ok.inj file
        exact ⟨w.fullPath s, found, fun cfg' same => by cases found.symm.trans same; rfl⟩
  | bool b => cases file
  | other v => cases file

/-- Without cycles every step leads to a file that has not been loaded before, so there are no more steps than files. -/
theorem chain_of_acyclic (closed : Closed w) (acyclic : Acyclic (Leads w)) (n : ℕ) (seen : List String) (once : seen.Nodup)
    (inside : seen ⊆ w.files.keys) (room : w.files.keys.length ≤ n + seen.length)
    (before : ∀ path ∈ seen, ∀ cfg u, w.files.get? path = some (some cfg) → cfg.get? "INCLUDE" = some u →
      Relation.ReflTransGen (Leads w) u v) (file : load w v = .ok cfg) : ∃ cfgs, Chain w v cfgs ∧ cfgs.length ≤ n + 1 := by
  induction n generalizing v cfg seen with
  | zero =>
    rcases last_or_next v cfg with last | ⟨v', next, other⟩
    · exact ⟨[cfg], .last file last, by simp⟩
    · obtain ⟨path, found, -⟩ := load_text file
      -- All files have been loaded, so this one has.
      have again : path ∈ seen := by
        have sub := List.subperm_of_subset once inside
        exact (sub.perm_of_length_le (by omega)).symm.subset (w.files.mem_keys.mpr ⟨_, found⟩)
      exact absurd (Relation.TransGen.head' ⟨⟨cfg, file, next⟩, other⟩ (before path again cfg v' found next)) (acyclic v)
  | succ n ih =>
    rcases last_or_next v cfg with last | ⟨v', next, other⟩
    · exact ⟨[cfg], .last file last, by simp⟩
    · obtain ⟨path, found, unique⟩ := load_text file
      have leads : Leads w v v' := ⟨⟨cfg, file, next⟩, other⟩
      have new : path ∉ seen := by
        intro again
        exact acyclic v (Relation.TransGen.head' leads (before path again cfg v' found next))
      obtain ⟨own, whole, names⟩ := closed path (some cfg) found
      cases Option.some_inj.mp whole
      obtain ⟨cfg', file'⟩ := names v' next
      have later : ∀ p ∈ path :: seen, ∀ c u, w.files.get? p = some (some c) → c.get? "INCLUDE" = some u →
          Relation.ReflTransGen (Leads w) u v' := by
        intro p mem c u at' has
        rcases List.mem_cons.mp mem with rfl | old
        · cases unique c at'
          cases Option.some_inj.mp (has.symm.trans next)
          exact .refl
        · exact (before p old c u at' has).tail leads
      obtain ⟨cfgs, chain, short⟩ := ih (path :: seen) (List.nodup_cons.mpr ⟨new, once⟩)
        (List.cons_subset.mpr ⟨w.files.mem_keys.mpr ⟨_, found⟩, inside⟩) (by simp only [List.length_cons]; omega) later file'
      exact ⟨cfg :: cfgs, .next file next other chain, Nat.succ_le_succ short⟩

/-- Where each include can be loaded and there is no end to them, the calls run out. -/
theorem raises_of_not_chain [DecidableEq V] (closed : Closed w) (endless : ¬ ∃ cfgs, Chain w v cfgs) (file : load w v = .ok cfg)
    (here : node.get? "INCLUDE" = some v) : (addInclude w calls node).2 = some .runtimeError := by
  induction calls generalizing node v cfg with
  | zero => rfl
  | succ calls ih =>
    rcases last_or_next v cfg with last | ⟨v', next, other⟩
    · exact absurd ⟨[cfg], .last file last⟩ endless
    · obtain ⟨path, found, -⟩ := load_text file
      obtain ⟨own, whole, names⟩ := closed path (some cfg) found
      cases Option.some_inj.mp whole
      obtain ⟨cfg', file'⟩ := names v' next
      obtain ⟨step, there⟩ := addInclude_next calls here file next other
      rw [step]
      refine ih ?_ file' there
      rintro ⟨cfgs, chain⟩
      exact endless ⟨cfg :: cfgs, .next file next other chain⟩

end

/-- A node gets the entries of all files that its `INCLUDE` leads to exactly when this comes to an end in time. Without
    cycles it does: there are at most as many calls as files, and one more. -/
theorem include_correct {V : Type} [DecidableEq V] (w : World V) (node : Dict V) :
    ((includeIfNeeded w node).2 = none ∧ (∀ v, Needed node v → Union w node (includeIfNeeded w node).1 v) ↔ Ends w node) ∧
      (Closed w → Acyclic (Leads w) → w.files.keys.length < w.limit →
        (∀ v, Needed node v → ∃ cfg, load w v = .ok cfg) → Ends w node) := by
  constructor
  · rw [returns_iff]
    refine ⟨And.left, fun ends => ⟨ends, fun v needed => ?_⟩⟩
    obtain ⟨cfgs, chain, short⟩ := ends v needed
    rw [includeIfNeeded_needed needed, addInclude_chain chain needed.2 short]
    exact chain.union
  · intro closed acyclic room loads v needed
    obtain ⟨cfg, file⟩ := loads v needed
    obtain ⟨cfgs, chain, short⟩ := chain_of_acyclic closed acyclic w.files.keys.length [] List.nodup_nil (by simp)
      (by simp) (by simp) file
    exact ⟨cfgs, chain, by omega⟩

/-! ### Two files that include each other -/

/-- The file that has nothing but an `INCLUDE`. -/
def including (path : String) : Dict Unit := SortedMap.empty.set "INCLUDE" (.text path)

def twoFiles (limit : ℕ) : World Unit :=
  ⟨(SortedMap.empty.set "a.yml" (some (including "b.yml"))).set "b.yml" (some (including "a.yml")), fun path => path, limit⟩

theorem twoFiles_load (limit : ℕ) : load (twoFiles limit) (.text "a.yml") = .ok (including "b.yml") ∧
    load (twoFiles limit) (.text "b.yml") = .ok (including "a.yml") := ⟨rfl, rfl⟩

theorem twoFiles_closed (limit : ℕ) : Closed (twoFiles limit) := by
  intro path file found
  simp only [twoFiles, SortedMap.get?_set, SortedMap.get?_empty] at found
  split at found
  · cases found
    exact ⟨_, rfl, fun v next => by cases next; exact ⟨_, (twoFiles_load limit).1⟩⟩
  · split at found
    · cases found
      exact ⟨_, rfl, fun v next => by cases next; exact ⟨_, (twoFiles_load limit).2⟩⟩
    · cases found

theorem twoFiles_endless (limit : ℕ) {v : Value Unit} {cfgs : List (Dict Unit)} (chain : Chain (twoFiles limit) v cfgs) :
    v ≠ .text "a.yml" ∧ v ≠ .text "b.yml" := by
  obtain ⟨loadA, loadB⟩ := twoFiles_load limit
  induction chain with
  | last file last =>
    constructor
    · rintro rfl
      cases loadA.symm.trans file
      rcases last with none | same
      · cases none
      · exact absurd same (by decide +kernel)
    · rintro rfl
      cases loadB.symm.trans file
      rcases last with none | same
      · cases none
      · exact absurd same (by decide +kernel)
  | next file next other chain ih =>
    constructor
    · rintro rfl
      cases loadA.symm.trans file
      cases next
      exact ih.2 rfl
    · rintro rfl
      cases loadB.symm.trans file
      cases next
      exact ih.1 rfl

/-- However many calls the interpreter allows, they run out. -/
theorem twoFiles_raises (limit : ℕ) : (includeIfNeeded (twoFiles limit) (including "a.yml")).2 = some .runtimeError := by
  have needed : Needed (including "a.yml") (.text "a.yml") := ⟨rfl, rfl⟩
  rw [includeIfNeeded_needed needed]
  refine raises_of_not_chain (twoFiles_closed limit) ?_ (twoFiles_load limit).1 needed.2
  rintro ⟨cfgs, chain⟩
  exact (twoFiles_endless limit chain).1 rfl

/-- With the interpreter's own limit. -/
theorem include_cycle : (includeIfNeeded (twoFiles 1000) (including "a.yml")).2 = some .runtimeError := twoFiles_raises 1000

end Tortuga.ConfigIncludes
