import Mathlib.Data.Finset.Card
import Mathlib.Data.List.Nodup
import Mathlib.Data.List.Sort
import Mathlib.Data.String.Basic
import Mathlib.Logic.Relation
import Tortuga.StateMachine

/-!
`writeStateGraph` and `_traverse` (`state.py`): the graph of the states of the AI in the
Graphviz format. A state is marked when its first edge is written.
-/
namespace Tortuga.StateGraph
open Tortuga.StateMachine (Target)
open Relation (ReflTransGen)
set_option linter.unusedSimpArgs false

/-! ### The classes -/

/-- The classes of the states with `__module__`, `__name__` and the items of `transitions()`, and the text of an event. -/
structure Classes (S E : Type) where
  moduleName : S → String
  name : S → String
  transitions : S → List (E × Target S)
  distinct : ∀ s, ((transitions s).map Prod.fst).Nodup
  str : E → String

/-- A transition of a state. -/
structure Edge (S E : Type) where
  source : S
  event : E
  target : Target S
  deriving DecidableEq, Repr

/-- `text.replace('.', '_')`. -/
def replaceDots (text : String) : String := String.ofList (text.toList.map fun c => if c = '.' then '_' else c)

/-- `text.split(' ')[-1]`. -/
def lastWord (text : String) : String := String.ofList (text.toList.reverse.takeWhile fun c => c ≠ ' ').reverse

section
variable {S E : Type} (D : Classes S E)

def dottedName (s : S) : String := replaceDots (D.moduleName s) ++ "_" ++ D.name s

def Edge.style (e : Edge S E) : String :=
  match e.target with
  | .state _ => "solid"
  | .branch _ => "dotted"

def Edge.text (e : Edge S E) : String :=
  dottedName D e.source ++ " -> " ++ dottedName D e.target.stateOf ++ " [label=" ++ lastWord (D.str e.event) ++ ",style=" ++
    e.style ++ "]"

/-! ### The writer -/

/-- `stateList` and `traversedList`. -/
structure Walk (S E : Type) where
  edges : List (Edge S E)
  traversed : List S
  deriving DecidableEq, Repr

/-- `stateList.append`. -/
def Walk.add (w : Walk S E) (e : Edge S E) : Walk S E := { w with edges := w.edges ++ [e] }

/-- `traversedList.append`, unless the state is there. -/
def Walk.mark [DecidableEq S] (w : Walk S E) (s : S) : Walk S E := if s ∈ w.traversed then w else { w with traversed := w.traversed ++ [s] }

/-- The body of the loop over the transitions. `traverse` is the call for the state at the other end. -/
def visit [DecidableEq S] (noLoops : Bool) (traverse : S → Walk S E → Option (Walk S E)) (current : S) (w : Walk S E) (item : E × Target S) :
    Option (Walk S E) :=
  if noLoops = false ∨ dottedName D current ≠ dottedName D item.2.stateOf then
    let w := (w.add ⟨current, item.1, item.2⟩).mark current
    if item.2.stateOf ∈ w.traversed then some w else traverse item.2.stateOf w
  else some w

/-- `_traverse`, with the number of calls that may be open: nothing when the interpreter raises `RuntimeError`. -/
def traverse [DecidableEq S] (noLoops : Bool) : ℕ → S → Walk S E → Option (Walk S E)
  | 0 => fun _ _ => none
  | calls + 1 => fun current w =>
    if D.transitions current = [] then some (w.mark current)
    else (D.transitions current).foldlM (visit D noLoops (traverse noLoops calls) current) w

/-- A piece of the file. -/
inductive Line (S E : Type) where
  | header
  | label (s : S)
  | edge (e : Edge S E)
  | footer
  deriving DecidableEq, Repr

def shape (s : S) : String := if D.transitions s = [] then "doubleoctagon" else "ellipse"

def Line.text : Line S E → String
  | .header => "digraph aistate \x7b\n"
  | .label s => dottedName D s ++ " [label=" ++ D.name s ++ ",shape=" ++ shape D s ++ "]\n"
  | .edge e => e.text D ++ "\n"
  | .footer => "\x7d"

/-- `stateTransitionList.sort()`, which compares texts. -/
def sortEdges (edges : List (Edge S E)) : List (Edge S E) := edges.insertionSort fun e f => e.text D ≤ f.text D

/-- `traversedStates.sort(key = Machine._dottedName)`. -/
def sortStates (states : List S) : List S := states.insertionSort fun s t => dottedName D s ≤ dottedName D t

def writeStateGraph [DecidableEq S] (calls : ℕ) (start : S) (ordered noLoops : Bool) : Option (List (Line S E)) :=
  (traverse D noLoops calls start ⟨[], []⟩).map fun w =>
    let edges := if ordered then sortEdges D w.edges else w.edges
    .header :: ((sortStates D w.traversed).map .label ++ edges.map .edge) ++ [.footer]

/-! ### What is meant -/

/-- There is a transition from the one to the other. -/
def Next (s t : S) : Prop := ∃ item ∈ D.transitions s, item.2.stateOf = t

def Reaches (s t : S) : Prop := ReflTransGen (Next D) s t

/-- A label is due for each state that can be reached, and an edge for each of its transitions, without those from a
    state to itself when loops are suppressed. -/
def Due (start : S) (noLoops : Bool) (line : Line S E) : Prop :=
  (∃ s, Reaches D start s ∧ line = .label s) ∨ ∃ e, Reaches D start e.source ∧ (e.event, e.target) ∈ D.transitions e.source ∧
    (noLoops = true → e.target.stateOf ≠ e.source) ∧ line = .edge e

/-- Between the header and the footer there is each label and each edge that is due, once. -/
def Depicts (start : S) (noLoops : Bool) (lines : List (Line S E)) : Prop :=
  ∃ body, lines = .header :: body ++ [.footer] ∧ body.Nodup ∧ ∀ line, line ∈ body ↔ Due D start noLoops line

/-- Nothing is lost when the loops of a state are suppressed: the names tell it from the states that it leads to, and it
    leads to another state if it leads anywhere. -/
def Clear (s : S) : Prop :=
  (∀ t, Next D s t → t ≠ s → dottedName D s ≠ dottedName D t) ∧ (D.transitions s = [] ∨ ∃ t, Next D s t ∧ t ≠ s)

/-! ### What is shown -/

variable (noLoops : Bool)

/-- The edge is written. -/
def Kept (s : S) (item : E × Target S) : Prop := noLoops = false ∨ dottedName D s ≠ dottedName D item.2.stateOf

instance (s : S) (item : E × Target S) : Decidable (Kept D noLoops s item) := inferInstanceAs (Decidable (_ ∨ _))

/-- The edges that are written for a state. -/
def keptEdges (s : S) (items : List (E × Target S)) : List (Edge S E) :=
  (items.filter fun item => Kept D noLoops s item).map fun item => ⟨s, item.1, item.2⟩

/-- There is an edge that is written. -/
def KeptNext (s t : S) : Prop := ∃ item ∈ D.transitions s, Kept D noLoops s item ∧ item.2.stateOf = t

/-- The state has a label. -/
def Marked (s : S) : Prop := D.transitions s = [] ∨ ∃ t, KeptNext D noLoops s t

/-- The lines that are written. -/
def Written (D : Classes S E) (start : S) (noLoops : Bool) (line : Line S E) : Prop :=
  (∃ s, ReflTransGen (KeptNext D noLoops) start s ∧ Marked D noLoops s ∧ line = .label s) ∨
    ∃ e, ReflTransGen (KeptNext D noLoops) start e.source ∧ (e.event, e.target) ∈ D.transitions e.source ∧
      Kept D noLoops e.source (e.event, e.target) ∧ line = .edge e

variable {D noLoops} {w w₁ w₂ w' : Walk S E} {s t current : S} {items : List (E × Target S)}

theorem keptEdges_cons {item : E × Target S} (kept : Kept D noLoops s item) :
    keptEdges D noLoops s (item :: items) = ⟨s, item.1, item.2⟩ :: keptEdges D noLoops s items := by
  rw [keptEdges, List.filter_cons_of_pos (by simpa using kept)]
  rfl

theorem keptEdges_skip {item : E × Target S} (skipped : ¬ Kept D noLoops s item) :
    keptEdges D noLoops s (item :: items) = keptEdges D noLoops s items := by
  rw [keptEdges, List.filter_cons_of_neg (by simpa using skipped)]
  rfl

theorem mem_keptEdges {e : Edge S E} : e ∈ keptEdges D noLoops s (D.transitions s) ↔
    e.source = s ∧ (e.event, e.target) ∈ D.transitions s ∧ Kept D noLoops s (e.event, e.target) := by
  simp only [keptEdges, List.mem_map, List.mem_filter, decide_eq_true_eq]
  constructor
  · rintro ⟨item, ⟨mem, kept⟩, rfl⟩
    exact ⟨rfl, mem, kept⟩
  · rintro ⟨rfl, mem, kept⟩
    exact ⟨(e.event, e.target), ⟨mem, kept⟩, rfl⟩

theorem keptEdges_nodup : (keptEdges D noLoops s (D.transitions s)).Nodup := by
  have items : (D.transitions s).Nodup := List.Nodup.of_map Prod.fst (D.distinct s)
  refine List.Nodup.map (fun item other same => ?_) (items.filter _)
  obtain ⟨-, event, target⟩ := Edge.mk.inj same
  exact Prod.ext event target

variable {start : S}

theorem mem_edges (traversed : ∀ s, s ∈ w.traversed ↔ ReflTransGen (KeptNext D noLoops) start s ∧ Marked D noLoops s)
    (edges : w.edges.Perm (w.traversed.flatMap fun s => keptEdges D noLoops s (D.transitions s))) {e : Edge S E} :
    e ∈ w.edges ↔ ReflTransGen (KeptNext D noLoops) start e.source ∧ (e.event, e.target) ∈ D.transitions e.source ∧
      Kept D noLoops e.source (e.event, e.target) := by
  rw [edges.mem_iff, List.mem_flatMap]
  constructor
  · rintro ⟨s, mem, member⟩
    obtain ⟨rfl, item, kept⟩ := mem_keptEdges.mp member
    exact ⟨((traversed e.source).mp mem).1, item, kept⟩
  · rintro ⟨path, item, kept⟩
    have marked : Marked D noLoops e.source := .inr ⟨_, (e.event, e.target), item, kept, rfl⟩
    exact ⟨e.source, (traversed e.source).mpr ⟨path, marked⟩, mem_keptEdges.mpr ⟨rfl, item, kept⟩⟩

theorem edges_nodup (once : w.traversed.Nodup)
    (edges : w.edges.Perm (w.traversed.flatMap fun s => keptEdges D noLoops s (D.transitions s))) : w.edges.Nodup := by
  refine edges.nodup_iff.mpr (List.nodup_flatMap.mpr ⟨fun s _ => keptEdges_nodup, ?_⟩)
  refine once.imp (fun {s t} apart => ?_)
  intro e left right
  exact apart ((mem_keptEdges.mp left).1.symm.trans (mem_keptEdges.mp right).1)

/-! ### One call -/

/-- What a part of the search does to the walk: the states that it adds, the edges of its own and of these states. `heads`
    are the states from which it starts. -/
structure Explores (D : Classes S E) (noLoops : Bool) (w w' : Walk S E) (own : List (Edge S E)) (heads : S → Prop)
    (added : List S) : Prop where
  traversed : w'.traversed = w.traversed ++ added
  once : w'.traversed.Nodup
  edges : w'.edges.Perm (w.edges ++ own ++ added.flatMap fun s => keptEdges D noLoops s (D.transitions s))
  sound : ∀ s ∈ added, Marked D noLoops s ∧ ∃ h, heads h ∧ ReflTransGen (KeptNext D noLoops) h s
  closed : ∀ s ∈ added, ∀ t, KeptNext D noLoops s t → Marked D noLoops t → t ∈ w'.traversed
  reached : ∀ h, heads h → Marked D noLoops h → h ∈ w'.traversed

variable {own own' : List (Edge S E)} {heads heads' : S → Prop} {added added' : List S}

/-- Edges alone, that lead to states which have been traversed. -/
theorem explores_edges (once : w.traversed.Nodup) (same : w'.traversed = w.traversed) (edges : w'.edges = w.edges ++ own)
    (there : ∀ h, heads h → h ∈ w'.traversed) : Explores D noLoops w w' own heads [] where
  traversed := by rw [same, List.append_nil]
  once := by rwa [same]
  edges := by rw [edges, List.flatMap_nil, List.append_nil]
  sound s mem := by cases mem
  closed s mem := by cases mem
  reached h head _ := there h head

/-- One part after the other. -/
theorem Explores.trans (first : Explores D noLoops w w₁ own heads added) (second : Explores D noLoops w₁ w₂ own' heads' added') :
    Explores D noLoops w w₂ (own ++ own') (fun h => heads h ∨ heads' h) (added ++ added') := by
  have stays (s : S) (mem : s ∈ w₁.traversed) : s ∈ w₂.traversed := by
    rw [second.traversed]
    exact List.mem_append_left _ mem
  refine ⟨?_, second.once, ?_, fun s mem => ?_, fun s mem t next marked => ?_, fun h head marked => ?_⟩
  · rw [second.traversed, first.traversed, List.append_assoc]
  · refine second.edges.trans (((first.edges.append_right own').append_right _).trans ?_)
    rw [List.flatMap_append]
    simp only [List.append_assoc]
    refine List.Perm.append_left _ (List.Perm.append_left _ ?_)
    rw [← List.append_assoc, ← List.append_assoc]
    exact List.perm_append_comm.append_right _
  · rcases List.mem_append.mp mem with early | late
    · obtain ⟨marked, h, head, path⟩ := first.sound s early
      exact ⟨marked, h, .inl head, path⟩
    · obtain ⟨marked, h, head, path⟩ := second.sound s late
      exact ⟨marked, h, .inr head, path⟩
  · rcases List.mem_append.mp mem with early | late
    · exact stays t (first.closed s early t next marked)
    · exact second.closed s late t next marked
  · rcases head with early | late
    · exact stays h (first.reached h early marked)
    · exact second.reached h late marked

theorem Explores.heads_iff (explores : Explores D noLoops w w' own heads added) (same : ∀ h, heads h ↔ heads' h) :
    Explores D noLoops w w' own heads' added := by
  have : heads = heads' := funext (fun h => propext (same h))
  rwa [← this]

section
variable [DecidableEq S]

/-- How many of all states have not been traversed. -/
def room (all : Finset S) (w : Walk S E) : ℕ := (all \ w.traversed.toFinset).card

variable {all : Finset S}

theorem Explores.room_le (explores : Explores D noLoops w w' own heads added) : room all w' ≤ room all w := by
  refine Finset.card_le_card (Finset.sdiff_subset_sdiff (Finset.Subset.refl _) ?_)
  rw [explores.traversed, List.toFinset_append]
  exact Finset.subset_union_left

theorem room_mark (here : s ∈ all) (new : s ∉ w.traversed) : room all (w.mark s) < room all w := by
  refine Finset.card_lt_card ?_
  rw [Finset.ssubset_iff_of_subset]
  · refine ⟨s, ?_, ?_⟩
    · simp [here, new]
    · simp [Walk.mark, new]
  · refine Finset.sdiff_subset_sdiff (Finset.Subset.refl _) ?_
    intro t mem
    simp only [List.mem_toFinset] at mem ⊢
    simp [Walk.mark, new, mem]

/-! ### The loop over the transitions -/

variable {traverse' : S → Walk S E → Option (Walk S E)}

theorem visit_eq {item : E × Target S} : visit D noLoops traverse' current w item =
    if Kept D noLoops current item then
      if item.2.stateOf ∈ ((w.add ⟨current, item.1, item.2⟩).mark current).traversed then
        some ((w.add ⟨current, item.1, item.2⟩).mark current)
      else traverse' item.2.stateOf ((w.add ⟨current, item.1, item.2⟩).mark current)
    else some w := rfl

theorem visit_skip {item : E × Target S} (skipped : ¬ Kept D noLoops current item) :
    visit D noLoops traverse' current w item = some w := if_neg skipped

theorem mark_of_mem (marked : s ∈ w.traversed) : w.mark s = w := if_pos marked

theorem mark_new (new : s ∉ w.traversed) : w.mark s = { w with traversed := w.traversed ++ [s] } := if_neg new

/-- A state is marked with its first edge, which is as good as at the start of the loop. -/
theorem visits_mark (new : current ∉ w.traversed) (some : ∃ item ∈ items, Kept D noLoops current item) :
    items.foldlM (visit D noLoops traverse' current) w = items.foldlM (visit D noLoops traverse' current) (w.mark current) := by
  induction items with
  | nil =>
    obtain ⟨item, mem, -⟩ := some
    cases mem
  | cons item rest ih =>
    rw [List.foldlM_cons, List.foldlM_cons]
    by_cases kept : Kept D noLoops current item
    · have twice (e : Edge S E) : ((w.mark current).add e).mark current = (w.add e).mark current := by
        have there : current ∈ ((w.mark current).add e).traversed := by simp [mark_new new, Walk.add]
        rw [mark_of_mem there, mark_new new, mark_new (w := w.add e) new]
        rfl
      rw [visit_eq, visit_eq, if_pos kept, if_pos kept, twice]
    · rw [visit_skip kept, visit_skip kept]
      obtain ⟨other, mem, has⟩ := some
      rcases List.mem_cons.mp mem with rfl | later
      · exact absurd has kept
      · exact ih ⟨other, later, has⟩

theorem visits_skip (none : ∀ item ∈ items, ¬ Kept D noLoops current item) :
    items.foldlM (visit D noLoops traverse' current) w = some w := by
  induction items with
  | nil => rfl
  | cons item rest ih =>
    obtain ⟨first, later⟩ := List.forall_mem_cons.mp none
    rw [List.foldlM_cons, visit_skip first]
    exact ih later

/-- The calls for the other ends do their part. -/
def Calls (D : Classes S E) (noLoops : Bool) (all : Finset S) (calls : ℕ) (traverse' : S → Walk S E → Option (Walk S E)) : Prop :=
  ∀ t w, t ∈ all → t ∉ w.traversed → w.traversed.Nodup → room all w < calls →
    ∃ w' added, traverse' t w = some w' ∧ Explores D noLoops w w' [] (fun h => h = t) added

/-- A loop of a state that has been marked writes its edges, and goes to where they lead. -/
theorem visits_explore {calls : ℕ} (ready : Calls D noLoops all calls traverse') (inside : ∀ item ∈ items, item.2.stateOf ∈ all)
    (marked : current ∈ w.traversed) (once : w.traversed.Nodup) (enough : room all w < calls) :
    ∃ w' added, items.foldlM (visit D noLoops traverse' current) w = some w' ∧
      Explores D noLoops w w' (keptEdges D noLoops current items)
        (fun t => ∃ item ∈ items, Kept D noLoops current item ∧ item.2.stateOf = t) added := by
  induction items generalizing w with
  | nil =>
    refine ⟨w, [], rfl, ?_⟩
    exact explores_edges once rfl (List.append_nil _).symm (by simp)
  | cons item rest ih =>
    obtain ⟨first, later⟩ := List.forall_mem_cons.mp inside
    rw [List.foldlM_cons]
    by_cases kept : Kept D noLoops current item
    · rw [visit_eq, if_pos kept, mark_of_mem (w := w.add _) marked, keptEdges_cons kept]
      -- The edge and what its other end gives, then the rest of the loop.
      have here : ∃ w₁ added, (if item.2.stateOf ∈ w.traversed then some (w.add ⟨current, item.1, item.2⟩)
          else traverse' item.2.stateOf (w.add ⟨current, item.1, item.2⟩)) = some w₁ ∧
          Explores D noLoops w w₁ [⟨current, item.1, item.2⟩] (fun t => t = item.2.stateOf) added := by
        split
        case isTrue there => exact ⟨_, [], rfl, explores_edges once rfl rfl (fun h same => same ▸ there)⟩
        case isFalse new =>
          obtain ⟨w₁, added, run, explores⟩ := ready item.2.stateOf (w.add ⟨current, item.1, item.2⟩) first new once enough
          have edge : Explores D noLoops w (w.add ⟨current, item.1, item.2⟩) [⟨current, item.1, item.2⟩] (fun _ => False) [] :=
            explores_edges once rfl rfl (by simp)
          exact ⟨w₁, added, run, (edge.trans explores).heads_iff (by simp)⟩
      obtain ⟨w₁, added, run, explores⟩ := here
      have marked' : current ∈ w₁.traversed := by
        rw [explores.traversed]
        exact List.mem_append_left _ marked
      obtain ⟨w', added', run', explores'⟩ := ih later marked' explores.once (Nat.lt_of_le_of_lt explores.room_le enough)
      refine ⟨w', added ++ added', ?_, (explores.trans explores').heads_iff (fun t => ?_)⟩
      · rw [show (w.add ⟨current, item.1, item.2⟩).traversed = w.traversed from rfl, run]
        exact run'
      · simp [kept, eq_comm]
    · rw [visit_skip kept, keptEdges_skip kept]
      obtain ⟨w', added, run, explores⟩ := ih later marked once enough
      refine ⟨w', added, run, explores.heads_iff (fun t => ?_)⟩
      simp [kept]

/-! ### The whole search -/

theorem mark_explores (done : D.transitions current = []) (new : current ∉ w.traversed) (once : w.traversed.Nodup) :
    Explores D noLoops w (w.mark current) [] (fun h => h = current) [current] := by
  rw [mark_new new]
  refine ⟨rfl, ?_, ?_, fun s mem => ?_, fun s mem t next _ => ?_, fun h same _ => ?_⟩
  · simpa [List.nodup_append] using ⟨once, fun s mem (same : s = current) => new (same ▸ mem)⟩
  · simp [keptEdges, done]
  · cases List.mem_singleton.mp mem
    exact ⟨.inl done, current, rfl, .refl⟩
  · cases List.mem_singleton.mp mem
    obtain ⟨item, member, -⟩ := next
    rw [done] at member
    cases member
  · rw [same]
    simp

/-- The loop of a state that gets marked in it. -/
theorem loop_explores (some : ∃ t, KeptNext D noLoops current t) (new : current ∉ w.traversed)
    (explores : Explores D noLoops (w.mark current) w' (keptEdges D noLoops current (D.transitions current))
      (fun t => ∃ item ∈ D.transitions current, Kept D noLoops current item ∧ item.2.stateOf = t) added) :
    Explores D noLoops w w' [] (fun h => h = current) (current :: added) := by
  rw [mark_new new] at explores
  have marked : current ∈ w'.traversed := by
    rw [explores.traversed]
    simp
  refine ⟨?_, explores.once, ?_, fun s mem => ?_, fun s mem t next has => ?_, fun h same _ => same ▸ marked⟩
  · rw [explores.traversed, List.append_assoc, List.singleton_append]
  · rw [List.append_nil, List.flatMap_cons, ← List.append_assoc]
    exact explores.edges
  · rcases List.mem_cons.mp mem with rfl | later
    · exact ⟨.inr some, s, rfl, .refl⟩
    · obtain ⟨has, h, first, path⟩ := explores.sound s later
      exact ⟨has, current, rfl, path.head first⟩
  · rcases List.mem_cons.mp mem with rfl | later
    · exact explores.reached t next has
    · exact explores.closed s later t next has

theorem traverse_calls (noLoops : Bool) (closed : ∀ s ∈ all, ∀ t, Next D s t → t ∈ all) (calls : ℕ) :
    Calls D noLoops all calls (traverse D noLoops calls) := by
  induction calls with
  | zero =>
    intro current w inside new once enough
    exact absurd enough (Nat.not_lt_zero _)
  | succ calls ih =>
    intro current w inside new once enough
    simp only [traverse]
    split
    case isTrue done => exact ⟨_, _, rfl, mark_explores done new once⟩
    case isFalse more =>
      by_cases some : ∃ t, KeptNext D noLoops current t
      · obtain ⟨t, item, mem, kept, same⟩ := some
        rw [visits_mark new ⟨item, mem, kept⟩]
        have once' : (w.mark current).traversed.Nodup := by
          simpa [mark_new new, List.nodup_append] using ⟨once, fun s mem (same : s = current) => new (same ▸ mem)⟩
        have marked : current ∈ (w.mark current).traversed := by simp [mark_new new]
        obtain ⟨w', added, run, explores⟩ := visits_explore ih (fun item mem => closed current inside _ ⟨item, mem, rfl⟩)
          marked once' (Nat.lt_of_lt_of_le (room_mark inside new) (Nat.le_of_lt_succ enough))
        exact ⟨w', current :: added, run, loop_explores ⟨t, item, mem, kept, same⟩ new explores⟩
      · -- There is nothing to write, and the state is not marked.
        have none : ∀ item ∈ D.transitions current, ¬ Kept D noLoops current item :=
          fun item mem kept => some ⟨_, item, mem, kept, rfl⟩
        refine ⟨w, [], visits_skip none, (List.append_nil _).symm, once, ?_, fun s mem => ?_, fun s mem => ?_, fun h same marked => ?_⟩
        · simp
        · cases mem
        · cases mem
        · subst same
          exact absurd marked (not_or.mpr ⟨more, some⟩)

/-- What `_traverse` has found from a state: the states that can be reached by edges that are written, those that have
    a label, and their edges. -/
theorem traverse_spec (noLoops : Bool) (closed : ∀ s ∈ all, ∀ t, Next D s t → t ∈ all) {start : S} (inside : start ∈ all) {calls : ℕ}
    (enough : all.card < calls) : ∃ w, traverse D noLoops calls start ⟨[], []⟩ = some w ∧ w.traversed.Nodup ∧
      (∀ s, s ∈ w.traversed ↔ ReflTransGen (KeptNext D noLoops) start s ∧ Marked D noLoops s) ∧
      w.edges.Perm (w.traversed.flatMap fun s => keptEdges D noLoops s (D.transitions s)) := by
  obtain ⟨w, added, run, explores⟩ := traverse_calls noLoops closed calls start ⟨[], []⟩ inside (by simp)
    List.nodup_nil (by simpa [room] using enough)
  have same : w.traversed = added := by simpa using explores.traversed
  refine ⟨w, run, explores.once, fun s => ⟨fun mem => ?_, ?_⟩, ?_⟩
  · obtain ⟨marked, h, rfl, path⟩ := explores.sound s (same ▸ mem)
    exact ⟨path, marked⟩
  · rintro ⟨path, marked⟩
    induction path with
    | refl => exact explores.reached start rfl marked
    | tail _ step ih => exact explores.closed _ (same ▸ ih (.inr ⟨_, step⟩)) _ step marked
  · rw [same]
    exact explores.edges

/-! ### The file -/

/-- The writer comes to its end, whatever the order of the lines, and writes each line once. -/
theorem written_lines (closed : ∀ s ∈ all, ∀ t, Next D s t → t ∈ all) (inside : start ∈ all) {calls : ℕ}
    (enough : all.card < calls) (ordered : Bool) : ∃ body, writeStateGraph D calls start ordered noLoops =
      some (.header :: body ++ [.footer]) ∧ body.Nodup ∧ ∀ line, line ∈ body ↔ Written D start noLoops line := by
  obtain ⟨w, run, once, traversed, edges⟩ := traverse_spec noLoops closed inside enough
  have sorted : (if ordered then sortEdges D w.edges else w.edges).Perm w.edges := by
    split
    · exact List.perm_insertionSort _ _
    · exact List.Perm.refl _
  have states : (sortStates D w.traversed).Perm w.traversed := List.perm_insertionSort _ _
  refine ⟨_, by rw [writeStateGraph, run]; rfl, List.nodup_append.mpr ⟨?_, ?_, ?_⟩, fun line => ?_⟩
  · exact List.Nodup.map (fun s t same => Line.label.inj same) (states.nodup_iff.mpr once)
  · exact List.Nodup.map (fun e f same => Line.edge.inj same) (sorted.nodup_iff.mpr (edges_nodup once edges))
  · rintro _ left line right rfl
    obtain ⟨s, -, rfl⟩ := List.mem_map.mp left
    obtain ⟨e, -, same⟩ := List.mem_map.mp right
    cases same
  · rw [List.mem_append, List.mem_map, List.mem_map, Written]
    simp only [states.mem_iff, sorted.mem_iff, mem_edges traversed edges, traversed, and_assoc, eq_comm]

end

/-! ### Loops -/

section
variable (fine : noLoops = true → ∀ s, Reaches D start s → Clear D s)
include fine

theorem kept_iff (reached : Reaches D start s) {item : E × Target S} (mem : item ∈ D.transitions s) :
    Kept D noLoops s item ↔ (noLoops = true → item.2.stateOf ≠ s) := by
  cases noLoops with
  | false => simp [Kept]
  | true =>
    simp only [Kept, Bool.true_eq_false, false_or, forall_const]
    constructor
    · rintro apart rfl
      exact apart rfl
    · exact (fine rfl s reached).1 _ ⟨item, mem, rfl⟩

theorem marked_of_reaches (reached : Reaches D start s) : Marked D noLoops s := by
  cases items : D.transitions s with
  | nil => exact .inl items
  | cons item rest =>
    right
    cases noLoops with
    | false => exact ⟨item.2.stateOf, item, by simp [items], .inl rfl, rfl⟩
    | true =>
      rcases (fine rfl s reached).2 with none | ⟨t, ⟨other, mem, rfl⟩, apart⟩
      · rw [none] at items
        cases items
      · exact ⟨_, other, mem, (kept_iff fine reached mem).mpr (fun _ => apart), rfl⟩

theorem reaches_iff : ReflTransGen (KeptNext D noLoops) start s ↔ Reaches D start s := by
  constructor
  · intro path
    induction path with
    | refl => exact .refl
    | tail _ step ih =>
      obtain ⟨item, mem, -, same⟩ := step
      exact ih.tail ⟨item, mem, same⟩
  · intro path
    induction path with
    | refl => exact .refl
    | @tail b c before step ih =>
      obtain ⟨item, mem, rfl⟩ := step
      by_cases kept : Kept D noLoops b item
      · exact ih.tail ⟨item, mem, kept, rfl⟩
      · -- The transition leads back to the same state.
        have loop : item.2.stateOf = b := by
          refine Classical.byContradiction (fun apart => kept ?_)
          exact (kept_iff fine before mem).mpr (fun _ => apart)
        rwa [loop]

theorem written_iff_due (line : Line S E) : Written D start noLoops line ↔ Due D start noLoops line := by
  rw [Written, Due]
  simp only [reaches_iff fine]
  refine or_congr (exists_congr (fun s => ?_)) (exists_congr (fun e => ?_))
  · exact and_congr_right (fun reached => ⟨And.right, fun same => ⟨marked_of_reaches fine reached, same⟩⟩)
  · exact and_congr_right (fun reached => and_congr_right (fun mem => and_congr_left (fun _ => kept_iff fine reached mem)))

end

/-- When all that is due is written, and only that, the loops hide nothing. -/
theorem clear_of_written (same : ∀ line, Written D start noLoops line ↔ Due D start noLoops line) (loops : noLoops = true)
    (reached : Reaches D start s) : Clear D s := by
  subst loops
  constructor
  · rintro t ⟨item, mem, rfl⟩ apart
    rcases (same (.edge ⟨s, item.1, item.2⟩)).mpr (.inr ⟨⟨s, item.1, item.2⟩, reached, mem, fun _ => apart, rfl⟩) with
      ⟨_, _, _, other⟩ | ⟨e, _, _, kept, here⟩
    · cases other
    · cases here
      simpa [Kept] using kept
  · rcases (same (.label s)).mpr (.inl ⟨s, reached, rfl⟩) with ⟨_, _, marked, here⟩ | ⟨_, _, _, _, other⟩
    · cases here
      rcases marked with none | ⟨t, item, mem, kept, rfl⟩
      · exact .inl none
      · refine .inr ⟨_, ⟨item, mem, rfl⟩, ?_⟩
        intro loop
        simp [Kept, loop] at kept
    · cases other

end

/-- For a finite set of states the writer always comes to its end. It writes what is due exactly when loops are not
    suppressed or hide nothing: no state that can be reached has only transitions to itself, or one to another state
    of the same name. -/
theorem writeStateGraph_correct {S E : Type} [DecidableEq S] (D : Classes S E) (all : Finset S)
    (closed : ∀ s ∈ all, ∀ t, Next D s t → t ∈ all) (start : S) (inside : start ∈ all) (ordered noLoops : Bool) (calls : ℕ)
    (enough : all.card < calls) : ∃ lines, writeStateGraph D calls start ordered noLoops = some lines ∧
      (Depicts D start noLoops lines ↔ (noLoops = true → ∀ s, Reaches D start s → Clear D s)) := by
  obtain ⟨body, run, once, written⟩ := written_lines closed inside enough ordered
  refine ⟨_, run, ?_, fun fine => ⟨body, rfl, once, fun line => (written line).trans (written_iff_due fine line)⟩⟩
  rintro ⟨body', same, -, due⟩ loops s reached
  have equal : body = body' := List.append_cancel_right (List.cons.inj same).2
  subst equal
  exact clear_of_written (fun line => (written line).symm.trans (due line)) loops reached

/-- Some of the states of the unit test. -/
inductive Sample where
  | start
  | loopBack
  | last
  deriving DecidableEq, Repr

def sample : Classes Sample String where
  moduleName _ := "__main__"
  name
    | .start => "Start"
    | .loopBack => "LoopBack"
    | .last => "End"
  transitions
    | .start => [("Start", .state .last), ("LoopBack", .state .loopBack)]
    | .loopBack => [("Update", .state .loopBack)]
    | .last => []
  distinct s := by cases s <;> decide +kernel
  str event := event

/-- With its loops the state `LoopBack` is shown. -/
theorem writeStateGraph_sample : ∃ lines, writeStateGraph sample 4 .start true false = some lines ∧
    (Depicts sample .start false lines ↔ (false = true → ∀ s, Reaches sample .start s → Clear sample s)) := by
  refine writeStateGraph_correct sample {.start, .loopBack, .last} ?_ .start (by decide) true false 4 (by decide)
  intro s _ t _
  cases t <;> decide

example : [Line.label .last, .label .start, .edge ⟨.start, "Start", .state .last⟩].map (Line.text sample) =
    ["__main___End [label=End,shape=doubleoctagon]\n", "__main___Start [label=Start,shape=ellipse]\n",
      "__main___Start -> __main___End [label=Start,style=solid]\n"] := by decide +kernel

/-- Without loops it has an edge that leads to it, but no label. -/
theorem loopBack_hidden : Reaches sample .start .loopBack ∧ writeStateGraph sample 4 .start true true =
    some [.header, .label .last, .label .start, .edge ⟨.start, "Start", .state .last⟩,
      .edge ⟨.start, "LoopBack", .state .loopBack⟩, .footer] := by
  refine ⟨.single ⟨("LoopBack", .state .loopBack), by decide +kernel, rfl⟩, by decide +kernel⟩

end Tortuga.StateGraph
