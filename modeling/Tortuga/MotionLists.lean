import Mathlib.Data.List.DropRight
import Mathlib.Data.List.Perm.Basic
import Mathlib.Data.List.Sort
import Mathlib.Data.List.Range
import Tortuga.Precedence
import Tortuga.Raising

/-!
Lists of motions from the configuration (`motion/basic.py`): each entry is labeled with its position
in the list, and its type is taken out of it while the motion is built.
-/
namespace Tortuga.MotionLists
open Tortuga.Precedence (first_that_fails)
open Tortuga.Raising (except_bind_ok)

inductive PyError where
  | keyError (text : String)
  | valueError (literal : String)
  | indexError (text : String)
  | typeError (text : String)
  | exception (text : String)
  deriving DecidableEq, Repr

/-! ### Labels -/

/-- A key of the configuration is a number or a text. -/
inductive Label where
  | number (n : ℤ)
  | text (s : String)
  deriving DecidableEq, Repr

def isSpace (c : Char) : Bool := c = ' ' ∨ (9 ≤ c.toNat ∧ c.toNat ≤ 13)

/-- Decimal digits, at least one. -/
def digits (s : List Char) : Option ℤ :=
  if s ≠ [] ∧ s.all Char.isDigit then some (s.foldl (fun n c => 10 * n + ((c.toNat : ℤ) - '0'.toNat)) 0) else none

/-- An optional sign and digits. -/
def signed : List Char → Option ℤ
  | '-' :: s => (digits s).map (- ·)
  | '+' :: s => digits s
  | s => digits s

/-- `int(num)`, for a text with space around it or not. -/
def Label.position : Label → Except PyError ℤ
  | .number n => .ok n
  | .text s =>
    match signed ((s.toList.dropWhile isSpace).rdropWhile isSpace) with
    | some n => .ok n
    | none => .error (.valueError s)

/-! ### Building a motion -/

/-- The description of a motion: its type, and the named parameters. -/
structure Info (V : Type) where
  type : Option String
  kwargs : List (String × V)
  deriving DecidableEq, Repr

/-- An entry of the configuration. The configuration is a list of them, in the order in which the
    dictionary gives them. -/
structure Entry (V : Type) where
  num : Label
  info : Info V
  deriving DecidableEq, Repr

/-- The classes there are: what a dotted name stands for, `issubclass(class_, Motion)`, what the
    functions of the class do, and its text. -/
structure Classes (C V : Type) where
  resolve : String → Except PyError C
  isMotion : C → Except PyError Bool
  willComplete : C → Except PyError Bool
  construct : C → List (String × V) → Except PyError Unit
  text : C → String

/-- A motion, which is an object of its own: `made` says which of those made. -/
structure Motion (C V : Type) where
  made : ℕ
  class_ : C
  kwargs : List (String × V)
  deriving DecidableEq, Repr

section
variable {C V : Type} (D : Classes C V)

/-- `class_(**kwargs)`. -/
def instantiate (made : ℕ) (dottedName : String) (class_ : C) (kwargs : List (String × V)) : Except PyError (Motion C V) :=
  match D.construct class_ kwargs with
  | .ok () => .ok ⟨made, class_, kwargs⟩
  | .error (.typeError _) => .error (.typeError ("Not enough arguments for motion " ++ dottedName))
  | .error e => .error e

def generateMotion (made : ℕ) (dottedName : String) (complete : Bool) (kwargs : List (String × V)) :
    Except PyError (Motion C V) := do
  let class_ ← D.resolve dottedName
  if ¬ (← D.isMotion class_) then
    throw (.exception (D.text class_ ++ " is not of type <class 'ram.motion.basic.Motion'>"))
  if complete then
    if ¬ (← D.willComplete class_) then
      throw (.exception (D.text class_ ++ " is an incomplete motion. A completemotion is required"))
  instantiate D made dottedName class_ kwargs

/-- The call itself, which fails when the parameters for the motion name one of the others. -/
def callGenerateMotion (made : ℕ) (type_ : String) (complete : Bool) (info : List (String × V)) :
    Except PyError (Motion C V) :=
  if "complete" ∈ info.map Prod.fst then
    .error (.typeError "generateMotion() got multiple values for keyword argument 'complete'")
  else if "dottedName" ∈ info.map Prod.fst then
    .error (.typeError "generateMotion() got multiple values for keyword argument 'dottedName'")
  else generateMotion D made type_ complete info

/-! ### The list -/

/-- `l[i] = x`, where a negative index counts from the end. -/
def setItem {α : Type} (l : List α) (i : ℤ) (x : α) : Except PyError (List α) :=
  let i := if i < 0 then i + l.length else i
  if 0 ≤ i ∧ i < l.length then .ok (l.set i.toNat x)
  else .error (.indexError "list assignment index out of range")

/-- `info.pop('type')` when there is none. -/
def popError (info : Info V) : PyError := .keyError (if info.kwargs = [] then "pop(): dictionary is empty" else "type")

/-- What is done with the type of an entry. An element of the list is 0 until a motion is put there. -/
def place (strict : Bool) (max made : ℕ) (num : Label) (type_ : String) (info : List (String × V))
    (motionList : List (Option (Motion C V))) : Except PyError (List (Option (Motion C V))) := do
  let position ← num.position
  let m ← callGenerateMotion D made type_ (if position = max then strict else true) info
  setItem motionList (position - 1) (some m)

/-- The body of the loop: what it leaves of the entry, and the list or what was raised. -/
def addMotion (strict : Bool) (max made : ℕ) (entry : Entry V) (motionList : List (Option (Motion C V))) :
    Entry V × Except PyError (List (Option (Motion C V))) :=
  match entry.info.type with
  | none => (entry, .error (popError entry.info))
  | some type_ =>
    match place D strict max made entry.num type_ entry.info.kwargs motionList with
    | .error e => (⟨entry.num, ⟨none, entry.info.kwargs⟩⟩, .error e)
    -- Fix the config file
    | .ok motionList => (⟨entry.num, ⟨some type_, entry.info.kwargs⟩⟩, .ok motionList)

/-- The loop, with as many motions made before it as `made`. -/
def addMotions (strict : Bool) (max : ℕ) : ℕ → List (Entry V) → List (Option (Motion C V)) →
    List (Entry V) × Except PyError (List (Option (Motion C V)))
  | _, [], motionList => ([], .ok motionList)
  | made, entry :: rest, motionList =>
    match addMotion D strict max made entry motionList with
    | (entry, .error e) => (entry :: rest, .error e)
    | (entry, .ok motionList) =>
      let (rest, result) := addMotions strict max (made + 1) rest motionList
      (entry :: rest, result)

/-- The configuration that it leaves, and the list or what was raised. -/
def generateMotionList (mList : List (Entry V)) (strict : Bool) :
    List (Entry V) × Except PyError (List (Option (Motion C V))) :=
  addMotions D strict mList.length 0 mList (List.replicate mList.length none)

/-! ### What is meant -/

/-- The label of `e` is at most that of `f`. -/
def Entry.Before (e f : Entry V) : Prop := ∃ a b, e.num.position = .ok a ∧ f.num.position = .ok b ∧ a ≤ b

/-- The motion that is built from an entry, when it is the one made as number `item.2`. -/
def built (item : Entry V × ℕ) : Option (Motion C V) :=
  match item.1.info.type.map D.resolve with
  | some (.ok class_) => some ⟨item.2, class_, item.1.info.kwargs⟩
  | _ => none

/-- The list has the motions of the entries in the order of the labels, and all complete but the last,
    which completes if it must. -/
structure InOrder (strict : Bool) (mList : List (Entry V)) (l : List (Option (Motion C V))) : Prop where
  filled : none ∉ l
  ordered : ∃ order : List (Entry V × ℕ), order.Perm mList.zipIdx ∧
    order.Pairwise (fun e f => e.1.Before f.1) ∧ l = order.map (built D)
  complete : ∀ m, some m ∈ l.dropLast → D.willComplete m.class_ = .ok true
  last : strict = true → ∀ m, l.getLast? = some (some m) → D.willComplete m.class_ = .ok true

/-- It leaves the configuration as it was, and raises or returns such a list. -/
structure Right (strict : Bool) (mList : List (Entry V)) : Prop where
  unchanged : (generateMotionList D mList strict).1 = mList
  returns : ∀ l, (generateMotionList D mList strict).2 = .ok l → InOrder D strict mList l

/-! ### When it does -/

/-- Nothing is raised for the entry: its label is an index of a list of that length or what counts
    from its end, and its type names a class of motions that takes the parameters, and that completes
    unless this is the last and need not. -/
structure Entry.Good (strict : Bool) (max : ℕ) (e : Entry V) (position : ℤ) (type_ : String) (class_ : C) : Prop where
  labeled : e.num.position = .ok position
  inside : 1 - (max : ℤ) ≤ position ∧ position ≤ max
  typed : e.info.type = some type_
  free : "complete" ∉ e.info.kwargs.map Prod.fst ∧ "dottedName" ∉ e.info.kwargs.map Prod.fst
  resolves : D.resolve type_ = .ok class_
  isMotion : D.isMotion class_ = .ok true
  completes : (position = max → strict = true) → D.willComplete class_ = .ok true
  constructs : D.construct class_ e.info.kwargs = .ok ()

def Entry.Builds (strict : Bool) (max : ℕ) (e : Entry V) : Prop := ∃ position type_ class_, e.Good D strict max position type_ class_

/-- The label at place `k` of a list of `max`, when the first `j` are counted from its end. -/
def counted (max j k : ℕ) : ℤ := if k < j then (k : ℤ) + 1 - max else k + 1

/-- The labels are those from 1 to the number of entries, or the first `j` of them are replaced by what
    counts from the end of the list. -/
def Numbered (mList : List (Entry V)) : Prop :=
  ∃ j, (mList.map fun e => e.num.position).Perm ((List.range mList.length).map fun k => .ok (counted mList.length j k))

/-- All entries are built and are numbered, or the first that is not built has no type. -/
def Fits (strict : Bool) (mList : List (Entry V)) : Prop :=
  ((∀ e ∈ mList, e.Builds D strict mList.length) ∧ Numbered mList) ∨
    ∃ before entry after, mList = before ++ entry :: after ∧ (∀ e ∈ before, e.Builds D strict mList.length) ∧
      entry.info.type = none

/-! ### One entry -/

variable {D}

theorem instantiate_ok {made : ℕ} {dottedName : String} {class_ : C} {kwargs : List (String × V)} {m : Motion C V} :
    instantiate D made dottedName class_ kwargs = .ok m ↔ D.construct class_ kwargs = .ok () ∧ m = ⟨made, class_, kwargs⟩ := by
  rw [instantiate]
  rcases D.construct class_ kwargs with e | _
  · cases e <;> simp
  · simp [eq_comm]

theorem generateMotion_ok {made : ℕ} {dottedName : String} {complete : Bool} {kwargs : List (String × V)} {m : Motion C V} :
    generateMotion D made dottedName complete kwargs = .ok m ↔ ∃ class_, D.resolve dottedName = .ok class_ ∧
      D.isMotion class_ = .ok true ∧ (complete = true → D.willComplete class_ = .ok true) ∧
      D.construct class_ kwargs = .ok () ∧ m = ⟨made, class_, kwargs⟩ := by
  rw [generateMotion, except_bind_ok]
  refine exists_congr fun class_ => and_congr_right fun _ => ?_
  rcases D.isMotion class_ with e | (_ | _)
  · simp [bind, Except.bind]
  · simp [bind, Except.bind, throw, throwThe, MonadExceptOf.throw]
  · cases complete with
    | false => simp [bind, Except.bind, instantiate_ok]
    | true =>
      rcases D.willComplete class_ with e | (_ | _)
      · simp [bind, Except.bind]
      · simp [bind, Except.bind, throw, throwThe, MonadExceptOf.throw]
      · simp [bind, Except.bind, instantiate_ok]

theorem callGenerateMotion_ok {made : ℕ} {type_ : String} {complete : Bool} {info : List (String × V)} {m : Motion C V} :
    callGenerateMotion D made type_ complete info = .ok m ↔
      ("complete" ∉ info.map Prod.fst ∧ "dottedName" ∉ info.map Prod.fst) ∧ generateMotion D made type_ complete info = .ok m := by
  rw [callGenerateMotion]
  split_ifs with first second
  · simp [first]
  · simp [second]
  · simp [first, second]

/-- Where a motion with that label goes. -/
def Label.slot (max : ℕ) (num : Label) : ℕ :=
  match num.position with
  | .ok position => (if position < 1 then position - 1 + max else position - 1).toNat
  | .error _ => 0

theorem setItem_ok {α : Type} {l l' : List α} {position : ℤ} {x : α} :
    setItem l (position - 1) x = .ok l' ↔ (1 - (l.length : ℤ) ≤ position ∧ position ≤ l.length) ∧
      l' = l.set (if position < 1 then position - 1 + l.length else position - 1).toNat x := by
  have sign : position - 1 < 0 ↔ position < 1 := by omega
  have range : (0 ≤ (if position < 1 then position - 1 + l.length else position - 1) ∧
      (if position < 1 then position - 1 + l.length else position - 1) < (l.length : ℤ)) ↔
      (1 - (l.length : ℤ) ≤ position ∧ position ≤ l.length) := by split_ifs <;> omega
  simp only [setItem, sign, range]
  by_cases inside : 1 - (l.length : ℤ) ≤ position ∧ position ≤ l.length
  · rw [if_pos inside, Except.ok.injEq, and_iff_right inside, eq_comm]
  · rw [if_neg inside]
    refine iff_of_false (fun raised => ?_) fun both => inside both.1
    contradiction

/-- The motion is built and put in its place when nothing is raised. -/
theorem place_ok {strict : Bool} {max made : ℕ} {e : Entry V} {type_ : String} {l l' : List (Option (Motion C V))}
    (typed : e.info.type = some type_) (len : l.length = max) :
    place D strict max made e.num type_ e.info.kwargs l = .ok l' ↔
      e.Builds D strict max ∧ l' = l.set (e.num.slot max) (built D (e, made)) := by
  simp only [place, except_bind_ok, callGenerateMotion_ok, generateMotion_ok, setItem_ok, len]
  constructor
  · rintro ⟨position, labeled, m, ⟨free, class_, resolves, isMotion, completes, constructs, rfl⟩, inside, rfl⟩
    refine ⟨⟨position, type_, class_, labeled, inside, typed, free, resolves, isMotion, fun must => completes ?_, constructs⟩, ?_⟩
    · by_cases atEnd : position = max
      · rw [if_pos atEnd]
        exact must atEnd
      · rw [if_neg atEnd]
    · simp [Label.slot, labeled, built, typed, resolves]
  · rintro ⟨⟨position, type', class_, labeled, inside, typed', free, resolves, isMotion, completes, constructs⟩, rfl⟩
    obtain rfl : type_ = type' := by simpa [typed] using typed'
    refine ⟨position, labeled, _, ⟨free, class_, resolves, isMotion, fun must => completes fun atEnd => ?_, constructs, rfl⟩, inside, ?_⟩
    · rwa [if_pos atEnd] at must
    · simp [Label.slot, labeled, built, typed, resolves]

/-! ### The loop -/

variable {strict : Bool} {max made : ℕ} {entry : Entry V} {entries before after : List (Entry V)} {l : List (Option (Motion C V))}

theorem addMotion_builds (builds : entry.Builds D strict max) (len : l.length = max) :
    addMotion D strict max made entry l = (entry, .ok (l.set (entry.num.slot max) (built D (entry, made)))) := by
  obtain ⟨_, type_, _, good⟩ := id builds
  have placed : place D strict max made entry.num type_ entry.info.kwargs l = _ := (place_ok good.typed len).mpr ⟨builds, rfl⟩
  rw [addMotion, good.typed]
  simp only [placed]
  rw [← good.typed]

theorem addMotion_missing (missing : entry.info.type = none) :
    addMotion D strict max made entry l = (entry, .error (popError entry.info)) := by
  rw [addMotion, missing]

/-- What is raised for an entry with a type leaves it without its type. -/
theorem addMotion_fails {type_ : String} (typed : entry.info.type = some type_) (fails : ¬ entry.Builds D strict max)
    (len : l.length = max) :
    ∃ e, addMotion D strict max made entry l = (⟨entry.num, ⟨none, entry.info.kwargs⟩⟩, .error e) := by
  rw [addMotion, typed]
  cases placed : place D strict max made entry.num type_ entry.info.kwargs l with
  | error e => exact ⟨e, by simp only [placed]⟩
  | ok l' => exact absurd ((place_ok typed len).mp placed).1 fails

variable (D) in
/-- The list with the motion of each entry put in its place. -/
def fill (max : ℕ) (items : List (Entry V × ℕ)) (l : List (Option (Motion C V))) : List (Option (Motion C V)) :=
  items.foldl (fun l item => l.set (item.1.num.slot max) (built D item)) l

theorem addMotions_builds (made : ℕ) (l : List (Option (Motion C V))) (builds : ∀ e ∈ entries, e.Builds D strict max) (len : l.length = max) :
    addMotions D strict max made entries l = (entries, .ok (fill D max (entries.zipIdx made) l)) := by
  induction entries generalizing made l with
  | nil => rfl
  | cons entry rest ih =>
    rw [List.forall_mem_cons] at builds
    have next := ih (made + 1) (l.set (entry.num.slot max) (built D (entry, made))) builds.2 (by rw [List.length_set, len])
    simp only [addMotions, addMotion_builds builds.1 len, next]
    rfl

/-- The loop comes to the first entry that is not built, and ends there with what that leaves. -/
theorem addMotions_fails {left : Entry V} (after : List (Entry V)) (made : ℕ) (l : List (Option (Motion C V)))
    (builds : ∀ e ∈ before, e.Builds D strict max) (len : l.length = max)
    (fails : ∀ made l, l.length = max → ∃ e, addMotion D strict max made entry l = (left, .error e)) :
    ∃ e, addMotions D strict max made (before ++ entry :: after) l = (before ++ left :: after, .error e) := by
  induction before generalizing made l with
  | nil =>
    obtain ⟨e, fails⟩ := fails made l len
    exact ⟨e, by simp only [List.nil_append, addMotions, fails]⟩
  | cons first rest ih =>
    rw [List.forall_mem_cons] at builds
    obtain ⟨e, fails⟩ := ih (made + 1) (l.set (first.num.slot max) (built D (first, made))) builds.2 (by rw [List.length_set, len])
    exact ⟨e, by simp only [List.cons_append, addMotions, addMotion_builds builds.1 len, fails]⟩

/-! ### The places -/

theorem fill_get {items : List (Entry V × ℕ)} {k : ℕ} {m : Option (Motion C V)} (there : (fill D max items l)[k]? = some m) :
    l[k]? = some m ∨ ∃ item ∈ items, item.1.num.slot max = k ∧ built D item = m := by
  induction items using List.reverseRecOn with
  | nil => exact .inl there
  | append_singleton items item ih =>
    rw [fill, List.foldl_append, List.foldl_cons, List.foldl_nil, ← fill, List.getElem?_set] at there
    split_ifs at there with here inside
    · exact .inr ⟨item, by simp, here, Option.some.inj there⟩
    · rcases ih there with was | ⟨item, mem, at_⟩
      · exact .inl was
      · exact .inr ⟨item, by simp [mem], at_⟩

theorem length_fill (items : List (Entry V × ℕ)) : (fill D max items l).length = l.length := by
  induction items generalizing l with
  | nil => rfl
  | cons item items ih => exact ih.trans (by rw [List.length_set])

/-- Motions with places of their own are found there. -/
theorem fill_slot {items : List (Entry V × ℕ)} (apart : (items.map fun item => item.1.num.slot max).Nodup)
    {item : Entry V × ℕ} (mem : item ∈ items) (inside : item.1.num.slot max < l.length) :
    (fill D max items l)[item.1.num.slot max]? = some (built D item) := by
  induction items using List.reverseRecOn with
  | nil => simp at mem
  | append_singleton items last ih =>
    rw [List.map_append, List.nodup_append] at apart
    rw [fill, List.foldl_append, List.foldl_cons, List.foldl_nil, ← fill, List.getElem?_set, length_fill]
    rcases List.mem_append.mp mem with before | here
    · have other := apart.2.2 _ (List.mem_map_of_mem before) (last.1.num.slot max) (by simp)
      rw [if_neg (Ne.symm other)]
      exact ih apart.1 before
    · obtain rfl := List.mem_singleton.mp here
      rw [if_pos rfl, if_pos inside]

/-! ### The order of the labels -/

/-- The position that the label is read as. -/
def Label.value (num : Label) : ℤ :=
  match num.position with
  | .ok position => position
  | .error _ => 0

theorem counted_mono {j k k' : ℕ} (le : k ≤ k') : counted max j k ≤ counted max j k' := by
  unfold counted
  split_ifs <;> omega

theorem Entry.Builds.labeled (builds : entry.Builds D strict max) : entry.num.position = .ok entry.num.value := by
  obtain ⟨position, _, _, good⟩ := builds
  rw [Label.value, good.labeled]

theorem Entry.Builds.slot_eq {k : ℕ} (builds : entry.Builds D strict max) :
    entry.num.slot max = k ↔ entry.num.value = if entry.num.value < 1 then (k : ℤ) + 1 - max else k + 1 := by
  obtain ⟨position, _, _, good⟩ := builds
  have inside := good.inside
  rw [Label.slot, Label.value, good.labeled]
  dsimp only
  split_ifs <;> omega

theorem Entry.Builds.built_eq (builds : entry.Builds D strict max) (made : ℕ) :
    ∃ m, built D (entry, made) = some m ∧ m.made = made ∧
      ((entry.num.value = max → strict = true) → D.willComplete m.class_ = .ok true) := by
  obtain ⟨position, type_, class_, good⟩ := builds
  refine ⟨⟨made, class_, entry.info.kwargs⟩, ?_, rfl, fun must => good.completes fun atEnd => must ?_⟩
  · simp [built, good.typed, good.resolves]
  · rw [Label.value, good.labeled, ← atEnd]

section
variable {mList : List (Entry V)} {order : List (Entry V × ℕ)}

theorem numbered_iff (builds : ∀ e ∈ mList, e.Builds D strict max) (perm : order.Perm mList.zipIdx) :
    Numbered mList ↔ ∃ j, (order.map fun e => e.1.num.value).Perm ((List.range mList.length).map (counted mList.length j)) := by
  refine exists_congr fun j => ?_
  have read : (mList.map fun e => e.num.position) = (mList.map fun e => e.num.value).map Except.ok := by
    rw [List.map_map]
    exact List.map_congr_left fun e mem => (builds e mem).labeled
  have values : (order.map fun e => e.1.num.value).Perm (mList.map fun e => e.num.value) := by
    have firsts := (perm.map Prod.fst).map fun e => e.num.value
    rw [List.zipIdx_map_fst, List.map_map] at firsts
    exact firsts
  have pattern : ((List.range mList.length).map fun k => Except.ok (counted mList.length j k)) =
      ((List.range mList.length).map (counted mList.length j)).map (Except.ok : ℤ → Except PyError ℤ) := by
    rw [List.map_map]
    rfl
  rw [read, pattern, List.map_perm_map_iff (fun a b same => Except.ok.inj same)]
  exact ⟨values.trans, values.symm.trans⟩

theorem slot_at {k : ℕ} (slots : order.map (fun e => e.1.num.slot mList.length) = List.range mList.length) (inside : k < order.length) :
    order[k].1.num.slot mList.length = k := by
  have same := List.getElem_of_eq slots (by rwa [List.length_map] : k < _)
  simpa using same

/-- The places of the motions are in the order of the labels exactly when the entries are numbered. -/
theorem numbered_iff_slots (builds : ∀ e ∈ mList, e.Builds D strict mList.length) (perm : order.Perm mList.zipIdx)
    (sorted : order.Pairwise fun e f => e.1.num.value ≤ f.1.num.value) :
    Numbered mList ↔ order.map (fun e => e.1.num.slot mList.length) = List.range mList.length := by
  have len : order.length = mList.length := by rw [perm.length_eq, List.length_zipIdx]
  have builds (k : ℕ) (inside : k < order.length) : order[k].1.Builds D strict mList.length :=
    builds _ (List.fst_mem_of_mem_zipIdx (perm.mem_iff.mp (List.getElem_mem inside)))
  rw [numbered_iff (fun e mem => ‹∀ e ∈ mList, _› e mem) perm]
  constructor
  · rintro ⟨j, numbered⟩
    have same : (order.map fun e => e.1.num.value) = (List.range mList.length).map (counted mList.length j) := by
      refine List.Perm.eq_of_pairwise (fun a b _ _ => le_antisymm) (List.pairwise_map.mpr sorted) ?_ numbered
      exact List.pairwise_map.mpr (List.pairwise_lt_range.imp fun lt => counted_mono lt.le)
    refine List.ext_getElem (by simp [len]) fun k inside _ => ?_
    rw [List.length_map] at inside
    have value : order[k].1.num.value = counted mList.length j k := by
      have := List.getElem_of_eq same (by rwa [List.length_map] : k < _)
      simpa using this
    rw [List.getElem_map, List.getElem_range, (builds k inside).slot_eq, value, counted]
    split_ifs <;> omega
  · intro slots
    refine ⟨order.findIdx fun e => 1 ≤ e.1.num.value, List.Perm.of_eq (List.ext_getElem (by simp [len]) fun k inside _ => ?_)⟩
    rw [List.length_map] at inside
    have value := (builds k inside).slot_eq.mp (slot_at slots inside)
    simp only [List.getElem_map, List.getElem_range, counted]
    by_cases low : k < order.findIdx fun e => 1 ≤ e.1.num.value
    · have := List.not_of_lt_findIdx low
      rw [if_pos low]
      rwa [if_pos (by simpa using this)] at value
    · have first : order.findIdx (fun e => 1 ≤ e.1.num.value) < order.length := by omega
      have high : 1 ≤ (order[order.findIdx fun e => 1 ≤ e.1.num.value]).1.num.value := by
        have := List.findIdx_getElem (w := first)
        simpa using this
      have le : (order[order.findIdx fun e => 1 ≤ e.1.num.value]).1.num.value ≤ order[k].1.num.value := by
        rcases (not_lt.mp low).lt_or_eq with lt | same
        · exact List.pairwise_iff_getElem.mp sorted _ _ _ _ lt
        · simp only [same, le_refl]
      rw [if_neg low]
      rwa [if_neg (by omega)] at value

theorem exists_sorted {α : Type} (key : α → ℤ) (l : List α) : ∃ order : List α, order.Perm l ∧ order.Pairwise fun e f => key e ≤ key f := by
  refine ⟨l.mergeSort fun e f => decide (key e ≤ key f), List.mergeSort_perm _ _, ?_⟩
  have sorted : (l.mergeSort fun e f => decide (key e ≤ key f)).Pairwise fun e f => decide (key e ≤ key f) = true :=
    List.pairwise_mergeSort (fun a b c first second => by simp only [decide_eq_true_eq] at first second ⊢; exact first.trans second)
      (fun a b => by simpa using le_total (key a) (key b)) l
  exact sorted.imp fun le => of_decide_eq_true le

/-- The list that is returned, when each motion is put where the order has it. -/
theorem fill_eq (perm : order.Perm mList.zipIdx) (slots : order.map (fun e => e.1.num.slot mList.length) = List.range mList.length) :
    fill D mList.length mList.zipIdx (List.replicate mList.length none) = order.map (built D) := by
  have len : order.length = mList.length := by rw [perm.length_eq, List.length_zipIdx]
  have apart : (mList.zipIdx.map fun e => e.1.num.slot mList.length).Nodup :=
    (perm.map _).nodup_iff.mp (slots ▸ List.nodup_range)
  refine List.ext_getElem (by rw [length_fill, List.length_replicate, List.length_map, len]) fun k _ inside => ?_
  rw [List.length_map] at inside
  have slot := slot_at slots inside
  have there := fill_slot (D := D) (l := List.replicate mList.length none) apart (perm.mem_iff.mp (List.getElem_mem inside))
    (by rw [slot, List.length_replicate, ← len]; exact inside)
  rw [slot] at there
  rw [List.getElem_map]
  exact (List.getElem?_eq_some_iff.mp there).2

/-- The motion of an entry that is at a place of the list was put there for the entry: it has its number. -/
theorem slot_of_fill (builds : ∀ e ∈ mList, e.Builds D strict mList.length) {e : Entry V × ℕ} (mem : e ∈ mList.zipIdx) {k : ℕ}
    (there : (fill D mList.length mList.zipIdx (List.replicate mList.length none))[k]? = some (built D e)) :
    e.1.num.slot mList.length = k := by
  have builds_of {e : Entry V × ℕ} (mem : e ∈ mList.zipIdx) := builds e.1 (List.fst_mem_of_mem_zipIdx mem)
  obtain ⟨m, made, number, -⟩ := (builds_of mem).built_eq e.2
  rw [made] at there
  rcases fill_get there with nothing | ⟨item, mem', slot, made'⟩
  · rw [List.getElem?_replicate] at nothing
    split_ifs at nothing
    cases nothing
  · obtain ⟨m', made'', number', -⟩ := (builds_of mem').built_eq item.2
    obtain rfl : m' = m := Option.some.inj (made''.symm.trans made')
    have first := List.mem_zipIdx' mem
    have second := List.mem_zipIdx' mem'
    have index : item.2 = e.2 := number'.symm.trans number
    have entry : item.1 = e.1 := by
      rw [second.2]
      simp only [index]
      exact first.2.symm
    rw [← entry, slot]

theorem numbered_of_inOrder (builds : ∀ e ∈ mList, e.Builds D strict mList.length)
    (inOrder : InOrder D strict mList (fill D mList.length mList.zipIdx (List.replicate mList.length none))) : Numbered mList := by
  obtain ⟨order, perm, before, same⟩ := inOrder.ordered
  have sorted : order.Pairwise fun e f => e.1.num.value ≤ f.1.num.value := by
    refine before.imp fun ⟨a, b, first, second, le⟩ => ?_
    rwa [Label.value, Label.value, first, second]
  rw [numbered_iff_slots builds perm sorted]
  refine List.ext_getElem (by simp [perm.length_eq]) fun k inside _ => ?_
  rw [List.length_map] at inside
  rw [List.getElem_map, List.getElem_range]
  refine slot_of_fill builds (perm.mem_iff.mp (List.getElem_mem inside)) ?_
  rw [same, List.getElem?_map, List.getElem?_eq_getElem inside, Option.map_some]

theorem inOrder_of_numbered (builds : ∀ e ∈ mList, e.Builds D strict mList.length) (numbered : Numbered mList) :
    InOrder D strict mList (fill D mList.length mList.zipIdx (List.replicate mList.length none)) := by
  obtain ⟨order, perm, sorted⟩ := exists_sorted (fun e : Entry V × ℕ => e.1.num.value) mList.zipIdx
  have slots := (numbered_iff_slots builds perm sorted).mp numbered
  have builds_of {e : Entry V × ℕ} (mem : e ∈ order) := builds e.1 (List.fst_mem_of_mem_zipIdx (perm.mem_iff.mp mem))
  rw [fill_eq perm slots]
  refine ⟨fun empty => ?_, ⟨order, perm, ?_, rfl⟩, fun m mem => ?_, fun must m last => ?_⟩
  · obtain ⟨e, mem, nothing⟩ := List.mem_map.mp empty
    obtain ⟨m, made, -⟩ := (builds_of mem).built_eq e.2
    cases made.symm.trans nothing
  · exact sorted.imp_of_mem fun {e f} first second le => ⟨_, _, (builds_of first).labeled, (builds_of second).labeled, le⟩
  · obtain ⟨k, inside, at_⟩ := List.mem_iff_getElem.mp mem
    rw [List.length_dropLast, List.length_map] at inside
    rw [List.getElem_dropLast, List.getElem_map] at at_
    have builds := builds_of (List.getElem_mem (by omega : k < order.length))
    obtain ⟨m', made, -, completes⟩ := builds.built_eq order[k].2
    obtain rfl : m' = m := Option.some.inj (made.symm.trans at_)
    have value := builds.slot_eq.mp (slot_at slots (by omega))
    have len : order.length = mList.length := by rw [perm.length_eq, List.length_zipIdx]
    refine completes fun atEnd => ?_
    split_ifs at value <;> omega
  · obtain ⟨e, mem, at_⟩ := List.mem_map.mp (List.mem_of_getLast? last)
    obtain ⟨m', made, -, completes⟩ := (builds_of mem).built_eq e.2
    obtain rfl : m' = m := Option.some.inj (made.symm.trans at_)
    exact completes fun _ => must

/-- With all entries built, the list that is returned is in the order of the labels exactly when the
    entries are numbered. -/
theorem inOrder_fill (builds : ∀ e ∈ mList, e.Builds D strict mList.length) :
    InOrder D strict mList (fill D mList.length mList.zipIdx (List.replicate mList.length none)) ↔ Numbered mList :=
  ⟨numbered_of_inOrder builds, inOrder_of_numbered builds⟩

end

/-! ### The whole -/

theorem generateMotionList_builds (builds : ∀ e ∈ entries, e.Builds D strict entries.length) :
    generateMotionList D entries strict =
      (entries, .ok (fill D entries.length entries.zipIdx (List.replicate entries.length none))) :=
  addMotions_builds 0 _ builds List.length_replicate

theorem right_of_fits (fits : Fits D strict entries) : Right D strict entries := by
  rcases fits with ⟨builds, numbered⟩ | ⟨before, entry, after, rfl, builds, missing⟩
  · have run := generateMotionList_builds builds
    refine ⟨by rw [run], fun l same => ?_⟩
    rw [run] at same
    obtain rfl := Except.ok.inj same
    exact (inOrder_fill builds).mpr numbered
  · obtain ⟨e, run⟩ := addMotions_fails after 0 (List.replicate (before ++ entry :: after).length none) builds
      List.length_replicate (fun made l _ => ⟨_, addMotion_missing missing⟩)
    refine ⟨by rw [generateMotionList, run], fun l same => ?_⟩
    rw [generateMotionList, run] at same
    cases same

theorem fits_of_right (right : Right D strict entries) : Fits D strict entries := by
  rcases first_that_fails (fun e => e.Builds D strict entries.length) entries with
    builds | ⟨before, entry, after, rfl, builds, fails⟩
  · exact .inl ⟨builds, (inOrder_fill builds).mp (right.returns _ (by rw [generateMotionList_builds builds]))⟩
  · cases typed : entry.info.type with
    | none => exact .inr ⟨before, entry, after, rfl, builds, typed⟩
    | some type_ =>
      -- What is raised here leaves the entry without its type.
      obtain ⟨e, run⟩ := addMotions_fails after 0 (List.replicate (before ++ entry :: after).length none) builds
        List.length_replicate (fun made l len => addMotion_fails typed fails len)
      have same := right.unchanged
      rw [generateMotionList, run] at same
      have left := (List.cons.inj (List.append_cancel_left same)).1
      rw [← left] at typed
      cases typed

variable (D strict) in
/-- It does what is meant exactly when all entries are built and numbered, or the first that is not
    built has no type. -/
theorem motions_right (mList : List (Entry V)) : Right D strict mList ↔ Fits D strict mList := ⟨fits_of_right, right_of_fits⟩

end

/-! ### Two configurations -/

/-- The motion of the tests, whose one parameter is `_type`. -/
def mockClasses : Classes String ℕ where
  resolve name := if name = "ram.test.motion.support.MockMotion" then .ok name else .error (.exception "No module")
  isMotion _ := .ok true
  willComplete _ := .ok true
  construct _ kwargs := if kwargs.all fun parameter => parameter.1 = "_type" then .ok () else .error (.typeError "__init__()")
  text name := "<class '" ++ name ++ "'>"

def mockEntry (num : Label) (parameter : String) : Entry ℕ := ⟨num, ⟨some "ram.test.motion.support.MockMotion", [(parameter, 1)]⟩⟩

/-- A parameter that the motion does not take leaves the configuration without the type. Labels that
    start from 0 give the motions in the wrong order. -/
theorem not_right : ¬ Right mockClasses false [mockEntry (.text "1") "speed"] ∧
    ¬ Right mockClasses false [mockEntry (.number 0) "_type", mockEntry (.number 1) "_type"] := by
  constructor
  · intro right
    have unchanged := right.unchanged
    revert unchanged
    decide +kernel
  · intro right
    rcases fits_of_right right with ⟨-, j, perm⟩ | ⟨before, entry, after, same, -, missing⟩
    · have first : (Except.ok 0 : Except PyError ℤ) ∈ [Except.ok (counted 2 j 0), Except.ok (counted 2 j 1)] :=
        perm.mem_iff.mp (by simp [mockEntry, Label.position])
      have second : (Except.ok 1 : Except PyError ℤ) ∈ [Except.ok (counted 2 j 0), Except.ok (counted 2 j 1)] :=
        perm.mem_iff.mp (by simp [mockEntry, Label.position])
      simp only [List.mem_cons, Except.ok.injEq, List.not_mem_nil, or_false, counted] at first second
      split_ifs at first second <;> omega
    · have mem : entry ∈ [mockEntry (.number 0) "_type", mockEntry (.number 1) "_type"] := by rw [same]; simp
      simp only [List.mem_cons, List.not_mem_nil, or_false] at mem
      rcases mem with rfl | rfl <;> cases missing

end Tortuga.MotionLists
