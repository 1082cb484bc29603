import Mathlib.Data.List.Induction
import Tortuga.BinTask
import Tortuga.Precedence

/-!
What is kept by every turn of the task of the bins (`ai/statBin.py`), and when nothing is raised.
-/
namespace Tortuga.BinTaskRuns
open Tortuga.SortedMaps Tortuga.BinTask
open Tortuga.Precedence (split_concat)

/-! ### What has happened -/

section
variable {symbols : List String} {log : List Happening} {h : Happening}

theorem lastSelected_append : lastSelected (log ++ [h]) =
    match h with
    | .selected symbol => some symbol
    | _ => lastSelected log := by
  induction log with
  | nil => cases h <;> rfl
  | cons first log ih =>
    cases first with
    | selected symbol =>
      rw [List.cons_append, lastSelected, ih]
      cases h <;> rfl
    | motion _ => exact ih
    | dropped _ => exact ih
    | ended _ _ => exact ih

/-- Each thing that has happened is as is meant. -/
def Safe (symbols : List String) (log : List Happening) : Prop :=
  ∀ before h after, log = before ++ h :: after → Proper symbols before h

theorem Safe.append (safe : Safe symbols log) (proper : Proper symbols log h) : Safe symbols (log ++ [h]) := by
  intro before h' after split
  rcases split_concat.mp split with ⟨rfl, rfl, -⟩ | ⟨rest, -, split⟩
  · exact proper
  · exact safe before h' rest split

/-! ### The data -/

/-- The dictionaries have the symbols that were given, those with a marker are served, and what is left of the
    list is of them. -/
structure Kept (symbols : List String) (d : Data) (log : List Happening) : Prop where
  binData : ∀ s, (d.binData.get? s).isSome ↔ s ∈ symbols.map String.toLower
  foundNum : ∀ s ∈ symbols.map String.toLower, (d.foundNum.get? s).isSome
  ignoreSymbol : ∀ s, (d.ignoreSymbol.get? s).isSome ↔ s ∈ symbols.map String.toLower
  served : ∀ s, d.ignoreSymbol.get? s = some true ↔ .dropped s ∈ log
  left : ∀ s ∈ d.symbolList, s ∈ symbols
  selected : ∀ s, d.binSymbol = some s → lastSelected log = some s
  safe : Safe symbols log

/-- The symbol that was selected last has no marker. -/
def Selected (d : Data) : Prop := ∃ s, d.binSymbol = some s ∧ d.ignoreSymbol.get? s = some false

/-- All symbols have one. -/
def AllServed (d : Data) : Prop := ∀ s v, d.ignoreSymbol.get? s = some v → v = true

variable {d : Data}

/-- What is neither a selection nor a marker leaves the data as they are. -/
theorem Kept.other (kept : Kept symbols d log) (selected : ∀ s, h ≠ .selected s) (dropped : ∀ s, h ≠ .dropped s)
    (proper : Proper symbols log h) : Kept symbols d (log ++ [h]) := by
  refine ⟨kept.binData, kept.foundNum, kept.ignoreSymbol, fun s => ?_, kept.left, fun s at_ => ?_, kept.safe.append proper⟩
  · rw [kept.served s, List.mem_append, List.mem_singleton]
    exact ⟨.inl, fun now => now.resolve_right (Ne.symm (dropped s))⟩
  · rw [lastSelected_append]
    cases h with
    | selected s' => exact absurd rfl (selected s')
    | motion _ => exact kept.selected s at_
    | dropped _ => exact kept.selected s at_
    | ended _ _ => exact kept.selected s at_

theorem Kept.motion (kept : Kept symbols d log) (m : Motion) : Kept symbols d (log ++ [.motion m]) :=
  kept.other (fun _ same => by cases same) (fun _ same => by cases same) trivial

theorem Kept.select (kept : Kept symbols d log) (s : String) :
    Kept symbols { d with binSymbol := some s } (log ++ [.selected s]) := by
  refine ⟨kept.binData, kept.foundNum, kept.ignoreSymbol, fun s' => ?_, kept.left, fun s' at_ => ?_, kept.safe.append trivial⟩
  · show d.ignoreSymbol.get? s' = some true ↔ _
    rw [kept.served s', List.mem_append]
    simp
  · rw [lastSelected_append]
    exact at_

/-- A marker is dropped for the symbol that is selected. -/
theorem Kept.drop {s : String} (kept : Kept symbols d log) (at_ : d.binSymbol = some s) (unserved : d.ignoreSymbol.get? s = some false) :
    Kept symbols { d with ignoreSymbol := d.ignoreSymbol.set s true } (log ++ [.dropped s]) := by
  have listed : s ∈ symbols.map String.toLower := (kept.ignoreSymbol s).mp (by rw [unserved]; rfl)
  have first : .dropped s ∉ log := fun mem => by
    rw [← kept.served s, unserved] at mem
    cases mem
  refine ⟨kept.binData, kept.foundNum, fun s' => ?_, fun s' => ?_, kept.left, fun s' at_' => ?_,
    kept.safe.append ⟨listed, kept.selected s at_, first⟩⟩
  · rw [SortedMap.get?_set]
    split_ifs with same
    · rw [same]
      exact iff_of_true rfl listed
    · exact kept.ignoreSymbol s'
  · rw [SortedMap.get?_set, List.mem_append, List.mem_singleton, ← kept.served s']
    split_ifs with same
    · rw [same]
      exact iff_of_true rfl (.inr rfl)
    · exact ⟨.inl, fun now => now.resolve_right fun here => same (Happening.dropped.inj here)⟩
  · rw [lastSelected_append]
    exact kept.selected s' at_'

theorem Kept.sighted {s : String} (kept : Kept symbols d log) (mem : s ∈ symbols.map String.toLower) (found : List (ℚ × ℚ)) (n : ℕ) :
    Kept symbols { d with binData := d.binData.set s found, foundNum := d.foundNum.set s n } log := by
  refine ⟨fun s' => ?_, fun s' mem' => ?_, kept.ignoreSymbol, kept.served, kept.left, kept.selected, kept.safe⟩
  · rw [SortedMap.get?_set]
    split_ifs with same
    · rw [same]
      exact iff_of_true rfl mem
    · exact kept.binData s'
  · rw [SortedMap.get?_set]
    split_ifs
    · rfl
    · exact kept.foundNum s' mem'

theorem Kept.shorter {left : List String} (kept : Kept symbols d log) (fewer : ∀ s ∈ left, s ∈ d.symbolList) :
    Kept symbols { d with symbolList := left } log :=
  ⟨kept.binData, kept.foundNum, kept.ignoreSymbol, kept.served, fun s mem => kept.left s (fewer s mem), kept.selected, kept.safe⟩

/-- The task may end when all symbols are served. -/
theorem Kept.all_served (kept : Kept symbols d log) (all : AllServed d) : ∀ s ∈ symbols, .dropped s.toLower ∈ log := by
  intro s mem
  have there := (kept.ignoreSymbol s.toLower).mpr (List.mem_map_of_mem mem)
  obtain ⟨v, at_⟩ := Option.isSome_iff_exists.mp there
  rw [← kept.served, at_, all _ _ at_]

/-! ### The start -/

theorem enterSymbol_kept (l : List String) (d : Data) :
    (l.foldl Start.enterSymbol d).symbolList = d.symbolList ∧ (l.foldl Start.enterSymbol d).binSymbol = d.binSymbol := by
  induction l generalizing d with
  | nil => exact ⟨rfl, rfl⟩
  | cons symbol l ih => exact ih (Start.enterSymbol d symbol)

theorem enterSymbol_get? (l : List String) (d : Data) (s : String) :
    (l.foldl Start.enterSymbol d).binData.get? s = (if s ∈ l.map String.toLower then some [] else d.binData.get? s) ∧
    (l.foldl Start.enterSymbol d).foundNum.get? s = (if s ∈ l.map String.toLower then some 0 else d.foundNum.get? s) ∧
    (l.foldl Start.enterSymbol d).ignoreSymbol.get? s =
      (if s ∈ l.map String.toLower then some false else d.ignoreSymbol.get? s) := by
  induction l using List.reverseRecOn with
  | nil => exact ⟨rfl, rfl, rfl⟩
  | append_singleton l symbol ih =>
    rw [List.foldl_append, List.foldl_cons, List.foldl_nil, Start.enterSymbol]
    simp only [SortedMap.get?_set, ih, List.map_append, List.map_cons, List.map_nil, List.mem_append, List.mem_singleton]
    by_cases here : s = symbol.toLower
    · simp only [here, if_true, or_true]
      exact ⟨trivial, trivial, trivial⟩
    · simp only [here, if_false, or_false]
      exact ⟨trivial, trivial, trivial⟩

theorem kept_entered (symbols : List String) :
    Kept symbols (symbols.foldl Start.enterSymbol ⟨symbols, .empty, .empty, .empty, none⟩) [] := by
  have entries := enterSymbol_get? symbols ⟨symbols, .empty, .empty, .empty, none⟩
  have others := enterSymbol_kept symbols ⟨symbols, .empty, .empty, .empty, none⟩
  refine ⟨fun s => ?_, fun s mem => ?_, fun s => ?_, fun s => ?_, fun s mem => ?_, fun s at_ => ?_, fun before h after split => ?_⟩
  · rw [(entries s).1]
    split_ifs with mem <;> simp [mem]
  · rw [(entries s).2.1, if_pos mem]
    rfl
  · rw [(entries s).2.2]
    split_ifs with mem <;> simp [mem]
  · rw [(entries s).2.2]
    split_ifs <;> simp
  · rw [others.1] at mem
    exact mem
  · rw [others.2] at at_
    cases at_
  · simp at split

theorem kept_started (symbols : List String) : Kept symbols (started symbols).data (started symbols).log :=
  (kept_entered symbols).motion .dive

/-! ### The events that wait -/

/-- The state that publishes the event, as a number. -/
def rank : Event → ℕ
  | .outside _ => 0
  | .searchDone | .zigZagDone => 1
  | .strafeNoneLeft | .strafeDone | .symbolFound => 2
  | .alignNoneLeft | .aligned => 3
  | .centered => 4
  | .dropped => 5
  | .complete => 6

def stateRank : State → ℕ
  | .start => 0
  | .search => 1
  | .strafe => 2
  | .align => 3
  | .center => 4
  | .drop => 5
  | .last => 6

/-- No event of an earlier round waits: what the states publish before a marker is dropped comes before
    `DROPPED`. So what waits for the strafes, the alignment and the centering is of this round. -/
structure Queued (state : State) (queue : List Event) (d : Data) : Prop where
  ranked : ∀ e ∈ queue, rank e ≤ stateRank state
  noneLeft : state = .strafe → .strafeNoneLeft ∈ queue → AllServed d
  found : state = .strafe → .symbolFound ∈ queue → Selected d
  aligned : state = .align → (Selected d ∧ .alignNoneLeft ∉ queue) ∨
    (d.symbolList = [] ∧ ∃ before after, queue = before ++ .alignNoneLeft :: after ∧ .aligned ∉ before)
  centered : state = .center → Selected d
  dropped : state = .drop → ∃ before after, queue = before ++ .dropped :: after ∧ .dropped ∉ before ∧ ∀ e ∈ after, rank e = 0

variable {state : State} {queue : List Event} {e : Event}

theorem Queued.behind {state' : State} (queued : Queued state (e :: queue) d) (at_ : state = state') : ∀ e' ∈ queue, rank e' ≤ stateRank state' :=
  fun e' mem => at_ ▸ queued.ranked e' (List.mem_cons_of_mem _ mem)

/-- An event from outside, or another one that is not looked for. -/
theorem Queued.publish (queued : Queued state queue d) (ranked : rank e ≤ stateRank state)
    (noneLeft : state = .strafe → e ≠ .strafeNoneLeft) (found : state = .strafe → e ≠ .symbolFound)
    (aligned : state = .align → e ≠ .alignNoneLeft) (dropped : state = .drop → rank e = 0) :
    Queued state (queue ++ [e]) d := by
  refine ⟨fun e' mem => ?_, fun at_ mem => ?_, fun at_ mem => ?_, fun at_ => ?_, queued.centered, fun at_ => ?_⟩
  · rcases List.mem_append.mp mem with before | here
    · exact queued.ranked e' before
    · rwa [List.mem_singleton.mp here]
  · rcases List.mem_append.mp mem with before | here
    · exact queued.noneLeft at_ before
    · exact absurd (List.mem_singleton.mp here).symm (noneLeft at_)
  · rcases List.mem_append.mp mem with before | here
    · exact queued.found at_ before
    · exact absurd (List.mem_singleton.mp here).symm (found at_)
  · rcases queued.aligned at_ with ⟨selected, none⟩ | ⟨empty, before, after, rfl, first⟩
    · refine .inl ⟨selected, fun mem => ?_⟩
      rcases List.mem_append.mp mem with before | here
      · exact none before
      · exact aligned at_ (List.mem_singleton.mp here).symm
    · exact .inr ⟨empty, before, after ++ [e], by simp, first⟩
  · obtain ⟨before, after, rfl, first, later⟩ := queued.dropped at_
    refine ⟨before, after ++ [e], by simp, first, fun e' mem => ?_⟩
    rcases List.mem_append.mp mem with there | here
    · exact later e' there
    · rw [List.mem_singleton.mp here]
      exact dropped at_

/-- An event is passed over that the state has no transition for. -/
theorem Queued.pass (queued : Queued state (e :: queue) d) (aligned : state = .align → e ≠ .alignNoneLeft)
    (dropped : state = .drop → e ≠ .dropped) : Queued state queue d := by
  refine ⟨fun e' mem => queued.ranked e' (List.mem_cons_of_mem _ mem), fun at_ mem => queued.noneLeft at_ (List.mem_cons_of_mem _ mem),
    fun at_ mem => queued.found at_ (List.mem_cons_of_mem _ mem), fun at_ => ?_, queued.centered, fun at_ => ?_⟩
  · rcases queued.aligned at_ with ⟨selected, none⟩ | ⟨empty, before, after, split, first⟩
    · exact .inl ⟨selected, fun mem => none (List.mem_cons_of_mem _ mem)⟩
    · cases before with
      | nil => exact absurd (List.cons.inj split).1 (aligned at_)
      | cons e' before =>
        exact .inr ⟨empty, before, after, (List.cons.inj split).2, fun mem => first (List.mem_cons_of_mem _ mem)⟩
  · obtain ⟨before, after, split, first, later⟩ := queued.dropped at_
    cases before with
    | nil => exact absurd (List.cons.inj split).1 (dropped at_)
    | cons e' before =>
      exact ⟨before, after, (List.cons.inj split).2, fun mem => first (List.mem_cons_of_mem _ mem), later⟩

/-! ### Entering a state -/

/-- What is kept by every turn. -/
structure Inv (symbols : List String) (w : World) : Prop where
  kept : Kept symbols w.data w.log
  queued : Queued w.state w.queue w.data

/-- Nothing is raised, and what is kept is kept. -/
def Goes (symbols : List String) (result : Except PyError World) : Prop := ∃ w, result = .ok w ∧ Inv symbols w

variable {c : Config} {w : World}

theorem rank_le (e : Event) : rank e ≤ 6 := by
  cases e <;> simp [rank]

theorem enter_search (kept : Kept symbols w.data w.log) (ranked : ∀ e ∈ w.queue, rank e ≤ 0) :
    Goes symbols (enterState c .search w) := by
  have queued : Queued .search w.queue w.data :=
    ⟨fun e mem => (ranked e mem).trans (Nat.zero_le 1), by simp, by simp, by simp, by simp, by simp⟩
  refine ⟨_, rfl, ?_⟩
  rw [Search.enter]
  cases (ZigZags.FINISHED c.zigZag c.zigZagStart).2 with
  | done => exact ⟨kept, queued.publish le_rfl (by simp) (by simp) (by simp) (by simp)⟩
  | forward distance => exact ⟨kept.motion _, queued⟩
  | strafe distance => exact ⟨kept.motion _, queued⟩

/-- `NONE_LEFT` is published when all symbols are served. -/
theorem count_served (d : Data) :
    (d.ignoreSymbol.entries.filter fun entry => entry.2 = true).length = d.ignoreSymbol.entries.length ↔ AllServed d := by
  rw [List.length_filter_eq_length_iff]
  constructor
  · intro all s v at_
    simpa using all (s, v) (d.ignoreSymbol.mem_entries.mpr at_)
  · rintro all ⟨s, v⟩ mem
    simpa using all s v (d.ignoreSymbol.mem_entries.mp mem)

theorem enter_strafe (kept : Kept symbols w.data w.log) (ranked : ∀ e ∈ w.queue, rank e ≤ 1) :
    Goes symbols (enterState c .strafe w) := by
  have absent (e : Event) (high : 1 < rank e) : e ∉ w.queue := fun mem => absurd (ranked e mem) (not_le.mpr high)
  have ranked : ∀ e ∈ w.queue, rank e ≤ stateRank .strafe := fun e mem => (ranked e mem).trans (by decide)
  refine ⟨_, rfl, ?_⟩
  by_cases all : AllServed w.data
  · have count := (count_served w.data).mpr all
    have queued : Queued .strafe (w.queue ++ [.strafeNoneLeft]) w.data := by
      refine ⟨fun e mem => ?_, fun _ _ => all, fun _ mem => ?_, by simp, by simp, by simp⟩
      · rcases List.mem_append.mp mem with before | here
        · exact ranked e before
        · rw [List.mem_singleton.mp here]
          decide
      · rcases List.mem_append.mp mem with before | here
        · exact absurd before (absent _ (by decide))
        · cases List.mem_singleton.mp here
    simp only [Strafe.enter, if_pos count]
    exact ⟨kept.motion _, queued⟩
  · have count := (count_served w.data).not.mpr all
    have queued : Queued .strafe w.queue w.data :=
      ⟨ranked, fun _ mem => absurd mem (absent _ (by decide)), fun _ mem => absurd mem (absent _ (by decide)),
        by simp, by simp, by simp⟩
    simp only [Strafe.enter, if_neg count]
    exact ⟨kept.motion _, queued⟩

theorem enter_center (kept : Kept symbols w.data w.log) (selected : Selected w.data) (ranked : ∀ e ∈ w.queue, rank e ≤ 4) :
    Goes symbols (enterState c .center w) := by
  have queued : Queued .center w.queue w.data := ⟨ranked, by simp, by simp, by simp, fun _ => selected, by simp⟩
  exact ⟨_, rfl, kept, queued⟩

theorem enter_drop (kept : Kept symbols w.data w.log) (selected : Selected w.data) (ranked : ∀ e ∈ w.queue, rank e ≤ 4) :
    Goes symbols (enterState c .drop w) := by
  obtain ⟨s, at_, unserved⟩ := selected
  have absent : .dropped ∉ w.queue := fun mem => absurd (ranked _ mem) (by decide)
  have queued : Queued .drop (w.queue ++ [.dropped]) { w.data with ignoreSymbol := w.data.ignoreSymbol.set s true } := by
    refine ⟨fun e mem => ?_, by simp, by simp, by simp, by simp, fun _ => ⟨w.queue, [], rfl, absent, by simp⟩⟩
    rcases List.mem_append.mp mem with before | here
    · exact (ranked e before).trans (by decide)
    · rw [List.mem_singleton.mp here]
      decide
  rw [enterState, Drop.enter]
  split
  · rename_i none
    cases at_.symm.trans none
  · rename_i symbol same
    obtain rfl : symbol = s := Option.some.inj (same.symm.trans at_)
    exact ⟨_, rfl, kept.drop at_ unserved, queued⟩

theorem enter_last (kept : Kept symbols w.data w.log) (proper : Proper symbols w.log (.ended w.state w.data.symbolList)) :
    Goes symbols (enterState c .last w) := by
  have queued : Queued .last (w.queue ++ [.complete]) w.data := ⟨fun e _ => rank_le e, by simp, by simp, by simp, by simp, by simp⟩
  exact ⟨_, rfl, kept.other (fun _ same => by cases same) (fun _ same => by cases same) proper, queued⟩

/-! ### The alignment -/

/-- The first symbol of the list without a marker is found, and none is left when there is none. -/
theorem nextSymbol_eq {ignoreSymbol : SortedMap String Bool} {l : List String}
    (known : ∀ s ∈ l, (ignoreSymbol.get? s.toLower).isSome) :
    ∃ left, Align.nextSymbol ignoreSymbol l =
        .ok ((l.map String.toLower).find? (fun s => ignoreSymbol.get? s = some false), left) ∧
      (∀ s ∈ left, s ∈ l) ∧ ((l.map String.toLower).find? (fun s => ignoreSymbol.get? s = some false) = none → left = []) := by
  induction l with
  | nil => exact ⟨[], rfl, by simp, fun _ => rfl⟩
  | cons s l ih =>
    rw [List.forall_mem_cons] at known
    obtain ⟨v, at_⟩ := Option.isSome_iff_exists.mp known.1
    obtain ⟨left, rest, fewer, none⟩ := ih known.2
    cases v with
    | true =>
      refine ⟨left, ?_, fun s' mem => List.mem_cons_of_mem _ (fewer s' mem), ?_⟩
      · simp [Align.nextSymbol, getItem, at_, rest, bind, Except.bind]
      · simpa [at_] using none
    | false =>
      refine ⟨l, ?_, fun s' mem => List.mem_cons_of_mem _ mem, ?_⟩
      · simp [Align.nextSymbol, getItem, at_, bind, Except.bind, pure, Except.pure]
      · simp [at_]

theorem average_ok {values : List ℚ} (some_ : values ≠ []) : Align.average values = .ok (values.sum / values.length) := by
  rw [Align.average, if_neg (List.length_eq_zero_iff.not.mpr some_)]

/-- What is known of the alignment when it begins: an error for a symbol that was never sighted, or what is kept. -/
theorem enter_align (kept : Kept symbols w.data w.log) (ranked : ∀ e ∈ w.queue, rank e ≤ 2) :
    ((∀ s, w.data.nextUnserved = some s → w.data.binData.get? s ≠ some []) ∧ Goes symbols (enterState c .align w)) ∨
      (∃ s, w.data.nextUnserved = some s ∧ w.data.binData.get? s = some []) ∧ enterState c .align w = .error .zeroDivisionError := by
  have known : ∀ s ∈ w.data.symbolList, (w.data.ignoreSymbol.get? s.toLower).isSome := fun s mem =>
    (kept.ignoreSymbol _).mpr (List.mem_map_of_mem (kept.left s mem))
  have absent (e : Event) (high : 2 < rank e) : e ∉ w.queue := fun mem => absurd (ranked e mem) (not_le.mpr high)
  have ranked : ∀ e ∈ w.queue, rank e ≤ stateRank .align := fun e mem => (ranked e mem).trans (by decide)
  obtain ⟨left, next, fewer, empty⟩ := nextSymbol_eq known
  rw [← Data.nextUnserved] at next empty
  cases found : w.data.nextUnserved with
  | none =>
    rw [found] at next
    obtain rfl := empty found
    refine .inl ⟨by simp, ?_⟩
    have queued : Queued .align (w.queue ++ [.alignNoneLeft]) { w.data with symbolList := [] } := by
      refine ⟨fun e mem => ?_, by simp, by simp, fun _ => .inr ⟨rfl, w.queue, [], rfl, absent _ (by decide)⟩, by simp, by simp⟩
      rcases List.mem_append.mp mem with before | here
      · exact ranked e before
      · rw [List.mem_singleton.mp here]
        decide
    simp only [enterState, Align.enter, next]
    exact ⟨_, rfl, kept.shorter fewer, queued⟩
  | some s =>
    rw [found] at next
    have unserved : w.data.ignoreSymbol.get? s = some false := by simpa using List.find?_some found
    have listed : (w.data.binData.get? s).isSome := (kept.binData s).mpr ((kept.ignoreSymbol s).mp (by rw [unserved]; rfl))
    obtain ⟨sightings, at_⟩ := Option.isSome_iff_exists.mp listed
    cases sightings with
    | nil =>
      refine .inr ⟨⟨s, rfl, at_⟩, ?_⟩
      simp [enterState, Align.enter, next, World.select, getItem, at_, Align.average, bind, Except.bind]
    | cons position rest =>
      refine .inl ⟨fun s' same => ?_, ?_⟩
      · obtain rfl := Option.some.inj same
        simp [at_]
      · have queued : Queued .align w.queue { w.data with symbolList := left, binSymbol := some s } :=
          ⟨ranked, by simp, by simp, fun _ => .inl ⟨⟨s, rfl, unserved⟩, absent _ (by decide)⟩, by simp, by simp⟩
        have first : Align.average ((position :: rest).map Prod.fst) = _ := average_ok (by simp)
        have second : Align.average ((position :: rest).map Prod.snd) = _ := average_ok (by simp)
        simp only [enterState, Align.enter, next, World.select, getItem, at_, bind, Except.bind, first, second]
        exact ⟨_, rfl, ((kept.shorter fewer).select s).motion _, queued⟩

/-! ### Events in a state -/

variable {position : ℚ × ℚ}

theorem injectEvent_none (none : transitions w.state e = none) : injectEvent c position e w = .ok w := by
  rw [injectEvent, none]

/-- A transition to the state itself only calls its function. -/
theorem injectEvent_loop (loop : transitions w.state e = some w.state) :
    injectEvent c position e w = transFunc c position e w := by
  rw [injectEvent, loop]
  cases transFunc c position e w with
  | error raised => rfl
  | ok after => simp [bind, Except.bind, pure, Except.pure]

theorem injectEvent_leave (next : State) (leaves : transitions w.state e = some next) (other : next ≠ w.state)
    (quiet : transFunc c position e w = .ok w) : injectEvent c position e w = enterState c next w := by
  rw [injectEvent, leaves, quiet]
  simp only [bind, Except.bind, if_neg other]

/-- An event that the state has no transition for. -/
theorem ignored (kept : Kept symbols w.data w.log) (queued : Queued w.state (e :: w.queue) w.data)
    (none : transitions w.state e = none) : Goes symbols (injectEvent c position e w) := by
  refine ⟨w, injectEvent_none none, kept, queued.pass (fun at_ same => ?_) (fun at_ same => ?_)⟩
  · rw [at_, same] at none
    cases none
  · rw [at_, same] at none
    cases none

theorem handle_start (at_ : w.state = .start) (kept : Kept symbols w.data w.log) (queued : Queued w.state (e :: w.queue) w.data) :
    Goes symbols (injectEvent c position e w) := by
  by_cases finished : e = .outside .finished
  · have ranked := queued.ranked
    rw [at_] at ranked
    rw [injectEvent_leave .search (by rw [at_, finished]; rfl) (by rw [at_]; decide) (by simp only [transFunc, at_, finished])]
    exact enter_search kept fun e' mem => ranked e' (List.mem_cons_of_mem _ mem)
  · refine ignored kept queued ?_
    rw [at_]
    cases e with
    | outside e' =>
      cases e' with
      | finished => exact absurd rfl finished
      | _ => rfl
    | _ => rfl

theorem handle_search (at_ : w.state = .search) (kept : Kept symbols w.data w.log) (queued : Queued w.state (e :: w.queue) w.data) :
    Goes symbols (injectEvent c position e w) := by
  have ranked : ∀ e' ∈ w.queue, rank e' ≤ 1 := fun e' mem => by
    have := queued.ranked e' (List.mem_cons_of_mem _ mem)
    rwa [at_] at this
  cases e with
  | outside e' =>
    cases e' with
    | binFound symbol x y =>
      rw [injectEvent_loop (by rw [at_]; rfl)]
      simp only [transFunc, at_]
      have rest := queued.pass (by simp) (by simp)
      refine ⟨_, rfl, ?_⟩
      rw [Search.BIN_FOUND]
      dsimp only
      split
      · exact ⟨kept, rest.publish (by rw [at_]; decide) (by simp) (by simp) (by simp) (by rw [at_]; simp)⟩
      · exact ⟨kept, rest⟩
    | _ => exact ignored kept queued (by rw [at_]; rfl)
  | searchDone =>
    rw [injectEvent_leave .strafe (by rw [at_]; rfl) (by rw [at_]; decide) (by simp only [transFunc, at_])]
    exact enter_strafe kept ranked
  | zigZagDone =>
    rw [injectEvent_leave .last (by rw [at_]; rfl) (by rw [at_]; decide) (by simp only [transFunc, at_])]
    exact enter_last kept (by rw [at_]; simp [Proper])
  | _ => exact ignored kept queued (by rw [at_]; rfl)

/-- A symbol is selected in the strafes. -/
theorem Queued.select {d' : Data} (queued : Queued state queue d) (at_ : state = .strafe)
    (same : d'.ignoreSymbol = d.ignoreSymbol) (selected : Selected d') : Queued state (queue ++ [.symbolFound]) d' := by
  subst at_
  refine ⟨fun e mem => ?_, fun _ mem => ?_, fun _ _ => selected, by simp, by simp, by simp⟩
  · rcases List.mem_append.mp mem with before | here
    · exact queued.ranked e before
    · rw [List.mem_singleton.mp here]
      decide
  · rcases List.mem_append.mp mem with before | here
    · rw [AllServed, same]
      exact queued.noneLeft rfl before
    · cases List.mem_singleton.mp here

/-- A sighting may select its symbol, which then has no marker. -/
theorem strafe_found (at_ : w.state = .strafe) (kept : Kept symbols w.data w.log) (queued : Queued w.state w.queue w.data)
    (symbol : String) : Goes symbols (Strafe.BIN_FOUND c position symbol w) := by
  rw [Strafe.BIN_FOUND]
  generalize symbol.toLower = s
  cases listed : w.data.binData.get? s with
  | none => exact ⟨w, rfl, kept, queued⟩
  | some found =>
    have mem : s ∈ symbols.map String.toLower := (kept.binData s).mp (by rw [listed]; rfl)
    obtain ⟨n, number⟩ := Option.isSome_iff_exists.mp (kept.foundNum s mem)
    obtain ⟨ignored, served⟩ := Option.isSome_iff_exists.mp ((kept.ignoreSymbol s).mpr mem)
    have sighted := kept.sighted mem (found ++ [position]) (n + 1)
    simp only [getItem, number, served, bind, Except.bind, pure, Except.pure]
    split_ifs with often has
    · exact ⟨_, rfl, sighted, queued.ranked, queued.noneLeft, queued.found, queued.aligned, queued.centered, queued.dropped⟩
    · rw [Bool.not_eq_true] at has
      rw [has] at served
      exact ⟨_, rfl, sighted.select s, queued.select at_ rfl ⟨s, rfl, served⟩⟩
    · exact ⟨_, rfl, sighted, queued.ranked, queued.noneLeft, queued.found, queued.aligned, queued.centered, queued.dropped⟩

/-- Of the strafes all is kept but when they are done: then it depends on the symbol that is to be aligned with. -/
theorem handle_strafe (at_ : w.state = .strafe) (kept : Kept symbols w.data w.log) (queued : Queued w.state (e :: w.queue) w.data)
    (other : e ≠ .strafeDone) : Goes symbols (injectEvent c position e w) := by
  have ranked : ∀ e' ∈ w.queue, rank e' ≤ 2 := queued.behind at_
  cases e with
  | outside e' =>
    have rest := queued.pass (by simp) (by simp)
    cases e' with
    | binFound symbol x y =>
      rw [injectEvent_loop (by rw [at_]; rfl)]
      simp only [transFunc, at_]
      exact strafe_found at_ kept rest symbol
    | finished =>
      rw [injectEvent_loop (by rw [at_]; rfl)]
      simp only [transFunc, at_]
      refine ⟨_, rfl, ?_⟩
      rw [Strafe.nextStep]
      split
      · exact ⟨kept.motion _, rest⟩
      · exact ⟨kept.motion _, rest⟩
      · exact ⟨kept.motion _, rest⟩
      · exact ⟨kept, rest.publish (by rw [at_]; decide) (by simp) (by simp) (by simp) (by rw [at_]; simp)⟩
    | timeout => exact ignored kept queued (by rw [at_]; rfl)
  | symbolFound =>
    rw [injectEvent_leave .center (by rw [at_]; rfl) (by rw [at_]; decide) (by simp only [transFunc, at_])]
    exact enter_center kept (queued.found at_ List.mem_cons_self) fun e' mem => (ranked e' mem).trans (by decide)
  | strafeNoneLeft =>
    rw [injectEvent_leave .last (by rw [at_]; rfl) (by rw [at_]; decide) (by simp only [transFunc, at_])]
    exact enter_last kept fun _ => .inl (kept.all_served (queued.noneLeft at_ List.mem_cons_self))
  | strafeDone => exact absurd rfl other
  | _ => exact ignored kept queued (by rw [at_]; rfl)

theorem handle_align (at_ : w.state = .align) (kept : Kept symbols w.data w.log) (queued : Queued w.state (e :: w.queue) w.data) :
    Goes symbols (injectEvent c position e w) := by
  have ranked : ∀ e' ∈ w.queue, rank e' ≤ 3 := queued.behind at_
  cases e with
  | outside e' =>
    cases e' with
    | finished =>
      have rest := queued.pass (by simp) (by simp)
      rw [injectEvent_loop (by rw [at_]; rfl)]
      simp only [transFunc, at_]
      exact ⟨_, rfl, kept, rest.publish (by rw [at_]; decide) (by simp) (by simp) (by simp) (by rw [at_]; simp)⟩
    | _ => exact ignored kept queued (by rw [at_]; rfl)
  | aligned =>
    rw [injectEvent_leave .center (by rw [at_]; rfl) (by rw [at_]; decide) (by simp only [transFunc, at_])]
    refine enter_center kept ?_ fun e' mem => (ranked e' mem).trans (by decide)
    rcases queued.aligned at_ with ⟨selected, -⟩ | ⟨-, before, after, split, first⟩
    · exact selected
    · -- `NONE_LEFT` would come first.
      cases before with
      | nil => cases split
      | cons e' before => exact absurd (by rw [(List.cons.inj split).1]; exact List.mem_cons_self) first
  | alignNoneLeft =>
    rw [injectEvent_leave .last (by rw [at_]; rfl) (by rw [at_]; decide) (by simp only [transFunc, at_])]
    refine enter_last kept fun _ => .inr ?_
    rcases queued.aligned at_ with ⟨-, none⟩ | ⟨empty, -⟩
    · exact absurd List.mem_cons_self none
    · exact empty
  | _ => exact ignored kept queued (by rw [at_]; rfl)

/-- What the centering does to the vehicle changes nothing here. -/
theorem center_steer (at_ : w.state = .center) (kept : Kept symbols w.data w.log) (queued : Queued w.state w.queue w.data) (x y : ℚ) :
    Inv symbols (Center.steer c x y w) := by
  have same : Inv symbols w := ⟨kept, queued⟩
  have movex (distance : ℚ) : Inv symbols (Center.movex distance w) := by
    rw [Center.movex]
    split_ifs
    · exact ⟨kept.motion _, queued⟩
    · exact same
  have movey (distance : ℚ) : Inv symbols (Center.movey distance w) := by
    rw [Center.movey]
    split_ifs
    · exact ⟨kept.motion _, queued⟩
    · exact same
  have step {w' : World} (n : ℕ) (inv : Inv symbols w') : Inv symbols { w' with stepNum := n } := ⟨inv.kept, inv.queued⟩
  rw [Center.steer]
  split
  · refine step 1 ?_
    split_ifs
    · exact movex _
    · exact movex _
    · exact same
  · split_ifs
    · exact ⟨kept, queued⟩
    · exact step 0 same
  · refine step 3 ?_
    split_ifs
    · exact movey _
    · exact movey _
    · exact same
  · split_ifs
    · exact ⟨kept, queued.publish (by rw [at_]; decide) (by simp) (by simp) (by simp) (by rw [at_]; simp)⟩
    · exact step 2 same
  · exact same

theorem handle_center (at_ : w.state = .center) (kept : Kept symbols w.data w.log) (queued : Queued w.state (e :: w.queue) w.data) :
    Goes symbols (injectEvent c position e w) := by
  have ranked : ∀ e' ∈ w.queue, rank e' ≤ 4 := queued.behind at_
  have selected := queued.centered at_
  cases e with
  | outside e' =>
    have rest := queued.pass (by simp) (by simp)
    cases e' with
    | binFound symbol x y =>
      rw [injectEvent_loop (by rw [at_]; rfl)]
      simp only [transFunc, at_]
      obtain ⟨s, there, -⟩ := selected
      simp only [Center.BIN_FOUND, there]
      refine ⟨_, rfl, ?_⟩
      split_ifs
      · exact ⟨kept, rest⟩
      · exact center_steer at_ kept rest x y
    | finished =>
      rw [injectEvent_loop (by rw [at_]; rfl)]
      simp only [transFunc, at_]
      exact ⟨_, rfl, kept, rest⟩
    | timeout =>
      rw [injectEvent_leave .drop (by rw [at_]; rfl) (by rw [at_]; decide) (by simp only [transFunc, at_])]
      exact enter_drop kept selected ranked
  | centered =>
    rw [injectEvent_leave .drop (by rw [at_]; rfl) (by rw [at_]; decide) (by simp only [transFunc, at_])]
    exact enter_drop kept selected ranked
  | _ => exact ignored kept queued (by rw [at_]; rfl)

theorem handle_drop (at_ : w.state = .drop) (kept : Kept symbols w.data w.log) (queued : Queued w.state (e :: w.queue) w.data) :
    Goes symbols (injectEvent c position e w) := by
  cases e with
  | dropped =>
    rw [injectEvent_leave .strafe (by rw [at_]; rfl) (by rw [at_]; decide) (by simp only [transFunc, at_])]
    obtain ⟨before, after, split, first, later⟩ := queued.dropped at_
    cases before with
    | nil =>
      obtain rfl := (List.cons.inj split).2
      exact enter_strafe kept fun e' mem => (later e' mem).le.trans (Nat.zero_le 1)
    | cons e' before => exact absurd (by rw [← (List.cons.inj split).1]; exact List.mem_cons_self) first
  | _ => exact ignored kept queued (by rw [at_]; rfl)

theorem handle_last (at_ : w.state = .last) (kept : Kept symbols w.data w.log) (queued : Queued w.state (e :: w.queue) w.data) :
    Goes symbols (injectEvent c position e w) :=
  ignored kept queued (by rw [at_]; cases e <;> rfl)

/-! ### Runs -/

/-- The strafes are done, and the symbol that is to be aligned with was never sighted. -/
def Stuck (w : World) : Prop := w.state = .strafe ∧ w.queue.head? = some .strafeDone ∧
  ∃ s, w.data.nextUnserved = some s ∧ w.data.binData.get? s = some []

theorem inv_started (symbols : List String) : Inv symbols (started symbols) :=
  ⟨kept_started symbols, fun _ mem => absurd mem List.not_mem_nil, fun _ mem => absurd mem List.not_mem_nil,
    fun _ mem => absurd mem List.not_mem_nil, fun at_ => State.noConfusion at_, fun at_ => State.noConfusion at_,
    fun at_ => State.noConfusion at_⟩

theorem turn_arrive (inv : Inv symbols w) (e : Outside) : Goes symbols (turn c w (.arrive e)) :=
  ⟨_, rfl, inv.kept, inv.queued.publish (Nat.zero_le _) (by simp) (by simp) (by simp) fun _ => rfl⟩

/-- An event is handled with what is kept, but for the one that finds the machine stuck. -/
theorem turn_handle (inv : Inv symbols w) (position : ℚ × ℚ) :
    (¬ Stuck w ∧ Goes symbols (turn c w (.handle position))) ∨ (Stuck w ∧ turn c w (.handle position) = .error .zeroDivisionError) := by
  cases waiting : w.queue with
  | nil =>
    refine .inl ⟨fun stuck => ?_, w, ?_, inv⟩
    · simp [Stuck, waiting] at stuck
    · simp only [turn, waiting]
  | cons e queue =>
    have queued := inv.queued
    rw [waiting] at queued
    have handled : turn c w (.handle position) = injectEvent c position e { w with queue := queue } := by simp only [turn, waiting]
    rw [handled]
    by_cases done : w.state = .strafe ∧ e = .strafeDone
    · obtain ⟨at_, rfl⟩ := done
      have ranked : ∀ e' ∈ queue, rank e' ≤ 2 := fun e' mem => by
        have := queued.ranked e' (List.mem_cons_of_mem _ mem)
        rwa [at_] at this
      rw [injectEvent_leave .align (by simp only [at_]; rfl) (by simp only [at_]; decide) (by simp only [transFunc, at_])]
      rcases enter_align (c := c) (w := { w with queue := queue }) inv.kept ranked with ⟨sighted, goes⟩ | ⟨stuck, raised⟩
      · exact .inl ⟨fun ⟨_, _, s, next, never⟩ => sighted s next never, goes⟩
      · exact .inr ⟨⟨at_, by rw [waiting]; rfl, stuck⟩, raised⟩
    · refine .inl ⟨fun ⟨at_, head, _⟩ => done ⟨at_, ?_⟩, ?_⟩
      · rw [waiting] at head
        exact Option.some.inj head
      · have any (state : State) (at_ : w.state = state) : Goes symbols (injectEvent c position e { w with queue := queue }) := by
          cases state with
          | start => exact handle_start at_ inv.kept queued
          | search => exact handle_search at_ inv.kept queued
          | strafe => exact handle_strafe at_ inv.kept queued fun same => done ⟨at_, same⟩
          | align => exact handle_align at_ inv.kept queued
          | center => exact handle_center at_ inv.kept queued
          | drop => exact handle_drop at_ inv.kept queued
          | last => exact handle_last at_ inv.kept queued
        exact any w.state rfl

variable {turns : List Turn} {t : Turn}

theorem run_append : run c symbols (turns ++ [t]) = run c symbols turns >>= fun w => turn c w t := by
  rw [run, List.foldlM_append]
  simp [run]

theorem fits_append : Fits c symbols (turns ++ [t]) ↔
    Fits c symbols turns ∧ ∀ position w, t = .handle position → run c symbols turns = .ok w → ¬ Stuck w := by
  constructor
  · intro fits
    refine ⟨fun before position after w split => fits before position (after ++ [t]) w (by rw [split]; simp), ?_⟩
    rintro position w rfl ran ⟨at_, head, s, next, none⟩
    exact fits turns position [] w rfl ran at_ head s next none
  · rintro ⟨fits, last⟩ before position after w split ran at_ head s next none
    rcases split_concat.mp split with ⟨rfl, same, -⟩ | ⟨rest, -, split⟩
    · exact last position w same.symm ran ⟨at_, head, s, next, none⟩
    · exact fits before position rest w split ran at_ head s next none

/-- A run raises nothing, with what is kept, or it is one that gets stuck. -/
theorem run_spec (c : Config) (symbols : List String) (turns : List Turn) :
    (Fits c symbols turns ∧ Goes symbols (run c symbols turns)) ∨ (¬ Fits c symbols turns ∧ ∃ e, run c symbols turns = .error e) := by
  induction turns using List.reverseRecOn with
  | nil => exact .inl ⟨fun before position after w split => by simp at split, _, rfl, inv_started symbols⟩
  | append_singleton turns t ih =>
    rw [fits_append, run_append]
    rcases ih with ⟨fits, w, ran, inv⟩ | ⟨stuck, e, raised⟩
    · rw [ran]
      cases t with
      | arrive e => exact .inl ⟨⟨fits, fun position w' same => by cases same⟩, turn_arrive (c := c) inv e⟩
      | handle position =>
        rcases turn_handle (c := c) inv position with ⟨free, goes⟩ | ⟨stuck, raised⟩
        · refine .inl ⟨⟨fits, fun position' w' _ ran' => ?_⟩, goes⟩
          obtain rfl := Except.ok.inj ran'
          exact free
        · exact .inr ⟨fun both => both.2 position w rfl rfl stuck, _, raised⟩
    · rw [raised]
      exact .inr ⟨fun both => stuck both.1, e, rfl⟩

end

/-- The task is as is meant exactly in the runs where each symbol that it aligns with has been sighted. -/
theorem bins_right (c : Config) (symbols : List String) (turns : List Turn) : Right c symbols turns ↔ Fits c symbols turns := by
  rcases run_spec c symbols turns with ⟨fits, w, ran, inv⟩ | ⟨stuck, e, raised⟩
  · exact iff_of_true ⟨w, ran, inv.kept.safe⟩ fits
  · refine iff_of_false ?_ stuck
    rintro ⟨w, ran, -⟩
    cases raised.symm.trans ran

def defaultConfig : Config where
  zigZag := ⟨.int 1, .int 2, .int 4⟩
  zigZagStart := ⟨0, -1, .int 0, 1⟩
  distanceLeft := 3
  distanceRight := 3
  foundMin := 10
  distance := 1
  xmin := -1 / 20
  xmax := 1 / 20
  ymin := -1 / 20
  ymax := 1 / 20

/-- The bin is sighted ten times in the search, and never in the strafes. -/
def unsighted : List Turn :=
  let sighting := [Turn.arrive (.binFound "O" 0 0), .handle (0, 0)]
  let finished := [Turn.arrive .finished, .handle (0, 0)]
  finished ++ (List.replicate 10 sighting).flatten ++ [.handle (0, 0)] ++ (List.replicate 4 finished).flatten ++ [.handle (0, 0)]

/-- The alignment with it divides by the number of its sightings. -/
theorem bins_wrong : ¬ Right defaultConfig ["O"] unsighted := by
  rintro ⟨w, ran, -⟩
  have raised : (run defaultConfig ["O"] unsighted).toOption.isNone := by decide +kernel
  rw [ran] at raised
  cases raised

end Tortuga.BinTaskRuns
