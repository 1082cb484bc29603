import Tortuga.Pneumatics
import Tortuga.DelayQueue

/-!
The command list of the pneumatics board is a delay queue, and it is never full.
-/
namespace Tortuga.PneumaticsQueue
open Tortuga.Programs Tortuga.Bitmaps Tortuga.DelayQueue Tortuga.Pneumatics
set_option linter.unusedSimpArgs false

/-! ### The command list as a queue -/

/-- A command as an entry of a queue. -/
def entryOf (c : CmdEnt) : Entry ℕ PairCommand := ⟨c.count, c.cmd, c.pair⟩

/-- The command number `j`, when it is valid. -/
def slot (b : Board) (j : ℕ) : Option (Entry ℕ PairCommand) :=
  if flag b.cmdValid j = true then some (entryOf (b.cmds j)) else none

/-- The valid commands. -/
def slots (b : Board) : Slots cmdCount ℕ PairCommand := fun j => slot b j

/-! ### The scan of `addCmd` -/

section
variable (cmds : ℕ → CmdEnt) (pair : ℕ) (count : Int) (cmdValid : ℕ → BitVec 16)

/-- A command that has to make way. -/
def Late (j : ℕ) : Prop := (cmds j).pair = pair ∧ (cmds j).count ≥ count

instance (j : ℕ) : Decidable (Late cmds pair count j) := inferInstanceAs (Decidable (_ ∧ _))

/-- The scan has come to the command number `p`. -/
structure Scanned (p : ℕ) (s : Scan) : Prop where
  valid : ∀ j, flag s.cmdValid j = true ↔ flag cmdValid j = true ∧ ¬ (j < p ∧ Late cmds pair count j)
  full : s.firstInv = none → ∀ j, j < p → flag s.cmdValid j = true
  first : ∀ f, s.firstInv = some f → f < p ∧ flag s.cmdValid f = false ∧ ∀ j, j < f → flag s.cmdValid j = true

variable {cmds pair count cmdValid} {p i k : ℕ} {s : Scan}

theorem scanned_start : Scanned cmds pair count cmdValid 0 ⟨cmdValid, none⟩ := by
  refine ⟨fun j => ?_, fun _ j low => ?_, fun f found => ?_⟩
  · simp
  · omega
  · simp at found

/-- Commands that are not valid may be skipped once there is a spot. -/
theorem Scanned.skip (scanned : Scanned cmds pair count cmdValid p s) {q : ℕ} (later : p ≤ q) (found : s.firstInv ≠ none)
    (empty : ∀ j, p ≤ j → j < q → flag s.cmdValid j = false) : Scanned cmds pair count cmdValid q s := by
  refine ⟨fun j => ?_, fun none => absurd none found, fun f same => ?_⟩
  · rw [scanned.valid j]
    constructor
    · rintro ⟨valid, kept⟩
      refine ⟨valid, fun late => kept ⟨?_, late.2⟩⟩
      by_contra above
      have gone := empty j (by omega) late.1
      have here := (scanned.valid j).mpr ⟨valid, kept⟩
      rw [gone] at here
      contradiction
    · rintro ⟨valid, kept⟩
      exact ⟨valid, fun late => kept ⟨by omega, late.2⟩⟩
  · obtain ⟨below, rest⟩ := scanned.first f same
    exact ⟨by omega, rest⟩

/-- The scan after the command number `p` is dropped when it is late. -/
structure Dropped (cmds : ℕ → CmdEnt) (pair : ℕ) (count : Int) (cmdValid : ℕ → BitVec 16) (p : ℕ) (s : Scan) : Prop where
  valid : ∀ j, flag s.cmdValid j = true ↔ flag cmdValid j = true ∧ ¬ (j < p + 1 ∧ Late cmds pair count j)
  full : s.firstInv = none → ∀ j, j < p → flag s.cmdValid j = true
  first : ∀ f, s.firstInv = some f → f < p ∧ flag s.cmdValid f = false ∧ ∀ j, j < f → flag s.cmdValid j = true

theorem Scanned.drop (scanned : Scanned cmds pair count cmdValid (16 * i + k) s) (inside : k < 16)
    (late : Late cmds pair count (16 * i + k)) : Dropped cmds pair count cmdValid (16 * i + k)
      { s with cmdValid := Function.update s.cmdValid i (s.cmdValid i &&& ~~~bit 16 k) } := by
  have flags (j : ℕ) := flag_clear (v := s.cmdValid) (i := i) (j := j) inside
  refine ⟨fun j => ?_, fun none j low => ?_, fun f found => ?_⟩
  · rw [flags]
    split
    case isTrue same => simp [same, late]
    case isFalse other =>
      rw [scanned.valid j, Nat.lt_succ_iff_lt_or_eq, or_iff_left other]
  · rw [flags, if_neg (by omega)]
    exact scanned.full none j low
  · obtain ⟨below, free, taken⟩ := scanned.first f found
    refine ⟨below, ?_, fun j low => ?_⟩
    · rw [flags, if_neg (by omega)]
      exact free
    · rw [flags, if_neg (by omega)]
      exact taken j low

theorem Scanned.keep (scanned : Scanned cmds pair count cmdValid p s)
    (kept : ¬ (flag s.cmdValid p = true ∧ Late cmds pair count p)) : Dropped cmds pair count cmdValid p s := by
  refine ⟨fun j => ?_, scanned.full, scanned.first⟩
  rw [scanned.valid j]
  constructor
  · rintro ⟨valid, before⟩
    refine ⟨valid, fun late => ?_⟩
    rcases Nat.lt_succ_iff_lt_or_eq.mp late.1 with low | rfl
    · exact before ⟨low, late.2⟩
    · exact kept ⟨(scanned.valid j).mpr ⟨valid, before⟩, late.2⟩
  · rintro ⟨valid, after⟩
    exact ⟨valid, fun late => after ⟨by omega, late.2⟩⟩

/-- The first free spot is found once the command at it has been dropped. -/
theorem Dropped.spot (dropped : Dropped cmds pair count cmdValid p s) : Scanned cmds pair count cmdValid (p + 1)
    (if s.firstInv = none ∧ ¬ flag s.cmdValid p = true then { s with firstInv := some p } else s) := by
  split
  case isTrue free =>
    refine ⟨dropped.valid, fun none => by simp at none, fun f found => ?_⟩
    obtain rfl : p = f := Option.some_inj.mp found
    exact ⟨by omega, by simpa using free.2, dropped.full free.1⟩
  case isFalse taken =>
    refine ⟨dropped.valid, fun none j low => ?_, fun f found => ?_⟩
    · rcases Nat.lt_succ_iff_lt_or_eq.mp low with below | rfl
      · exact dropped.full none j below
      · by_contra free
        exact taken ⟨none, free⟩
    · obtain ⟨below, rest⟩ := dropped.first f found
      exact ⟨by omega, rest⟩

theorem scanned_bit (scanned : Scanned cmds pair count cmdValid (16 * i + k) s) (inside : k < 16) :
    Scanned cmds pair count cmdValid (16 * i + k + 1) (scanBit cmds pair count i k s) := by
  simp only [scanBit, flag_test inside]
  by_cases late : flag s.cmdValid (16 * i + k) = true ∧ Late cmds pair count (16 * i + k)
  · simp only [if_pos (show _ ∧ _ ∧ _ from late)]
    exact (scanned.drop inside late.2).spot
  · simp only [if_neg (show ¬ (_ ∧ _ ∧ _) from late)]
    exact (scanned.keep late).spot

theorem scanned_bits {left : ℕ} (whole : k + left = 16) (scanned : Scanned cmds pair count cmdValid (16 * i + k) s) :
    Scanned cmds pair count cmdValid (16 * (i + 1)) (scanBits cmds pair count i k left s) := by
  induction left generalizing k s with
  | zero =>
    rw [show 16 * (i + 1) = 16 * i + k by omega]
    exact scanned
  | succ left ih =>
    rw [scanBits]
    split
    case isTrue => exact ih (by omega) (scanned_bit scanned (by omega))
    case isFalse stop =>
      rw [not_or, not_not] at stop
      exact scanned.skip (by omega) stop.1 ((flag_none (by omega)).mp stop.2)

theorem scanned_word (scanned : Scanned cmds pair count cmdValid (16 * i) s) :
    Scanned cmds pair count cmdValid (16 * (i + 1)) (scanWord cmds pair count s i) := by
  rw [scanWord]
  split
  case isTrue skipped =>
    refine scanned.skip (by omega) skipped.2 ((flag_none (k := 0) (by decide)).mp ?_)
    rw [skipped.1]
    rfl
  case isFalse => exact scanned_bits (k := 0) rfl scanned

theorem scanned_words (n : ℕ) : Scanned cmds pair count cmdValid (16 * n)
    ((List.range n).foldl (scanWord cmds pair count) ⟨cmdValid, none⟩) := by
  induction n with
  | zero => exact scanned_start
  | succ n ih =>
    rw [List.range_succ, List.foldl_append]
    exact scanned_word ih

variable (cmds pair count cmdValid) in
/-- The scan goes through all commands. -/
theorem scanned_all : Scanned cmds pair count cmdValid cmdCount (scan cmds pair count cmdValid) :=
  scanned_words validBits

end

/-! ### The operations -/

/-- The bit of a command, where `addCmd` sets it. -/
theorem flag_entered (v : ℕ → BitVec 16) (f j : ℕ) :
    flag (Function.update v (f >>> 4) (v (f >>> 4) ||| bit 16 (f &&& 15))) j = if j = f then true else flag v j := by
  have place := flag_set (v := v) (i := f / 16) (k := f % 16) (j := j) (Nat.mod_lt f (by decide))
  rwa [Nat.div_add_mod f 16, ← Nat.shiftRight_eq_div_pow f 4, ← Nat.and_two_pow_sub_one_eq_mod f 4] at place

section
variable (b : Board) (cmd : PairCommand) (pair : ℕ) (count : Int)

/-- What the scan leaves of the commands. -/
theorem slot_scan (j : Fin cmdCount) :
    slot { b with cmdValid := (scan b.cmds pair count b.cmdValid).cmdValid } j = purge (slots b) pair count j := by
  have valid := (scanned_all b.cmds pair count b.cmdValid).valid j
  simp only [j.isLt, true_and] at valid
  simp only [slot, purge, slots, valid]
  by_cases old : flag b.cmdValid j = true
  · by_cases late : Late b.cmds pair count j
    · rw [if_neg (fun both => both.2 late), if_pos old]
      exact (if_neg (by simpa [entryOf, Late] using late)).symm
    · rw [if_pos ⟨old, late⟩, if_pos old]
      exact (if_pos (by simpa [entryOf, Late, imp_iff_not_or] using late)).symm
  · rw [if_neg (fun both => old both.1), if_neg old]
    rfl

/-- A command that finds space comes into the queue; otherwise the queue is full. -/
theorem addCmd_enters : if (b.addCmd cmd pair count).2 = true
    then Enters (slots b) ⟨count, cmd, pair⟩ (slots (b.addCmd cmd pair count).1)
    else slots (b.addCmd cmd pair count).1 = purge (slots b) pair count ∧ ∀ j, purge (slots b) pair count j ≠ none := by
  have scanned := scanned_all b.cmds pair count b.cmdValid
  have left (j : Fin cmdCount) := slot_scan b pair count j
  cases found : (scan b.cmds pair count b.cmdValid).firstInv with
  | none =>
    simp only [Board.addCmd, found, Bool.false_eq_true, ↓reduceIte]
    refine ⟨funext left, fun j empty => ?_⟩
    rw [← left j, slot, if_pos (scanned.full found j j.isLt)] at empty
    contradiction
  | some f =>
    obtain ⟨inside, free, taken⟩ := scanned.first f found
    simp only [Board.addCmd, found, ↓reduceIte]
    refine ⟨⟨f, inside⟩, ⟨?_, fun i low => ?_⟩, funext fun j => ?_⟩
    · rw [← left, slot, if_neg (by simp [free])]
    · rw [← left, slot, if_pos (taken i low)]
      nofun
    · rw [slots, slot, flag_entered]
      by_cases same : (j : ℕ) = f
      · have here : j = ⟨f, inside⟩ := Fin.ext same
        rw [if_pos same, if_pos rfl, here, Function.update_self]
        simp [entryOf]
      · rw [if_neg same, Function.update_of_ne (fun equal => same (congrArg Fin.val equal)), ← left j, slot]
        simp [same]

/-- The commands whose bits are set. -/
def validEntries (b : Board) : Set CmdEnt := { c | ∃ j, j < cmdCount ∧ flag b.cmdValid j = true ∧ b.cmds j = c }

/-- The command number `j` is valid, and does not make way for the new one. -/
def Stays (j : ℕ) : Prop := flag b.cmdValid j = true ∧ ¬ Late b.cmds pair count j

/-- The entries after a command has come in at a slot that was free or became so. -/
theorem validEntries_entered {f : ℕ} {t : Board} (inside : f < cmdCount) (free : ¬ Stays b pair count f)
    (cmds : t.cmds = Function.update b.cmds f ⟨count, cmd, pair⟩)
    (valid : ∀ j, j < cmdCount → (flag t.cmdValid j = true ↔ j = f ∨ Stays b pair count j)) :
    validEntries t = { c ∈ validEntries b | ¬ (c.pair = pair ∧ c.count ≥ count) } ∪ {⟨count, cmd, pair⟩} := by
  ext c
  simp only [validEntries, cmds, Set.mem_union, Set.mem_ofPred_eq, Set.mem_singleton_iff]
  constructor
  · rintro ⟨j, low, flagged, rfl⟩
    rcases (valid j low).mp flagged with rfl | ⟨old, early⟩
    · exact .inr (Function.update_self _ _ _)
    · have other : j ≠ f := fun same => free (same ▸ ⟨old, early⟩)
      rw [Function.update_of_ne other]
      exact .inl ⟨⟨j, low, old, rfl⟩, early⟩
  · rintro (⟨⟨j, low, old, rfl⟩, early⟩ | rfl)
    · have other : j ≠ f := fun same => free (same ▸ ⟨old, early⟩)
      exact ⟨j, low, (valid j low).mpr (.inr ⟨old, early⟩), Function.update_of_ne other _ _⟩
    · exact ⟨f, inside, (valid f inside).mpr (.inl rfl), Function.update_self _ _ _⟩

/-- `addCmd` removes what is later for the same pair and puts the command into one free slot. When
    there is none after the removals, the entries are what they were. -/
theorem addCmd_spec :
    ((∃ j, j < cmdCount ∧ ¬ Stays b pair count j) → ∃ f, f < cmdCount ∧ ¬ Stays b pair count f ∧
      (b.addCmd cmd pair count).1.cmds = Function.update b.cmds f ⟨count, cmd, pair⟩ ∧
      (∀ j, j < cmdCount → (flag (b.addCmd cmd pair count).1.cmdValid j = true ↔ j = f ∨ Stays b pair count j)) ∧
      validEntries (b.addCmd cmd pair count).1 =
        { c ∈ validEntries b | ¬ (c.pair = pair ∧ c.count ≥ count) } ∪ {⟨count, cmd, pair⟩}) ∧
    ((∀ j, j < cmdCount → Stays b pair count j) →
      (b.addCmd cmd pair count).1.cmds = b.cmds ∧
      (∀ j, j < cmdCount → flag (b.addCmd cmd pair count).1.cmdValid j = flag b.cmdValid j) ∧
      validEntries (b.addCmd cmd pair count).1 = validEntries b) := by
  have scanned := scanned_all b.cmds pair count b.cmdValid
  have left (j : ℕ) (low : j < cmdCount) :
      flag (scan b.cmds pair count b.cmdValid).cmdValid j = true ↔ Stays b pair count j := by
    rw [scanned.valid j, and_iff_right low, Stays]
  constructor
  · rintro ⟨j, low, free⟩
    cases found : (scan b.cmds pair count b.cmdValid).firstInv with
    | none => exact absurd ((left j low).mp (scanned.full found j low)) free
    | some f =>
      obtain ⟨inside, unset, -⟩ := scanned.first f found
      have gap : ¬ Stays b pair count f := by
        rw [← left f inside, unset]
        exact Bool.false_ne_true
      have entered : (b.addCmd cmd pair count).1 = { b with
          cmds := Function.update b.cmds f ⟨count, cmd, pair⟩
          cmdValid := Function.update (scan b.cmds pair count b.cmdValid).cmdValid (f >>> 4)
            ((scan b.cmds pair count b.cmdValid).cmdValid (f >>> 4) ||| bit 16 (f &&& 15)) } := by
        simp only [Board.addCmd, found]
      have cmds : (b.addCmd cmd pair count).1.cmds = Function.update b.cmds f ⟨count, cmd, pair⟩ := by
        rw [entered]
      have valid (j : ℕ) (low : j < cmdCount) :
          flag (b.addCmd cmd pair count).1.cmdValid j = true ↔ j = f ∨ Stays b pair count j := by
        rw [entered, ← left j low]
        simp only [flag_entered]
        split
        next same => exact iff_of_true rfl (.inl same)
        next other => exact (or_iff_right other).symm
      exact ⟨f, inside, gap, cmds, valid, validEntries_entered b cmd pair count inside gap cmds valid⟩
  · intro full
    cases found : (scan b.cmds pair count b.cmdValid).firstInv with
    | some f =>
      obtain ⟨inside, unset, -⟩ := scanned.first f found
      rw [(left f inside).mpr (full f inside)] at unset
      contradiction
    | none =>
      have same (j : ℕ) (low : j < cmdCount) : flag (scan b.cmds pair count b.cmdValid).cmdValid j = flag b.cmdValid j := by
        rw [(left j low).mpr (full j low), (full j low).1]
      have entered : (b.addCmd cmd pair count).1 = { b with cmdValid := (scan b.cmds pair count b.cmdValid).cmdValid } := by
        simp only [Board.addCmd, found]
      rw [entered]
      refine ⟨rfl, same, Set.ext fun c => ?_⟩
      refine exists_congr fun j => and_congr_right fun low => ?_
      simp only [same j low]

/-- A run command leaves the list alone. -/
theorem handleCmd_list (cmd : PairCommand) : (b.handleCmd cmd pair).cmds = b.cmds ∧ (b.handleCmd cmd pair).cmdValid = b.cmdValid := by
  cases cmd with
  | fill => rw [Board.handleCmd, Board.runFill]; split <;> exact ⟨rfl, rfl⟩
  | void => rw [Board.handleCmd, Board.runVoid]; split <;> exact ⟨rfl, rfl⟩
  | off => rw [Board.handleCmd, Board.turnOff]; split <;> exact ⟨rfl, rfl⟩

/-- One turn of the timer's loop ticks one command. -/
theorem slot_tickBit {i k : ℕ} (inside : k < 16) (j : ℕ) : slot (b.tickBit i k) j =
    if j = 16 * i + k then (slot b j).bind Entry.tick else slot b j := by
  rw [Board.tickBit]
  split
  case isTrue valid =>
    rw [flag_test inside] at valid
    simp only
    split
    case isTrue due =>
      obtain ⟨cmds, words⟩ := handleCmd_list
        { b with cmds := Function.update b.cmds (16 * i + k) { b.cmds (16 * i + k) with count := (b.cmds (16 * i + k)).count - 1 } }
        (b.cmds (16 * i + k)).pair (b.cmds (16 * i + k)).cmd
      simp only [slot, cmds, words, flag_clear inside]
      by_cases same : j = 16 * i + k
      · rw [if_pos same, if_pos same, if_neg (by simp), same, if_pos valid]
        exact (if_pos due).symm
      · rw [if_neg same, if_neg same, Function.update_of_ne same]
    case isFalse later =>
      simp only [slot]
      by_cases same : j = 16 * i + k
      · rw [if_pos same, same, if_pos valid, if_pos valid, Function.update_self]
        exact (if_neg later).symm
      · rw [if_neg same, Function.update_of_ne same]
  case isFalse invalid =>
    rw [flag_test inside] at invalid
    split
    case isTrue same =>
      rw [same, slot, if_neg invalid]
      rfl
    case isFalse => rfl

/-- The bits of a word from the lowest on. -/
theorem slot_tickBits (i : ℕ) {n : ℕ} (inside : n ≤ 16) (j : ℕ) : slot ((List.range n).foldl (Board.tickBit i) b) j =
    if 16 * i ≤ j ∧ j < 16 * i + n then (slot b j).bind Entry.tick else slot b j := by
  induction n with
  | zero => rw [if_neg (by omega)]; rfl
  | succ n ih =>
    rw [List.range_succ, List.foldl_append, List.foldl_cons, List.foldl_nil, slot_tickBit _ (by omega), ih (by omega)]
    by_cases last : j = 16 * i + n
    · rw [if_pos last, if_neg (by omega), if_pos (by omega)]
    · rw [if_neg last]
      by_cases low : 16 * i ≤ j ∧ j < 16 * i + n
      · rw [if_pos low, if_pos (by omega)]
      · rw [if_neg low, if_neg (by omega)]

theorem slot_tickWord (i j : ℕ) : slot (b.tickWord i) j =
    if 16 * i ≤ j ∧ j < 16 * (i + 1) then (slot b j).bind Entry.tick else slot b j := by
  rw [Board.tickWord]
  split
  case isTrue zero =>
    split
    case isTrue within =>
      have clear := (flag_none (v := b.cmdValid) (i := i) (k := 0) (by decide)).mp (by rw [zero]; rfl) j within.1 within.2
      rw [slot, if_neg (by simp [clear])]
      rfl
    case isFalse => rfl
  case isFalse =>
    rw [slot_tickBits b i (Nat.le_refl 16)]
    rfl

theorem slot_tickWords (n j : ℕ) : slot ((List.range n).foldl Board.tickWord b) j =
    if j < 16 * n then (slot b j).bind Entry.tick else slot b j := by
  induction n with
  | zero => rw [if_neg (by omega)]; rfl
  | succ n ih =>
    rw [List.range_succ, List.foldl_append, List.foldl_cons, List.foldl_nil, slot_tickWord, ih]
    by_cases before : j < 16 * n
    · rw [if_pos before, if_neg (by omega), if_pos (by omega)]
    · rw [if_neg before]
      by_cases within : 16 * n ≤ j ∧ j < 16 * (n + 1)
      · rw [if_pos within, if_pos within.2]
      · rw [if_neg within, if_neg (by omega)]

/-- The interrupt ticks the queue. -/
theorem t1Interrupt_ticks : slots b.t1Interrupt = tick (slots b) := by
  funext j
  exact (slot_tickWords b validBits j).trans (if_pos j.isLt)

/-- Nothing comes into the queue by a word of invalid commands. -/
theorem clearValid_fewer (i : ℕ) (j : Fin cmdCount) (e : Entry ℕ PairCommand) (found : slots (b.clearValid i) j = some e) :
    slots b j = some e := by
  simp only [slots, slot, Board.clearValid, flag, Function.update_apply] at found ⊢
  by_cases same : (j : ℕ) / 16 = i
  · simp [same] at found
  · simp only [if_neg same] at found
    exact found

end

/-! ### The bounds -/

/-- The commands of each pair have distinct counts, and there are at most three of them. -/
abbrev Sound (b : Board) : Prop := Good (Finset.range 12) 3 (slots b)

/-- `addCmd` does not come to its end without space. -/
def HasSpace : BoardEvent → Prop
  | .call (.addCmd _ _ _) space => space = true
  | _ => True

instance : ∀ e, Decidable (HasSpace e)
  | .call (.addCmd _ _ _) space => inferInstanceAs (Decidable (space = true))
  | .call .uartRXwait _ | .call .uartRX _ | .call (.writeUart _) _ | .call (.clearValid _) _ | .call (.voidPair _) _
  | .call (.turnOff _) _ | .iter _ | .ext _ => isTrue trivial

/-- The board with its bounds. -/
def queue : Monitor Op Ans Loop Interrupt Board where
  next := Board.next
  allows := Answered
  demands b e := HasSpace e ∧ Sound (b.next e)
  faults _ := False

/-- There is space for every command. -/
theorem Good.space {b : Board} (sound : Sound b) (cmd : PairCommand) (pair : ℕ) (count : Int) :
    (b.addCmd cmd pair count).2 = true := by
  by_contra none
  have outcome := addCmd_enters b cmd pair count
  rw [if_neg none] at outcome
  obtain ⟨t, j, free, -⟩ := DelayQueue.Good.enters sound (by decide) ⟨count, cmd, pair⟩
  exact outcome.2 j free.1

/-- At most `number` commands of a pair, none of them later than `latest`. -/
structure Bound where
  pair : ℕ
  latest : Int
  number : ℕ

/-- The list is sound and the bounds `l` hold of it. -/
structure Held (l : List Bound) (b : Board) : Prop where
  sound : Sound b
  upto : ∀ x ∈ l, Upto x.pair x.latest x.number (slots b)

theorem held_stable (l : List Bound) : Stable queue (Held l) := by
  intro b e held _
  cases e
  show Held l b.t1Interrupt
  constructor
  · rw [Sound, t1Interrupt_ticks]
    exact held.sound.tick
  · intro x member
    rw [t1Interrupt_ticks]
    exact (held.upto x member).tick

/-- A command that has at most `n` commands of its pair before it. -/
theorem addCmd_leads {l l' : List Bound} {cmd : PairCommand} {pair n : ℕ} {count : Int} (known : pair < 12)
    (positive : 0 < count) (few : ∀ b, Held l b → (earlier (slots b) pair count).card ≤ n) (room : n < 3)
    (kept : ∀ x ∈ l', x = ⟨pair, count, n + 1⟩ ∨ x ∈ l ∧ x.pair ≠ pair) :
    Leads queue (Held l) (Held l') (addCmd cmd pair count) := by
  intro s start t rely space answered
  have held := (held_stable l).rely rely start
  have found := Good.space held.sound cmd pair count
  have enters := addCmd_enters t cmd pair count
  rw [if_pos found] at enters
  have before := few t held
  have after : Held l' (t.addCmd cmd pair count).1 := by
    refine ⟨enters.good held.sound (Finset.mem_range.mpr known) positive (Nat.lt_of_le_of_lt before room), fun x member => ?_⟩
    rcases kept x member with rfl | ⟨old, other⟩
    · exact enters.upto before
    · exact enters.upto_other other (held.upto x old)
  have yes : space = true := (show space = _ from answered).trans found
  subst yes
  exact ⟨⟨rfl, after.sound⟩, fun u later => (held_stable l').rely later after⟩

theorem few_first (l : List Bound) (pair : ℕ) (n : ℕ) (b : Board) (held : Held l b) :
    (earlier (slots b) pair ((n + 1 : ℕ) : Int)).card ≤ n :=
  Nat.le_of_lt_succ (held.sound.earlier_lt pair (Nat.succ_pos n))

end Tortuga.PneumaticsQueue
