import Tortuga.PneumaticsQueue

/-!
What the valves of a pair will show: the command in force after any number of ticks of
the timer, when nothing else happens. A new command for a pair is in force from its
count on, whatever was planned for the pair after that.
-/
namespace Tortuga.Valves
open Tortuga.Programs Tortuga.Bitmaps Tortuga.DelayQueue Tortuga.Pneumatics Tortuga.PneumaticsQueue
set_option linter.unusedSimpArgs false

/-! ### Valves now -/

/-- The command that the valves of a pair show. -/
def shown (b : Board) (pair : ℕ) : PairCommand :=
  if b.fillPair pair = true then .fill else if b.voidPair pair = true then .void else .off

/-- No pair has both its valves on. -/
def Exclusive (b : Board) : Prop := ∀ pair, ¬ (b.fillPair pair = true ∧ b.voidPair pair = true)

section
variable (b : Board) (cmd : PairCommand) (pair : ℕ)

theorem shown_handleCmd (p : ℕ) :
    shown (b.handleCmd cmd pair) p = if p = pair ∧ pair < 12 then cmd else shown b p := by
  by_cases known : pair < 12
  · cases cmd with
    | fill =>
      by_cases same : p = pair
      · simp [shown, Board.handleCmd, Board.runFill, known, same]
      · simp [shown, Board.handleCmd, Board.runFill, known, same]
    | void =>
      by_cases same : p = pair
      · simp [shown, Board.handleCmd, Board.runVoid, known, same]
      · simp [shown, Board.handleCmd, Board.runVoid, known, same]
    | off =>
      by_cases same : p = pair
      · simp [shown, Board.handleCmd, Board.turnOff, known, same]
      · simp [shown, Board.handleCmd, Board.turnOff, known, same]
  · cases cmd <;> simp [shown, Board.handleCmd, Board.runFill, Board.runVoid, Board.turnOff, known]

/-- A command opens a valve of its pair only after it has closed the other. -/
theorem Exclusive.handleCmd {b : Board} (exclusive : Exclusive b) : Exclusive (b.handleCmd cmd pair) := by
  intro p
  have before := exclusive p
  by_cases known : pair < 12
  · by_cases same : p = pair
    · cases cmd <;> simp [Board.handleCmd, Board.runFill, Board.runVoid, Board.turnOff, known, same]
    · cases cmd <;> simpa [Board.handleCmd, Board.runFill, Board.runVoid, Board.turnOff, known, same] using before
  · cases cmd <;> simpa [Board.handleCmd, Board.runFill, Board.runVoid, Board.turnOff, known] using before

end

theorem Exclusive.tickBit {b : Board} (exclusive : Exclusive b) (i k : ℕ) : Exclusive (b.tickBit i k) := by
  rw [Board.tickBit]
  split
  · dsimp only
    split
    · exact Exclusive.handleCmd _ _ exclusive
    · exact exclusive
  · exact exclusive

theorem Exclusive.tickBits {b : Board} (exclusive : Exclusive b) (i n : ℕ) :
    Exclusive ((List.range n).foldl (Board.tickBit i) b) := by
  induction n with
  | zero => exact exclusive
  | succ n ih =>
    rw [List.range_succ, List.foldl_append]
    exact ih.tickBit i n

theorem Exclusive.tickWords {b : Board} (exclusive : Exclusive b) (n : ℕ) :
    Exclusive ((List.range n).foldl Board.tickWord b) := by
  induction n with
  | zero => exact exclusive
  | succ n ih =>
    rw [List.range_succ, List.foldl_append, List.foldl_cons, List.foldl_nil, Board.tickWord]
    split
    · exact ih
    · exact ih.tickBits n 16

theorem Exclusive.next {b : Board} (exclusive : Exclusive b) (e : BoardEvent) : Exclusive (b.next e) := by
  unfold Board.next
  split
  case h_1 => exact exclusive.tickWords validBits
  case h_2 cmd pair count _ =>
    rw [Board.addCmd]
    dsimp only
    split <;> exact exclusive
  case h_3 => exact exclusive
  case h_4 pair _ => exact Exclusive.handleCmd .void pair exclusive
  case h_5 pair _ => exact Exclusive.handleCmd .off pair exclusive
  all_goals exact exclusive

theorem Exclusive.after {b : Board} (exclusive : Exclusive b) (tr : List BoardEvent) : Exclusive (queue.after b tr) :=
  queue.after_invariant (fun _ e inv _ => inv.next e) exclusive (queue.along_of_all (fun _ _ => trivial) b tr)

/-! ### One tick -/

/-- What a pair shows after the command number `j` has been looked at. -/
def handled (b : Board) (pair : ℕ) (now : PairCommand) (j : ℕ) : PairCommand :=
  match slot b j with
  | some e => if e.key = pair ∧ pair < 12 ∧ e.count ≤ 1 then e.item else now
  | none => now

variable {b : Board} {pair : ℕ}

theorem shown_tickBit {i k : ℕ} (inside : k < 16) :
    shown (b.tickBit i k) pair = handled b pair (shown b pair) (16 * i + k) := by
  rw [Board.tickBit, handled, slot]
  by_cases valid : flag b.cmdValid (16 * i + k) = true
  · rw [if_pos ((flag_test inside).mpr valid), if_pos valid]
    by_cases due : (b.cmds (16 * i + k)).count ≤ 1
    · dsimp only
      rw [if_pos (by omega)]
      have run := shown_handleCmd
        { b with cmds := Function.update b.cmds (16 * i + k) { b.cmds (16 * i + k) with count := (b.cmds (16 * i + k)).count - 1 } }
        (b.cmds (16 * i + k)).cmd (b.cmds (16 * i + k)).pair pair
      refine Eq.trans run ?_
      by_cases same : pair = (b.cmds (16 * i + k)).pair
      · by_cases known : pair < 12
        · rw [if_pos ⟨same, same ▸ known⟩, if_pos ⟨same.symm, known, due⟩]
          rfl
        · rw [if_neg (fun both => known (same ▸ both.2)), if_neg (fun both => known both.2.1)]
          rfl
      · rw [if_neg (fun both => same both.1), if_neg (fun both => same both.1.symm)]
        rfl
    · dsimp only
      rw [if_neg (by omega), if_neg (fun both => due both.2.2)]
      rfl
  · rw [if_neg (fun set => valid ((flag_test inside).mp set)), if_neg valid]

theorem handled_congr {b b' : Board} {j : ℕ} (same : slot b j = slot b' j) (now : PairCommand) :
    handled b pair now j = handled b' pair now j := by
  rw [handled, handled, same]

theorem shown_tickBits (i : ℕ) {n : ℕ} (inside : n ≤ 16) :
    shown ((List.range n).foldl (Board.tickBit i) b) pair =
      (List.range' (16 * i) n).foldl (handled b pair) (shown b pair) := by
  induction n with
  | zero => rfl
  | succ n ih =>
    rw [List.range_succ, List.foldl_append, List.range'_concat, List.foldl_append, ← ih (by omega)]
    have untouched : slot ((List.range n).foldl (Board.tickBit i) b) (16 * i + n) = slot b (16 * i + n) := by
      rw [slot_tickBits b i (by omega), if_neg (by omega)]
    simp only [List.foldl_cons, List.foldl_nil]
    rw [shown_tickBit (by omega), handled_congr untouched, Nat.one_mul]

theorem handled_none (from' n : ℕ) (now : PairCommand) (empty : ∀ j, from' ≤ j → j < from' + n → slot b j = none) :
    (List.range' from' n).foldl (handled b pair) now = now := by
  induction n with
  | zero => rfl
  | succ n ih =>
    rw [List.range'_concat, List.foldl_append, ih (fun j low high => empty j low (by omega))]
    simp [handled, empty (from' + n) (by omega) (by omega)]

theorem shown_tickWord (i : ℕ) :
    shown (b.tickWord i) pair = (List.range' (16 * i) 16).foldl (handled b pair) (shown b pair) := by
  rw [Board.tickWord]
  split
  case isTrue zero =>
    refine (handled_none _ _ _ (fun j low high => ?_)).symm
    have clear := (flag_none (v := b.cmdValid) (i := i) (k := 0) (by decide)).mp (by rw [zero]; rfl) j low (by omega)
    rw [slot, if_neg (by simp [clear])]
  case isFalse => exact shown_tickBits i (Nat.le_refl 16)

theorem shown_tickWords (n : ℕ) :
    shown ((List.range n).foldl Board.tickWord b) pair =
      (List.range (16 * n)).foldl (handled b pair) (shown b pair) := by
  induction n with
  | zero => rfl
  | succ n ih =>
    have split : List.range (16 * (n + 1)) = List.range (16 * n) ++ List.range' (16 * n) 16 := by
      rw [List.range_eq_range', List.range_eq_range', show 16 * (n + 1) = 16 * n + 16 by omega,
        ← List.range'_append]
      simp
    rw [List.range_succ, List.foldl_append, List.foldl_cons, List.foldl_nil, shown_tickWord, ih, split,
      List.foldl_append]
    refine List.foldl_ext _ _ _ (fun now j member => handled_congr ?_ now)
    rw [slot_tickWords, if_neg (by have := List.left_le_of_mem_range' member; omega)]

/-- The board in the course of an interrupt: before bit `k` of `cmdValid[i]`. -/
def midway (b : Board) (i k : ℕ) : Board := (List.range k).foldl (Board.tickBit i) ((List.range i).foldl Board.tickWord b)

theorem Exclusive.midway {b : Board} (exclusive : Exclusive b) (i k : ℕ) : Exclusive (midway b i k) :=
  (exclusive.tickWords i).tickBits i k

theorem shown_midway (i : ℕ) {k : ℕ} (inside : k ≤ 16) :
    shown (midway b i k) pair = (List.range (16 * i + k)).foldl (handled b pair) (shown b pair) := by
  have split : List.range (16 * i + k) = List.range (16 * i) ++ List.range' (16 * i) k := by
    rw [List.range_eq_range', List.range_eq_range', ← List.range'_append]
    simp
  rw [midway, shown_tickBits i inside, shown_tickWords, split, List.foldl_append]
  refine List.foldl_ext _ _ _ (fun now j member => handled_congr ?_ now)
  rw [slot_tickWords, if_neg (by have := List.left_le_of_mem_range' member; omega)]

/-- When the commands of a pair that are due agree, the last of them is in force. -/
theorem handled_all (known : pair < 12) (l : List ℕ) (now c : PairCommand)
    (agree : ∀ j ∈ l, ∀ e, slot b j = some e → e.key = pair → e.count ≤ 1 → e.item = c) :
    l.foldl (handled b pair) now =
      if ∃ j ∈ l, ∃ e, slot b j = some e ∧ e.key = pair ∧ e.count ≤ 1 then c else now := by
  induction l generalizing now with
  | nil => simp
  | cons j rest ih =>
    rw [List.foldl_cons, ih _ (fun i member => agree i (.tail _ member))]
    by_cases later : ∃ i ∈ rest, ∃ e, slot b i = some e ∧ e.key = pair ∧ e.count ≤ 1
    · obtain ⟨i, member, due⟩ := later
      rw [if_pos ⟨i, member, due⟩, if_pos ⟨i, .tail _ member, due⟩]
    · rw [if_neg later]
      by_cases here : ∃ e, slot b j = some e ∧ e.key = pair ∧ e.count ≤ 1
      · rw [if_pos ⟨j, .head _, here⟩]
        obtain ⟨e, found, same, due⟩ := here
        simp only [handled, found, same, due, known, and_self, ↓reduceIte]
        exact agree j (.head _) e found same due
      · rw [if_neg]
        · rw [handled]
          split
          case h_1 e found => exact if_neg (fun all => here ⟨e, found, all.1, all.2.2⟩)
          case h_2 => rfl
        · rintro ⟨i, member, due⟩
          rcases List.mem_cons.mp member with rfl | member
          · exact here due
          · exact later ⟨i, member, due⟩

section
variable {n : ℕ} {c : PairCommand} (good : Good (Finset.range 12) n (slots b)) (known : pair < 12)
include good

/-- A due command of the list is one that is due in one tick. -/
theorem due_one {j : ℕ} (inside : j < cmdCount) {e : Entry ℕ PairCommand} (found : slot b j = some e) (same : e.key = pair)
    (due : e.count ≤ 1) : Due (slots b) pair 1 e.item := by
  have positive := good.positive ⟨j, inside⟩ e found
  obtain ⟨count, item, key⟩ := e
  have one : count = 1 := by
    have : count ≤ 1 := due
    have : 0 < count := positive
    omega
  exact ⟨⟨j, inside⟩, by rw [← same, slots, found, one]; rfl⟩

include known

/-- After any number of commands of one interrupt. -/
theorem shown_part (due : Due (slots b) pair 1 c) {l : List ℕ} (inside : ∀ j ∈ l, j < cmdCount) :
    l.foldl (handled b pair) (shown b pair) = c ∨ l.foldl (handled b pair) (shown b pair) = shown b pair := by
  have agree : ∀ j ∈ l, ∀ e, slot b j = some e → e.key = pair → e.count ≤ 1 → e.item = c :=
    fun j member e found same late => good.due_unique (due_one good (inside j member) found same late) due
  rw [handled_all known l _ c agree]
  split
  · exact .inl rfl
  · exact .inr rfl

theorem shown_due (due : Due (slots b) pair 1 c) : shown b.t1Interrupt pair = c := by
  have agree : ∀ j ∈ List.range (16 * validBits), ∀ e, slot b j = some e → e.key = pair → e.count ≤ 1 → e.item = c :=
    fun j member e found same late => good.due_unique (due_one good (List.mem_range.mp member) found same late) due
  rw [Board.t1Interrupt, shown_tickWords, handled_all known _ _ c agree]
  obtain ⟨j, found⟩ := due
  exact if_pos ⟨j, List.mem_range.mpr j.isLt, _, found, rfl, Int.le_refl 1⟩

theorem shown_idle (idle : ∀ c, ¬ Due (slots b) pair 1 c) : shown b.t1Interrupt pair = shown b pair := by
  have agree : ∀ j ∈ List.range (16 * validBits), ∀ e, slot b j = some e → e.key = pair → e.count ≤ 1 → e.item = .off :=
    fun j member e found same late => absurd (due_one good (List.mem_range.mp member) found same late) (idle e.item)
  rw [Board.t1Interrupt, shown_tickWords, handled_all known _ _ .off agree]
  refine if_neg ?_
  rintro ⟨j, member, e, found, same, late⟩
  exact idle e.item (due_one good (List.mem_range.mp member) found same late)

end

/-- There are no valves but those of the twelve pairs. -/
theorem shown_unknown (unknown : ¬ pair < 12) (b : Board) : shown b.t1Interrupt pair = shown b pair := by
  have nothing (l : List ℕ) (now : PairCommand) : l.foldl (handled b pair) now = now := by
    induction l with
    | nil => rfl
    | cons j rest ih =>
      rw [List.foldl_cons, handled]
      split
      · rw [if_neg (fun all => unknown all.2.1)]
        exact ih
      · exact ih
  rw [Board.t1Interrupt, shown_tickWords, nothing]

/-! ### Ticks to come -/

/-- What a pair will show after `k` ticks. -/
def future (b : Board) (pair k : ℕ) : PairCommand := shown (Board.t1Interrupt^[k] b) pair

@[simp] theorem future_zero (b : Board) (pair : ℕ) : future b pair 0 = shown b pair := rfl

theorem future_tick (b : Board) (pair k : ℕ) : future b.t1Interrupt pair k = future b pair (k + 1) := rfl

theorem slots_ticks (b : Board) (k : ℕ) : slots (Board.t1Interrupt^[k] b) = tick^[k] (slots b) := by
  induction k with
  | zero => rfl
  | succ k ih => rw [Function.iterate_succ_apply', Function.iterate_succ_apply', t1Interrupt_ticks, ih]

theorem future_unknown (unknown : ¬ pair < 12) (b : Board) (k : ℕ) : future b pair k = shown b pair := by
  induction k generalizing b with
  | zero => rfl
  | succ k ih => rw [← future_tick, ih, shown_unknown unknown]

section
variable {n : ℕ} (good : Good (Finset.range 12) n (slots b)) (known : pair < 12)
include good known

theorem future_due {k : ℕ} {c : PairCommand} (due : Due (slots b) pair (k + 1) c) : future b pair (k + 1) = c := by
  rw [future, Function.iterate_succ_apply']
  have later : Good (Finset.range 12) n (slots (Board.t1Interrupt^[k] b)) := by
    rw [slots_ticks]
    exact good.ticks k
  refine shown_due later known ?_
  rw [slots_ticks, ticks_due k (by decide), Nat.add_comm]
  exact due

theorem future_idle {k : ℕ} (idle : ∀ c, ¬ Due (slots b) pair (k + 1) c) : future b pair (k + 1) = future b pair k := by
  rw [future, Function.iterate_succ_apply']
  have later : Good (Finset.range 12) n (slots (Board.t1Interrupt^[k] b)) := by
    rw [slots_ticks]
    exact good.ticks k
  refine shown_idle later known (fun c due => idle c ?_)
  rw [slots_ticks, ticks_due k (by decide), Nat.add_comm] at due
  exact due

/-- In the course of an interrupt a pair shows what it did before or what it will after. -/
theorem shown_between {i k : ℕ} (word : i < validBits) (inside : k ≤ 16) :
    shown (midway b i k) pair = future b pair 0 ∨ shown (midway b i k) pair = future b pair 1 := by
  have within : ∀ j ∈ List.range (16 * i + k), j < cmdCount := by
    intro j member
    have := List.mem_range.mp member
    have : i < 3 := word
    have : cmdCount = 48 := rfl
    omega
  rw [shown_midway i inside, future_zero]
  by_cases idle : ∀ c, ¬ Due (slots b) pair 1 c
  · refine .inl ((handled_all known _ _ .off ?_).trans (if_neg ?_))
    · exact fun j member e found same late => absurd (due_one good (within j member) found same late) (idle e.item)
    · rintro ⟨j, member, e, found, same, late⟩
      exact idle e.item (due_one good (within j member) found same late)
  · obtain ⟨c, due⟩ := not_forall_not.mp idle
    rw [future_due good known due]
    exact (shown_part good known due within).symm

/-- Where the future differs from what a pair shows now a command is pending. -/
theorem due_of_future {k : ℕ} {c : PairCommand} (then' : future b pair k = c) (now : shown b pair ≠ c) :
    ∃ n, Due (slots b) pair n c := by
  induction k with
  | zero => exact absurd then' now
  | succ k ih =>
    by_cases idle : ∀ c, ¬ Due (slots b) pair (k + 1) c
    · rw [future_idle good known idle] at then'
      exact ih then'
    · obtain ⟨d, due⟩ := not_forall_not.mp idle
      rw [future_due good known due] at then'
      exact ⟨k + 1, then' ▸ due⟩

end

/-! ### A new command -/

/-- A command that finds space is in force from its count on; nothing else changes. -/
theorem future_addCmd {n : ℕ} (good : Good (Finset.range 12) n (slots b)) {cmd : PairCommand} {count : ℕ}
    (known : pair < 12) (positive : 0 < count) (space : (b.addCmd cmd pair count).2 = true) (p k : ℕ) :
    future (b.addCmd cmd pair count).1 p k = if p = pair ∧ count ≤ k then cmd else future b p k := by
  have now : shown (b.addCmd cmd pair count).1 p = shown b p := by
    rw [Board.addCmd]
    dsimp only
    split <;> rfl
  by_cases valve : p < 12
  case neg =>
    rw [future_unknown valve, future_unknown valve, now, if_neg]
    rintro ⟨rfl, -⟩
    exact valve known
  have enters := addCmd_enters b cmd pair count
  rw [if_pos space] at enters
  have later := enters.good_slots good (Finset.mem_range.mpr known) (by simpa using positive)
  have due (k : ℕ) (c : PairCommand) : Due (slots (b.addCmd cmd pair count).1) p k c ↔
      (p = pair ∧ k = count ∧ c = cmd) ∨ Due (slots b) p k c ∧ (p = pair → k < count) := enters.due_iff rfl
  induction k with
  | zero => rw [if_neg (by omega), future_zero, now, future_zero]
  | succ k ih =>
    by_cases new : p = pair ∧ count ≤ k + 1
    · obtain ⟨same, late⟩ := new
      rw [if_pos ⟨same, late⟩]
      rcases Nat.lt_or_eq_of_le late with after | here
      · -- Whatever was planned for later has been dropped.
        rw [if_pos ⟨same, by omega⟩] at ih
        rw [future_idle later valve, ih]
        intro c pending
        rcases (due (k + 1) c).mp pending with ⟨-, counts, -⟩ | ⟨-, below⟩
        · omega
        · have := below same
          omega
      · exact future_due later valve ((due (k + 1) cmd).mpr (.inl ⟨same, here.symm, rfl⟩))
    · have old (c : PairCommand) : Due (slots (b.addCmd cmd pair count).1) p (k + 1) c ↔ Due (slots b) p (k + 1) c := by
        rw [due, or_iff_right (fun here => new ⟨here.1, by omega⟩)]
        exact and_iff_left (fun same => by by_contra after; exact new ⟨same, by omega⟩)
      rw [if_neg new]
      rw [if_neg (fun both => new ⟨both.1, by omega⟩)] at ih
      by_cases idle : ∀ c, ¬ Due (slots b) p (k + 1) c
      · rw [future_idle good valve idle, ← ih]
        exact future_idle later valve (fun c pending => idle c ((old c).mp pending))
      · obtain ⟨c, pending⟩ := not_forall_not.mp idle
        rw [future_due good valve pending]
        exact future_due later valve ((old c).mpr pending)

end Tortuga.Valves
