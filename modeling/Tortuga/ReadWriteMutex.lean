import Tortuga.Machines
import Mathlib.Data.Fintype.Card
import Mathlib.Data.Fintype.Basic
import Mathlib.Data.Fintype.Option
import Mathlib.Logic.Function.Basic
import Mathlib.Algebra.BigOperators.Group.Finset.Basic
import Mathlib.Algebra.BigOperators.Group.Finset.Piecewise

/-!
`ReadWriteMutex`: any number of readers or one writer. A writer waits in two loops, first
for the readers to leave and then for the writer before it.
-/
namespace Tortuga.ReadWriteMutex
open Tortuga.Machines
set_option linter.unusedSimpArgs false

/-! ### The threads -/

/-- Where a thread is. `waitsReaders` and `waitsWriter` are the loops of `acquireWriteLock`. -/
inductive Mode where
  | out
  | waitsRead
  | reads
  | waitsReaders
  | waitsWriter
  | writes
  deriving DecidableEq, Repr

/-- `m_readers`, `m_pendingWriters` and `m_currentWriter`, and where the threads are. -/
structure Lock (Thread : Type) where
  readers : Int
  pendingWriters : Int
  currentWriter : Bool
  mode : Thread → Mode

/-- What a thread does while it holds `m_mutex`. A wait ends at any time. -/
inductive Act (Thread : Type) where
  | acquireReadLock (thread : Thread)
  | releaseReadLock (thread : Thread)
  | acquireWriteLock (thread : Thread)
  | releaseWriteLock (thread : Thread)
  | wake (thread : Thread)
  deriving DecidableEq, Repr

section
variable {Thread : Type} [DecidableEq Thread]

namespace Lock

def put (s : Lock Thread) (thread : Thread) (m : Mode) : Lock Thread :=
  { s with mode := Function.update s.mode thread m }

/-- The loop of `acquireReadLock`, up to its next wait. -/
def readLoop (s : Lock Thread) (thread : Thread) : Lock Thread :=
  if s.pendingWriters ≠ 0 ∨ s.currentWriter = true then s.put thread .waitsRead
  else { s with readers := s.readers + 1 }.put thread .reads

/-- The second loop of `acquireWriteLock`. -/
def writerLoop (s : Lock Thread) (thread : Thread) : Lock Thread :=
  if s.currentWriter = true then s.put thread .waitsWriter
  else { s with pendingWriters := s.pendingWriters - 1, currentWriter := true }.put thread .writes

/-- The first loop of `acquireWriteLock`. -/
def readersLoop (s : Lock Thread) (thread : Thread) : Lock Thread :=
  if s.readers > 0 then s.put thread .waitsReaders else s.writerLoop thread

end Lock

/-- The next critical section. Each thread releases only what it holds. -/
def step (s : Lock Thread) : Act Thread → Option (Lock Thread)
  | .acquireReadLock thread => if s.mode thread = .out then some (s.readLoop thread) else none
  | .releaseReadLock thread =>
    if s.mode thread = .reads then some ({ s with readers := s.readers - 1 }.put thread .out) else none
  | .acquireWriteLock thread =>
    if s.mode thread = .out then some ({ s with pendingWriters := s.pendingWriters + 1 }.readersLoop thread) else none
  | .releaseWriteLock thread =>
    if s.mode thread = .writes then some ({ s with currentWriter := false }.put thread .out) else none
  | .wake thread =>
    match s.mode thread with
    | .waitsRead => some (s.readLoop thread)
    | .waitsReaders => some (s.readersLoop thread)
    | .waitsWriter => some (s.writerLoop thread)
    | .out | .reads | .writes => none

/-- No thread has come to the lock. -/
def start : Lock Thread := ⟨0, 0, false, fun _ => .out⟩

/-! ### One step -/

/-- The writers that have made readers wait. -/
@[simp] def Mode.pends (m : Mode) : Bool := m = .waitsReaders ∨ m = .waitsWriter

@[simp] def Mode.isReads (m : Mode) : Bool := m = .reads

@[simp] def Mode.isWrites (m : Mode) : Bool := m = .writes

/-- A thread goes to the mode `m`, the counters go with it, and what `m` asks for is given. -/
structure Moves (s t : Lock Thread) (thread : Thread) (m : Mode) : Prop where
  mode : t.mode = Function.update s.mode thread m
  readers : t.readers + (s.mode thread).isReads.toNat = s.readers + m.isReads.toNat
  pending : t.pendingWriters + (s.mode thread).pends.toNat = s.pendingWriters + m.pends.toNat
  writer : t.currentWriter = (m.isWrites || (!(s.mode thread).isWrites && s.currentWriter))
  toRead : m = .reads → s.pendingWriters = 0 ∧ s.currentWriter = false
  toWrite : m = .writes → s.currentWriter = false
  noReaders : m = .waitsWriter ∨ m = .writes → s.readers ≤ 0 ∨ s.mode thread = .waitsWriter

variable {s t : Lock Thread} {thread : Thread}

theorem readLoop_moves (from' : s.mode thread = .out ∨ s.mode thread = .waitsRead) :
    ∃ m, Moves s (s.readLoop thread) thread m := by
  rw [Lock.readLoop]
  split
  case isTrue =>
    refine ⟨.waitsRead, rfl, ?_, ?_, ?_, by simp, by simp, by simp⟩
    all_goals rcases from' with same | same <;> simp [Lock.put, same]
  case isFalse free =>
    simp only [ne_eq, not_or, not_not, Bool.not_eq_true] at free
    refine ⟨.reads, rfl, ?_, ?_, ?_, fun _ => free, by simp, by simp⟩
    all_goals rcases from' with same | same <;> simp [Lock.put, same]

/-- The writer has counted itself as pending: it is in one of the loops, or has just come. -/
structure Counted (s s' : Lock Thread) (thread : Thread) : Prop where
  mode : s'.mode = s.mode
  readers : s'.readers = s.readers
  pending : s'.pendingWriters + (s.mode thread).pends.toNat = s.pendingWriters + 1
  writer : s'.currentWriter = s.currentWriter
  from' : s.mode thread = .out ∨ s.mode thread = .waitsReaders ∨ s.mode thread = .waitsWriter

theorem writerLoop_moves {s' : Lock Thread} (counted : Counted s s' thread)
    (none : s.readers ≤ 0 ∨ s.mode thread = .waitsWriter) : ∃ m, Moves s (s'.writerLoop thread) thread m := by
  obtain ⟨mode, readers, pending, writer, from'⟩ := counted
  rw [Lock.writerLoop]
  split
  case isTrue =>
    refine ⟨.waitsWriter, by rw [Lock.put, mode], ?_, pending, ?_, by simp, by simp, fun _ => none⟩
    · rcases from' with at' | at' | at' <;> simpa [Lock.put, at'] using readers
    · rcases from' with at' | at' | at' <;> simpa [Lock.put, at'] using writer
  case isFalse free =>
    refine ⟨.writes, by simp only [Lock.put, mode], ?_, ?_, rfl, by simp, fun _ => ?_, fun _ => none⟩
    · rcases from' with at' | at' | at' <;> simpa [Lock.put, at'] using readers
    · have zero : Mode.writes.pends.toNat = 0 := rfl
      rw [zero]
      simp only [Lock.put]
      omega
    · simpa [writer] using free

theorem readersLoop_moves {s' : Lock Thread} (counted : Counted s s' thread)
    (from' : s.mode thread = .out ∨ s.mode thread = .waitsReaders) : ∃ m, Moves s (s'.readersLoop thread) thread m := by
  rw [Lock.readersLoop]
  split
  case isTrue =>
    refine ⟨.waitsReaders, by rw [Lock.put, counted.mode], ?_, counted.pending, ?_, by simp, by simp, by simp⟩
    · rcases from' with at' | at' <;> simpa [Lock.put, at'] using counted.readers
    · rcases from' with at' | at' <;> simpa [Lock.put, at'] using counted.writer
  case isFalse none =>
    have readers := counted.readers
    exact writerLoop_moves counted (.inl (by omega))

/-- What a possible step leads to. -/
theorem step_moves {a : Act Thread} (stepped : step s a = some t) : ∃ thread m, Moves s t thread m := by
  cases a with
  | acquireReadLock thread =>
    rw [step] at stepped
    split at stepped
    case isTrue out =>
      cases Option.some_inj.mp stepped
      exact ⟨thread, readLoop_moves (.inl out)⟩
    case isFalse => contradiction
  | releaseReadLock thread =>
    rw [step] at stepped
    split at stepped
    case isTrue reads =>
      cases Option.some_inj.mp stepped
      exact ⟨thread, .out, rfl, by simp [Lock.put, reads], by simp [Lock.put, reads], by simp [Lock.put, reads],
        by simp, by simp, by simp⟩
    case isFalse => contradiction
  | acquireWriteLock thread =>
    rw [step] at stepped
    split at stepped
    case isTrue out =>
      cases Option.some_inj.mp stepped
      exact ⟨thread, readersLoop_moves ⟨rfl, rfl, by simp [out], rfl, .inl out⟩ (.inl out)⟩
    case isFalse => contradiction
  | releaseWriteLock thread =>
    rw [step] at stepped
    split at stepped
    case isTrue writes =>
      cases Option.some_inj.mp stepped
      exact ⟨thread, .out, rfl, by simp [Lock.put, writes], by simp [Lock.put, writes], by simp [Lock.put, writes],
        by simp, by simp, by simp⟩
    case isFalse => contradiction
  | wake thread =>
    rw [step] at stepped
    split at stepped
    case h_1 at' =>
      cases Option.some_inj.mp stepped
      exact ⟨thread, readLoop_moves (.inr at')⟩
    case h_2 at' =>
      cases Option.some_inj.mp stepped
      exact ⟨thread, readersLoop_moves ⟨rfl, rfl, by simp [at'], rfl, .inr (.inl at')⟩ (.inr at')⟩
    case h_3 at' =>
      cases Option.some_inj.mp stepped
      exact ⟨thread, writerLoop_moves ⟨rfl, rfl, by simp [at'], rfl, .inr (.inr at')⟩ (.inr at')⟩
    all_goals contradiction

end

/-! ### Counting threads -/

section
variable {Thread : Type} [Fintype Thread] (mode : Thread → Mode) (p : Mode → Bool)

/-- The number of threads in a mode with `p`. -/
def number : ℕ := (Finset.univ.filter (fun thread => p (mode thread) = true)).card

variable {mode p} in
theorem number_pos {thread : Thread} (at' : p (mode thread) = true) : 0 < number mode p :=
  Finset.card_pos.mpr ⟨thread, Finset.mem_filter.mpr ⟨Finset.mem_univ thread, at'⟩⟩

theorem number_update [DecidableEq Thread] (thread : Thread) (m : Mode) :
    number (Function.update mode thread m) p + (p (mode thread)).toNat = number mode p + (p m).toNat := by
  -- Apart from the thread the modes are the same.
  have split (f : Thread → Mode) : number f p =
      (p (f thread)).toNat + ((Finset.univ.erase thread).filter (fun u => p (f u) = true)).card := by
    rw [number, ← Finset.insert_erase (Finset.mem_univ thread), Finset.filter_insert]
    cases at' : p (f thread) with
    | false => simp
    | true => simp [Nat.add_comm]
  have others : (Finset.univ.erase thread).filter (fun u => p (Function.update mode thread m u) = true) =
      (Finset.univ.erase thread).filter (fun u => p (mode u) = true) := by
    refine Finset.filter_congr (fun u other => ?_)
    rw [Function.update_of_ne (Finset.ne_of_mem_erase other)]
  rw [split (Function.update mode thread m), split mode, others, Function.update_self]
  omega

end

/-! ### Every run -/

section
variable {Thread : Type} [Fintype Thread]

/-- There is at most one writer, then no reader, and the counters are right. -/
structure Excluded (s : Lock Thread) : Prop where
  one : ∀ t u, s.mode t = .writes → s.mode u = .writes → t = u
  alone : ∀ t u, s.mode t = .writes → s.mode u ≠ .reads
  readers : s.readers = number s.mode Mode.isReads
  pending : s.pendingWriters = number s.mode Mode.pends
  writer : s.currentWriter = true ↔ ∃ t, s.mode t = .writes
  positive : 0 ≤ s.readers ∧ 0 ≤ s.pendingWriters

/-- The counters are right, and no one reads once a writer is past its first loop. -/
structure Inv (s : Lock Thread) : Prop where
  readers : s.readers = number s.mode Mode.isReads
  pending : s.pendingWriters = number s.mode Mode.pends
  writer : s.currentWriter.toNat = number s.mode Mode.isWrites
  quiet : ∀ t, s.mode t = .waitsWriter ∨ s.mode t = .writes → s.readers = 0

variable {s t : Lock Thread} {thread : Thread}

theorem inv_start : Inv (start : Lock Thread) := by
  have none (p : Mode → Bool) (out : p .out = false) : number (fun _ : Thread => Mode.out) p = 0 := by simp [number, out]
  refine ⟨?_, ?_, ?_, fun u past => ?_⟩
  · simp [start, none Mode.isReads rfl]
  · simp [start, none Mode.pends rfl]
  · simp [start, none Mode.isWrites rfl]
  · simp [start] at past

theorem Inv.excluded (inv : Inv s) : Excluded s where
  one t u first second := by
    have few : number s.mode Mode.isWrites ≤ 1 := inv.writer ▸ Bool.toNat_le s.currentWriter
    refine Finset.card_le_one.mp few t ?_ u ?_
    · simp [first]
    · simp [second]
  alone t u writes reads := by
    have zero := inv.quiet t (.inr writes)
    have here : (s.mode u).isReads = true := by simp [reads]
    have some := number_pos here
    have := inv.readers
    omega
  readers := inv.readers
  pending := inv.pending
  writer := by
    have count := inv.writer
    constructor
    · intro writer
      have some : 0 < number s.mode Mode.isWrites := by simp [← count, writer]
      obtain ⟨t, member⟩ := Finset.card_pos.mp some
      refine ⟨t, ?_⟩
      have writes := (Finset.mem_filter.mp member).2
      cases at' : s.mode t <;> simp [at'] at writes ⊢
    · rintro ⟨t, writes⟩
      have here : (s.mode t).isWrites = true := by simp [writes]
      have some := number_pos here
      cases flag : s.currentWriter with
      | true => rfl
      | false => simp [flag] at count; omega
  positive := by
    rw [inv.readers, inv.pending]
    omega

theorem Inv.moves [DecidableEq Thread] (inv : Inv s) {m : Mode} (moves : Moves s t thread m) : Inv t := by
  obtain ⟨mode, readers, pending, writer, toRead, toWrite, noReaders⟩ := moves
  have countReads := number_update s.mode Mode.isReads thread m
  have countPends := number_update s.mode Mode.pends thread m
  have countWrites := number_update s.mode Mode.isWrites thread m
  rw [← mode] at countReads countPends countWrites
  have oldReaders := inv.readers
  have oldPending := inv.pending
  have oldWriter := inv.writer
  have reading : (s.mode thread).isReads = true → 0 < s.readers := fun here => by
    have := number_pos here
    omega
  have writing (u : Thread) : (s.mode u).isWrites = true → s.currentWriter = true := fun here => by
    have := number_pos here
    cases flag : s.currentWriter with
    | true => rfl
    | false => simp [flag] at oldWriter; omega
  refine ⟨by omega, by omega, ?_, fun u past => ?_⟩
  · rw [writer]
    cases new : m.isWrites with
    | true =>
      -- The thread gets the lock, which nobody had.
      have free := toWrite (by simpa using new)
      have notOld : (s.mode thread).isWrites = false := Bool.eq_false_iff.mpr (fun old => by simp [writing thread old] at free)
      rw [new, notOld, ← oldWriter, free] at countWrites
      exact countWrites.symm
    | false =>
      cases old : (s.mode thread).isWrites with
      | true =>
        have flag := writing thread old
        rw [new, old, ← oldWriter, flag] at countWrites
        exact (Nat.add_right_cancel countWrites).symm
      | false =>
        rw [new, old, ← oldWriter] at countWrites
        exact countWrites.symm
  · have none : s.readers = 0 ∧ m.isReads = false := by
      by_cases same : u = thread
      · subst same
        rw [mode, Function.update_self] at past
        refine ⟨?_, by rcases past with at' | at' <;> simp [at']⟩
        rcases noReaders past with few | waits
        · omega
        · exact inv.quiet u (.inl waits)
      · rw [mode, Function.update_of_ne same] at past
        refine ⟨inv.quiet u past, Bool.eq_false_iff.mpr (fun reads => ?_)⟩
        obtain ⟨noPending, free⟩ := toRead (by simpa using reads)
        rcases past with waits | writes
        · have here : (s.mode u).pends = true := by simp [waits]
          have := number_pos here
          omega
        · have flag := writing u (by simp [writes])
          simp [free] at flag
    have notReads : (s.mode thread).isReads = false := Bool.eq_false_iff.mpr (fun reads => by have := reading reads; omega)
    simp only [none.1, none.2, notReads, Bool.toNat_false] at readers
    omega

/-- In every run of any number of threads, whatever the order of their critical sections and
    whenever a wait ends, writers exclude all others and the counters are right. -/
theorem excludes [DecidableEq Thread] (acts : List (Act Thread)) (s : Lock Thread) (run : runs step start acts = some s) :
    Excluded s := by
  refine Inv.excluded (runs_invariant (I := fun _ => Inv) inv_start (fun _ _ _ _ _ inv stepped => ?_) run)
  obtain ⟨thread, m, moves⟩ := step_moves stepped
  exact inv.moves moves

/-- A reader `none` and two writers: the first one waits for the reader, the second for the first. -/
def crowd : List (Act (Option Bool)) :=
  [.acquireReadLock none, .acquireWriteLock (some false), .wake (some false), .releaseReadLock none, .wake (some false),
    .acquireWriteLock (some true), .acquireReadLock none, .releaseWriteLock (some false), .wake none, .wake (some true)]

theorem excludes_crowd : ∃ s, runs step start crowd = some s ∧ Excluded s := ⟨_, rfl, excludes crowd _ rfl⟩

end

end Tortuga.ReadWriteMutex
