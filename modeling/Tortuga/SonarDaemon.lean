import Mathlib.Data.Nat.Notation
import Mathlib.Tactic.Linarith
import Mathlib.Tactic.Ring
import Tortuga.TimeValues

/-!
The daemon of the sonar (`sonard/main.cpp`): the size of the next dataset by the status, the status
by the outcome, and the time to wake up after a ping. Times do not overflow.
-/
namespace Tortuga.SonarDaemon
open Tortuga.TimeValues
set_option linter.unusedSimpArgs false

/-! ### Settings -/

/-- `NOMINAL_PING_DELAY`, in milliseconds. -/
abbrev nominalPingDelay : ℤ := 2000

/-- `SAMPRATE`, in samples a second. -/
abbrev sampRate : ℤ := 500000

/-- `LARGE_DATASET`, in samples. -/
abbrev largeDataset : ℤ := 1250000

/-- `SMALL_DATASET`, in samples. -/
abbrev smallDataset : ℤ := 200000

abbrev allocUnitSize : ℤ := 1024

abbrev maxSegments : ℤ := 2550

/-! ### Datasets -/

/-- The samples to capture, and those that there is memory for. -/
structure Dataset where
  size : ℤ
  allocated : ℤ

/-- `createDataset`. Without memory the program ends there; here it goes on without a dataset, as the main loop expects
    ("maybe I'll get luckier the next time"). -/
def createDataset (memory : Bool) (size : ℤ) : Option Dataset :=
  if size < 0 then none
  else if maxSegments * allocUnitSize < size then none
  else if memory then some ⟨size, size⟩
  else none

/-- The length that `getDataset` asks for. -/
def requested (status : ℤ) : ℤ := if status < 2 then largeDataset else smallDataset

def getDataset (memory : Bool) (dataSet : Option Dataset) (status : ℤ) : Option Dataset :=
  match dataSet with
  | none => createDataset memory (requested status)
  | some d => if d.size ≠ requested status then some { d with size := requested status } else some d

/-! ### Times -/

/-- A `timeval` of the clock: the microseconds are less than a second. -/
abbrev Time := { t : TimeVal // t.Normal }

/-- A time in microseconds. -/
abbrev micros (t : Time) : ℤ := t.val.total

/-- `timeradd`. -/
def timeradd (a b : Time) : Time where
  val :=
    if a.val.tvUsec + b.val.tvUsec ≥ 1000000 then ⟨a.val.tvSec + b.val.tvSec + 1, a.val.tvUsec + b.val.tvUsec - 1000000⟩
    else ⟨a.val.tvSec + b.val.tvSec, a.val.tvUsec + b.val.tvUsec⟩
  property := by
    obtain ⟨lowA, highA⟩ := a.property
    obtain ⟨lowB, highB⟩ := b.property
    simp only [usecPerSec] at highA highB
    split
    · exact ⟨by dsimp only; omega, by dsimp only [usecPerSec]; omega⟩
    · exact ⟨by dsimp only; omega, by dsimp only [usecPerSec]; omega⟩

/-- `timercmp` with `>`. -/
def timercmp (a b : Time) : Bool := if a.val.tvSec = b.val.tvSec then a.val.tvUsec > b.val.tvUsec else a.val.tvSec > b.val.tvSec

theorem timeradd_micros (a b : Time) : micros (timeradd a b) = micros a + micros b := by
  simp only [timeradd, micros, TimeVal.total, usecPerSec]
  split_ifs
  · dsimp only
    omega
  · dsimp only
    omega

theorem timercmp_iff {a b : Time} : timercmp a b = true ↔ micros b < micros a := by
  obtain ⟨lowA, highA⟩ := a.property
  obtain ⟨lowB, highB⟩ := b.property
  simp only [timercmp, micros, TimeVal.total, usecPerSec] at highA highB ⊢
  split_ifs with same
  · rw [decide_eq_true_iff]
    omega
  · rw [decide_eq_true_iff]
    omega

theorem pointTime_normal (pointNum : ℕ) : TimeVal.Normal
    ⟨(pointNum : ℤ).tdiv sampRate, ((pointNum - sampRate * (pointNum : ℤ).tdiv sampRate) * 1000).tdiv sampRate * 1000⟩ := by
  have nonneg : (0 : ℤ) ≤ pointNum := Int.natCast_nonneg pointNum
  simp only [Int.tdiv_eq_ediv_of_nonneg nonneg, sampRate]
  have rest : 0 ≤ (pointNum - 500000 * (pointNum / 500000 : ℤ)) * 1000 := by omega
  rw [TimeVal.Normal, Int.tdiv_eq_ediv_of_nonneg rest]
  simp only [usecPerSec]
  omega

/-- How far into the samples the ping was found, in whole milliseconds. -/
def pointTime (pointNum : ℕ) : Time where
  val := ⟨(pointNum : ℤ).tdiv sampRate, ((pointNum - sampRate * (pointNum : ℤ).tdiv sampRate) * 1000).tdiv sampRate * 1000⟩
  property := pointTime_normal pointNum

/-- The time to wait for the next ping, less half of a small dataset. -/
def firstSleep : Time where
  val :=
    let sleepTime := (nominalPingDelay - (smallDataset * 500).tdiv sampRate) * 1000
    ⟨sleepTime.tdiv 1000000, sleepTime.tmod 1000000⟩
  property := ⟨by decide, by decide⟩

/-- One more sleep interval. -/
def addInterval (t : Time) : Time where
  val :=
    let usec := t.val.tvUsec + nominalPingDelay * 1000
    ⟨t.val.tvSec + usec.tdiv 1000000, usec.tmod 1000000⟩
  property := by
    obtain ⟨low, -⟩ := t.property
    have nonneg : 0 ≤ t.val.tvUsec + nominalPingDelay * 1000 := by
      simp only [nominalPingDelay]
      omega
    exact (division (t.val.tvUsec + nominalPingDelay * 1000)).2.2 nonneg

theorem addInterval_micros (t : Time) : micros (addInterval t) = micros t + 2000000 := by
  have whole := (division (t.val.tvUsec + 2000 * 1000)).1
  simp only [usecPerSec] at whole
  simp only [addInterval, micros, TimeVal.total, usecPerSec, nominalPingDelay]
  omega

/-- "Check if we are past that point, add sleep intervals until we reach it." -/
def sleepUntil (curr t : Time) : Time := if _past : timercmp curr t then sleepUntil curr (addInterval t) else t
termination_by (micros curr - micros t).toNat
decreasing_by
  have later := timercmp_iff.mp _past
  rw [addInterval_micros]
  omega

/-! ### The main loop -/

/-- What the world gives one round: the time at its start, the memory for a dataset, what `getEdge`
    returns and where it found the ping, and the time after the ping. -/
structure Acquisition where
  start : Time
  memory : Bool
  edge : ℤ
  pointNum : ℕ
  curr : Time

structure State where
  status : ℤ
  dataSet : Option Dataset

def State.new : State where
  status := -1
  dataSet := none

/-- A round of the loop: the state afterwards, and the time to wake up if a ping was found. -/
def State.round (s : State) (a : Acquisition) : State × Option Time :=
  match getDataset a.memory s.dataSet s.status with
  | none => ({ status := 0, dataSet := none }, none)
  | some d =>
    if a.edge = 0 then ({ status := if s.status > 1 then 1 else 0, dataSet := some d }, none)
    else if a.edge ≠ 1 then ({ status := if s.status > 1 then 1 else 0, dataSet := some d }, none)
    else
      let status := if s.status < 1 then s.status + 2 else if s.status < 3 then s.status + 1 else s.status
      let ping := timeradd a.start (pointTime a.pointNum)
      ({ status, dataSet := some d }, some (sleepUntil a.curr (timeradd firstSleep ping)))

/-- The rounds from the start of the program, each with the state before it. -/
def rounds (s : State) : List Acquisition → List (State × Acquisition)
  | [] => []
  | a :: rest => (s, a) :: rounds (s.round a).1 rest

/-! ### What the daemon is for -/

/-- A ping is found in a dataset that has been obtained. -/
def Found (s : State) (a : Acquisition) : Prop := (getDataset a.memory s.dataSet s.status).isSome ∧ a.edge = 1

instance (s : State) (a : Acquisition) : Decidable (Found s a) := inferInstanceAs (Decidable (_ ∧ _))

/-- The four states: for the size of the dataset, and for whether a ping was found. -/
def documented (size : ℤ) (found : Bool) : ℤ :=
  if size = largeDataset then if found then 2 else 0 else if found then 3 else 1

/-- Half of a small dataset before the next ping, in microseconds. -/
def beforePing : ℤ := nominalPingDelay * 1000 - smallDataset * 1000000 / sampRate / 2

/-- The earliest of the times before the next pings that is not in the past. -/
structure Earliest (ping curr wake : Time) : Prop where
  interval : ∃ k : ℕ, micros wake = micros ping + beforePing + k * (nominalPingDelay * 1000) ∧
    ∀ j < k, micros ping + beforePing + j * (nominalPingDelay * 1000) < micros curr
  future : micros curr ≤ micros wake

/-- A round does what it should. -/
structure Correct (s : State) (a : Acquisition) : Prop where
  status : (s.round a).1.status = documented (requested s.status) (decide (Found s a))
  room : ∀ d ∈ (s.round a).1.dataSet, requested s.status ≤ d.allocated
  wake : Found s a → ∃ wake, (s.round a).2 = some wake ∧ Earliest (timeradd a.start (pointTime a.pointNum)) a.curr wake

section
variable {s : State} {a : Acquisition}

/-! ### The time to wake up -/

theorem firstSleep_micros : micros firstSleep = beforePing := by decide

/-- The loop ends with the first time that is not in the past. -/
theorem sleepUntil_spec (curr t : Time) : micros curr ≤ micros (sleepUntil curr t) ∧
    ∃ k : ℕ, micros (sleepUntil curr t) = micros t + k * 2000000 ∧ ∀ j < k, micros t + j * 2000000 < micros curr := by
  induction t using sleepUntil.induct curr with
  | case1 t past ih =>
    obtain ⟨future, k, same, before⟩ := ih
    rw [sleepUntil, dif_pos past]
    rw [addInterval_micros] at same before
    refine ⟨future, k + 1, by rw [same]; push_cast; ring, fun j less => ?_⟩
    cases j with
    | zero =>
      have now := timercmp_iff.mp past
      rw [Nat.cast_zero, zero_mul, add_zero]
      exact now
    | succ j =>
      have earlier := before j (Nat.lt_of_succ_lt_succ less)
      push_cast
      linarith
  | case2 t future =>
    rw [sleepUntil, dif_neg future]
    have now : micros curr ≤ micros t := not_lt.mp fun past => future (timercmp_iff.mpr past)
    exact ⟨now, 0, by rw [Nat.cast_zero, zero_mul, add_zero], fun j none => absurd none (Nat.not_lt_zero j)⟩

theorem earliest_sleepUntil (curr ping : Time) : Earliest ping curr (sleepUntil curr (timeradd firstSleep ping)) := by
  obtain ⟨future, k, same, before⟩ := sleepUntil_spec curr (timeradd firstSleep ping)
  rw [timeradd_micros, firstSleep_micros, add_comm beforePing] at same before
  exact ⟨⟨k, same, before⟩, future⟩

/-! ### The status -/

/-- The memory of a dataset is that of a large one. -/
structure Allocated (dataSet : Option Dataset) (status : ℤ) : Prop where
  early : dataSet = none → status < 2
  large : ∀ d ∈ dataSet, d.allocated = largeDataset

theorem Allocated.getDataset {dataSet : Option Dataset} {status : ℤ} (allocated : Allocated dataSet status) (memory : Bool) :
    ∀ d ∈ getDataset memory dataSet status, d.allocated = largeDataset := by
  intro d found
  cases dataSet with
  | none =>
    rw [SonarDaemon.getDataset, requested, if_pos (allocated.early rfl)] at found
    cases memory with
    | false => cases found
    | true =>
      obtain rfl := Option.some_inj.mp found
      rfl
  | some old =>
    have same := allocated.large old rfl
    rw [SonarDaemon.getDataset] at found
    split at found
    · obtain rfl := Option.some_inj.mp found
      exact same
    · obtain rfl := Option.some_inj.mp found
      exact same

theorem requested_le (status : ℤ) : requested status ≤ largeDataset := by
  rw [requested]
  split <;> decide

/-- What a round leaves for each of its outcomes. -/
inductive Outcome (s : State) (a : Acquisition) : State × Option Time → Prop
  | absent (none : getDataset a.memory s.dataSet s.status = .none) : Outcome s a ({ status := 0, dataSet := .none }, .none)
  | missed (d : Dataset) (obtained : getDataset a.memory s.dataSet s.status = some d) (lost : a.edge ≠ 1) :
      Outcome s a ({ status := if s.status > 1 then 1 else 0, dataSet := some d }, .none)
  | found (d : Dataset) (obtained : getDataset a.memory s.dataSet s.status = some d) (ping : a.edge = 1) :
      Outcome s a ({ status := if s.status < 1 then s.status + 2 else if s.status < 3 then s.status + 1 else s.status, dataSet := some d },
        some (sleepUntil a.curr (timeradd firstSleep (timeradd a.start (pointTime a.pointNum)))))

theorem round_outcome (s : State) (a : Acquisition) : Outcome s a (s.round a) := by
  cases obtained : getDataset a.memory s.dataSet s.status with
  | none =>
    rw [State.round, obtained]
    exact .absent obtained
  | some d =>
    rw [State.round, obtained]
    dsimp only
    by_cases silent : a.edge = 0
    · rw [if_pos silent]
      exact .missed d obtained (by rw [silent]; decide)
    · rw [if_neg silent]
      by_cases wrong : a.edge ≠ 1
      · rw [if_pos wrong]
        exact .missed d obtained wrong
      · rw [if_neg wrong]
        exact .found d obtained (not_not.mp wrong)

theorem not_found (absent : getDataset a.memory s.dataSet s.status = none) : ¬ Found s a := by
  intro found
  rw [Found, absent] at found
  exact absurd found.1 (by decide)

theorem found_of {d : Dataset} (obtained : getDataset a.memory s.dataSet s.status = some d) (ping : a.edge = 1) : Found s a :=
  ⟨Option.isSome_of_eq_some obtained, ping⟩

/-- A dataset that is there is used again. -/
theorem none_of_getDataset {memory : Bool} {dataSet : Option Dataset} {status : ℤ} (absent : getDataset memory dataSet status = none) :
    dataSet = none := by
  cases dataSet with
  | none => rfl
  | some d =>
    simp only [getDataset] at absent
    split at absent <;> cases absent

/-- A state between two rounds, the first of which has not found a ping. -/
structure Running (s : State) : Prop where
  status : s.status = 0 ∨ s.status = 1 ∨ s.status = 2 ∨ s.status = 3
  dataSet : s.dataSet = none → s.status = 0
  large : ∀ d ∈ s.dataSet, d.allocated = largeDataset

theorem Running.allocated (running : Running s) : Allocated s.dataSet s.status where
  early none := by
    rw [running.dataSet none]
    decide
  large := running.large

theorem allocated_new : Allocated State.new.dataSet State.new.status where
  early _ := by decide
  large d none := by cases none

/-- The memory has room for what is requested, and the time to wake up is right, whatever the status is. -/
theorem Allocated.correct (allocated : Allocated s.dataSet s.status) (a : Acquisition)
    (status : (s.round a).1.status = documented (requested s.status) (decide (Found s a))) : Correct s a where
  status := status
  room d there := by
    have outcome := round_outcome s a
    have same := allocated.getDataset a.memory
    revert there outcome
    generalize s.round a = r
    rintro there (none | ⟨e, obtained, -⟩ | ⟨e, obtained, -⟩)
    · cases there
    · obtain rfl := Option.some_inj.mp there
      exact same e obtained ▸ requested_le s.status
    · obtain rfl := Option.some_inj.mp there
      exact same e obtained ▸ requested_le s.status
  wake found := by
    have outcome := round_outcome s a
    revert outcome
    generalize s.round a = r
    rintro (none | ⟨e, -, lost⟩ | ⟨e, -, -⟩)
    · exact absurd found (not_found none)
    · exact absurd found.2 lost
    · exact ⟨_, rfl, earliest_sleepUntil a.curr _⟩

/-- The status is one of the four, or that of the start before a round without a ping. -/
def Known (s : State) (a : Acquisition) : Prop :=
  s.status = 0 ∨ s.status = 1 ∨ s.status = 2 ∨ s.status = 3 ∨ s.status = -1 ∧ ¬ Found s a

/-- The status that a round should leave. -/
theorem documented_round (status : Known s a) (none : s.dataSet = none → s.status < 2) :
    (s.round a).1.status = documented (requested s.status) (decide (Found s a)) := by
  have outcome := round_outcome s a
  revert outcome
  generalize s.round a = r
  rintro (absent | ⟨e, obtained, lost⟩ | ⟨e, obtained, ping⟩)
  · have early : s.status < 2 := none (none_of_getDataset absent)
    rw [decide_eq_false (not_found absent), requested, if_pos early]
    rfl
  · have unfound : ¬ Found s a := fun found => lost found.2
    rw [decide_eq_false unfound]
    rcases status with zero | one | two | three | ⟨start, -⟩
    · rw [zero]; rfl
    · rw [one]; rfl
    · rw [two]; rfl
    · rw [three]; rfl
    · rw [start]; rfl
  · have found := found_of obtained ping
    rw [decide_eq_true found]
    rcases status with zero | one | two | three | ⟨-, unfound⟩
    · rw [zero]; rfl
    · rw [one]; rfl
    · rw [two]; rfl
    · rw [three]; rfl
    · exact absurd found unfound

/-- A round goes on from a state in which the size and the status are in step. -/
theorem running_round (allocated : Allocated s.dataSet s.status) (status : Known s a) : Running (s.round a).1 := by
  have outcome := round_outcome s a
  have same := allocated.getDataset a.memory
  revert outcome
  generalize s.round a = r
  rintro (absent | ⟨e, obtained, lost⟩ | ⟨e, obtained, ping⟩)
  · exact ⟨.inl rfl, fun _ => rfl, fun d none => by cases none⟩
  · refine ⟨?_, nofun, fun d there => ?_⟩
    · dsimp only
      split_ifs
      · exact .inr (.inl rfl)
      · exact .inl rfl
    · obtain rfl := Option.some_inj.mp there
      exact same e obtained
  · have found := found_of obtained ping
    refine ⟨?_, nofun, fun d there => ?_⟩
    · have known : s.status = 0 ∨ s.status = 1 ∨ s.status = 2 ∨ s.status = 3 := by
        rcases status with h | h | h | h | ⟨-, unfound⟩
        · exact .inl h
        · exact .inr (.inl h)
        · exact .inr (.inr (.inl h))
        · exact .inr (.inr (.inr h))
        · exact absurd found unfound
      dsimp only
      split_ifs <;> omega
    · obtain rfl := Option.some_inj.mp there
      exact same e obtained

theorem Running.known (running : Running s) (a : Acquisition) : Known s a := by
  rcases running.status with zero | one | two | three
  · exact .inl zero
  · exact .inr (.inl one)
  · exact .inr (.inr (.inl two))
  · exact .inr (.inr (.inr (.inl three)))

theorem Running.rounds (running : Running s) (acquisitions : List Acquisition) : ∀ r ∈ rounds s acquisitions, Correct r.1 r.2 := by
  induction acquisitions generalizing s with
  | nil => exact fun r none => absurd none List.not_mem_nil
  | cons a rest ih =>
    have status := running.known a
    intro r there
    rcases List.mem_cons.mp there with rfl | later
    · exact running.allocated.correct a (documented_round status running.allocated.early)
    · exact ih (running_round running.allocated status) r later

end

/-- The status and the schedule are as documented in every round, if and only if the first round finds no ping:
    from the initial status a ping leads to the status for a small dataset without one. -/
theorem rounds_documented (acquisitions : List Acquisition) :
    (∀ r ∈ rounds .new acquisitions, Correct r.1 r.2) ↔ ∀ a ∈ acquisitions.head?, ¬ Found .new a := by
  cases acquisitions with
  | nil =>
    constructor
    · intro _ a none
      cases none
    · intro _ r none
      cases none
  | cons a rest =>
    constructor
    · intro correct b first found
      obtain rfl := Option.some_inj.mp first
      have status := (correct (.new, a) List.mem_cons_self).status
      have outcome := round_outcome .new a
      rw [decide_eq_true found] at status
      revert status outcome
      generalize State.new.round a = r
      rintro status (absent | ⟨e, -, lost⟩ | ⟨e, -, -⟩)
      · exact not_found absent found
      · exact lost found.2
      · exact absurd (show (1 : ℤ) = 2 from status) (by decide)
    · intro unfound r there
      have start : Known .new a := .inr (.inr (.inr (.inr ⟨rfl, unfound a rfl⟩)))
      rcases List.mem_cons.mp there with rfl | later
      · exact allocated_new.correct a (documented_round start allocated_new.early)
      · exact (running_round allocated_new start).rounds rest r later

/-- A ping in the first dataset, which is a large one, is reported as a small one without a ping. -/
theorem rounds_first : ¬ ∀ r ∈ rounds .new [⟨⟨⟨0, 0⟩, by decide, by decide⟩, true, 1, 1000, ⟨⟨5, 0⟩, by decide, by decide⟩⟩],
    Correct r.1 r.2 := by
  intro correct
  have status := (correct _ List.mem_cons_self).status
  exact absurd status (by decide)

end Tortuga.SonarDaemon
