import Mathlib.Data.List.Induction
import Mathlib.Order.Basic
import Mathlib.Logic.Function.Iterate
import Tortuga.CountDownLatch
import Tortuga.Precedence

/-!
The recorder of a camera (`Recorder.cpp`, `Camera.cpp`): the thread of the camera stores an image and sets a flag, and
the thread of the recorder tests the flag, records a copy and clears the flag. When recording may go on does not
matter for this, and wake-ups without a cause are left out.
-/
namespace Tortuga.Recorders
open Tortuga.CountDownLatch
open Tortuga.Precedence (split_concat)
set_option linter.unusedSimpArgs false

/-! ### The threads -/

inductive Thread where
  | camera
  | recorder
  deriving DecidableEq, Repr

/-- What comes next in `Camera::capturedImage`. -/
inductive Capture where
  | store
  | newImageCapture
  | countDown
  | resetCount
  deriving DecidableEq, Repr

/-- What comes next in `Recorder::update`. -/
inductive Update where
  | test
  | record
  | clear
  | wait
  deriving DecidableEq, Repr

/-- Images are known by their number: `image` is the public one, and `recorded` the last one recorded. -/
structure State where
  image : ℕ
  newFrame : Bool
  imageLatch : Latch Thread
  recorded : ℕ
  capture : Capture
  update : Update

def State.new : State where
  image := 0
  newFrame := false
  imageLatch := CountDownLatch.new 1
  recorded := 0
  capture := .store
  update := .test

/-- A turn of the camera, each with one of the locks. -/
def State.camera (s : State) : State :=
  match s.capture with
  | .store => { s with image := s.image + 1, capture := .newImageCapture }
  | .newImageCapture => { s with newFrame := true, capture := .countDown }
  | .countDown => { s with imageLatch := s.imageLatch.countDown, capture := .resetCount }
  | .resetCount => { s with imageLatch := { s.imageLatch with count := 1 }, capture := .store }

/-- `waitForImage` of a camera in the background. -/
def State.waitForImage (s : State) : State :=
  match s.imageLatch.phase .recorder with
  | .out => if s.imageLatch.count = 0 then { s with update := .test } else { s with imageLatch := s.imageLatch.put .recorder (.waits false) }
  | .waits _ => s
  | .woken _ => { s with imageLatch := s.imageLatch.put .recorder .out, update := .test }

/-- A turn of the recorder. If the camera is not in the background, or with a timeout, it does not block but goes on. -/
def State.recorder (blocks : Bool) (s : State) : State :=
  match s.update with
  | .test => { s with update := if s.newFrame then .record else .wait }
  | .record => { s with recorded := s.image, update := .clear }
  | .clear => { s with newFrame := false, update := .test }
  | .wait => if blocks then s.waitForImage else { s with update := .test }

def State.turn (blocks : Bool) (s : State) : Thread → State
  | .camera => s.camera
  | .recorder => s.recorder blocks

/-- The state after the threads have had their turns. -/
def run (blocks : Bool) (schedule : List Thread) : State := schedule.foldl (State.turn blocks) .new

/-! ### The newest frame -/

/-- The threads have had their turns in any order, and the last capture is over. -/
abbrev Captured (blocks : Bool) := { schedule : List Thread // (run blocks schedule).capture = .store }

/-- The updates that follow record the image of the last capture. -/
def Kept (blocks : Bool) (schedule : List Thread) : Prop :=
  ∃ n, (run blocks schedule).image ≤ ((State.recorder blocks)^[n] (run blocks schedule)).recorded

/-- A turn of the camera with a new image comes at a bad time: the flag is set while the recorder has copied an older image
    and is going to clear the flag, or the latch closes while it has found the flag not set and does not wait yet. -/
def Missed (blocks : Bool) (s : State) : Prop :=
  match s.capture with
  | .newImageCapture => s.update = .clear ∧ s.recorded < s.image
  | .resetCount => blocks = true ∧ s.update = .wait ∧ s.imageLatch.phase .recorder = .out ∧ s.recorded < s.image
  | .store | .countDown => False

/-- No turn for the newest image is missed. -/
def Timely (blocks : Bool) (schedule : List Thread) : Prop :=
  ∀ before after, schedule = before ++ .camera :: after → (run blocks before).image = (run blocks schedule).image →
    ¬ Missed blocks (run blocks before)

/-- The newest image has been recorded, or is going to be. -/
def Safe (blocks : Bool) (s : State) : Prop :=
  s.recorded = s.image ∨ s.update = .record ∨
    match s.capture with
    | .newImageCapture => True
    | .countDown => s.newFrame = true ∧ (s.update = .test ∨ s.update = .wait)
    | .resetCount => s.newFrame = true ∧ (s.update = .test ∨ s.update = .wait ∧ ∀ timed, s.imageLatch.phase .recorder ≠ .waits timed)
    | .store => s.newFrame = true ∧
        (s.update = .test ∨ s.update = .wait ∧ (blocks = false ∨ ∃ result, s.imageLatch.phase .recorder = .woken result))

/-- The newest image is not going to be recorded: the flag is not set, or the recorder waits for the next one. -/
def Lost (blocks : Bool) (s : State) : Prop :=
  s.recorded < s.image ∧ s.capture ≠ .newImageCapture ∧
    (s.update = .clear ∨ s.newFrame = false ∧ (s.update = .test ∨ s.update = .wait) ∨
      blocks = true ∧ s.capture = .store ∧ s.update = .wait ∧ ∀ result, s.imageLatch.phase .recorder ≠ .woken result)

/-- What always holds. -/
structure Inv (s : State) : Prop where
  recorded : s.recorded ≤ s.image
  count : s.imageLatch.count = if s.capture = .resetCount then 0 else 1

section
variable {blocks : Bool} {s : State} {schedule : List Thread}

theorem inv_new : Inv .new := ⟨Nat.le_refl 0, rfl⟩

theorem Inv.camera (inv : Inv s) : Inv s.camera := by
  obtain ⟨recorded, count⟩ := inv
  cases at' : s.capture <;> simp [State.camera, at', Latch.countDown] at count ⊢ <;> constructor <;> simp [count] <;> omega

/-! ### The turns of the recorder -/

/-- Waiting changes where the recorder is, and nothing else. -/
theorem waitForImage_same (s : State) : s.waitForImage.image = s.image ∧ s.waitForImage.newFrame = s.newFrame ∧
    s.waitForImage.recorded = s.recorded ∧ s.waitForImage.capture = s.capture ∧ s.waitForImage.imageLatch.count = s.imageLatch.count := by
  rw [State.waitForImage]
  split
  · split <;> exact ⟨rfl, rfl, rfl, rfl, rfl⟩
  · exact ⟨rfl, rfl, rfl, rfl, rfl⟩
  · exact ⟨rfl, rfl, rfl, rfl, rfl⟩

/-- A turn of the recorder changes neither the image nor the count, and records at most the image. -/
theorem recorder_same (blocks : Bool) (s : State) : (s.recorder blocks).image = s.image ∧ (s.recorder blocks).capture = s.capture ∧
    (s.recorder blocks).imageLatch.count = s.imageLatch.count ∧
    (s.recorder blocks).recorded = if s.update = .record then s.image else s.recorded := by
  obtain ⟨image, -, recorded, capture, count⟩ := waitForImage_same s
  cases next : s.update with
  | test => simp [State.recorder, next]
  | record => simp [State.recorder, next]
  | clear => simp [State.recorder, next]
  | wait =>
    cases blocks with
    | false => simp [State.recorder, next]
    | true => simp [State.recorder, next, image, recorded, capture, count]

theorem Inv.recorder (inv : Inv s) : Inv (s.recorder blocks) := by
  obtain ⟨image, capture, count, recorded⟩ := recorder_same blocks s
  constructor
  · rw [recorded, image]
    split
    · exact Nat.le_refl s.image
    · exact inv.recorded
  · rw [count, capture]
    exact inv.count

theorem Inv.turn (inv : Inv s) (thread : Thread) : Inv (s.turn blocks thread) := by
  cases thread with
  | camera => exact inv.camera
  | recorder => exact inv.recorder

/-! ### What becomes of the newest image -/

/-- A recorder that waits goes on at once if it does not block, or has been woken, or the count is zero. -/
theorem recorder_wait (blocks : Bool) (next : s.update = .wait)
    (goes : blocks = false ∨ (∃ result, s.imageLatch.phase .recorder = .woken result) ∨
      s.imageLatch.count = 0 ∧ ∀ timed, s.imageLatch.phase .recorder ≠ .waits timed) :
    (s.recorder blocks).update = .test ∧ (s.recorder blocks).newFrame = s.newFrame := by
  cases blocks with
  | false => simp [State.recorder, next]
  | true =>
    rcases goes with no | ⟨result, woken⟩ | ⟨zero, free⟩
    · cases no
    · simp [State.recorder, next, State.waitForImage, woken]
    · cases phase : s.imageLatch.phase .recorder with
      | out => simp [State.recorder, next, State.waitForImage, phase, zero]
      | waits timed => exact absurd phase (free timed)
      | woken result => simp [State.recorder, next, State.waitForImage, phase]

/-- One that blocks has waited for the next image to come. -/
theorem recorder_waiting (blocks : Bool) (next : s.update = .wait) :
    (s.recorder blocks).newFrame = s.newFrame ∧ ((s.recorder blocks).update = .test ∨ (s.recorder blocks).update = .wait) := by
  cases blocks with
  | false => simp [State.recorder, next]
  | true =>
    refine ⟨?_, ?_⟩
    · simp [State.recorder, next, (waitForImage_same s).2.1]
    · cases phase : s.imageLatch.phase .recorder with
      | out =>
        by_cases zero : s.imageLatch.count = 0
        · simp [State.recorder, next, State.waitForImage, phase, zero]
        · simp [State.recorder, next, State.waitForImage, phase, zero]
      | waits timed => simp [State.recorder, next, State.waitForImage, phase]
      | woken result => simp [State.recorder, next, State.waitForImage, phase]

/-- It stays blocked until the latch opens. -/
theorem recorder_blocked (next : s.update = .wait) (closed : s.imageLatch.count = 1)
    (asleep : ∀ result, s.imageLatch.phase .recorder ≠ .woken result) :
    (s.recorder true).update = .wait ∧ ∀ result, (s.recorder true).imageLatch.phase .recorder ≠ .woken result := by
  cases phase : s.imageLatch.phase .recorder with
  | out => simp [State.recorder, next, State.waitForImage, phase, closed, Latch.put]
  | waits timed => simp [State.recorder, next, State.waitForImage, phase]
  | woken result => exact absurd phase (asleep result)

theorem Safe.recorder (inv : Inv s) (safe : Safe blocks s) : Safe blocks (s.recorder blocks) := by
  obtain ⟨image, capture, count, recorded⟩ := recorder_same blocks s
  rcases safe with same | copies | later
  · left
    rw [recorded, image, same, ite_self]
  · left
    rw [recorded, if_pos copies, image]
  · have tested : s.newFrame = true → s.update = .test → Safe blocks (s.recorder blocks) := by
      intro set next
      right; left
      simp [State.recorder, next, set]
    cases at' : s.capture with
    | newImageCapture =>
      right; right
      rw [capture, at']
      trivial
    | countDown =>
      rw [at'] at later
      obtain ⟨set, next | next⟩ := later
      · exact tested set next
      · right; right
        obtain ⟨same, goes⟩ := recorder_waiting blocks next
        rw [capture, at']
        exact ⟨same.trans set, goes⟩
    | resetCount =>
      rw [at'] at later
      obtain ⟨set, next | ⟨next, free⟩⟩ := later
      · exact tested set next
      · right; right
        have zero : s.imageLatch.count = 0 := by rw [inv.count, if_pos at']
        obtain ⟨test, same⟩ := recorder_wait blocks next (.inr (.inr ⟨zero, free⟩))
        rw [capture, at']
        exact ⟨same.trans set, .inl test⟩
    | store =>
      rw [at'] at later
      obtain ⟨set, next | ⟨next, goes⟩⟩ := later
      · exact tested set next
      · right; right
        obtain ⟨test, same⟩ := recorder_wait blocks next (goes.imp_right .inl)
        rw [capture, at']
        exact ⟨same.trans set, .inl test⟩

theorem Lost.recorder (inv : Inv s) (lost : Lost blocks s) : Lost blocks (s.recorder blocks) := by
  obtain ⟨image, capture, count, recorded⟩ := recorder_same blocks s
  obtain ⟨older, told, ways⟩ := lost
  have other : s.update ≠ .record := by
    rcases ways with clear | ⟨-, test | wait⟩ | ⟨-, -, wait, -⟩
    · simp [clear]
    · simp [test]
    · simp [wait]
    · simp [wait]
  refine ⟨?_, by rwa [capture], ?_⟩
  · rwa [recorded, if_neg other, image]
  · rcases ways with clear | ⟨unset, test | wait⟩ | ⟨rfl, idle, wait, asleep⟩
    · right; left
      simp [State.recorder, clear]
    · right; left
      simp [State.recorder, test, unset]
    · right; left
      obtain ⟨same, goes⟩ := recorder_waiting blocks wait
      exact ⟨same.trans unset, goes⟩
    · right; right
      have closed : s.imageLatch.count = 1 := by rw [inv.count, idle]; rfl
      obtain ⟨still, asleep⟩ := recorder_blocked wait closed asleep
      exact ⟨rfl, capture.trans idle, still, asleep⟩

/-- A turn of the camera that is not missed keeps the image safe. -/
theorem Safe.camera (safe : Safe blocks s) (inv : Inv s) (timely : ¬ Missed blocks s) : Safe blocks s.camera := by
  cases at' : s.capture with
  | store =>
    right; right
    simp [State.camera, at']
  | newImageCapture =>
    rw [Missed, at', not_and] at timely
    simp only [Safe, State.camera, at']
    cases next : s.update with
    | test => simp
    | record => simp
    | clear => exact .inl (Nat.le_antisymm inv.recorded (Nat.le_of_not_lt (timely next)))
    | wait => simp
  | countDown =>
    simp only [Safe, at'] at safe
    simp only [Safe, State.camera, at']
    rcases safe with same | copies | ⟨set, next⟩
    · exact .inl same
    · exact .inr (.inl copies)
    · exact .inr (.inr ⟨set, next.imp_right fun wait => ⟨wait, fun timed => notify_waits⟩⟩)
  | resetCount =>
    rw [Missed, at'] at timely
    simp only [Safe, at'] at safe
    simp only [Safe, State.camera, at']
    rcases safe with same | copies | ⟨set, test | ⟨wait, free⟩⟩
    · exact .inl same
    · exact .inr (.inl copies)
    · exact .inr (.inr ⟨set, .inl test⟩)
    · by_cases older : s.recorded < s.image
      · right; right
        refine ⟨set, .inr ⟨wait, ?_⟩⟩
        cases phase : s.imageLatch.phase .recorder with
        | out => exact .inl (Bool.eq_false_iff.mpr fun blocked => timely ⟨blocked, wait, phase, older⟩)
        | waits timed => exact absurd phase (free timed)
        | woken result => exact .inr ⟨result, rfl⟩
      · exact .inl (Nat.le_antisymm inv.recorded (Nat.le_of_not_lt older))

/-- A missed turn of the camera loses the image. -/
theorem Missed.camera (missed : Missed blocks s) : Lost blocks s.camera := by
  cases at' : s.capture with
  | store => simp [Missed, at'] at missed
  | newImageCapture =>
    rw [Missed, at'] at missed
    simp [Lost, State.camera, at', missed]
  | countDown => simp [Missed, at'] at missed
  | resetCount =>
    rw [Missed, at'] at missed
    obtain ⟨blocked, wait, out, older⟩ := missed
    simp [Lost, State.camera, at', blocked, wait, out, older]

/-- Until the next image is stored, a lost one stays lost. -/
theorem Lost.camera (lost : Lost blocks s) (more : s.capture ≠ .store) : Lost blocks s.camera := by
  obtain ⟨older, told, ways⟩ := lost
  cases at' : s.capture with
  | store => exact absurd at' more
  | newImageCapture => exact absurd at' told
  | countDown =>
    simp only [at', reduceCtorEq, false_and, and_false, or_false] at ways
    simp [Lost, State.camera, at', older, ways]
  | resetCount =>
    simp only [at', reduceCtorEq, false_and, and_false, or_false] at ways
    rcases ways with clear | unset
    · simp [Lost, State.camera, at', older, clear]
    · simp [Lost, State.camera, at', older, unset]

/-! ### Runs -/

theorem run_append (blocks : Bool) (schedule : List Thread) (thread : Thread) :
    run blocks (schedule ++ [thread]) = (run blocks schedule).turn blocks thread := by
  simp [run]

theorem run_inv (blocks : Bool) (schedule : List Thread) : Inv (run blocks schedule) := by
  induction schedule using List.reverseRecOn with
  | nil => exact inv_new
  | append_singleton schedule thread ih =>
    rw [run_append]
    exact ih.turn thread

theorem turn_image (blocks : Bool) (s : State) (thread : Thread) : (s.turn blocks thread).image =
    if thread = .camera ∧ s.capture = .store then s.image + 1 else s.image := by
  cases thread with
  | camera => cases at' : s.capture <;> simp [State.turn, State.camera, at']
  | recorder => simp [State.turn, (recorder_same blocks s).1]

/-- Images are only stored, never taken back. -/
theorem run_image (blocks : Bool) (before after : List Thread) : (run blocks before).image ≤ (run blocks (before ++ after)).image := by
  induction after using List.reverseRecOn with
  | nil => simp
  | append_singleton after thread ih =>
    rw [← List.append_assoc, run_append, turn_image]
    split <;> omega

/-- A schedule with one turn more is timely if it stores an image, or was timely and the turn is not missed. -/
theorem timely_append (blocks : Bool) (schedule : List Thread) (thread : Thread) : Timely blocks (schedule ++ [thread]) ↔
    (thread = .camera ∧ (run blocks schedule).capture = .store) ∨
      Timely blocks schedule ∧ (thread = .camera → ¬ Missed blocks (run blocks schedule)) := by
  have image := turn_image blocks (run blocks schedule) thread
  rw [← run_append] at image
  constructor
  · intro timely
    by_cases stores : thread = .camera ∧ (run blocks schedule).capture = .store
    · exact .inl stores
    · rw [if_neg stores] at image
      refine .inr ⟨fun before after split same => ?_, fun camera => ?_⟩
      · exact timely before (after ++ [thread]) (by simp [split]) (same.trans image.symm)
      · exact timely schedule [] (by rw [camera]) image.symm
  · intro ways before after split same
    rcases split_concat.mp split with ⟨rfl, camera, -⟩ | ⟨rest, -, inside⟩
    · rcases ways with stores | ⟨-, timely⟩
      · rw [if_pos stores] at image
        omega
      · exact timely camera.symm
    · have earlier := run_image blocks before (.camera :: rest)
      have later := run_image blocks schedule [thread]
      rw [← inside] at earlier
      rcases ways with stores | ⟨timely, -⟩
      · rw [if_pos stores] at image
        omega
      · exact timely before rest inside (by omega)

/-- The newest image is safe as long as its turns are timely, and lost from the first one that is missed. -/
theorem safe_or_lost (blocks : Bool) (schedule : List Thread) :
    Timely blocks schedule ∧ Safe blocks (run blocks schedule) ∨ ¬ Timely blocks schedule ∧ Lost blocks (run blocks schedule) := by
  induction schedule using List.reverseRecOn with
  | nil =>
    refine .inl ⟨fun before after split => ?_, .inl rfl⟩
    simp at split
  | append_singleton schedule thread ih =>
    have inv := run_inv blocks schedule
    rw [timely_append, run_append]
    cases thread with
    | recorder =>
      rcases ih with ⟨timely, safe⟩ | ⟨late, lost⟩
      · exact .inl ⟨.inr ⟨timely, nofun⟩, safe.recorder inv⟩
      · exact .inr ⟨by simp [late], lost.recorder inv⟩
    | camera =>
      by_cases stores : (run blocks schedule).capture = .store
      · refine .inl ⟨.inl ⟨rfl, stores⟩, .inr (.inr ?_)⟩
        simp [State.turn, State.camera, stores]
      · by_cases missed : Missed blocks (run blocks schedule)
        · exact .inr ⟨by simp [stores, missed], missed.camera⟩
        · rcases ih with ⟨timely, safe⟩ | ⟨late, lost⟩
          · exact .inl ⟨.inr ⟨timely, fun _ => missed⟩, safe.camera inv missed⟩
          · exact .inr ⟨by simp [stores, late], lost.camera stores⟩

/-! ### What the recorder does in the end -/

/-- While the camera rests, a lost image is never recorded. -/
theorem Lost.iterate (inv : Inv s) (lost : Lost blocks s) (n : ℕ) :
    Inv ((State.recorder blocks)^[n] s) ∧ Lost blocks ((State.recorder blocks)^[n] s) ∧ ((State.recorder blocks)^[n] s).image = s.image := by
  induction n with
  | zero => exact ⟨inv, lost, rfl⟩
  | succ n ih =>
    obtain ⟨inv, lost, same⟩ := ih
    rw [Function.iterate_succ_apply']
    exact ⟨inv.recorder, lost.recorder inv, (recorder_same blocks _).1.trans same⟩

theorem recorded_record (blocks : Bool) (next : s.update = .record) : s.image ≤ (s.recorder blocks).recorded := by
  have recorded := (recorder_same blocks s).2.2.2
  rw [if_pos next] at recorded
  exact Nat.le_of_eq recorded.symm

theorem recorded_test (blocks : Bool) (next : s.update = .test) (set : s.newFrame = true) : s.image ≤ ((State.recorder blocks)^[2] s).recorded := by
  have copies : (s.recorder blocks).update = .record := by simp [State.recorder, next, set]
  have whole := recorded_record blocks copies
  rwa [(recorder_same blocks s).1] at whole

/-- While the camera rests, a safe image is recorded after at most three turns. -/
theorem Safe.recorded (safe : Safe blocks s) (idle : s.capture = .store) : ∃ n, s.image ≤ ((State.recorder blocks)^[n] s).recorded := by
  rw [Safe, idle] at safe
  rcases safe with same | copies | ⟨set, test | ⟨wait, goes⟩⟩
  · exact ⟨0, Nat.le_of_eq same.symm⟩
  · exact ⟨1, recorded_record blocks copies⟩
  · exact ⟨2, recorded_test blocks test set⟩
  · obtain ⟨test, same⟩ := recorder_wait blocks wait (goes.imp_right .inl)
    have whole := recorded_test blocks test (same.trans set)
    rw [(recorder_same blocks s).1] at whole
    exact ⟨3, whole⟩

end

/-- The newest image is recorded if and only if none of the turns that capture it comes at a bad time. -/
theorem newest_recorded (blocks : Bool) (schedule : Captured blocks) : Kept blocks schedule.val ↔ Timely blocks schedule.val := by
  rcases safe_or_lost blocks schedule.val with ⟨timely, safe⟩ | ⟨late, lost⟩
  · exact ⟨fun _ => timely, fun _ => safe.recorded schedule.property⟩
  · refine ⟨fun kept => ?_, fun timely => absurd timely late⟩
    obtain ⟨n, newest⟩ := kept
    obtain ⟨-, still, same⟩ := lost.iterate (run_inv blocks schedule.val) n
    have older := still.1
    omega

/-- The second image is captured while the first one is recorded, and the flag is cleared for both. -/
theorem newest_lost : ¬ Kept false [.camera, .camera, .camera, .camera, .recorder, .recorder, .camera, .camera, .camera, .camera] := by
  intro kept
  obtain ⟨n, newest⟩ := kept
  have lost : Lost false (run false [.camera, .camera, .camera, .camera, .recorder, .recorder, .camera, .camera, .camera, .camera]) :=
    ⟨by decide, by decide, .inl (by decide)⟩
  obtain ⟨-, still, same⟩ := lost.iterate (run_inv false _) n
  have older := still.1
  omega

end Tortuga.Recorders
