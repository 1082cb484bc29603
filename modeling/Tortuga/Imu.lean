import Mathlib.Algebra.Order.Ring.Rat
import Mathlib.Data.Rat.Defs
import Tortuga.SensorApi

/-!
The driver of the IMU (`imuapi.c`): four synchronization bytes and 34 bytes of a frame are read
from a serial line, and what the frame says is stored in the structure of the caller. The checksum
of the frame comes last, with a flag in the structure that says whether it matches.
-/
namespace Tortuga.Imu
open Tortuga.Programs Tortuga.Programs.Prog Tortuga.BusCodes
open Tortuga.SensorApi (Buf store firstBytes bufOf)
set_option linter.unusedSimpArgs false

abbrev frameSize : ℕ := 34

/-- `M_PI / 180`, with the double that `M_PI` is. -/
def degsToRadians : ℚ := 884279719003555 / 281474976710656 / 180

/-! ### The driver -/

/-- The result of a `read`. -/
inductive Answer where
  | failed
  | got (bytes : List Byte)
  deriving DecidableEq, Repr

structure Measurement where
  messageID : ℕ
  sampleTimer : ℕ
  gyroX : ℚ
  gyroY : ℚ
  gyroZ : ℚ
  accelX : ℚ
  accelY : ℚ
  accelZ : ℚ
  magX : ℚ
  magY : ℚ
  magZ : ℚ
  tempX : ℚ
  tempY : ℚ
  tempZ : ℚ
  deriving DecidableEq, Repr

structure RawIMUData where
  measurement : Measurement
  checksumValid : Bool
  deriving DecidableEq, Repr

/-- Reads of the line, what is stored in the caller's structure, and what is printed. -/
inductive Op where
  | read (nbytes : ℕ)
  | measurement (m : Measurement)
  | checksumValid (valid : Bool)
  | printf (text : String)
  deriving DecidableEq, Repr

abbrev Ans : Op → Type
  | .read _ => Answer
  | _ => Unit

inductive Loop where
  | waitByte
  | sync
  | frame
  deriving DecidableEq, Repr

abbrev Driver := Prog Op Ans Loop

def imuWaitByte : Driver Byte :=
  .loop .waitByte () (fun _ => .ask (.read 1) fun
    | .got [b] => .ret (.inr b)
    | _ => .ret (.inl ())) .ret

def imuWaitSync : Driver Unit :=
  .loop .sync (0, 0) (fun x =>
    if x.1 ≠ 4 then do
      let b ← imuWaitByte
      return .inl (if b = 0xFF#8 then x.1 + 1 else 0, x.2 + 1)
    else return .inr x.2) fun syncLen : ℕ =>
  if syncLen > 4 then .ask (.printf "Warning! IMU sync sequence took longer than 4 bytes!!\n") fun _ => .ret ()
  else .ret ()

/-- `len += read(fd, imuData + len, 34 - len)`. A byte outside the buffer must not be written. -/
def readTo (len : Int) (imuData : Buf) : Driver (Int × Buf) :=
  .ask (.read (frameSize - len).toNat) fun
    | .failed => .ret (len - 1, imuData)
    | .got [] => .ret (len, imuData)
    | .got bytes =>
      if 0 ≤ len ∧ len + bytes.length ≤ frameSize then .ret (len + bytes.length, store imuData len.toNat bytes) else .fault

def fill (imuData : Buf) : Driver Buf :=
  .loop .frame ((0 : Int), imuData) (fun x =>
    if x.1 < frameSize then do
      let x ← readTo x.1 x.2
      return .inl x
    else return .inr x.2) .ret

def imuConvert16 (msb lsb : Byte) : Int := (msb.setWidth 16 <<< 8 ||| lsb.setWidth 16).toInt

def imuConvertData (msb lsb : Byte) (range : ℚ) : ℚ := imuConvert16 msb lsb * (range / 2 * (3 / 2)) / 32768

def temperature (msb lsb : Byte) : ℚ := imuConvert16 msb lsb * 5 / 32768 / (84 / 10000) + 25

/-- The assignments of `readIMUData` before the checksum. -/
def measure (imuData : Buf) : Measurement where
  messageID := (imuData 0).toNat
  sampleTimer := ((imuData 3).setWidth 32 <<< 8 ||| (imuData 4).setWidth 32).toNat
  gyroX := imuConvertData (imuData 9) (imuData 10) 600 * degsToRadians
  gyroY := imuConvertData (imuData 11) (imuData 12) 600 * degsToRadians
  gyroZ := imuConvertData (imuData 13) (imuData 14) 600 * degsToRadians
  accelX := imuConvertData (imuData 15) (imuData 16) 4
  accelY := imuConvertData (imuData 17) (imuData 18) 4
  accelZ := imuConvertData (imuData 19) (imuData 20) 4
  magX := imuConvertData (imuData 21) (imuData 22) (19 / 10)
  magY := imuConvertData (imuData 23) (imuData 24) (19 / 10)
  magZ := imuConvertData (imuData 25) (imuData 26) (19 / 10)
  tempX := temperature (imuData 27) (imuData 28)
  tempY := temperature (imuData 29) (imuData 30)
  tempZ := temperature (imuData 31) (imuData 32)

/-- The sum of the first 33 bytes and the synchronization bytes. -/
def sum (imuData : Buf) : ℕ := (firstBytes imuData 33).foldl (fun sum b => sum + b.toNat) 0 + 0xFF * 4

/-- `imuData[33] == (sum & 0xFF)`. -/
def Matches (imuData : Buf) : Prop := (imuData 33).toNat = sum imuData &&& 0xFF

instance (imuData : Buf) : Decidable (Matches imuData) := inferInstanceAs (Decidable (_ = _))

/-- `stack` is what the buffer holds before anything is written to it. -/
def readIMUData (stack : Buf) : Driver Bool := do
  imuWaitSync
  let imuData ← fill stack
  .ask (.measurement (measure imuData)) fun _ =>
    let valid := decide (Matches imuData)
    .ask (.checksumValid valid) fun _ =>
      if !valid then .ask (.printf "WARNING! IMU Checksum Bad!\n") fun _ => .ret valid
      else .ret valid

/-! ### What is meant -/

/-- The bytes that have come, and what the structure of the caller holds. -/
structure Watch where
  bytes : List Byte
  imu : RawIMUData
  deriving DecidableEq, Repr

def Watch.next (w : Watch) : Event Op Ans Loop Empty → Watch
  | .call (.read _) (.got bytes) => { w with bytes := w.bytes ++ bytes }
  | .call (.measurement m) _ => { w with imu := { w.imu with measurement := m } }
  | .call (.checksumValid valid) _ => { w with imu := { w.imu with checksumValid := valid } }
  | _ => w

/-- No read fails, and none gives more than it is asked for. -/
def Possible : Event Op Ans Loop Empty → Prop
  | .call (.read _) .failed => False
  | .call (.read nbytes) (.got bytes) => bytes.length ≤ nbytes
  | _ => True

instance : DecidablePred Possible
  | .call (.read _) .failed => isFalse id
  | .call (.read nbytes) (.got bytes) => inferInstanceAs (Decidable (bytes.length ≤ nbytes))
  | .call (.measurement _) _ | .call (.checksumValid _) _ | .call (.printf _) _ | .iter _ | .ext _ => isTrue trivial

/-- The last bytes are `fs` synchronization bytes. -/
def Synced (fs : ℕ) (bytes : List Byte) : Prop := List.replicate fs 0xFF#8 <:+ bytes

/-- The bytes end with the first four synchronization bytes in a row. -/
def Sync (bytes : List Byte) : Prop := Synced 4 bytes ∧ ∀ before, before <+: bytes → Synced 4 before → before = bytes

/-- Among the bytes that have come is a complete frame. -/
def Received (bytes : List Byte) (frame : Buf) : Prop := ∃ noise, Sync noise ∧ noise ++ firstBytes frame frameSize <+: bytes

/-- The caller's structure has the measurement of a complete frame, or is as it was. -/
def Kept (imu : RawIMUData) (w : Watch) : Prop := w.imu = imu ∨ ∃ frame, Received w.bytes frame ∧ w.imu.measurement = measure frame

/-- What is stored comes from a complete frame. -/
def Whole (w : Watch) : Event Op Ans Loop Empty → Prop
  | .call (.measurement m) _ => ∃ frame, Received w.bytes frame ∧ m = measure frame
  | .call (.checksumValid valid) _ => ∃ frame, Received w.bytes frame ∧ w.imu.measurement = measure frame ∧ valid = decide (Matches frame)
  | _ => True

def watch : Monitor Op Ans Loop Empty Watch where
  next := Watch.next
  allows _ := Possible
  demands := Whole
  faults _ := False

/-! ### The synchronization bytes -/

section
variable {bytes : List Byte} {fs : ℕ} {b : Byte}

theorem synced_zero (bytes : List Byte) : Synced 0 bytes := List.nil_suffix

theorem synced_concat : Synced (fs + 1) (bytes ++ [b]) ↔ b = 0xFF#8 ∧ Synced fs bytes := by
  rw [Synced, Synced, List.replicate_succ', List.suffix_concat_iff]
  constructor
  · rintro (none | ⟨l, same, behind⟩)
    · simp at none
    · obtain ⟨rfl, last⟩ := List.append_inj' same rfl
      exact ⟨(List.singleton_inj.mp last).symm, behind⟩
  · rintro ⟨rfl, behind⟩
    exact .inr ⟨_, rfl, behind⟩

theorem Synced.of_le {more : ℕ} (synced : Synced more bytes) (le : fs ≤ more) : Synced fs bytes := by
  obtain ⟨k, rfl⟩ : ∃ k, more = k + fs := ⟨more - fs, by omega⟩
  rw [Synced, ← List.replicate_append_replicate] at synced
  exact (List.suffix_append _ _).trans synced

/-- What `fs` counts: there have not been four synchronization bytes in a row yet. -/
structure Searching (fs : ℕ) (bytes : List Byte) : Prop where
  few : fs < 4
  synced : Synced fs bytes
  exact : ¬ Synced (fs + 1) bytes
  never : ∀ before, before <+: bytes → ¬ Synced 4 before

theorem searching_nil : Searching 0 [] where
  few := by omega
  synced := synced_zero []
  exact synced := by simp [Synced] at synced
  never before first synced := by
    rw [List.prefix_nil.mp first] at synced
    simp [Synced] at synced

theorem not_synced_concat (searching : Searching fs bytes) (other : b ≠ 0xFF#8) (before : List Byte)
    (first : before <+: bytes ++ [b]) : ¬ Synced 4 before := by
  rcases List.prefix_concat_iff.mp first with rfl | earlier
  · intro synced
    exact other (synced_concat.mp synced).1
  · exact searching.never before earlier

/-- One byte more: the search goes on, or has come to its end. -/
theorem Searching.next (searching : Searching fs bytes) (b : Byte) :
    Searching (if b = 0xFF#8 then fs + 1 else 0) (bytes ++ [b]) ∨ (if b = 0xFF#8 then fs + 1 else 0) = 4 ∧ Sync (bytes ++ [b]) := by
  by_cases same : b = 0xFF#8
  · rw [if_pos same]
    have synced : Synced (fs + 1) (bytes ++ [b]) := synced_concat.mpr ⟨same, searching.synced⟩
    have longest (more : ℕ) (further : Synced (more + 1) (bytes ++ [b])) : more ≤ fs := by
      by_contra beyond
      exact searching.exact ((synced_concat.mp further).2.of_le (by omega))
    by_cases last : fs + 1 = 4
    · refine .inr ⟨last, last ▸ synced, fun before first four => ?_⟩
      rcases List.prefix_concat_iff.mp first with whole | earlier
      · exact whole
      · exact absurd four (searching.never before earlier)
    · have few := searching.few
      refine .inl ⟨by omega, synced, fun further => ?_, fun before first four => ?_⟩
      · have := longest (fs + 1) further
        omega
      · rcases List.prefix_concat_iff.mp first with rfl | earlier
        · have := longest 3 four
          omega
        · exact searching.never before earlier four
  · rw [if_neg same]
    refine .inl ⟨by omega, synced_zero _, fun synced => ?_, not_synced_concat searching same⟩
    exact same (synced_concat.mp synced).1

end

/-! ### The reads -/

section
variable {α : Type} {Q : α → Watch → Prop} {w : Watch}

theorem still : Still watch := fun _ e => e.elim

theorem wp_ret {a : α} (post : Q a w) : wp watch (.ret a) Q w := still.ret post

theorem wp_read {nbytes : ℕ} {k : Answer → Driver α}
    (rest : ∀ bytes, bytes.length ≤ nbytes → wp watch (k (.got bytes)) Q { w with bytes := w.bytes ++ bytes }) :
    wp watch (.ask (.read nbytes) k) Q w := by
  refine still.ask fun answer possible => ⟨trivial, ?_⟩
  cases answer with
  | failed => cases possible
  | got bytes => exact rest bytes possible

theorem wp_print {text : String} {k : Unit → Driver α} (rest : wp watch (k ()) Q w) : wp watch (.ask (.printf text) k) Q w :=
  still.ask fun _ _ => ⟨trivial, rest⟩

/-- A loop with an invariant over what it carries and what has happened. -/
theorem wp_loop {σ β : Type} {l : Loop} {x : σ} {body : σ → Driver (σ ⊕ β)} {k : β → Driver α} (J : σ → Watch → Prop) (start : J x w)
    (round : ∀ y u, J y u → wp watch (body y) (fun r v => match r with
      | .inl z => J z v
      | .inr b => wp watch (k b) Q v) u) : wp watch (.loop l x body k) Q w := by
  refine still.loop J start fun y u inv _ => ⟨trivial, wp_mono ?_ (round y u inv)⟩
  rintro (z | b) v post
  · exact post
  · exact post

theorem wp_imuWaitByte {f : Byte → Driver α} (rest : ∀ b, wp watch (f b) Q { w with bytes := w.bytes ++ [b] }) :
    wp watch (imuWaitByte.bind f) Q w := by
  rw [imuWaitByte, loop_bind]
  refine wp_loop (fun _ u => u = w) rfl fun y u same => ?_
  rw [same]
  refine wp_read fun bytes one => ?_
  match bytes with
  | [] =>
    refine wp_ret ?_
    show ({ w with bytes := w.bytes ++ [] } : Watch) = w
    rw [List.append_nil]
  | [b] => exact wp_ret (rest b)
  | _ :: _ :: _ => simp at one

theorem wp_imuWaitSync {f : Unit → Driver α} (new : w.bytes = [])
    (rest : ∀ bytes, Sync bytes → wp watch (f ()) Q { w with bytes := bytes }) : wp watch (imuWaitSync.bind f) Q w := by
  rw [imuWaitSync, loop_bind]
  refine wp_loop (fun x u => u.imu = w.imu ∧ (Searching x.1 u.bytes ∨ x.1 = 4 ∧ Sync u.bytes)) ⟨rfl, .inl (new ▸ searching_nil)⟩ ?_
  rintro ⟨fs, syncLen⟩ ⟨bytes, imu⟩ ⟨same, state⟩
  dsimp only at same state ⊢
  cases same
  rcases state with searching | ⟨four, sync⟩
  · have short : fs ≠ 4 := Nat.ne_of_lt searching.few
    rw [if_pos short]
    refine wp_imuWaitByte fun b => wp_ret ?_
    exact ⟨rfl, searching.next b⟩
  · rw [if_neg (not_not.mpr four)]
    refine wp_ret ?_
    dsimp only
    by_cases long : syncLen > 4
    · rw [if_pos long]
      exact wp_print (rest bytes sync)
    · rw [if_neg long]
      exact rest bytes sync

theorem firstBytes_store (buf : Buf) (len : ℕ) (bytes : List Byte) :
    firstBytes (store buf len bytes) (len + bytes.length) = firstBytes buf len ++ bytes := by
  refine List.ext_getElem (by simp [firstBytes]) fun i low _ => ?_
  simp only [firstBytes, List.length_map, List.length_range] at low
  by_cases before : i < len
  · simp [firstBytes, store, before, Nat.not_le.mpr before]
  · have inside : i - len < bytes.length := by omega
    simp [firstBytes, store, before, inside, Nat.le_of_not_lt before]

theorem wp_fill {stack : Buf} {f : Buf → Driver α}
    (rest : ∀ frame, wp watch (f frame) Q { w with bytes := w.bytes ++ firstBytes frame frameSize }) : wp watch ((fill stack).bind f) Q w := by
  rw [fill, loop_bind]
  refine wp_loop (fun x u => ∃ len : ℕ, x.1 = len ∧ len ≤ frameSize ∧ u = { w with bytes := w.bytes ++ firstBytes x.2 len }) ?_ ?_
  · refine ⟨0, rfl, Nat.zero_le _, ?_⟩
    rw [show firstBytes stack 0 = [] from rfl, List.append_nil]
  · rintro ⟨_, imuData⟩ u ⟨len, rfl, low, rfl⟩
    dsimp only
    by_cases short : (len : Int) < frameSize
    · rw [if_pos short, readTo, bind_eq, ask_bind]
      refine wp_read fun bytes fits => ?_
      cases bytes with
      | nil =>
        refine wp_ret ⟨len, rfl, low, ?_⟩
        rw [List.append_nil]
      | cons b more =>
        have inside : 0 ≤ (len : Int) ∧ (len : Int) + (b :: more).length ≤ frameSize := by omega
        dsimp only
        rw [if_pos inside]
        refine wp_ret ⟨len + (b :: more).length, by push_cast; rfl, by omega, ?_⟩
        rw [Int.toNat_natCast, firstBytes_store, List.append_assoc]
    · rw [if_neg short]
      obtain rfl : len = frameSize := by omega
      exact wp_ret (rest imuData)

end

/-- Every store of the call is of a complete frame, and it comes back with one stored. -/
theorem wp_readIMUData (stack : Buf) (imu : RawIMUData) :
    wp watch (readIMUData stack) (fun r w => ∃ frame, Received w.bytes frame ∧ w.imu = ⟨measure frame, decide (Matches frame)⟩ ∧
      r = decide (Matches frame)) ⟨[], imu⟩ := by
  rw [readIMUData, bind_eq]
  refine wp_imuWaitSync rfl fun noise sync => ?_
  rw [bind_eq]
  refine wp_fill fun frame => ?_
  have received : Received (noise ++ firstBytes frame frameSize) frame := ⟨noise, sync, List.prefix_rfl⟩
  refine still.ask fun _ _ => ⟨⟨frame, received, rfl⟩, ?_⟩
  refine still.ask fun _ _ => ⟨⟨frame, received, rfl, rfl⟩, ?_⟩
  by_cases bad : (!decide (Matches frame)) = true
  · rw [if_pos bad]
    exact wp_print (wp_ret ⟨frame, received, rfl, rfl⟩)
  · rw [if_neg bad]
    exact wp_ret ⟨frame, received, rfl, rfl⟩

/-! ### Whole runs -/

theorem Received.append {bytes more : List Byte} {frame : Buf} (received : Received bytes frame) : Received (bytes ++ more) frame := by
  obtain ⟨noise, sync, first⟩ := received
  exact ⟨noise, sync, first.trans (List.prefix_append _ _)⟩

/-- An event of the driver keeps what the caller may rely on. -/
theorem Kept.next {imu : RawIMUData} {w : Watch} {e : Event Op Ans Loop Empty} (kept : Kept imu w) (whole : Whole w e) :
    Kept imu (w.next e) := by
  cases e with
  | ext e => cases e
  | iter l => exact kept
  | call o a =>
    cases o with
    | printf text => exact kept
    | measurement m =>
      obtain ⟨frame, received, rfl⟩ := whole
      exact .inr ⟨frame, received, rfl⟩
    | checksumValid valid =>
      obtain ⟨frame, received, measured, _⟩ := whole
      exact .inr ⟨frame, received, measured⟩
    | read nbytes =>
      cases a with
      | failed => exact kept
      | got bytes =>
        rcases kept with same | ⟨frame, received, measured⟩
        · exact .inl same
        · exact .inr ⟨frame, received.append, measured⟩

theorem Kept.after {imu : RawIMUData} {w : Watch} {tr : List (Event Op Ans Loop Empty)} (kept : Kept imu w)
    (along : watch.Along (fun t e => e.Own → Whole t e) w tr) : Kept imu (watch.after w tr) := by
  refine watch.after_invariant (fun u e inv whole => inv.next ?_) kept along
  cases e with
  | ext e => cases e
  | iter l => exact whole trivial
  | call o a => exact whole trivial

/-- Whatever comes over the line, the caller's structure is as it was until a complete frame has been
    received, and the call does not come back before. Then the structure has the values of the frame,
    and the flag and the result say whether its checksum matches. -/
theorem readIMUData_atomic (stack : Buf) (imu : RawIMUData) (tr : List (Event Op Ans Loop Empty)) (q : Driver Bool)
    (run : Run (readIMUData stack) tr q) (possible : ∀ e ∈ tr, Possible e) :
    let w := watch.after ⟨[], imu⟩ tr
    q ≠ .fault ∧ Kept imu w ∧ ∀ r, q = .ret r → ∃ frame, Received w.bytes frame ∧
      w.imu = ⟨measure frame, decide (Matches frame)⟩ ∧ r = decide (Matches frame) := by
  obtain ⟨along, rest⟩ := wp_run run (watch.along_of_forall _ possible) (wp_readIMUData stack imu)
  refine ⟨?_, Kept.after (.inl rfl) along, ?_⟩
  · rintro rfl
    exact rest _ .refl
  · rintro r rfl
    exact rest _ .refl

/-- The bytes come one by one up to the frame, which comes in one piece. -/
def synced (frame : List Byte) : List (Event Op Ans Loop Empty) :=
  .iter .sync :: (List.replicate 4 [.iter .waitByte, .call (.read 1) (.got [0xFF#8]), .iter .sync]).flatten ++
    [.iter .frame, .call (.read 34) (.got frame), .iter .frame]

/-- A frame of zeros but for its checksum. -/
def zeros (checksum : Byte) : List Byte := List.replicate 33 0 ++ [checksum]

/-- The trace of a call that such a frame answers. -/
def answered (checksum : Byte) : List (Event Op Ans Loop Empty) :=
  let imuData := store (bufOf []) 0 (zeros checksum)
  synced (zeros checksum) ++ .call (.measurement (measure imuData)) () :: .call (.checksumValid (decide (Matches imuData))) () ::
    if Matches imuData then [] else [.call (.printf "WARNING! IMU Checksum Bad!\n") ()]

/-- A measurement that the caller has from before. -/
def before : RawIMUData := ⟨measure (bufOf [7]), true⟩

theorem readIMUData_zeros : ∃ q, Run (readIMUData (bufOf [])) (answered 0xFC#8) q ∧
    let w := watch.after ⟨[], before⟩ (answered 0xFC#8)
    q ≠ .fault ∧ Kept before w ∧ ∀ r, q = .ret r → ∃ frame, Received w.bytes frame ∧
      w.imu = ⟨measure frame, decide (Matches frame)⟩ ∧ r = decide (Matches frame) := by
  obtain ⟨q, run⟩ := run_of_follow (readIMUData (bufOf [])) (answered 0xFC#8) (by decide +kernel)
  exact ⟨q, run, readIMUData_atomic (bufOf []) before (answered 0xFC#8) q run (by decide +kernel)⟩

/-- A frame of zeros whose checksum is wrong is stored all the same, with the flag off. -/
theorem readIMUData_bad : (∃ q, Run (readIMUData (bufOf [])) (answered 0#8) q) ∧ (∀ e ∈ answered 0#8, Possible e) ∧
    ¬ Matches (store (bufOf []) 0 (zeros 0#8)) ∧
    let w := watch.after ⟨[], before⟩ (answered 0#8)
    w.imu.checksumValid = false ∧ w.imu.measurement ≠ before.measurement := by
  refine ⟨run_of_follow (readIMUData (bufOf [])) (answered 0#8) (by decide +kernel), ?_⟩
  decide +kernel

end Tortuga.Imu
