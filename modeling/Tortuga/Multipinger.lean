import Mathlib.Data.BitVec
import Mathlib.Data.Fin.VecNotation
import Tortuga.SlidingWindows

/-!
The multi-pinger (`multipinger/main.cpp`): the power of the last samples of each channel, the trigger, and the
search for the edges of a ping. The harmonic and the direction of a ping are left out.
-/
namespace Tortuga.Multipinger
open Tortuga.SlidingWindows
set_option linter.unusedSimpArgs false

/-! ### Settings -/

abbrev nChannels : ℕ := 4

theorem neZero_nChannels : NeZero nChannels := ⟨by decide⟩

attribute [local instance] neZero_nChannels

/-- `BLOCKSIZE`, in samples. -/
abbrev blockSize : ℕ := 256

/-- `LOOKBACKBUFSIZE`, 16 blocks. -/
abbrev lookbackBufSize : ℕ := 4096

abbrev powerOversampleBits : ℕ := 12

/-- `HOLDON_NSAMPLES`. -/
abbrev holdonNSamples : ℕ := 128

/-- `(int32_t)((1 << POWER_OVERSAMPLEBITS) * avgs[channel])`. -/
def average : Fin nChannels → BitVec 32 := ![-2050397, -3332515, -3119739, -7971855]

/-! ### The power -/

/-- How far a sample is from the average. -/
def diff (ch : Fin nChannels) (sample : BitVec 16) : BitVec 32 := sample.signExtend 32 <<< powerOversampleBits - average ch

/-- The power of a sample, `(int64_t)diff * diff`. -/
def samplePower (ch : Fin nChannels) (sample : BitVec 16) : BitVec 64 :=
  (diff ch sample).signExtend 64 * (diff ch sample).signExtend 64

/-- The buffers of a channel. -/
structure Channel where
  lookbackBuf : Fin lookbackBufSize → BitVec 16
  powerBuf : Fin blockSize → BitVec 64
  power : BitVec 64

def Channel.new : Channel where
  lookbackBuf _ := 0
  powerBuf _ := 0
  power := 0

/-- `iLookback & (BLOCKSIZE - 1)`. -/
def iPower (iLookback : Fin lookbackBufSize) : Fin blockSize where
  val := iLookback.val &&& (blockSize - 1)
  isLt := Nat.lt_succ_of_le Nat.and_le_right

/-- A sample is stored, and the power updated. -/
def Channel.store (c : Channel) (ch : Fin nChannels) (iLookback : Fin lookbackBufSize) (sample : BitVec 16) : Channel :=
  let lookbackBuf := Function.update c.lookbackBuf iLookback sample
  let i := iPower iLookback
  let powerBuf := Function.update c.powerBuf i (samplePower ch (lookbackBuf iLookback))
  { lookbackBuf, powerBuf, power := c.power - c.powerBuf i + powerBuf i }

/-! ### The scan for an edge -/

/-- The copies that the scan works on, and how far it has come. -/
structure Scan where
  dupPower : BitVec 64
  dupPowerBuf : Fin blockSize → BitVec 64
  iScan : Fin lookbackBufSize

def Scan.start (c : Channel) (iLookback : Fin lookbackBufSize) : Scan where
  dupPower := c.power
  dupPowerBuf := c.powerBuf
  iScan := iLookback

def previous (iScan : Fin lookbackBufSize) : Fin lookbackBufSize where
  val := if iScan.val = 0 then lookbackBufSize - 1 else iScan.val - 1
  isLt := by
    have bound := iScan.isLt
    split <;> omega

/-- The body of the loop. -/
def Scan.back (c : Channel) (ch : Fin nChannels) (s : Scan) : Scan :=
  let iScan := previous s.iScan
  let i := iPower iScan
  let dupPowerBuf := Function.update s.dupPowerBuf i (samplePower ch (c.lookbackBuf iScan))
  { dupPower := s.dupPower - s.dupPowerBuf i + dupPowerBuf i, dupPowerBuf, iScan }

/-- The loop goes on: it has not come around, and the signal is still loud. -/
def Scan.Continues (noisePower : BitVec 64) (iLookback : Fin lookbackBufSize) (s : Scan) : Prop :=
  s.iScan ≠ iLookback ∧ 2 * noisePower < s.dupPower

instance (noisePower : BitVec 64) (iLookback : Fin lookbackBufSize) (s : Scan) : Decidable (s.Continues noisePower iLookback) :=
  inferInstanceAs (Decidable (_ ∧ _))

/-- The steps back from a place until the newest sample comes again. -/
def distance (iLookback iScan : Fin lookbackBufSize) : ℕ :=
  if iScan ≤ iLookback then iScan + lookbackBufSize - iLookback else iScan - iLookback

theorem distance_previous {iLookback iScan : Fin lookbackBufSize} (away : previous iScan ≠ iLookback) :
    distance iLookback (previous iScan) + 1 = distance iLookback iScan := by
  have apart : (previous iScan).val ≠ iLookback.val := fun same => away (Fin.ext same)
  have bounds := And.intro iScan.isLt iLookback.isLt
  simp only [previous, distance, Fin.le_def] at apart ⊢
  split_ifs at apart ⊢ <;> omega

/-- The whole loop. -/
def Scan.run (c : Channel) (ch : Fin nChannels) (noisePower : BitVec 64) (iLookback : Fin lookbackBufSize) (s : Scan) : Scan :=
  if _more : (s.back c ch).Continues noisePower iLookback then Scan.run c ch noisePower iLookback (s.back c ch) else s.back c ch
termination_by distance iLookback s.iScan
decreasing_by
  have closer := distance_previous _more.1
  exact Nat.lt_of_succ_le closer.le

/-- `edgeSamples[channel]`, if an edge has been found. -/
def edgeSample (iLookback iScan : Fin lookbackBufSize) : Option ℕ :=
  if iScan = iLookback then none
  else if iLookback < iScan then some (iScan - iLookback)
  else some (iScan + lookbackBufSize - iLookback)

/-! ### The main loop -/

structure State where
  channels : Fin nChannels → Channel
  iLookback : Fin lookbackBufSize
  holdoff : ℕ
  holdon : ℕ

def State.new : State where
  channels _ := .new
  iLookback := 0
  holdoff := 0
  holdon := 0

/-- What is given from outside: the noise of each channel, and `HOLDOFF_NSAMPLES` as it was converted to 16 bits. -/
structure Settings where
  noisePower : Fin nChannels → BitVec 64
  holdoffNSamples : BitVec 16

/-- What one turn of the loop does: nothing, or a search, with the edges of the ping if one is reported. -/
inductive Outcome
  | nothing
  | search (ping : Option (Fin nChannels → ℕ))

/-- A sample of each channel is stored. -/
def State.store (s : State) (samples : Fin nChannels → BitVec 16) : State :=
  { s with channels := fun ch => (s.channels ch).store ch s.iLookback (samples ch) }

/-- No channel is below its threshold. -/
def State.triggered (settings : Settings) (s : State) : Bool :=
  (List.finRange nChannels).all fun ch => !decide ((s.channels ch).power < 20 * settings.noisePower ch)

/-- The search in one channel. -/
def State.edge (settings : Settings) (s : State) (ch : Fin nChannels) : Option ℕ :=
  edgeSample s.iLookback ((Scan.start (s.channels ch) s.iLookback).run (s.channels ch) ch (settings.noisePower ch) s.iLookback).iScan

/-- The search in all channels. The positions that it does not write are whatever was in memory. -/
def State.search (settings : Settings) (memory : Fin nChannels → ℕ) (s : State) : Option (Fin nChannels → ℕ) :=
  let edgeSamples := fun ch => (s.edge settings ch).getD (memory ch)
  let allEdgesFound := (List.finRange nChannels).all fun ch => (s.edge settings ch).isSome
  if edgeSamples 0 = edgeSamples 1 ∧ edgeSamples 0 = edgeSamples 2 ∧ edgeSamples 0 = edgeSamples 3 then none
  else if allEdgesFound then some edgeSamples else none

/-- `++iLookback`, around. -/
def next (iLookback : Fin lookbackBufSize) : Fin lookbackBufSize where
  val := if iLookback.val + 1 ≥ lookbackBufSize then 0 else iLookback.val + 1
  isLt := by
    split <;> omega

/-- What comes after a sample has been stored. -/
def State.examine (settings : Settings) (memory : Fin nChannels → ℕ) (s : State) : State × Outcome :=
  if s.holdoff = 0 then
    if s.triggered settings then
      if s.holdon < holdonNSamples then ({ s with holdon := s.holdon + 1 }, .nothing)
      else ({ s with holdoff := settings.holdoffNSamples.toNat, holdon := 0 }, .search (s.search settings memory))
    else (s, .nothing)
  else ({ s with holdoff := s.holdoff - 1, holdon := 0 }, .nothing)

/-- One turn of the loop. -/
def State.step (settings : Settings) (memory : Fin nChannels → ℕ) (s : State) (samples : Fin nChannels → BitVec 16) : State × Outcome :=
  let examined := (s.store samples).examine settings memory
  ({ examined.1 with iLookback := next examined.1.iLookback }, examined.2)

/-- The samples of all channels, and what is in memory at each turn. -/
structure Stream where
  samples : ℕ → Fin nChannels → BitVec 16
  memory : ℕ → Fin nChannels → ℕ

/-- The state after `n` turns. -/
def run (settings : Settings) (x : Stream) : ℕ → State
  | 0 => .new
  | n + 1 => ((run settings x n).step settings (x.memory n) (x.samples n)).1

/-- What the turn for the sample `n` does. -/
def outcome (settings : Settings) (x : Stream) (n : ℕ) : Outcome := ((run settings x n).step settings (x.memory n) (x.samples n)).2

end Tortuga.Multipinger
