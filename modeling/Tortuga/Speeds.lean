import Tortuga.Commands
import Tortuga.SensorApi

/-!
Speeds on their way from the host to the motors: two bytes of a frame, then the byte of a
motor controller (`convertSpeed`) and the byte of the power board.
-/
namespace Tortuga.Speeds
open Tortuga.BusCodes Tortuga.Master Tortuga.Commands
open Tortuga.SensorApi (speedBytes)
set_option linter.unusedSimpArgs false

/-- A speed scaled for a motor controller, before it is stored in a byte. -/
def scaled (s : Int) : Int :=
  let multTemp := s * 102
  let multTemp := if multTemp < 0 then multTemp + 0x3FF else multTemp
  let multTemp := multTemp >>> (10 : ℕ)
  if multTemp < 0 then 0x7F + multTemp else 0x80 + multTemp

theorem convertSpeed_eq (high low : Byte) : convertSpeed high low = toByte (scaled (speed16 high low).toInt) := by
  simp only [convertSpeed, scaled]
  rw [apply_ite toByte]

theorem scaled_neg {s : Int} (neg : s < 0) : scaled s =
    if (s * 102 + 1023) / 1024 < 0 then 127 + (s * 102 + 1023) / 1024 else 128 + (s * 102 + 1023) / 1024 := by
  simp only [scaled, Int.shiftRight_eq_div_pow]
  rw [if_pos (show s * 102 < 0 by omega)]
  rfl

theorem scaled_nonneg {s : Int} (nonneg : 0 ≤ s) : scaled s = 128 + s * 102 / 1024 := by
  simp only [scaled, Int.shiftRight_eq_div_pow]
  rw [if_neg (show ¬ s * 102 < 0 by omega)]
  exact if_neg (by omega)

theorem scaled_mono {s t : Int} (le : s ≤ t) : scaled s ≤ scaled t := by
  by_cases neg : s < 0
  · by_cases neg' : t < 0
    · rw [scaled_neg neg, scaled_neg neg']
      split <;> split <;> omega
    · rw [scaled_neg neg, scaled_nonneg (by omega)]
      split <;> omega
  · rw [scaled_nonneg (by omega), scaled_nonneg (by omega)]
    omega

/-- The scaled speed fits in a byte. -/
theorem scaled_byte (s : Int) : 0 ≤ scaled s ∧ scaled s ≤ 255 ↔ -1285 ≤ s ∧ s ≤ 1285 := by
  by_cases neg : s < 0
  · rw [scaled_neg neg]
    split <;> omega
  · rw [scaled_nonneg (by omega)]
    omega

/-- The scaled speed is good for the motor board. -/
theorem scaled_good (s : Int) : 0x19 ≤ scaled s ∧ scaled s ≤ 0xE6 ↔ -1034 ≤ s ∧ s ≤ 1034 := by
  by_cases neg : s < 0
  · rw [scaled_neg neg]
    split <;> omega
  · rw [scaled_nonneg (by omega)]
    omega

theorem speed16_toNat (high low : Byte) : (speed16 high low).toNat = high.toNat * 256 + low.toNat := by
  have sum : high.toNat * 256 ||| low.toNat = high.toNat * 256 + low.toNat := by
    have disjoint := Nat.two_pow_add_eq_or_of_lt (i := 8) (b := low.toNat) low.isLt high.toNat
    rw [show high.toNat * 256 = 2 ^ 8 * high.toNat by omega]
    exact disjoint.symm
  simp only [speed16, BitVec.toNat_or, BitVec.toNat_shiftLeft, BitVec.toNat_setWidth, Nat.shiftLeft_eq]
  have := high.isLt
  have := low.isLt
  rw [show high.toNat % 2 ^ 16 * 2 ^ 8 % 2 ^ 16 = high.toNat * 256 by omega,
    show low.toNat % 2 ^ 16 = low.toNat by omega, sum]

/-- The two bytes of a speed are its low 16 bits. -/
theorem speed16_bytes (s : Int) : speed16 (toByte (s >>> (8 : ℕ))) (toByte s) = BitVec.ofInt 16 s := by
  apply BitVec.eq_of_toNat_eq
  rw [speed16_toNat, toByte, toByte, BitVec.toNat_ofInt, BitVec.toNat_ofInt, BitVec.toNat_ofInt,
    Int.shiftRight_eq_div_pow]
  omega

theorem speed16_toInt {s : Int} (low : -32768 ≤ s) (high : s < 32768) :
    (speed16 (toByte (s >>> (8 : ℕ))) (toByte s)).toInt = s := by
  rw [speed16_bytes, BitVec.toInt_ofInt]
  exact Int.bmod_eq_of_le (by omega) (by omega)

/-- The byte of a motor controller for a speed. -/
def motorByte (s : Int) : Byte := convertSpeed (toByte (s >>> (8 : ℕ))) (toByte s)

/-- The byte of the power board for a speed. -/
def distroByte (s : Int) : Byte := distroSpeed (toByte (s >>> (8 : ℕ))) (toByte s)

theorem motorByte_eq {s : Int} (low : -32768 ≤ s) (high : s < 32768) : motorByte s = toByte (scaled s) := by
  rw [motorByte, convertSpeed_eq, speed16_toInt low high]

theorem motorByte_toNat {s : Int} (low : -1285 ≤ s) (high : s ≤ 1285) : ((motorByte s).toNat : Int) = scaled s := by
  obtain ⟨nonneg, small⟩ := (scaled_byte s).mpr ⟨low, high⟩
  rw [motorByte_eq (by omega) (by omega), toNat_toByte nonneg small]

/-- Half of a word that is not negative, in a byte. -/
theorem half_toNat {speed : BitVec 16} (nonneg : 0 ≤ speed.toInt) :
    ((speed.sshiftRight 1).setWidth 8).toNat = speed.toNat / 2 % 256 := by
  have positive : speed.msb = false := by
    by_contra negative
    have := BitVec.toInt_neg_of_msb_true (by simpa using negative)
    omega
  rw [BitVec.toNat_setWidth, BitVec.toNat_sshiftRight_of_msb_false positive, Nat.shiftRight_eq_div_pow]

/-- Half the magnitude, in a byte. -/
theorem distroByte_toNat {s : Int} (low : -32768 < s) (high : s < 32768) :
    (distroByte s).toNat = s.natAbs / 2 % 256 := by
  have value := speed16_toInt (s := s) (by omega) high
  have word := speed16_bytes s
  simp only [distroByte, distroSpeed]
  by_cases neg : s < 0
  · have opposite : -speed16 (toByte (s >>> (8 : ℕ))) (toByte s) = BitVec.ofInt 16 (-s) := by
      rw [word, BitVec.ofInt_neg]
    have positive : (BitVec.ofInt 16 (-s)).toInt = -s := by
      rw [BitVec.toInt_ofInt]
      exact Int.bmod_eq_of_le (by omega) (by omega)
    rw [if_pos (by omega), opposite, half_toNat (by omega), BitVec.toNat_ofInt]
    omega
  · rw [if_neg (by omega), half_toNat (by omega), word, BitVec.toNat_ofInt]
    omega

/-! ### The range of the motor byte -/

/-- Every speed that the thrusters can be set to is good for the motor board. -/
theorem motorByte_good {s : Int} (small : s.natAbs ≤ 1024) : 0x19#8 ≤ motorByte s ∧ motorByte s ≤ 0xE6#8 := by
  have value := motorByte_toNat (s := s) (by omega) (by omega)
  obtain ⟨low, high⟩ := (scaled_good s).mpr ⟨by omega, by omega⟩
  constructor
  · rw [BitVec.le_def]
    show 0x19 ≤ (motorByte s).toNat
    omega
  · rw [BitVec.le_def]
    show (motorByte s).toNat ≤ 0xE6
    omega

theorem motorByte_mono {s t : Int} (small : s.natAbs ≤ 1024) (small' : t.natAbs ≤ 1024) (le : s ≤ t) :
    motorByte s ≤ motorByte t := by
  have value := motorByte_toNat (s := s) (by omega) (by omega)
  have value' := motorByte_toNat (s := t) (by omega) (by omega)
  have := scaled_mono le
  rw [BitVec.le_def]
  omega

/-- The byte of the power board grows with the magnitude, below 512. -/
theorem distroByte_mono {s t : Int} (small : t.natAbs ≤ 511) (le : s.natAbs ≤ t.natAbs) : distroByte s ≤ distroByte t := by
  have value := distroByte_toNat (s := s) (by omega) (by omega)
  have value' := distroByte_toNat (s := t) (by omega) (by omega)
  rw [BitVec.le_def]
  omega

end Tortuga.Speeds
