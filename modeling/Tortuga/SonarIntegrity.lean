import Tortuga.SonarFrames

/-!
Which packets of the sonar board `getSonarData` takes (`sensorapi.c`). It counts the sentinel bytes
that are wrong and compares the checksum of the report, but only texts come of both.
-/
namespace Tortuga.SonarReports
open Tortuga.Programs Tortuga.BusCodes Tortuga.Blackfin
open Tortuga.Machines (after)
open Tortuga.Master (Mem)
open Tortuga.SensorApi (Buf sbOk)
open Tortuga.FrameRules (chksum_congr)
set_option linter.unusedSimpArgs false

/-- Every sentinel byte has its value, and the last byte is the sum of those before it. -/
structure Intact (raw : ℕ → Byte) : Prop where
  vector : raw 0 = 0x00#8
  range : raw 6 = 0x00#8
  seconds : raw 11 = 0x00#8
  micros : raw 16 = 0x00#8
  checksum : raw 21 = chksum raw 21 0#8

instance (raw : ℕ → Byte) : Decidable (Intact raw) :=
  decidable_of_iff (raw 0 = 0x00#8 ∧ raw 6 = 0x00#8 ∧ raw 11 = 0x00#8 ∧ raw 16 = 0x00#8 ∧ raw 21 = chksum raw 21 0#8)
    ⟨fun ⟨a, b, c, d, e⟩ => ⟨a, b, c, d, e⟩, fun ⟨a, b, c, d, e⟩ => ⟨a, b, c, d, e⟩⟩

/-- `getSonarData` comes back, and with success only where the packet of the board is intact. -/
def OnlyIntact (board : Board) (m : Mem) (sd : SonarData) : Prop :=
  ∃ r l, exec answer 1 (getSonarData (some sd)) ⟨m, board, []⟩ = some (r, l) ∧ (r.1 = sbOk → Intact board.sonarBuf)

/-- A report in the old format is intact when it comes to the host as a whole. -/
theorem intact_body {r : Report} {raw : ℕ → Byte} (same : ∀ i < sonarPacketLen, (body true r)[i]? = some (raw i)) : Intact raw := by
  have cell (i : ℕ) {b : Byte} (found : (body true r)[i]? = some b) (low : i < sonarPacketLen) : raw i = b :=
    Option.some_inj.mp ((same i low).symm.trans found)
  have length : (fields true r).length = 21 := rfl
  have listed : (List.range 21).map raw = fields true r := by
    refine List.ext_getElem? fun i => ?_
    by_cases low : i < 21
    · have inside : i < (fields true r).length := by rwa [length]
      have stored := same i (Nat.lt_succ_of_lt low)
      rw [body, List.getElem?_append_left inside] at stored
      simp [low, stored]
    · rw [List.getElem?_eq_none (by simp; omega), List.getElem?_eq_none (by omega)]
  refine ⟨cell 0 rfl (by decide), cell 6 rfl (by decide), cell 11 rfl (by decide), cell 16 rfl (by decide), ?_⟩
  rw [chksum_eq, listed, BitVec.add_zero]
  exact cell 21 rfl (by decide)

/-- Whatever has come from the sonar processor, and whatever of it the board forwards, the host has
    success; so it is for the packet to be intact. -/
theorem getSonarData_intact (bytes : List Byte) (content : ℕ → Byte) (m : Mem) (sd : SonarData) :
    OnlyIntact { after receive initial bytes with sonarBuf := content } m sd ↔ Intact content := by
  have state : ({ after receive initial bytes with sonarBuf := content } : Board).busState = .topLevel := (follows_before bytes).state
  obtain ⟨raw, l, same, done⟩ := exec_getSonarData state m sd
  constructor
  · rintro ⟨r, l', done', intact⟩
    rw [done] at done'
    cases done'
    exact intact rfl
  · intro intact
    exact ⟨_, l, done, fun _ => intact⟩

/-- 22 bytes that are no report, after a header: the host takes them for one. -/
theorem getSonarData_torn : let board := after receive initial (header ++ List.replicate 22 0x01#8)
    ¬ Intact board.sonarBuf ∧ ¬ OnlyIntact board Commands.memory noData := by
  intro board
  have torn : ¬ Intact board.sonarBuf := fun intact => absurd intact.vector (by decide +kernel)
  refine ⟨torn, ?_⟩
  rintro ⟨r, l, done, intact⟩
  obtain ⟨raw, l', _, ok⟩ := exec_getSonarData (follows_before (header ++ List.replicate 22 0x01#8)).state Commands.memory noData
  rw [ok] at done
  cases done
  exact torn (intact rfl)

end Tortuga.SonarReports
