import Tortuga.Rings
import Tortuga.Machines
import Tortuga.BusCodes

/-!
The receive ring of a UART (`uart.c`): the interrupt that stores the bytes and the functions that
read and clear them. The code of the two UARTs of a board differs in the digit of its names only.
-/
namespace Tortuga.Uart
open Tortuga.BusCodes Tortuga.Rings Tortuga.Machines

/-! ### The ring -/

/-- `U1RXBUF_SIZE`. -/
def rxBufSize : ℕ := 32

/-- The variables of the ring, `unsigned char` all. -/
structure Ring where
  rxBuffer : ℕ → Byte
  rxReadPtr : ℕ
  rxWritePtr : ℕ
  rxSize : ℕ

/-- As `initInterruptUarts` leaves it. -/
def initial : Ring := ⟨fun _ => 0#8, 0, 0, 0⟩

/-- One turn of the loop of `_U1RXInterrupt`, with the byte of `U1RXREG`. -/
def receive (b : Byte) (r : Ring) : Ring where
  rxBuffer := Function.update r.rxBuffer r.rxWritePtr b
  rxReadPtr := r.rxReadPtr
  rxWritePtr := (r.rxWritePtr + 1) &&& (rxBufSize - 1)
  rxSize := if r.rxSize < rxBufSize - 1 then r.rxSize + 1 else r.rxSize

/-- `_U1RXInterrupt`, with the bytes that it finds in the receiver. -/
def rxInterrupt (bytes : List Byte) (r : Ring) : Ring := bytes.foldl (fun r b => receive b r) r

def canRead (r : Ring) : ℕ := r.rxSize

/-- `U1ReadByte`: the byte and the ring after it. The size is one byte. -/
def readByte (r : Ring) : Byte × Ring :=
  let size := (r.rxSize + 255) % 256
  (r.rxBuffer r.rxReadPtr, { r with rxSize := size, rxReadPtr := (r.rxReadPtr + 1) &&& (rxBufSize - 1) })

def clearRXBuffer (r : Ring) : Ring := { r with rxSize := 0, rxReadPtr := r.rxWritePtr }

/-- The functions keep the interrupt off while they run, so they come one after the other. -/
inductive Act where
  | receive (b : Byte)
  | readByte
  | clearRXBuffer

/-- The ring, and what it is for: the bytes received and not yet read or discarded. -/
structure Traffic where
  ring : Ring
  pending : List Byte

def start : Traffic := ⟨initial, []⟩

def next (s : Traffic) : Act → Traffic
  | .receive b => ⟨receive b s.ring, s.pending ++ [b]⟩
  | .readByte => ⟨(readByte s.ring).2, s.pending.tail⟩
  | .clearRXBuffer => ⟨clearRXBuffer s.ring, []⟩

/-- An interrupt is a turn for each byte. -/
theorem after_rxInterrupt (s : Traffic) (bytes : List Byte) :
    after next s (bytes.map .receive) = ⟨rxInterrupt bytes s.ring, s.pending ++ bytes⟩ := by
  induction bytes generalizing s with
  | nil => simp [rxInterrupt]
  | cons b rest ih =>
    rw [List.map_cons, after_cons, ih]
    simp [next, rxInterrupt]

/-- The pointers are as far apart as the size says, and the size is one of the ring. -/
structure Lawful (r : Ring) : Prop where
  writePtr : r.rxWritePtr = (r.rxReadPtr + r.rxSize) % rxBufSize
  size : r.rxSize ≤ rxBufSize

/-- The ring is lawful after the act, and what is read is the oldest byte that is pending. -/
def Correct (s : Traffic) (act : Act) : Prop :=
  Lawful (next s act).ring ∧ (act = .readByte → s.pending.head? = some (readByte s.ring).1)

/-- There is a byte to read, or room for the byte that comes. -/
def fits (s : Traffic) : Act → Bool
  | .receive _ => s.ring.rxSize < rxBufSize - 1
  | .readByte => 0 < canRead s.ring
  | .clearRXBuffer => true

/-! ### Runs -/

/-- The bytes that are pending stand in the ring from the read pointer on. -/
structure Holds (s : Traffic) : Prop where
  readPtr : s.ring.rxReadPtr < rxBufSize
  writePtr : s.ring.rxWritePtr = (s.ring.rxReadPtr + s.ring.rxSize) % rxBufSize
  size : s.ring.rxSize < rxBufSize
  contents : window s.ring.rxBuffer rxBufSize s.ring.rxReadPtr s.ring.rxSize = s.pending

theorem holds_start : Holds start := ⟨by decide, rfl, by decide, rfl⟩

/-- The mask takes the remainder, the size of the ring being a power of two. -/
theorem land_mask (x : ℕ) : x &&& (rxBufSize - 1) = x % rxBufSize := Nat.and_two_pow_sub_one_eq_mod x 5

variable {s : Traffic} {b : Byte} {act : Act}

theorem Holds.receive (holds : Holds s) (room : s.ring.rxSize < rxBufSize - 1) : Holds (next s (.receive b)) := by
  have less : s.ring.rxSize < rxBufSize := holds.size
  have stored : (Uart.receive b s.ring).rxSize = s.ring.rxSize + 1 := if_pos room
  refine ⟨holds.readPtr, ?_, ?_, ?_⟩
  · show (s.ring.rxWritePtr + 1) &&& (rxBufSize - 1) = (s.ring.rxReadPtr + (Uart.receive b s.ring).rxSize) % rxBufSize
    rw [land_mask, stored, holds.writePtr, Nat.mod_add_mod, Nat.add_assoc]
  · show (Uart.receive b s.ring).rxSize < rxBufSize
    rw [stored]
    exact Nat.add_lt_of_lt_sub room
  · show window (Function.update s.ring.rxBuffer s.ring.rxWritePtr b) rxBufSize s.ring.rxReadPtr (Uart.receive b s.ring).rxSize = _
    rw [stored, holds.writePtr, window_push less, holds.contents]
    rfl

/-- The first byte of what is pending is read. -/
theorem Holds.readByte (holds : Holds s) (some : 0 < s.ring.rxSize) :
    Holds (next s .readByte) ∧ s.pending.head? = Option.some (readByte s.ring).1 := by
  obtain ⟨k, size⟩ := Nat.exists_eq_succ_of_ne_zero (Nat.ne_of_gt some)
  have contents := holds.contents
  rw [size, window_succ, Nat.mod_eq_of_lt holds.readPtr] at contents
  have small : k + 1 < 32 := by rw [← Nat.succ_eq_add_one, ← size]; exact holds.size
  have taken : (Uart.readByte s.ring).2.rxSize = k := by
    show (s.ring.rxSize + 255) % 256 = k
    omega
  have moved : (Uart.readByte s.ring).2.rxReadPtr = (s.ring.rxReadPtr + 1) % rxBufSize := land_mask _
  have whole : (next s .readByte).ring = (Uart.readByte s.ring).2 := rfl
  refine ⟨⟨?_, ?_, ?_, ?_⟩, ?_⟩
  · rw [whole, moved]
    exact Nat.mod_lt _ (by decide)
  · rw [whole, moved, taken]
    show s.ring.rxWritePtr = _
    rw [holds.writePtr, size, Nat.mod_add_mod, Nat.add_assoc, Nat.add_comm 1 k]
  · rw [whole, taken]
    exact Nat.lt_of_succ_lt small
  · rw [whole, moved, taken]
    show window s.ring.rxBuffer rxBufSize _ k = s.pending.tail
    rw [← contents, List.tail_cons, window_congr (Nat.mod_mod _ _)]
  · rw [← contents]
    rfl

theorem Holds.clearRXBuffer (holds : Holds s) : Holds (next s .clearRXBuffer) := by
  have inside : s.ring.rxWritePtr < rxBufSize := by
    rw [holds.writePtr]
    exact Nat.mod_lt _ (by decide)
  exact ⟨inside, (Nat.mod_eq_of_lt inside).symm, Nat.succ_pos 31, rfl⟩

/-- An act that fits keeps the bytes in their places. -/
theorem Holds.step (holds : Holds s) (fit : fits s act = true) : Holds (next s act) := by
  cases act with
  | receive b => exact holds.receive (of_decide_eq_true fit)
  | readByte => exact (holds.readByte (of_decide_eq_true fit)).1
  | clearRXBuffer => exact holds.clearRXBuffer

theorem Holds.lawful (holds : Holds s) : Lawful s.ring := ⟨holds.writePtr, Nat.le_of_lt holds.size⟩

/-- In a full ring the write pointer goes on and the size does not. -/
theorem Holds.full (holds : Holds s) (full : ¬ s.ring.rxSize < rxBufSize - 1) : ¬ Lawful (next s (.receive b)).ring := by
  intro lawful
  have read : s.ring.rxReadPtr < 32 := holds.readPtr
  have size : s.ring.rxSize = 31 := Nat.le_antisymm (Nat.le_of_lt_succ holds.size) (Nat.not_lt.mp full)
  have stays : (Uart.receive b s.ring).rxSize = 31 := by rw [← size]; exact if_neg full
  have moved : (Uart.receive b s.ring).rxWritePtr = (s.ring.rxReadPtr + 32) % 32 := by
    show (s.ring.rxWritePtr + 1) &&& (rxBufSize - 1) = _
    rw [land_mask, holds.writePtr, size, Nat.mod_add_mod]
    rfl
  have needs : (Uart.receive b s.ring).rxWritePtr = (s.ring.rxReadPtr + (Uart.receive b s.ring).rxSize) % 32 := lawful.writePtr
  rw [stays, moved] at needs
  omega

/-- The size of an empty ring becomes 255. -/
theorem empty_readByte (empty : s.ring.rxSize = 0) : ¬ Lawful (next s .readByte).ring := by
  intro lawful
  have size : (s.ring.rxSize + 255) % 256 ≤ 32 := lawful.size
  rw [empty] at size
  contradiction

theorem Holds.correct_iff (holds : Holds s) : Correct s act ↔ fits s act = true := by
  constructor
  · rintro ⟨lawful, -⟩
    cases act with
    | receive b =>
      by_cases room : s.ring.rxSize < rxBufSize - 1
      · exact decide_eq_true room
      · exact absurd lawful (holds.full room)
    | readByte =>
      cases size : s.ring.rxSize with
      | zero => exact absurd lawful (empty_readByte size)
      | succ k =>
        have some : 0 < canRead s.ring := Nat.lt_of_lt_of_eq (Nat.succ_pos k) size.symm
        exact decide_eq_true some
    | clearRXBuffer => rfl
  · intro fit
    refine ⟨(holds.step fit).lawful, ?_⟩
    rintro rfl
    exact (holds.readByte (of_decide_eq_true fit)).2

/-- From the start on the ring is right at every act just when every act fits. -/
theorem ring_correct (acts : List Act) :
    Each next Correct start acts ↔ Each next (fun s act => fits s act = true) start acts := by
  refine each_iff (I := Holds) (fun s act holds correct => ?_) (fun s act holds => holds.correct_iff) holds_start
  exact holds.step (holds.correct_iff.mp correct)

/-- With the byte that comes when 31 are pending the pointers meet. -/
theorem not_ring_correct : ¬ ∀ acts : List Act, Lawful (after next start acts).ring := by
  intro lawful
  have writePtr := (lawful (List.replicate 32 (.receive 7#8))).writePtr
  revert writePtr
  decide

end Tortuga.Uart
