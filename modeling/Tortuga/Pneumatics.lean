import Tortuga.Programs
import Tortuga.BusCodes
import Tortuga.Bitmaps

/-!
The pneumatics board (`pneumatics_control.c`): the valves, the list of delayed commands that
the timer works off, and the loop that takes frames from the motor board.
-/
namespace Tortuga.Pneumatics
open Tortuga.Programs Tortuga.BusCodes Tortuga.Bitmaps
set_option linter.unusedSimpArgs false

/-! ### Valves -/

inductive PairCommand where
  | fill
  | void
  | off
  deriving DecidableEq, Repr

structure CmdEnt where
  count : Int
  cmd : PairCommand
  pair : ℕ
  deriving Repr

abbrev cmdCount : ℕ := 48
abbrev validBits : ℕ := cmdCount / 16

/-- The command list with its bits for the valid entries, and the valves of each pair. -/
structure Board where
  cmds : ℕ → CmdEnt
  cmdValid : ℕ → BitVec 16
  fillPair : ℕ → Bool
  voidPair : ℕ → Bool

namespace Board

def runVoid (b : Board) (pair : ℕ) : Board :=
  if pair < 12 then
    { b with fillPair := Function.update b.fillPair pair false, voidPair := Function.update b.voidPair pair true }
  else b

def runFill (b : Board) (pair : ℕ) : Board :=
  if pair < 12 then
    { b with voidPair := Function.update b.voidPair pair false, fillPair := Function.update b.fillPair pair true }
  else b

def turnOff (b : Board) (pair : ℕ) : Board :=
  if pair < 12 then
    { b with voidPair := Function.update b.voidPair pair false, fillPair := Function.update b.fillPair pair false }
  else b

def handleCmd (b : Board) : PairCommand → ℕ → Board
  | .fill, pair => b.runFill pair
  | .void, pair => b.runVoid pair
  | .off, pair => b.turnOff pair

/-- `cmdValid[i] = 0`. -/
def clearValid (b : Board) (i : ℕ) : Board := { b with cmdValid := Function.update b.cmdValid i 0#16 }

/-! ### The timer -/

/-- One turn of the inner loop of `_T1Interrupt`, with `curf` at bit `k` of `cmdValid[i]`. -/
def tickBit (i : ℕ) (b : Board) (k : ℕ) : Board :=
  if b.cmdValid i &&& bit 16 k ≠ 0#16 then
    let j := 16 * i + k
    let entry : CmdEnt := { b.cmds j with count := (b.cmds j).count - 1 }
    let b := { b with cmds := Function.update b.cmds j entry }
    if entry.count ≤ 0 then
      let b := b.handleCmd entry.cmd entry.pair
      { b with cmdValid := Function.update b.cmdValid i (b.cmdValid i &&& ~~~bit 16 k) }
    else b
  else b

def tickWord (b : Board) (i : ℕ) : Board :=
  if b.cmdValid i = 0#16 then b else (List.range 16).foldl (tickBit i) b

/-- `_T1Interrupt`. -/
def t1Interrupt (b : Board) : Board := (List.range validBits).foldl tickWord b

end Board

/-! ### New commands -/

/-- What the scan of `addCmd` changes. No free spot yet is -1 in the code. -/
structure Scan where
  cmdValid : ℕ → BitVec 16
  firstInv : Option ℕ

section
variable (cmds : ℕ → CmdEnt) (pair : ℕ) (count : Int)

/-- One turn of the inner loop, with `curf` at bit `k` of `cmdValid[i]`. -/
def scanBit (i k : ℕ) (s : Scan) : Scan :=
  let j := 16 * i + k
  let s := if s.cmdValid i &&& bit 16 k ≠ 0#16 ∧ (cmds j).pair = pair ∧ (cmds j).count ≥ count then
    { s with cmdValid := Function.update s.cmdValid i (s.cmdValid i &&& ~~~bit 16 k) } else s
  if s.firstInv = none ∧ ¬ s.cmdValid i &&& bit 16 k ≠ 0#16 then { s with firstInv := some j } else s

/-- The inner loop from bit `k` on, with `left` bits to come. -/
def scanBits (i : ℕ) : ℕ → ℕ → Scan → Scan
  | _, 0, s => s
  | k, left + 1, s =>
    if s.firstInv = none ∨ s.cmdValid i &&& ~~~(bit 16 k - 1#16) ≠ 0#16 then
      scanBits i (k + 1) left (scanBit cmds pair count i k s)
    else s

def scanWord (s : Scan) (i : ℕ) : Scan :=
  if s.cmdValid i = 0#16 ∧ s.firstInv ≠ none then s else scanBits cmds pair count i 0 16 s

/-- The scan of all commands. -/
def scan (cmdValid : ℕ → BitVec 16) : Scan :=
  (List.range validBits).foldl (scanWord cmds pair count) ⟨cmdValid, none⟩

end

/-- `addCmd`, and whether it has found space. -/
def Board.addCmd (b : Board) (cmd : PairCommand) (pair : ℕ) (count : Int) : Board × Bool :=
  let s := scan b.cmds pair count b.cmdValid
  match s.firstInv with
  | none => ({ b with cmdValid := s.cmdValid }, false)
  | some firstInv =>
    let i := firstInv >>> 4
    let j := firstInv &&& 0x0f
    ({ b with
        cmds := Function.update b.cmds firstInv ⟨count, cmd, pair⟩
        cmdValid := Function.update s.cmdValid i (s.cmdValid i ||| bit 16 j) }, true)

/-! ### The main program -/

inductive Op where
  | uartRXwait
  | uartRX
  | writeUart (packet : Byte)
  | addCmd (cmd : PairCommand) (pair : ℕ) (count : Int)
  | clearValid (i : ℕ)
  | voidPair (pair : ℕ)
  | turnOff (pair : ℕ)
  deriving DecidableEq, Repr

/-- `addCmd` is told whether there is space. -/
abbrev Ans : Op → Type
  | .uartRXwait => Unit
  | .uartRX => Byte
  | .writeUart _ => Unit
  | .addCmd _ _ _ => Bool
  | .clearValid _ => Unit
  | .voidPair _ => Unit
  | .turnOff _ => Unit

inductive Loop where
  | sync
  | frame
  deriving DecidableEq, Repr

inductive Interrupt where
  | t1
  deriving DecidableEq, Repr

abbrev Io := Prog Op Ans Loop
abbrev BoardEvent := Event Op Ans Loop Interrupt

def uartRXwait : Io Unit := .ask .uartRXwait .ret
def uartRX : Io Byte := .ask .uartRX .ret

/-- The next byte. -/
def receive : Io Byte := do
  uartRXwait
  uartRX

/-- `writeUart` of each character. -/
def write : List Char → Io Unit
  | [] => .ret ()
  | c :: rest => .ask (.writeUart (BitVec.ofNat 8 c.toNat)) fun _ => write rest

/-- `addCmd`, which says so when there is no space. -/
def addCmd (cmd : PairCommand) (pair : ℕ) (count : Int) : Io Unit :=
  .ask (.addCmd cmd pair count) fun space => if space then .ret () else write ['N', 'S', 'P', 'C']

/-- The pairs `PIST_n_EXT` and `PIST_n_RET`. -/
def pistonPairs (piston : ℕ) : Option (ℕ × ℕ) :=
  match piston with
  | 0 => some (2, 0)
  | 1 => some (3, 1)
  | 2 => some (4, 6)
  | 3 => some (5, 7)
  | 4 => some (8, 10)
  | 5 => some (9, 11)
  | _ => none

/-- The commands for the pair that is voided first and the one that is filled. -/
def movePiston (first second : ℕ) : Io Unit := do
  addCmd .void first 1
  addCmd .fill second 2
  addCmd .off second 500
  addCmd .fill first 501
  addCmd .off first 551

def extendPiston (piston : ℕ) : Io Unit :=
  match pistonPairs piston with
  | none => .ret ()
  | some (ext, ret) => movePiston ret ext

def retractPiston (piston : ℕ) : Io Unit :=
  match pistonPairs piston with
  | none => .ret ()
  | some (ext, ret) => movePiston ext ret

/-- `op` from number `i` on, `count` times. -/
def each (op : ℕ → Io Unit) : ℕ → ℕ → Io Unit
  | _, 0 => .ret ()
  | i, count + 1 => do
    op i
    each op (i + 1) count

def clearAll : Io Unit := each (fun i => .ask (.clearValid i) .ret) 0 validBits

def voidAll : Io Unit := do
  clearAll
  each (fun pair => .ask (.voidPair pair) .ret) 0 12

def offAll : Io Unit := do
  clearAll
  each (fun pair => .ask (.turnOff pair) .ret) 0 12

abbrev torp1Pist : ℕ := 4
abbrev torp1Ret : ℕ := 10
abbrev torp1Ext : ℕ := 8
abbrev torp2Pist : ℕ := 5
abbrev torp2Ret : ℕ := 11
abbrev torp2Ext : ℕ := 9
abbrev grabber1Pist : ℕ := 0
abbrev grabber1Ret : ℕ := 0
abbrev grabber1Ext : ℕ := 2
abbrev grabber2Pist : ℕ := 1
abbrev grabber2Ret : ℕ := 1
abbrev grabber2Ext : ℕ := 3
abbrev marker1Pist : ℕ := 2
abbrev marker2Pist : ℕ := 3

/-- `marker1_ext` and `marker2_ext`. -/
structure Markers where
  marker1Ext : Bool
  marker2Ext : Bool
  deriving DecidableEq, Repr

/-- A frame 'BC' with a command of the bus. -/
def busCommand (cmd : Byte) (m : Markers) : Io Markers :=
  if cmd = busCmdFireTorp1 then do
    retractPiston torp1Pist
    return m
  else if cmd = busCmdFireTorp2 then do
    retractPiston torp2Pist
    return m
  else if cmd = busCmdVoidTorp1 then do
    addCmd .void torp1Ext 1
    addCmd .void torp1Ret 1
    return m
  else if cmd = busCmdVoidTorp2 then do
    addCmd .void torp2Ext 1
    addCmd .void torp2Ret 1
    return m
  else if cmd = busCmdArmTorp1 then do
    extendPiston torp1Pist
    return m
  else if cmd = busCmdArmTorp2 then do
    extendPiston torp2Pist
    return m
  else if cmd = busCmdExtGrabber then do
    extendPiston grabber1Pist
    extendPiston grabber2Pist
    return m
  else if cmd = busCmdRetGrabber then do
    retractPiston grabber1Pist
    retractPiston grabber2Pist
    return m
  else if cmd = busCmdVoidGrabber then do
    addCmd .void grabber1Ext 1
    addCmd .void grabber1Ret 1
    addCmd .void grabber2Ext 1
    addCmd .void grabber2Ret 1
    return m
  else if cmd = busCmdMarker1 then do
    if m.marker1Ext then retractPiston marker1Pist else extendPiston marker1Pist
    return { m with marker1Ext := !m.marker1Ext }
  else if cmd = busCmdMarker2 then do
    if m.marker2Ext then retractPiston marker2Pist else extendPiston marker2Pist
    return { m with marker2Ext := !m.marker2Ext }
  else if cmd = busCmdVoidPneu then do
    voidAll
    return m
  else if cmd = busCmdOffPneu then do
    offAll
    return m
  else do
    write ['N', 'P', 'A', 'R']
    return m

/-- A character of a frame. -/
def ch (c : Char) : Byte := BitVec.ofNat 8 c.toNat

/-- `op` on the number in a frame, when it is not above `max`. -/
def checked (max : Byte) (n : Byte) (op : ℕ → Io Unit) : Io Unit :=
  if n > max then write ['N', 'P', 'A', 'R'] else op n.toNat

/-- The branches for a frame with a good checksum. -/
def execute (b0 b1 b2 : Byte) (m : Markers) : Io Markers :=
  if b0 = ch 'V' ∧ b1 = ch 'A' ∧ b2 = ch '!' then do
    voidAll
    return m
  else if b0 = ch 'V' ∧ b1 = ch 'O' then do
    checked 11 b2 fun pair => addCmd .void pair 1
    return m
  else if b0 = ch 'F' ∧ b1 = ch 'L' then do
    checked 11 b2 fun pair => addCmd .fill pair 1
    return m
  else if b0 = ch 'E' ∧ b1 = ch 'X' then do
    checked 5 b2 extendPiston
    return m
  else if b0 = ch 'R' ∧ b1 = ch 'T' then do
    checked 5 b2 retractPiston
    return m
  else if b0 = ch 'T' ∧ b1 = ch 'O' then do
    checked 11 b2 fun pair => addCmd .off pair 1
    return m
  else if b0 = ch 'O' ∧ b1 = ch 'F' ∧ b2 = ch 'F' then do
    offAll
    return m
  else if b0 = ch 'B' ∧ b1 = ch 'C' then busCommand b2 m
  else do
    write ['N', 'C', 'M', 'D']
    return m

/-- One iteration of the frame loop. -/
def frame (m : Markers) : Io Markers := do
  let b0 ← receive
  let b1 ← receive
  let b2 ← receive
  let b3 ← receive
  if b3 ≠ b0 + b1 + b2 then
    write ['N', 'C', 'H', 'K']
    return m
  else
    write ['K']
    execute b0 b1 b2 m

/-- One iteration of the sync loop, and whether it was the last. -/
def sync : Io Bool := do
  uartRXwait
  write ['G', '\n']
  let b0 ← uartRX
  if b0 ≠ 0xDE then return false
  else
    write ['D', 'E']
    let b1 ← receive
    if b1 ≠ 0xAF then return false
    else
      write ['A', 'F']
      let b2 ← receive
      if b2 ≠ 0xBE then return false
      else
        write ['B', 'E']
        let b3 ← receive
        if b3 ≠ 0xEF then return false
        else
          write ['E', 'F']
          return true

/-- `main`, from where the timer runs. -/
def main : Io Empty := do
  write ['P', 'N', 'E', 'U']
  .loop .sync () (fun _ => do if ← sync then return .inr () else return .inl ()) fun _ => do
    write ['K']
    .loop .frame (⟨true, true⟩ : Markers) (fun m => do return .inl (← frame m)) .ret

/-- All valves are off and no command is valid. -/
def start : Board where
  cmds _ := ⟨0, .fill, 0⟩
  cmdValid _ := 0#16
  fillPair _ := false
  voidPair _ := false

/-- The board over a trace. -/
def Board.next (b : Board) : BoardEvent → Board
  | .ext .t1 => b.t1Interrupt
  | .call (.addCmd cmd pair count) _ => (b.addCmd cmd pair count).1
  | .call (.clearValid i) _ => b.clearValid i
  | .call (.voidPair pair) _ => b.runVoid pair
  | .call (.turnOff pair) _ => b.turnOff pair
  | .call .uartRXwait _ | .call .uartRX _ | .call (.writeUart _) _ | .iter _ => b

/-- `addCmd` finds out what there is. -/
def Answered (b : Board) : BoardEvent → Prop
  | .call (.addCmd cmd pair count) space => space = (b.addCmd cmd pair count).2
  | _ => True

end Tortuga.Pneumatics
