import Mathlib.Data.Fintype.Basic
import Mathlib.Data.List.FinRange
import Mathlib.Logic.Function.Basic
import Tortuga.Master

/-!
The pins of the bus: `busWriteByte` and `busReadByte` of the master, and `checkBus` in the interrupts of the slaves, statement by statement.
Each slave has a line for its requests. They share the lines for the data and for the acknowledgement, which is low where no slave drives it.
-/
namespace Tortuga.BusHandshake
open Tortuga.BusCodes
open Tortuga.Master (busError busFailure)

/-- The lines for requests that the master has. -/
abbrev Line := Fin 7

def busTimeout : ℕ := 25000

inductive Op
  | write (req : Line) (data : Byte)
  | read (req : Line)
  deriving DecidableEq

namespace Op

def line : Op → Line
  | write req _ => req
  | read req => req

/-- `RW_WRITE` -/
def writes : Op → Bool
  | write _ _ => true
  | read _ => false

/-- What the master puts on the bus. -/
def data : Op → Option Byte
  | write _ data => some data
  | read _ => none

end Op

/-! ### A slave -/

/-- The next statement of a slave, of which `main` is outside its interrupt. With a byte it has been read from the bus. -/
inductive Place
  | main
  | checkReq
  | checkRw
  | readBus
  | loadTxBuf
  | writeBus (data : Byte)
  | raiseAkn (data : Option Byte)
  | waitReq (data : Option Byte)
  | freeBus
  | dropAkn (data : Option Byte)
  | processData (data : Byte)
  deriving DecidableEq

/-- `pending` is the flag of its interrupt, and `drives` what it puts on the bus. -/
structure Slave (S : Type) where
  board : S
  place : Place
  pending : Bool
  akn : Bool
  drives : Option Byte

/-- `processData` of a board, and what it sends next, which moves its `txPtr` on. -/
structure Device (S : Type) where
  processData : S → Byte → S
  send : S → Byte × S

section
variable {S : Type} (device : Device S)

/-- A slave does its next statement, with what it finds on its pins. -/
def Slave.next (b : Slave S) (req rw : Bool) (data : Byte) : Option (Slave S) :=
  match b.place with
  | .main => if b.pending then some { b with place := .checkReq, pending := false } else none
  | .checkReq => some { b with place := if req then .checkRw else .main }
  | .checkRw => some { b with place := if rw then .readBus else .loadTxBuf }
  | .readBus => some { b with place := .raiseAkn (some data) }
  | .loadTxBuf => some { b with place := .writeBus (device.send b.board).1, board := (device.send b.board).2 }
  | .writeBus byte => some { b with place := .raiseAkn none, drives := some byte }
  | .raiseAkn byte => some { b with place := .waitReq byte, akn := true }
  | .waitReq byte => some (if req then b else { b with place := if byte.isSome then .dropAkn byte else .freeBus })
  | .freeBus => some { b with place := .dropAkn none, drives := none }
  | .dropAkn none => some { b with place := .main, akn := false }
  | .dropAkn (some byte) => some { b with place := .processData byte, akn := false }
  | .processData byte => some { b with place := .main, board := device.processData b.board byte }

end

/-! ### The master and its slaves -/

/-- The next statement of the master, in the loops with their `timeout`, and at the end with what is to be returned. `out` is between
    calls. -/
inductive Point
  | out
  | setRw (op : Op)
  | writeBus (req : Line) (data : Byte)
  | raiseReq (op : Op)
  | awaitAkn (op : Op) (timeout : ℕ)
  | giveUp (op : Op)
  | giveBack (req : Line) (data : Byte)
  | readBus (req : Line)
  | freeBus (req : Line) (data : Byte)
  | dropReq (op : Op) (result : Int)
  | awaitFree (op : Op) (result : Int) (timeout : ℕ)
  deriving DecidableEq

structure Bus (S : Line → Type) where
  point : Point
  req : Line → Bool
  rw : Bool
  drives : Option Byte
  slave : (k : Line) → Slave (S k)
  returned : List (Op × Int)

inductive Act
  | call (op : Op)
  | master (noise : Byte)
  | slave (k : Line) (noise : Byte)

section
variable {S : Line → Type} (device : (k : Line) → Device (S k)) (both : Line → Bool)

namespace Bus

def drivers (s : Bus S) : List Byte := s.drives.toList ++ (List.finRange 7).flatMap fun k => (s.slave k).drives.toList

/-- What is read from the bus. It is any byte where nobody puts one there, or more than one does. -/
def value (s : Bus S) (noise : Byte) : Byte :=
  match s.drivers with
  | [byte] => byte
  | _ => noise

/-- `IN_AKN` -/
def inAkn (s : Bus S) : Bool := (List.finRange 7).any fun k => (s.slave k).akn

def setSlave (s : Bus S) (k : Line) (b : Slave (S k)) : Bus S := { s with slave := Function.update s.slave k b }

/-- `setReq`. The interrupt of a slave comes when its request is raised, and with `both` also when it is dropped. -/
def setReq (s : Bus S) (req : Line) (val : Bool) : Bus S :=
  let edge := s.req req != val && (val || both req)
  { s.setSlave req { s.slave req with pending := (s.slave req).pending || edge } with req := Function.update s.req req val }

/-- The master is back from a call. -/
def finish (s : Bus S) (op : Op) (result : Int) : Bus S := { s with point := .out, returned := s.returned ++ [(op, result)] }

/-- The master does its next statement. -/
def master (s : Bus S) (noise : Byte) : Option (Bus S) :=
  match s.point with
  | .out => none
  | .setRw (.write req data) => some { s with rw := true, point := .writeBus req data }
  | .setRw (.read req) => some { s with rw := false, point := .raiseReq (.read req) }
  | .writeBus req data => some { s with drives := some data, point := .raiseReq (.write req data) }
  | .raiseReq op => some { s.setReq both op.line true with point := .awaitAkn op 0 }
  | .awaitAkn op timeout =>
    if s.inAkn then
      some { s with point := match op with | .write req data => .freeBus req data | .read req => .readBus req }
    else if timeout = busTimeout then some { s with point := .giveUp op }
    else some { s with point := .awaitAkn op (timeout + 1) }
  | .giveUp (.write req data) => some { s.setReq both req false with point := .giveBack req data }
  | .giveUp (.read req) => some ((s.setReq both req false).finish (.read req) busError)
  | .giveBack req data => some ({ s with drives := none }.finish (.write req data) busError)
  | .readBus req => some { s with point := .dropReq (.read req) (s.value noise).toNat }
  | .freeBus req data => some { s with drives := none, point := .dropReq (.write req data) 0 }
  | .dropReq op result => some { s.setReq both op.line false with point := .awaitFree op result 0 }
  | .awaitFree op result timeout =>
    if s.inAkn then
      if timeout = busTimeout then some (s.finish op busFailure) else some { s with point := .awaitFree op result (timeout + 1) }
    else some (s.finish op result)

end Bus

def step (s : Bus S) : Act → Option (Bus S)
  | .call op => if s.point matches .out then some { s with point := .setRw op } else none
  | .master noise => s.master both noise
  | .slave k noise => ((s.slave k).next (device k) (s.req k) s.rw (s.value noise)).map (s.setSlave k)

/-- After the start nobody uses the bus. -/
def start (boards : (k : Line) → S k) : Bus S where
  point := .out
  req _ := false
  rw := false
  drives := none
  slave k := ⟨boards k, .main, false, false, none⟩
  returned := []

end

end Tortuga.BusHandshake
