import Mathlib.Data.String.Basic
import Tortuga.SortedMaps
import Tortuga.ZigZags

/-!
The task of the bins (`ai/statBin.py`): the vehicle searches for the bins, strafes to sight their symbols,
and drops a marker on each of those it was given. What the states find out is in one dictionary.
-/
namespace Tortuga.BinTask
open Tortuga.SortedMaps

/-- What Python raises. -/
inductive PyError where
  | keyError (key : String)
  | zeroDivisionError
  deriving DecidableEq, Repr

/-- The states. The last is `End`. -/
inductive State where
  | start
  | search
  | strafe
  | align
  | center
  | drop
  | last
  deriving DecidableEq, Repr

/-- What comes from outside: a sighted bin, `MotionManager.FINISHED` and the timer's `Center.TIMEOUT`. -/
inductive Outside where
  | binFound (symbol : String) (x y : ℚ)
  | finished
  | timeout
  deriving DecidableEq, Repr

/-- The events, those of the states under the name of their class. -/
inductive Event where
  | outside (e : Outside)
  | searchDone
  | zigZagDone
  | strafeNoneLeft
  | strafeDone
  | symbolFound
  | alignNoneLeft
  | aligned
  | centered
  | dropped
  | complete
  deriving DecidableEq, Repr

/-- The motions that are started. A translation is along the axes of the vehicle. -/
inductive Motion where
  | dive
  | zigZag (order : ZigZags.Order)
  | yaw
  | translate (x y : ℚ)
  | goTo (x y : ℚ)
  deriving DecidableEq, Repr

/-- What happens: a motion is started, a symbol is put in `binSymbol`, a marker is dropped with that symbol
    there, and `End` is entered from a state with that left of `symbolList`. -/
inductive Happening where
  | motion (m : Motion)
  | selected (symbol : String)
  | dropped (symbol : String)
  | ended (source : State) (left : List String)
  deriving DecidableEq, Repr

structure Config where
  zigZag : ZigZags.Settings
  zigZagStart : ZigZags.ZigZag
  distanceLeft : ℚ
  distanceRight : ℚ
  foundMin : ℤ
  distance : ℚ
  xmin : ℚ
  xmax : ℚ
  ymin : ℚ
  ymax : ℚ

/-- The entries of `ai.data`. `foundNum` has those that end with `FoundNum`. -/
structure Data where
  symbolList : List String
  binData : SortedMap String (List (ℚ × ℚ))
  foundNum : SortedMap String ℕ
  ignoreSymbol : SortedMap String Bool
  binSymbol : Option String

/-- The current state with its fields, the events that wait, the data, and what has happened. -/
structure World where
  state : State
  foundBins : ℕ
  stepNum : ℕ
  moveAgain : Bool
  queue : List Event
  data : Data
  log : List Happening

def World.publish (w : World) (e : Event) : World := { w with queue := w.queue ++ [e] }

def World.record (w : World) (h : Happening) : World := { w with log := w.log ++ [h] }

/-- `ai.data['binSymbol'] = symbol`. -/
def World.select (w : World) (symbol : String) : World :=
  { w with data := { w.data with binSymbol := some symbol }, log := w.log ++ [.selected symbol] }

/-- An entry of a dictionary. -/
def getItem {V : Type} (d : SortedMap String V) (key : String) : Except PyError V :=
  match d.get? key with
  | some v => .ok v
  | none => .error (.keyError key)

/-! ### The states -/

namespace Start

def enterSymbol (d : Data) (symbol : String) : Data :=
  { d with
    binData := d.binData.set symbol.toLower []
    foundNum := d.foundNum.set symbol.toLower 0
    ignoreSymbol := d.ignoreSymbol.set symbol.toLower false }

def enter (w : World) : World :=
  { w with data := w.data.symbolList.foldl enterSymbol { w.data with binData := .empty, ignoreSymbol := .empty } }.record
    (.motion .dive)

end Start

namespace Search

def enter (c : Config) (w : World) : World :=
  match (ZigZags.FINISHED c.zigZag c.zigZagStart).2 with
  | .done => { w with foundBins := 0 }.publish .zigZagDone
  | order => { w with foundBins := 0 }.record (.motion (.zigZag order))

def BIN_FOUND (w : World) : World :=
  let w := { w with foundBins := w.foundBins + 1 }
  if w.foundBins ≥ 10 then w.publish .searchDone else w

end Search

namespace Strafe

def enter (w : World) : World :=
  let ignoreCount := (w.data.ignoreSymbol.entries.filter fun entry => entry.2 = true).length
  let w := if ignoreCount = w.data.ignoreSymbol.entries.length then w.publish .strafeNoneLeft else w
  { w.record (.motion .yaw) with stepNum := 0 }

def BIN_FOUND (c : Config) (position : ℚ × ℚ) (symbol : String) (w : World) : Except PyError World := do
  let symbol := symbol.toLower
  match w.data.binData.get? symbol with
  | none => return w
  | some found =>
    let w := { w with data := { w.data with binData := w.data.binData.set symbol (found ++ [position]) } }
    let foundNum ← getItem w.data.foundNum symbol
    let w := { w with data := { w.data with foundNum := w.data.foundNum.set symbol (foundNum + 1) } }
    if ((foundNum + 1 : ℕ) : ℤ) ≥ c.foundMin then
      if (← getItem w.data.ignoreSymbol symbol) then return w
      else return (w.select symbol).publish .symbolFound
    else return w

def move (distance : ℚ) (w : World) : World := w.record (.motion (.translate 0 distance))

def nextStep (c : Config) (w : World) : World :=
  let w :=
    match w.stepNum with
    | 0 => move c.distanceRight w
    | 1 => move (-c.distanceRight - c.distanceLeft) w
    | 2 => move c.distanceLeft w
    | _ => w.publish .strafeDone
  { w with stepNum := w.stepNum + 1 }

end Strafe

namespace Align

/-- The first symbol of the list that is not to be ignored, and what is left of the list. -/
def nextSymbol (ignoreSymbol : SortedMap String Bool) : List String → Except PyError (Option String × List String)
  | [] => .ok (none, [])
  | symbol :: symbolList => do
    if (← getItem ignoreSymbol symbol.toLower) then nextSymbol ignoreSymbol symbolList
    else return (some symbol.toLower, symbolList)

def average (values : List ℚ) : Except PyError ℚ :=
  if values.length = 0 then .error .zeroDivisionError else .ok (values.sum / values.length)

def enter (w : World) : Except PyError World := do
  let (symbol, symbolList) ← nextSymbol w.data.ignoreSymbol w.data.symbolList
  let w := { w with data := { w.data with symbolList := symbolList } }
  match symbol with
  | none => return w.publish .alignNoneLeft
  | some symbol =>
    let w := w.select symbol
    let binData ← getItem w.data.binData symbol
    let x_avg ← average (binData.map Prod.fst)
    let y_avg ← average (binData.map Prod.snd)
    return w.record (.motion (.goTo x_avg y_avg))

end Align

namespace Center

def enter (w : World) : World := { w with stepNum := 0, moveAgain := true }

def FINISHED (w : World) : World := { w with moveAgain := true }

def movex (distance : ℚ) (w : World) : World :=
  if w.moveAgain then { w.record (.motion (.translate 0 distance)) with moveAgain := false } else w

def movey (distance : ℚ) (w : World) : World :=
  if w.moveAgain then { w.record (.motion (.translate (-distance) 0)) with moveAgain := false } else w

def steer (c : Config) (x y : ℚ) (w : World) : World :=
  match w.stepNum with
  | 0 =>
    let w := if x ≤ c.xmin then movex (-c.distance) w else if x ≥ c.xmax then movex c.distance w else w
    { w with stepNum := 1 }
  | 1 => if x > c.xmin ∧ x < c.xmax then { w with moveAgain := true, stepNum := 2 } else { w with stepNum := 0 }
  | 2 =>
    let w := if y ≤ c.ymin then movey c.distance w else if y ≥ c.ymax then movey (-c.distance) w else w
    { w with stepNum := 3 }
  | 3 => if y > c.ymin ∧ y < c.ymax then w.publish .centered else { w with stepNum := 2 }
  | _ => w

def BIN_FOUND (c : Config) (symbol : String) (x y : ℚ) (w : World) : Except PyError World :=
  match w.data.binSymbol with
  | none => .error (.keyError "binSymbol")
  | some binSymbol => .ok (if symbol.toLower ≠ binSymbol then w else steer c x y w)

end Center

namespace Drop

def enter (w : World) : Except PyError World :=
  match w.data.binSymbol with
  | none => .error (.keyError "binSymbol")
  | some symbol =>
    -- Release the marker
    let w := w.record (.dropped symbol)
    .ok ({ w with data := { w.data with ignoreSymbol := w.data.ignoreSymbol.set symbol true } }.publish .dropped)

end Drop

/-! ### The machine -/

def transitions : State → Event → Option State
  | .start, .outside .finished => some .search
  | .search, .outside (.binFound _ _ _) => some .search
  | .search, .searchDone => some .strafe
  | .search, .zigZagDone => some .last
  | .strafe, .outside .finished => some .strafe
  | .strafe, .outside (.binFound _ _ _) => some .strafe
  | .strafe, .symbolFound => some .center
  | .strafe, .strafeDone => some .align
  | .strafe, .strafeNoneLeft => some .last
  | .align, .outside .finished => some .align
  | .align, .alignNoneLeft => some .last
  | .align, .aligned => some .center
  | .center, .outside .finished => some .center
  | .center, .outside (.binFound _ _ _) => some .center
  | .center, .centered => some .drop
  | .center, .outside .timeout => some .drop
  | .drop, .dropped => some .strafe
  | _, _ => none

/-- The function of the state that is named like the event, if there is one. -/
def transFunc (c : Config) (position : ℚ × ℚ) (e : Event) (w : World) : Except PyError World :=
  match w.state, e with
  | .search, .outside (.binFound _ _ _) => .ok (Search.BIN_FOUND w)
  | .strafe, .outside .finished => .ok (Strafe.nextStep c w)
  | .strafe, .outside (.binFound symbol _ _) => Strafe.BIN_FOUND c position symbol w
  | .align, .outside .finished => .ok (w.publish .aligned)
  | .center, .outside .finished => .ok (Center.FINISHED w)
  | .center, .outside (.binFound symbol x y) => Center.BIN_FOUND c symbol x y w
  | _, _ => .ok w

def enterState (c : Config) (next : State) (w : World) : Except PyError World :=
  let source := w.state
  let w := { w with state := next }
  match next with
  | .start => .ok (Start.enter w)
  | .search => .ok (Search.enter c w)
  | .strafe => .ok (Strafe.enter w)
  | .align => Align.enter w
  | .center => .ok (Center.enter w)
  | .drop => Drop.enter w
  | .last => .ok ((w.record (.ended source w.data.symbolList)).publish .complete)

/-- `injectEvent`, of an event that was not injected before. -/
def injectEvent (c : Config) (position : ℚ × ℚ) (e : Event) (w : World) : Except PyError World :=
  match transitions w.state e with
  | none => .ok w
  | some next => do
    let after ← transFunc c position e w
    if next = w.state then return after else enterState c next after

/-! ### Runs -/

/-- An event comes from outside, or the first of those that wait is handled, with the vehicle estimated at
    that position. -/
inductive Turn where
  | arrive (e : Outside)
  | handle (position : ℚ × ℚ)
  deriving DecidableEq, Repr

def turn (c : Config) (w : World) : Turn → Except PyError World
  | .arrive e => .ok (w.publish (.outside e))
  | .handle position =>
    match w.queue with
    | [] => .ok w
    | e :: queue => injectEvent c position e { w with queue := queue }

/-- The machine when it is started with the symbols. -/
def started (symbols : List String) : World :=
  Start.enter ⟨.start, 0, 0, false, [], ⟨symbols, .empty, .empty, .empty, none⟩, []⟩

def run (c : Config) (symbols : List String) (turns : List Turn) : Except PyError World := turns.foldlM (turn c) (started symbols)

/-! ### What is meant -/

/-- The symbol that was selected last. -/
def lastSelected : List Happening → Option String
  | [] => none
  | .selected symbol :: log => some ((lastSelected log).getD symbol)
  | _ :: log => lastSelected log

/-- A marker is dropped only for a symbol of the list that was selected last and has none yet, and the task ends
    after the strafes or the alignment only with a marker for each symbol, or when none is left of the list. -/
def Proper (symbols : List String) (before : List Happening) : Happening → Prop
  | .dropped symbol => symbol ∈ symbols.map String.toLower ∧ lastSelected before = some symbol ∧ .dropped symbol ∉ before
  | .ended source left => source = .strafe ∨ source = .align →
    (∀ symbol ∈ symbols, .dropped symbol.toLower ∈ before) ∨ left = []
  | _ => True

/-- Nothing is raised in the run, and each thing that happens is as is meant. -/
def Right (c : Config) (symbols : List String) (turns : List Turn) : Prop :=
  ∃ w, run c symbols turns = .ok w ∧ ∀ before h after, w.log = before ++ h :: after → Proper symbols before h

/-- The first symbol that is left of the list and has no marker. -/
def Data.nextUnserved (d : Data) : Option String :=
  (d.symbolList.map String.toLower).find? fun symbol => d.ignoreSymbol.get? symbol = some false

/-- Whenever the strafes are done, the symbol that is to be aligned with has been sighted, if there is one. -/
def Fits (c : Config) (symbols : List String) (turns : List Turn) : Prop :=
  ∀ before position after w, turns = before ++ .handle position :: after → run c symbols before = .ok w →
    w.state = .strafe → w.queue.head? = some .strafeDone →
      ∀ symbol, w.data.nextUnserved = some symbol → w.data.binData.get? symbol ≠ some []

end Tortuga.BinTask
