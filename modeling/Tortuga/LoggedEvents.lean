import Tortuga.Archives
import Mathlib.Algebra.Notation.Defs
import Mathlib.Data.Int.Notation

/-!
The events of vision and vehicle that can be written to a log: their fields (`Events.h`), how they
are cloned (`Events.cpp`) and what is put into an archive of them (`Serialize.h`, `Serialize.cpp`).
-/
namespace Tortuga.LoggedEvents
open Tortuga.Archives

inductive ColorType
  | red | orange | yellow | green | blue | unknown
  deriving DecidableEq

inductive SymbolType
  | club | clubR90 | clubR180 | clubR270 | spade | spadeR90 | spadeR180 | spadeR270
  | heart | heartR90 | heartR180 | heartR270 | diamond | diamondR90 | diamondR180 | diamondR270
  | ship | aircraft | tank | factory | axe | clippers | hammer | machete
  | largeX | smallX | largeO | smallO | net | shield | sword | trident | unknown | noneFound
  deriving DecidableEq

structure Vector2 (D : Type) where
  x : D
  y : D

structure Vector3 (D : Type) where
  x : D
  y : D
  z : D

/-- `core::Event`; `P` are the publishers. -/
structure Event (D P : Type) where
  type : String
  sender : Option P
  timeStamp : D

/-! ### The fields of the events -/

/-- `I` are the images. -/
structure ImageEvent (D P I : Type) extends Event D P where
  image : Option I

structure VisionEvent (D P : Type) extends Event D P where
  x : D
  y : D
  range : D
  id : ℤ

structure BuoyEvent (D P : Type) extends VisionEvent D P where
  azimuth : D
  elevation : D
  color : ColorType
  touchingEdge : Bool

structure PipeEvent (D P : Type) extends VisionEvent D P where
  angle : D

structure BinEvent (D P : Type) extends VisionEvent D P where
  symbol : SymbolType
  angle : D

structure HedgeEvent (D P : Type) extends Event D P where
  leftX : D
  leftY : D
  rightX : D
  rightY : D
  squareNess : D
  range : D
  haveLeft : Bool
  haveRight : Bool

structure RedLightEvent (D P : Type) extends Event D P where
  azimuth : D
  elevation : D
  range : D
  x : D
  y : D
  pixCount : ℤ
  color : ColorType

structure BarbedWireEvent (D P : Type) extends Event D P where
  topX : D
  topY : D
  topWidth : D
  bottomX : D
  bottomY : D
  bottomWidth : D

structure TargetEvent (D P : Type) extends Event D P where
  x : D
  y : D
  largex : D
  largey : D
  smallx : D
  smally : D
  panelx : D
  panely : D
  squareNess : D
  range : D
  color : ColorType

structure SafeEvent (D P : Type) extends Event D P where
  x : D
  y : D

structure DuctEvent (D P : Type) extends Event D P where
  x : D
  y : D
  range : D
  alignment : D
  aligned : Bool
  visible : Bool

/-- `F` are the floats. -/
structure PowerSourceEvent (D F P : Type) extends Event D P where
  id : ℤ
  enabled : Bool
  inUse : Bool
  voltage : F
  current : F

structure TempSensorEvent (D P : Type) extends Event D P where
  id : ℤ
  temp : ℤ

structure ThrusterEvent (D P : Type) extends Event D P where
  address : ℤ
  current : D
  enabled : Bool

structure SonarEvent (D P : Type) extends Event D P where
  direction : Vector3 D
  range : D
  pingTimeSec : ℤ
  pingTimeUSec : ℤ
  pingCount : ℤ
  pingerID : UInt8

/-- `R` are the packets of the IMU. -/
structure RawIMUDataEvent (D P R : Type) extends Event D P where
  name : String
  rawIMUData : R
  magIsCorrupt : Bool
  timestep : D

/-- `R` are the packets of the DVL. -/
structure RawDVLDataEvent (D P R : Type) extends Event D P where
  name : String
  rawDVLData : R
  velocityB : Vector2 D
  angularOffset : D
  timestep : D

structure RawDepthSensorDataEvent (D P : Type) extends Event D P where
  name : String
  rawDepth : D
  sensorLocation : Vector3 D
  timestep : D

/-! ### New objects -/

/-- What a new object finds in the members that its constructor leaves alone, by their names, and the time of day. -/
structure Memory (D F R S : Type) where
  now : D
  double : String → D
  float : String → F
  int : String → ℤ
  bool : String → Bool
  byte : String → UInt8
  rawIMUData : R
  rawDVLData : S

section
variable {D F P I R S : Type} (m : Memory D F R S)

def Vector2.new (name : String) : Vector2 D := ⟨m.double (name ++ ".x"), m.double (name ++ ".y")⟩

def Vector3.new (name : String) : Vector3 D := ⟨m.double (name ++ ".x"), m.double (name ++ ".y"), m.double (name ++ ".z")⟩

def Event.new : Event D P := ⟨"", none, m.now⟩

def ImageEvent.new : ImageEvent D P I := ⟨.new m, none⟩

def PowerSourceEvent.new : PowerSourceEvent D F P :=
  ⟨.new m, m.int "id", m.bool "enabled", m.bool "inUse", m.float "voltage", m.float "current"⟩

def TempSensorEvent.new : TempSensorEvent D P := ⟨.new m, m.int "id", m.int "temp"⟩

def ThrusterEvent.new : ThrusterEvent D P := ⟨.new m, m.int "address", m.double "current", m.bool "enabled"⟩

def SonarEvent.new : SonarEvent D P :=
  ⟨.new m, .new m "direction", m.double "range", m.int "pingTimeSec", m.int "pingTimeUSec", m.int "pingCount", m.byte "pingerID"⟩

def RawIMUDataEvent.new : RawIMUDataEvent D P R := ⟨.new m, "", m.rawIMUData, m.bool "magIsCorrupt", m.double "timestep"⟩

def RawDVLDataEvent.new : RawDVLDataEvent D P S :=
  ⟨.new m, "", m.rawDVLData, .new m "velocity_b", m.double "angularOffset", m.double "timestep"⟩

def RawDepthSensorDataEvent.new : RawDepthSensorDataEvent D P :=
  ⟨.new m, "", m.double "rawDepth", .new m "sensorLocation", m.double "timestep"⟩

variable [Zero D]

def VisionEvent.new : VisionEvent D P := ⟨.new m, 0, 0, 0, 0⟩

def BuoyEvent.new : BuoyEvent D P := ⟨.new m, 0, 0, .unknown, m.bool "touchingEdge"⟩

def PipeEvent.new : PipeEvent D P := ⟨.new m, 0⟩

def BinEvent.new : BinEvent D P := ⟨.new m, .unknown, 0⟩

def HedgeEvent.new : HedgeEvent D P := ⟨.new m, 0, 0, 0, 0, 0, 0, false, false⟩

def RedLightEvent.new : RedLightEvent D P := ⟨.new m, 0, 0, 0, 0, 0, 0, .unknown⟩

def BarbedWireEvent.new : BarbedWireEvent D P := ⟨.new m, 0, 0, 0, 0, 0, 0⟩

def TargetEvent.new : TargetEvent D P := ⟨.new m, 0, 0, 0, 0, 0, 0, m.double "panelx", m.double "panely", 0, 0, .unknown⟩

def SafeEvent.new : SafeEvent D P := ⟨.new m, 0, 0⟩

def DuctEvent.new : DuctEvent D P := ⟨.new m, 0, 0, 0, 0, false, false⟩

end

/-! ### Clones -/

/-- `Event::copyInto` -/
def Event.copyInto {D P : Type} (e inEvent : Event D P) : Event D P :=
  { inEvent with type := e.type, sender := e.sender, timeStamp := e.timeStamp }

section
variable {D F P I R S : Type} (m : Memory D F R S)

def ImageEvent.clone (e : ImageEvent D P I) : ImageEvent D P I :=
  let event : ImageEvent D P I := .new m
  { event with toEvent := e.copyInto event.toEvent }

def PowerSourceEvent.clone (e : PowerSourceEvent D F P) : PowerSourceEvent D F P :=
  let event : PowerSourceEvent D F P := .new m
  { event with
    toEvent := e.copyInto event.toEvent, id := e.id, enabled := e.enabled, inUse := e.inUse, voltage := e.voltage,
    current := e.current }

def TempSensorEvent.clone (e : TempSensorEvent D P) : TempSensorEvent D P :=
  let event : TempSensorEvent D P := .new m
  { event with toEvent := e.copyInto event.toEvent, id := e.id, temp := e.temp }

def ThrusterEvent.clone (e : ThrusterEvent D P) : ThrusterEvent D P :=
  let event : ThrusterEvent D P := .new m
  { event with toEvent := e.copyInto event.toEvent, address := e.address, current := e.current, enabled := e.enabled }

def SonarEvent.clone (e : SonarEvent D P) : SonarEvent D P :=
  let event : SonarEvent D P := .new m
  { event with
    toEvent := e.copyInto event.toEvent, direction := e.direction, range := e.range, pingTimeSec := e.pingTimeSec,
    pingTimeUSec := e.pingTimeUSec, pingCount := e.pingCount, pingerID := e.pingerID }

def RawIMUDataEvent.clone (e : RawIMUDataEvent D P R) : RawIMUDataEvent D P R :=
  let event : RawIMUDataEvent D P R := .new m
  { event with
    toEvent := e.copyInto event.toEvent, name := e.name, rawIMUData := e.rawIMUData, magIsCorrupt := e.magIsCorrupt,
    timestep := e.timestep }

def RawDVLDataEvent.clone (e : RawDVLDataEvent D P S) : RawDVLDataEvent D P S :=
  let event : RawDVLDataEvent D P S := .new m
  { event with
    toEvent := e.copyInto event.toEvent, name := e.name, rawDVLData := e.rawDVLData, velocityB := e.velocityB,
    angularOffset := e.angularOffset, timestep := e.timestep }

def RawDepthSensorDataEvent.clone (e : RawDepthSensorDataEvent D P) : RawDepthSensorDataEvent D P :=
  let event : RawDepthSensorDataEvent D P := .new m
  { event with
    toEvent := e.copyInto event.toEvent, name := e.name, rawDepth := e.rawDepth, sensorLocation := e.sensorLocation,
    timestep := e.timestep }

variable [Zero D]

def BuoyEvent.clone (e : BuoyEvent D P) : BuoyEvent D P :=
  let event : BuoyEvent D P := .new m
  { event with
    toEvent := e.copyInto event.toEvent, azimuth := e.azimuth, elevation := e.elevation, x := e.x, y := e.y,
    range := e.range, color := e.color, touchingEdge := e.touchingEdge }

def PipeEvent.clone (e : PipeEvent D P) : PipeEvent D P :=
  let event : PipeEvent D P := .new m
  { event with toEvent := e.copyInto event.toEvent, id := e.id, x := e.x, y := e.y, angle := e.angle }

def BinEvent.clone (e : BinEvent D P) : BinEvent D P :=
  let event : BinEvent D P := .new m
  { event with toEvent := e.copyInto event.toEvent, id := e.id, x := e.x, y := e.y, symbol := e.symbol, angle := e.angle }

def HedgeEvent.clone (e : HedgeEvent D P) : HedgeEvent D P :=
  let event : HedgeEvent D P := .new m
  { event with
    toEvent := e.copyInto event.toEvent, leftX := e.leftX, leftY := e.leftY, rightX := e.rightX, rightY := e.rightY,
    squareNess := e.squareNess, range := e.range, haveLeft := e.haveLeft, haveRight := e.haveRight }

def RedLightEvent.clone (e : RedLightEvent D P) : RedLightEvent D P :=
  let event : RedLightEvent D P := .new m
  { event with
    toEvent := e.copyInto event.toEvent, azimuth := e.azimuth, elevation := e.elevation, range := e.range, x := e.x,
    y := e.y, pixCount := e.pixCount, color := e.color }

def BarbedWireEvent.clone (e : BarbedWireEvent D P) : BarbedWireEvent D P :=
  let event : BarbedWireEvent D P := .new m
  { event with
    toEvent := e.copyInto event.toEvent, topX := e.topX, topY := e.topY, topWidth := e.topWidth, bottomX := e.bottomX,
    bottomY := e.bottomY, bottomWidth := e.bottomWidth }

def TargetEvent.clone (e : TargetEvent D P) : TargetEvent D P :=
  let event : TargetEvent D P := .new m
  { event with
    toEvent := e.copyInto event.toEvent, x := e.x, y := e.y, largex := e.largex, largey := e.largey, smallx := e.smallx,
    smally := e.smally, squareNess := e.squareNess, range := e.range, color := e.color }

def SafeEvent.clone (e : SafeEvent D P) : SafeEvent D P :=
  let event : SafeEvent D P := .new m
  { event with toEvent := e.copyInto event.toEvent, x := e.x, y := e.y }

def DuctEvent.clone (e : DuctEvent D P) : DuctEvent D P :=
  let event : DuctEvent D P := .new m
  { event with
    toEvent := e.copyInto event.toEvent, x := e.x, y := e.y, range := e.range, alignment := e.alignment,
    aligned := e.aligned, visible := e.visible }

end

/-! ### Serializers -/

/-- The classes that have a serializer. -/
inductive Kind
  | image | redLight | buoy | pipe | bin | duct | safe | target | barbedWire | hedge
  | powerSource | tempSensor | thruster | sonar | rawIMUData | rawDVLData | rawDepthSensorData
  deriving DecidableEq

/-- What stands in an archive. It gives back the values that were put into it. -/
inductive Datum (D F : Type)
  | object (kind : Kind)
  | string (s : String)
  | double (x : D)
  | float (x : F)
  | int (z : ℤ)
  | bool (b : Bool)
  | byte (c : UInt8)

section
variable {D F P E : Type}

def Member.string : (E → String) → (String → E → E) → Entry E (Datum D F) :=
  .member .string (fun d => match d with | .string s => some s | _ => none) fun _ => rfl

def Member.double : (E → D) → (D → E → E) → Entry E (Datum D F) :=
  .member .double (fun d => match d with | .double x => some x | _ => none) fun _ => rfl

def Member.float : (E → F) → (F → E → E) → Entry E (Datum D F) :=
  .member .float (fun d => match d with | .float x => some x | _ => none) fun _ => rfl

def Member.int : (E → ℤ) → (ℤ → E → E) → Entry E (Datum D F) :=
  .member .int (fun d => match d with | .int z => some z | _ => none) fun _ => rfl

def Member.bool : (E → Bool) → (Bool → E → E) → Entry E (Datum D F) :=
  .member .bool (fun d => match d with | .bool b => some b | _ => none) fun _ => rfl

def Member.byte : (E → UInt8) → (UInt8 → E → E) → Entry E (Datum D F) :=
  .member .byte (fun d => match d with | .byte c => some c | _ => none) fun _ => rfl

/-- An enumeration is put into an archive as an `int`. -/
def Member.color : (E → ColorType) → (ColorType → E → E) → Entry E (Datum D F) :=
  .member (fun c => .int c.ctorIdx) (fun d => match d with | .int z => some (.ofNat z.toNat) | _ => none) fun c => by cases c <;> rfl

def Member.symbol : (E → SymbolType) → (SymbolType → E → E) → Entry E (Datum D F) :=
  .member (fun s => .int s.ctorIdx) (fun d => match d with | .int z => some (.ofNat z.toNat) | _ => none) fun s => by cases s <;> rfl

/-- The names of publishers, and `EventPublisherRegistry::lookupByName`. -/
structure Registry (P : Type) where
  getPublisherName : P → String
  lookupByName : String → Option P

variable (r : Registry P)

def Registry.senderName (sender : Option P) : String := sender.elim "UNNAMED" r.getPublisherName

/-- The sender is put into an archive as its name. -/
def Member.sender (get : E → Option P) (set : Option P → E → E) : Entry E (Datum D F) where
  save e := .string (r.senderName (get e))
  load d t := match d with | .string s => some (set (r.lookupByName s) t) | _ => none
  copy e t := set (r.lookupByName (r.senderName (get e))) t
  loads _ _ := rfl

def Vector2.serialize : List (Entry (Vector2 D) (Datum D F)) :=
  [Member.double (·.x) fun x t => { t with x := x }, Member.double (·.y) fun y t => { t with y := y }]

def Vector3.serialize : List (Entry (Vector3 D) (Datum D F)) :=
  [Member.double (·.x) fun x t => { t with x := x }, Member.double (·.y) fun y t => { t with y := y }, Member.double (·.z) fun z t => { t with z := z }]

def Event.serialize : List (Entry (Event D P) (Datum D F)) :=
  [Member.string (·.type) fun v t => { t with type := v },
    Member.double (·.timeStamp) fun v t => { t with timeStamp := v },
    Member.sender r (·.sender) fun v t => { t with sender := v }]

/-- `base_object<Event>` -/
def baseObject (get : E → Event D P) (set : Event D P → E → E) : List (Entry E (Datum D F)) := parts get set (Event.serialize r)

/-- The image and the sender are not stored: the sender of the loaded event is none. -/
def ImageEvent.serialize {I : Type} : List (Entry (ImageEvent D P I) (Datum D F)) :=
  [Member.string (·.type) fun v t => { t with type := v },
    Member.double (·.timeStamp) fun v t => { t with timeStamp := v, sender := none }]

def RedLightEvent.serialize : List (Entry (RedLightEvent D P) (Datum D F)) :=
  baseObject r (·.toEvent) (fun v t => { t with toEvent := v }) ++
    [Member.double (·.y) fun v t => { t with y := v },
      Member.double (·.azimuth) fun v t => { t with azimuth := v },
      Member.double (·.elevation) fun v t => { t with elevation := v },
      Member.double (·.range) fun v t => { t with range := v },
      Member.double (·.x) fun v t => { t with x := v },
      Member.double (·.y) fun v t => { t with y := v },
      Member.int (·.pixCount) fun v t => { t with pixCount := v }]

def BuoyEvent.serialize : List (Entry (BuoyEvent D P) (Datum D F)) :=
  baseObject r (·.toEvent) (fun v t => { t with toEvent := v }) ++
    [Member.double (·.y) fun v t => { t with y := v },
      Member.double (·.azimuth) fun v t => { t with azimuth := v },
      Member.double (·.elevation) fun v t => { t with elevation := v },
      Member.double (·.range) fun v t => { t with range := v },
      Member.double (·.x) fun v t => { t with x := v },
      Member.double (·.y) fun v t => { t with y := v },
      Member.int (·.id) fun v t => { t with id := v },
      Member.color (·.color) fun v t => { t with color := v },
      Member.bool (·.touchingEdge) fun v t => { t with touchingEdge := v }]

def PipeEvent.serialize : List (Entry (PipeEvent D P) (Datum D F)) :=
  baseObject r (·.toEvent) (fun v t => { t with toEvent := v }) ++
    [Member.int (·.id) fun v t => { t with id := v },
      Member.double (·.x) fun v t => { t with x := v },
      Member.double (·.y) fun v t => { t with y := v },
      Member.double (·.angle) fun v t => { t with angle := v }]

def BinEvent.serialize : List (Entry (BinEvent D P) (Datum D F)) :=
  baseObject r (·.toEvent) (fun v t => { t with toEvent := v }) ++
    [Member.double (·.y) fun v t => { t with y := v },
      Member.double (·.y) fun v t => { t with y := v },
      Member.int (·.id) fun v t => { t with id := v },
      Member.symbol (·.symbol) fun v t => { t with symbol := v },
      Member.double (·.angle) fun v t => { t with angle := v }]

def DuctEvent.serialize : List (Entry (DuctEvent D P) (Datum D F)) :=
  baseObject r (·.toEvent) (fun v t => { t with toEvent := v }) ++
    [Member.double (·.y) fun v t => { t with y := v },
      Member.double (·.x) fun v t => { t with x := v },
      Member.double (·.range) fun v t => { t with range := v },
      Member.double (·.alignment) fun v t => { t with alignment := v },
      Member.bool (·.aligned) fun v t => { t with aligned := v },
      Member.bool (·.visible) fun v t => { t with visible := v }]

def SafeEvent.serialize : List (Entry (SafeEvent D P) (Datum D F)) :=
  baseObject r (·.toEvent) (fun v t => { t with toEvent := v }) ++
    [Member.double (·.x) fun v t => { t with x := v },
      Member.double (·.y) fun v t => { t with y := v }]

def TargetEvent.serialize : List (Entry (TargetEvent D P) (Datum D F)) :=
  baseObject r (·.toEvent) (fun v t => { t with toEvent := v }) ++
    [Member.double (·.x) fun v t => { t with x := v },
      Member.double (·.y) fun v t => { t with y := v },
      Member.double (·.squareNess) fun v t => { t with squareNess := v },
      Member.double (·.range) fun v t => { t with range := v }]

def BarbedWireEvent.serialize : List (Entry (BarbedWireEvent D P) (Datum D F)) :=
  baseObject r (·.toEvent) (fun v t => { t with toEvent := v }) ++
    [Member.double (·.topX) fun v t => { t with topX := v },
      Member.double (·.topY) fun v t => { t with topY := v },
      Member.double (·.topWidth) fun v t => { t with topWidth := v },
      Member.double (·.bottomX) fun v t => { t with bottomX := v },
      Member.double (·.bottomY) fun v t => { t with bottomY := v },
      Member.double (·.bottomWidth) fun v t => { t with bottomWidth := v }]

def HedgeEvent.serialize : List (Entry (HedgeEvent D P) (Datum D F)) :=
  baseObject r (·.toEvent) (fun v t => { t with toEvent := v }) ++
    [Member.double (·.leftX) fun v t => { t with leftX := v },
      Member.double (·.leftY) fun v t => { t with leftY := v },
      Member.double (·.rightX) fun v t => { t with rightX := v },
      Member.double (·.rightY) fun v t => { t with rightY := v },
      Member.double (·.squareNess) fun v t => { t with squareNess := v },
      Member.double (·.range) fun v t => { t with range := v },
      Member.bool (·.haveLeft) fun v t => { t with haveLeft := v },
      Member.bool (·.haveRight) fun v t => { t with haveRight := v }]

def PowerSourceEvent.serialize : List (Entry (PowerSourceEvent D F P) (Datum D F)) :=
  baseObject r (·.toEvent) (fun v t => { t with toEvent := v }) ++
    [Member.int (·.id) fun v t => { t with id := v },
      Member.bool (·.enabled) fun v t => { t with enabled := v },
      Member.bool (·.inUse) fun v t => { t with inUse := v },
      Member.float (·.voltage) fun v t => { t with voltage := v },
      Member.float (·.current) fun v t => { t with current := v }]

def TempSensorEvent.serialize : List (Entry (TempSensorEvent D P) (Datum D F)) :=
  baseObject r (·.toEvent) (fun v t => { t with toEvent := v }) ++
    [Member.int (·.id) fun v t => { t with id := v },
      Member.int (·.temp) fun v t => { t with temp := v }]

def ThrusterEvent.serialize : List (Entry (ThrusterEvent D P) (Datum D F)) :=
  baseObject r (·.toEvent) (fun v t => { t with toEvent := v }) ++
    [Member.int (·.address) fun v t => { t with address := v },
      Member.double (·.current) fun v t => { t with current := v },
      Member.bool (·.enabled) fun v t => { t with enabled := v }]

def SonarEvent.serialize : List (Entry (SonarEvent D P) (Datum D F)) :=
  baseObject r (·.toEvent) (fun v t => { t with toEvent := v }) ++
    parts (·.direction) (fun v t => { t with direction := v }) Vector3.serialize ++
    [Member.double (·.range) fun v t => { t with range := v },
      Member.int (·.pingTimeSec) fun v t => { t with pingTimeSec := v },
      Member.int (·.pingTimeUSec) fun v t => { t with pingTimeUSec := v },
      Member.int (·.pingCount) fun v t => { t with pingCount := v },
      Member.byte (·.pingerID) fun v t => { t with pingerID := v }]

/-- The packet of the IMU is not stored. -/
def RawIMUDataEvent.serialize {R : Type} : List (Entry (RawIMUDataEvent D P R) (Datum D F)) :=
  baseObject r (·.toEvent) (fun v t => { t with toEvent := v }) ++
    [Member.string (·.name) fun v t => { t with name := v },
      Member.double (·.timestep) fun v t => { t with timestep := v }]

/-- The packet of the DVL is not stored. -/
def RawDVLDataEvent.serialize {S : Type} : List (Entry (RawDVLDataEvent D P S) (Datum D F)) :=
  baseObject r (·.toEvent) (fun v t => { t with toEvent := v }) ++
    [Member.string (·.name) fun v t => { t with name := v },
      Member.double (·.timestep) fun v t => { t with timestep := v }]

def RawDepthSensorDataEvent.serialize : List (Entry (RawDepthSensorDataEvent D P) (Datum D F)) :=
  baseObject r (·.toEvent) (fun v t => { t with toEvent := v }) ++
    [Member.string (·.name) fun v t => { t with name := v },
      Member.double (·.rawDepth) fun v t => { t with rawDepth := v },
      Member.double (·.timestep) fun v t => { t with timestep := v }]

end

/-! ### Events of any class -/

/-- What a pointer to an event can point to. -/
inductive AnyEvent (D F P I R S : Type)
  | image (e : ImageEvent D P I)
  | redLight (e : RedLightEvent D P)
  | buoy (e : BuoyEvent D P)
  | pipe (e : PipeEvent D P)
  | bin (e : BinEvent D P)
  | duct (e : DuctEvent D P)
  | safe (e : SafeEvent D P)
  | target (e : TargetEvent D P)
  | barbedWire (e : BarbedWireEvent D P)
  | hedge (e : HedgeEvent D P)
  | powerSource (e : PowerSourceEvent D F P)
  | tempSensor (e : TempSensorEvent D P)
  | thruster (e : ThrusterEvent D P)
  | sonar (e : SonarEvent D P)
  | rawIMUData (e : RawIMUDataEvent D P R)
  | rawDVLData (e : RawDVLDataEvent D P S)
  | rawDepthSensorData (e : RawDepthSensorDataEvent D P)

/-- The classes with a `BOOST_CLASS_EXPORT`: only these are converted when they are written through a pointer to an event. -/
def Kind.exported : Kind → Bool
  | .buoy | .hedge => false
  | _ => true

section
variable {D F P I R S : Type} (r : Registry P) (m : Memory D F R S)

/-- The class of the object, and its entries. -/
def AnyEvent.save : AnyEvent D F P I R S → Kind × List (Datum D F)
  | .image e => (.image, saveAll ImageEvent.serialize e)
  | .redLight e => (.redLight, saveAll (RedLightEvent.serialize r) e)
  | .buoy e => (.buoy, saveAll (BuoyEvent.serialize r) e)
  | .pipe e => (.pipe, saveAll (PipeEvent.serialize r) e)
  | .bin e => (.bin, saveAll (BinEvent.serialize r) e)
  | .duct e => (.duct, saveAll (DuctEvent.serialize r) e)
  | .safe e => (.safe, saveAll (SafeEvent.serialize r) e)
  | .target e => (.target, saveAll (TargetEvent.serialize r) e)
  | .barbedWire e => (.barbedWire, saveAll (BarbedWireEvent.serialize r) e)
  | .hedge e => (.hedge, saveAll (HedgeEvent.serialize r) e)
  | .powerSource e => (.powerSource, saveAll (PowerSourceEvent.serialize r) e)
  | .tempSensor e => (.tempSensor, saveAll (TempSensorEvent.serialize r) e)
  | .thruster e => (.thruster, saveAll (ThrusterEvent.serialize r) e)
  | .sonar e => (.sonar, saveAll (SonarEvent.serialize r) e)
  | .rawIMUData e => (.rawIMUData, saveAll (RawIMUDataEvent.serialize r) e)
  | .rawDVLData e => (.rawDVLData, saveAll (RawDVLDataEvent.serialize r) e)
  | .rawDepthSensorData e => (.rawDepthSensorData, saveAll (RawDepthSensorDataEvent.serialize r) e)

variable [Zero D]

def AnyEvent.clone : AnyEvent D F P I R S → AnyEvent D F P I R S
  | .image e => .image (e.clone m)
  | .redLight e => .redLight (e.clone m)
  | .buoy e => .buoy (e.clone m)
  | .pipe e => .pipe (e.clone m)
  | .bin e => .bin (e.clone m)
  | .duct e => .duct (e.clone m)
  | .safe e => .safe (e.clone m)
  | .target e => .target (e.clone m)
  | .barbedWire e => .barbedWire (e.clone m)
  | .hedge e => .hedge (e.clone m)
  | .powerSource e => .powerSource (e.clone m)
  | .tempSensor e => .tempSensor (e.clone m)
  | .thruster e => .thruster (e.clone m)
  | .sonar e => .sonar (e.clone m)
  | .rawIMUData e => .rawIMUData (e.clone m)
  | .rawDVLData e => .rawDVLData (e.clone m)
  | .rawDepthSensorData e => .rawDepthSensorData (e.clone m)

/-- The entries of a class are read into a new object of it. -/
def AnyEvent.load : Kind → List (Datum D F) → Option (AnyEvent D F P I R S × List (Datum D F))
  | .image, rest => (loadAll ImageEvent.serialize (.new m) rest).map fun v => (.image v.1, v.2)
  | .redLight, rest => (loadAll (RedLightEvent.serialize r) (.new m) rest).map fun v => (.redLight v.1, v.2)
  | .buoy, rest => (loadAll (BuoyEvent.serialize r) (.new m) rest).map fun v => (.buoy v.1, v.2)
  | .pipe, rest => (loadAll (PipeEvent.serialize r) (.new m) rest).map fun v => (.pipe v.1, v.2)
  | .bin, rest => (loadAll (BinEvent.serialize r) (.new m) rest).map fun v => (.bin v.1, v.2)
  | .duct, rest => (loadAll (DuctEvent.serialize r) (.new m) rest).map fun v => (.duct v.1, v.2)
  | .safe, rest => (loadAll (SafeEvent.serialize r) (.new m) rest).map fun v => (.safe v.1, v.2)
  | .target, rest => (loadAll (TargetEvent.serialize r) (.new m) rest).map fun v => (.target v.1, v.2)
  | .barbedWire, rest => (loadAll (BarbedWireEvent.serialize r) (.new m) rest).map fun v => (.barbedWire v.1, v.2)
  | .hedge, rest => (loadAll (HedgeEvent.serialize r) (.new m) rest).map fun v => (.hedge v.1, v.2)
  | .powerSource, rest => (loadAll (PowerSourceEvent.serialize r) (.new m) rest).map fun v => (.powerSource v.1, v.2)
  | .tempSensor, rest => (loadAll (TempSensorEvent.serialize r) (.new m) rest).map fun v => (.tempSensor v.1, v.2)
  | .thruster, rest => (loadAll (ThrusterEvent.serialize r) (.new m) rest).map fun v => (.thruster v.1, v.2)
  | .sonar, rest => (loadAll (SonarEvent.serialize r) (.new m) rest).map fun v => (.sonar v.1, v.2)
  | .rawIMUData, rest => (loadAll (RawIMUDataEvent.serialize r) (.new m) rest).map fun v => (.rawIMUData v.1, v.2)
  | .rawDVLData, rest => (loadAll (RawDVLDataEvent.serialize r) (.new m) rest).map fun v => (.rawDVLData v.1, v.2)
  | .rawDepthSensorData, rest =>
    (loadAll (RawDepthSensorDataEvent.serialize r) (.new m) rest).map fun v => (.rawDepthSensorData v.1, v.2)

/-- `writeEvent` puts a clone at the end of the log, if its class can be converted. -/
def writeEvent (log : List (Datum D F)) (event : AnyEvent D F P I R S) : Bool × List (Datum D F) :=
  let clone := (event.clone m).save r
  if clone.1.exported then (true, log ++ .object clone.1 :: clone.2) else (false, log)

/-- The next event of a log, and the rest. -/
def readEvent : List (Datum D F) → Option (AnyEvent D F P I R S × List (Datum D F))
  | .object kind :: rest => AnyEvent.load r m kind rest
  | _ => none

end

end Tortuga.LoggedEvents
