import Tortuga.LoggedEvents
import Mathlib.Algebra.Ring.Int.Defs

/-!
What comes back of an event that is written to a log and read again (`Serialize.h`): for each class
the fields that are lost on the way, and the events of which nothing is lost.
-/
namespace Tortuga.EventLogs
open Tortuga.Archives Tortuga.LoggedEvents

section
variable {D F P I R S : Type} [Zero D] (r : Registry P) (m m' : Memory D F R S)

/-- The sender that is found again by its name. -/
def foundSender (sender : Option P) : Option P := r.lookupByName (r.senderName sender)

/-- The event that is read back. `m'` is what its new object finds. -/
def loaded : AnyEvent D F P I R S → AnyEvent D F P I R S
  | .image e => .image { e with sender := none, image := none }
  | .redLight e => .redLight { e with sender := foundSender r e.sender, color := .unknown }
  | .buoy e => .buoy { e with sender := foundSender r e.sender, id := 0 }
  | .pipe e => .pipe { e with sender := foundSender r e.sender, range := 0 }
  | .bin e => .bin { e with sender := foundSender r e.sender, x := 0, range := 0 }
  | .duct e => .duct { e with sender := foundSender r e.sender }
  | .safe e => .safe { e with sender := foundSender r e.sender }
  | .target e => .target
    { e with
      sender := foundSender r e.sender, largex := 0, largey := 0, smallx := 0, smally := 0, panelx := m'.double "panelx",
      panely := m'.double "panely", color := .unknown }
  | .barbedWire e => .barbedWire { e with sender := foundSender r e.sender }
  | .hedge e => .hedge { e with sender := foundSender r e.sender }
  | .powerSource e => .powerSource { e with sender := foundSender r e.sender }
  | .tempSensor e => .tempSensor { e with sender := foundSender r e.sender }
  | .thruster e => .thruster { e with sender := foundSender r e.sender }
  | .sonar e => .sonar { e with sender := foundSender r e.sender }
  | .rawIMUData e => .rawIMUData
    { e with sender := foundSender r e.sender, rawIMUData := m'.rawIMUData, magIsCorrupt := m'.bool "magIsCorrupt" }
  | .rawDVLData e => .rawDVLData
    { e with
      sender := foundSender r e.sender, rawDVLData := m'.rawDVLData, velocityB := .new m' "velocity_b",
      angularOffset := m'.double "angularOffset" }
  | .rawDepthSensorData e => .rawDepthSensorData
    { e with sender := foundSender r e.sender, sensorLocation := .new m' "sensorLocation" }

/-- Two events of one class have the same data. Images, packets of sensors and senders are not compared. -/
def Alike : AnyEvent D F P I R S → AnyEvent D F P I R S → Prop
  | .image e, .image f => { e with sender := f.sender, image := f.image } = f
  | .redLight e, .redLight f => { e with sender := f.sender } = f
  | .buoy e, .buoy f => { e with sender := f.sender } = f
  | .pipe e, .pipe f => { e with sender := f.sender } = f
  | .bin e, .bin f => { e with sender := f.sender } = f
  | .duct e, .duct f => { e with sender := f.sender } = f
  | .safe e, .safe f => { e with sender := f.sender } = f
  | .target e, .target f => { e with sender := f.sender } = f
  | .barbedWire e, .barbedWire f => { e with sender := f.sender } = f
  | .hedge e, .hedge f => { e with sender := f.sender } = f
  | .powerSource e, .powerSource f => { e with sender := f.sender } = f
  | .tempSensor e, .tempSensor f => { e with sender := f.sender } = f
  | .thruster e, .thruster f => { e with sender := f.sender } = f
  | .sonar e, .sonar f => { e with sender := f.sender } = f
  | .rawIMUData e, .rawIMUData f => { e with sender := f.sender, rawIMUData := f.rawIMUData } = f
  | .rawDVLData e, .rawDVLData f => { e with sender := f.sender, rawDVLData := f.rawDVLData } = f
  | .rawDepthSensorData e, .rawDepthSensorData f => { e with sender := f.sender } = f
  | _, _ => False

/-- Who published the event. -/
def sender : AnyEvent D F P I R S → Option P
  | .image e => e.sender
  | .redLight e => e.sender
  | .buoy e => e.sender
  | .pipe e => e.sender
  | .bin e => e.sender
  | .duct e => e.sender
  | .safe e => e.sender
  | .target e => e.sender
  | .barbedWire e => e.sender
  | .hedge e => e.sender
  | .powerSource e => e.sender
  | .tempSensor e => e.sender
  | .thruster e => e.sender
  | .sonar e => e.sender
  | .rawIMUData e => e.sender
  | .rawDVLData e => e.sender
  | .rawDepthSensorData e => e.sender

/-- The fields that are lost on the way have what the new object has in them, and the class can be converted. -/
def Complete : AnyEvent D F P I R S → Prop
  | .buoy _ | .hedge _ => False
  | .redLight e => e.color = .unknown
  | .pipe e => e.range = 0
  | .bin e => e.x = 0 ∧ e.range = 0
  | .target e => (e.largex = 0 ∧ e.largey = 0 ∧ e.smallx = 0 ∧ e.smally = 0) ∧
    (e.panelx = m'.double "panelx" ∧ e.panely = m'.double "panely") ∧ e.color = .unknown
  | .rawIMUData e => e.magIsCorrupt = m'.bool "magIsCorrupt"
  | .rawDVLData e => e.velocityB = .new m' "velocity_b" ∧ e.angularOffset = m'.double "angularOffset"
  | .rawDepthSensorData e => e.sensorLocation = .new m' "sensorLocation"
  | _ => True

/-- The sender is found by its name, or is not stored and there was none. -/
def SenderKept : AnyEvent D F P I R S → Prop
  | .buoy _ | .hedge _ => False
  | .image e => e.sender = none
  | e => foundSender r (sender e) = sender e

/-- The event is written, at the end of any log, and what is read there, whatever follows, is an event with a property. -/
def ComesBack (Q : AnyEvent D F P I R S → AnyEvent D F P I R S → Prop) (e : AnyEvent D F P I R S) : Prop :=
  ∃ new f, (∀ log, writeEvent r m log e = (true, log ++ new)) ∧
    (∀ rest, readEvent r m' (new ++ rest) = some (f, rest)) ∧ Q e f

variable {r m m'}

/-- What is saved of an event is loaded again, whatever follows in the log. -/
theorem load_save (e : AnyEvent D F P I R S) (rest : List (Datum D F)) :
    AnyEvent.load r m' ((e.clone m).save r).1 (((e.clone m).save r).2 ++ rest) = some (loaded r m' e, rest) := by
  cases e <;> simp only [AnyEvent.clone, AnyEvent.save, AnyEvent.load, loadAll_saveAll, Option.map_some] <;> rfl

theorem comesBack_iff (Q : AnyEvent D F P I R S → AnyEvent D F P I R S → Prop) (e : AnyEvent D F P I R S) :
    ComesBack r m m' Q e ↔ ((e.clone m).save r).1.exported = true ∧ Q e (loaded r m' e) := by
  constructor
  · rintro ⟨new, f, written, read, holds⟩
    have first := written []
    rw [writeEvent] at first
    split at first
    · next exported =>
      have list : new = .object ((e.clone m).save r).1 :: ((e.clone m).save r).2 := (congrArg Prod.snd first).symm
      have back := read []
      rw [list, List.cons_append, readEvent, load_save] at back
      have same : loaded r m' e = f := congrArg Prod.fst (Option.some_inj.mp back)
      exact ⟨exported, same ▸ holds⟩
    · exact absurd (congrArg Prod.fst first) Bool.false_ne_true
  · rintro ⟨exported, holds⟩
    refine ⟨.object ((e.clone m).save r).1 :: ((e.clone m).save r).2, loaded r m' e, fun log => ?_, fun rest => ?_, holds⟩
    · rw [writeEvent, if_pos exported]
    · rw [List.cons_append, readEvent, load_save]

/-- What is read back has the data of the original exactly when nothing was in the fields that are lost. -/
theorem alike_iff (e : AnyEvent D F P I R S) : ((e.clone m).save r).1.exported = true ∧ Alike e (loaded r m' e) ↔ Complete m' e := by
  -- In each class the two structures are compared field by field.
  cases e <;> simp [Alike, loaded, Complete, AnyEvent.clone, AnyEvent.save, Kind.exported, and_assoc]

theorem sender_iff (e : AnyEvent D F P I R S) :
    ((e.clone m).save r).1.exported = true ∧ sender (loaded r m' e) = sender e ↔ SenderKept r e := by
  cases e <;> simp [sender, loaded, SenderKept, AnyEvent.clone, AnyEvent.save, Kind.exported, eq_comm]

/-- An event keeps its data on the way through a log exactly when it is complete, and its sender exactly when that is found. -/
theorem log_round_trip (r : Registry P) (m m' : Memory D F R S) (e : AnyEvent D F P I R S) :
    (ComesBack r m m' Alike e ↔ Complete m' e) ∧ (ComesBack r m m' (fun e f => sender f = sender e) e ↔ SenderKept r e) := by
  rw [comesBack_iff, comesBack_iff]
  exact ⟨alike_iff e, sender_iff e⟩

end

/-- A publisher with a name, which is found by it. -/
def named : Registry Unit := ⟨fun _ => "BinDetector", fun name => if name = "BinDetector" then some () else none⟩

/-- New objects that are all zero. -/
def zeroed : Memory ℤ ℤ Unit Unit := ⟨0, fun _ => 0, fun _ => 0, fun _ => 0, fun _ => false, fun _ => 0, (), ()⟩

/-- A bin that is not in the middle of the image loses its place. -/
theorem not_log_round_trip : ¬ ∀ (r : Registry Unit) (m m' : Memory ℤ ℤ Unit Unit) (e : AnyEvent ℤ ℤ Unit Unit Unit Unit),
    ComesBack r m m' Alike e := by
  intro all
  have bin := all named zeroed zeroed (.bin ⟨⟨⟨"BIN_FOUND", some (), 7⟩, 1, 2, 0, 3⟩, .spade, 45⟩)
  rw [comesBack_iff, alike_iff] at bin
  exact Int.one_ne_zero bin.1

end Tortuga.EventLogs
