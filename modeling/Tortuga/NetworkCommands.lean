import Mathlib.Data.Int.Notation
import Mathlib.Data.List.Induction

/-!
Joystick commands from the network (`Receiver.cpp`, `NetworkController.cpp`): datagrams into a buffer
of two bytes, a command and its parameter, and the events of an update.
-/
namespace Tortuga.NetworkCommands
set_option linter.unusedSimpArgs false

section
/-! ### The commands -/

@[match_pattern] abbrev cmdNothing : UInt8 := 0
@[match_pattern] abbrev cmdTurnLeft : UInt8 := 1
@[match_pattern] abbrev cmdTurnRight : UInt8 := 2
@[match_pattern] abbrev cmdAscend : UInt8 := 3
@[match_pattern] abbrev cmdDescend : UInt8 := 4
@[match_pattern] abbrev cmdIncSpeed : UInt8 := 5
@[match_pattern] abbrev cmdDecSpeed : UInt8 := 6
@[match_pattern] abbrev cmdZeroSpeed : UInt8 := 7
@[match_pattern] abbrev cmdEmergStop : UInt8 := 8
@[match_pattern] abbrev cmdSetSpeed : UInt8 := 9
@[match_pattern] abbrev cmdAngleYaw : UInt8 := 10
@[match_pattern] abbrev cmdTSetSpeed : UInt8 := 11
@[match_pattern] abbrev cmdAnglePitch : UInt8 := 12
@[match_pattern] abbrev cmdAngleRoll : UInt8 := 13
@[match_pattern] abbrev cmdFireTorpedo : UInt8 := 14
@[match_pattern] abbrev cmdDropMarker : UInt8 := 15
@[match_pattern] abbrev cmdMaintainDepth : UInt8 := 16

end

/-- The events published, with the number of a `NumericEvent`. -/
inductive Event
  | emergencyStop
  | yawLeft
  | yawRight
  | descend
  | ascend
  | maintainDepth
  | fireMarkerDropper
  | fireTorpedoLauncher
  | setSpeed (number : ℤ)
  | tSetSpeed (number : ℤ)
  | angleYaw (number : ℤ)
  deriving DecidableEq, Repr

structure NetworkController where
  speed : ℤ
  tspeed : ℤ
  yaw : ℤ
  pitch : ℤ
  roll : ℤ
  descending : Bool
  ascending : Bool
  deriving DecidableEq, Repr

def NetworkController.new : NetworkController where
  speed := 0
  tspeed := 0
  yaw := 0
  pitch := 0
  roll := 0
  descending := false
  ascending := false

/-- What is returned, the events published, and the controller afterwards. -/
def NetworkController.processMessage (s : NetworkController) (cmd : UInt8) (param : Int8) : Bool × List Event × NetworkController :=
  match cmd with
  | cmdEmergStop => (false, [.emergencyStop], s)
  | cmdTurnLeft => (true, [.yawLeft], s)
  | cmdTurnRight => (true, [.yawRight], s)
  | cmdIncSpeed => (true, [], s)
  | cmdDecSpeed => (true, [], s)
  | cmdDescend => (true, [.descend], { s with descending := true })
  | cmdAscend => (true, [.ascend], { s with ascending := true })
  | cmdZeroSpeed => (true, [], s)
  | cmdSetSpeed => (true, [], { s with speed := param.toInt })
  | cmdTSetSpeed => (true, [], { s with tspeed := param.toInt })
  | cmdNothing => (true, [], s)
  | cmdAngleYaw => (true, [], { s with yaw := param.toInt })
  | cmdAnglePitch => (true, [], { s with pitch := param.toInt })
  | cmdAngleRoll => (true, [], { s with roll := param.toInt })
  | cmdDropMarker => (true, [.fireMarkerDropper], s)
  | cmdFireTorpedo => (true, [.fireTorpedoLauncher], s)
  | cmdMaintainDepth => (true, [.maintainDepth], { s with descending := false, ascending := false })
  | _ => (true, [], s)

def NetworkController.update (s : NetworkController) : List Event :=
  [.setSpeed s.speed, .tSetSpeed s.tspeed, .angleYaw s.yaw] ++ (if s.descending ∧ ¬ s.ascending then [.descend] else []) ++
    if s.ascending ∧ ¬ s.descending then [.ascend] else []

/-- The buffer of the receiver. -/
structure Buffer where
  first : UInt8
  second : UInt8
  deriving DecidableEq, Repr

/-- A datagram in the buffer: what is longer is cut off, and what is shorter leaves the rest of the buffer. -/
def Buffer.receive (b : Buffer) : List UInt8 → Buffer
  | [] => b
  | [first] => { b with first }
  | first :: second :: _ => ⟨first, second⟩

/-- The controller and its receiver. -/
structure State where
  data : Buffer
  controller : NetworkController

/-- `handle_receive_from` without an error: the events and the state afterwards. -/
def State.receive (s : State) (datagram : List UInt8) : List Event × State :=
  let data := s.data.receive datagram
  if 0 < datagram.length then
    let r := s.controller.processMessage data.first data.second.toInt8
    (r.2.1, { data, controller := r.2.2 })
  else ([], { s with data })

inductive Call
  | datagram (bytes : List UInt8)
  | update

def State.call (s : State) : Call → List Event × State
  | .datagram bytes => s.receive bytes
  | .update => (s.controller.update, s)

/-- The state after some calls; the buffer holds anything at first. -/
def after (data : Buffer) (calls : List Call) : State := calls.foldl (fun s c => (s.call c).2) ⟨data, .new⟩

/-! ### What the commands are for -/

/-- The command of a datagram. -/
def Call.command : Call → Option UInt8
  | .datagram bytes => bytes.head?
  | .update => none

/-- The last of the commands for the depth. -/
def lastMotion (commands : List UInt8) : Option UInt8 :=
  commands.foldl (fun last c => if c = cmdAscend ∨ c = cmdDescend ∨ c = cmdMaintainDepth then some c else last) none

/-- The events of an update that are due to a command for the depth. -/
def motionOf : Option UInt8 → List Event
  | some cmdAscend => [.ascend]
  | some cmdDescend => [.descend]
  | _ => []

@[simp] theorem motionOf_ascend : motionOf (some cmdAscend) = [.ascend] := rfl
@[simp] theorem motionOf_descend : motionOf (some cmdDescend) = [.descend] := rfl

/-- The motions among some events. -/
def motions (events : List Event) : List Event := events.filter fun e => e = .ascend ∨ e = .descend

/-- What a datagram does: its events and the controller afterwards. -/
def effect (r : List Event × State) : List Event × NetworkController := (r.1, r.2.controller)

/-- Each datagram does the same whatever the buffer held before it, and each update publishes the last motion. -/
structure Correct (data : Buffer) (calls : List Call) : Prop where
  own : ∀ before bytes rest, calls = before ++ .datagram bytes :: rest →
    ∀ other, effect ({ after data before with data := other }.receive bytes) = effect ((after data before).receive bytes)
  motion : ∀ before rest, calls = before ++ .update :: rest →
    motions ((after data before).call .update).1 = motionOf (lastMotion (before.filterMap Call.command))

/-- The commands that have a parameter. -/
def Parametric (c : UInt8) : Prop :=
  c = cmdSetSpeed ∨ c = cmdTSetSpeed ∨ c = cmdAngleYaw ∨ c = cmdAnglePitch ∨ c = cmdAngleRoll

instance (c : UInt8) : Decidable (Parametric c) := inferInstanceAs (Decidable (_ ∨ _))

/-- The commands since the last one to maintain the depth. -/
def sinceMaintain (commands : List UInt8) : List UInt8 :=
  commands.foldl (fun since c => if c = cmdMaintainDepth then [] else since ++ [c]) []

/-- No parameter is missing, and no update comes while both motions have been commanded. -/
structure Careful (calls : List Call) : Prop where
  own : ∀ c, .datagram [c] ∈ calls → ¬ Parametric c
  motion : ∀ before rest, calls = before ++ .update :: rest → ¬ (cmdAscend ∈ sinceMaintain (before.filterMap Call.command) ∧
    cmdDescend ∈ sinceMaintain (before.filterMap Call.command))

section
variable {s : NetworkController} {c : UInt8} {param : Int8} {data : Buffer} {calls : List Call} {commands : List UInt8}

/-! ### One command -/

theorem processMessage_ascending (s : NetworkController) (c : UInt8) (param : Int8) : (s.processMessage c param).2.2.ascending =
    if c = cmdAscend then true else if c = cmdMaintainDepth then false else s.ascending := by
  unfold NetworkController.processMessage
  split
  case h_18 => rw [if_neg ‹c = cmdAscend → False›, if_neg ‹c = cmdMaintainDepth → False›]
  all_goals rfl

theorem processMessage_descending (s : NetworkController) (c : UInt8) (param : Int8) : (s.processMessage c param).2.2.descending =
    if c = cmdDescend then true else if c = cmdMaintainDepth then false else s.descending := by
  unfold NetworkController.processMessage
  split
  case h_18 => rw [if_neg ‹c = cmdDescend → False›, if_neg ‹c = cmdMaintainDepth → False›]
  all_goals rfl

/-- A command without a parameter does not read it. -/
theorem processMessage_plain (plain : ¬ Parametric c) (s : NetworkController) (param other : Int8) :
    s.processMessage c param = s.processMessage c other := by
  unfold NetworkController.processMessage
  split <;> first | rfl | exact absurd (by decide) plain

/-- A command with a parameter stores it. -/
theorem processMessage_parametric (parametric : Parametric c) {other : Int8} (differ : param ≠ other) :
    (s.processMessage c param).2.2 ≠ (s.processMessage c other).2.2 := by
  have apart : param.toInt ≠ other.toInt := fun same => differ (Int8.toInt_inj.mp same)
  intro same
  rcases parametric with rfl | rfl | rfl | rfl | rfl
  · exact apart (congrArg NetworkController.speed same)
  · exact apart (congrArg NetworkController.tspeed same)
  · exact apart (congrArg NetworkController.yaw same)
  · exact apart (congrArg NetworkController.pitch same)
  · exact apart (congrArg NetworkController.roll same)

/-! ### One datagram -/

@[simp] theorem after_snoc (data : Buffer) (calls : List Call) (c : Call) :
    after data (calls ++ [c]) = ((after data calls).call c).2 := by
  rw [after, List.foldl_append]
  rfl

/-- A datagram of one byte takes its parameter from the buffer. -/
theorem receive_single (t : State) (c : UInt8) : effect (t.receive [c]) =
    ((t.controller.processMessage c t.data.second.toInt8).2.1, (t.controller.processMessage c t.data.second.toInt8).2.2) := rfl

/-- What a datagram does depends on the buffer only if its parameter is missing. -/
theorem receive_own (t : State) (bytes : List UInt8) :
    (∀ other, effect ({ t with data := other }.receive bytes) = effect (t.receive bytes)) ↔ ∀ c, bytes = [c] → ¬ Parametric c := by
  constructor
  · rintro own c rfl parametric
    -- another second byte in the buffer is another parameter
    have same := own ⟨0, t.data.second + 1⟩
    rw [receive_single, receive_single] at same
    refine processMessage_parametric parametric (fun equal => ?_) (congrArg Prod.snd same)
    have second := congrArg Int8.toUInt8 equal
    simp at second
    exact absurd second (by decide)
  · intro plain other
    match bytes with
    | [] => rfl
    | [c] => rw [receive_single, receive_single, processMessage_plain (plain c rfl) t.controller other.second.toInt8 t.data.second.toInt8]
    | _ :: _ :: _ => rfl

/-! ### The motions -/

@[simp] theorem ascend_ne_descend : cmdAscend ≠ cmdDescend := by decide
@[simp] theorem descend_ne_ascend : cmdDescend ≠ cmdAscend := by decide
@[simp] theorem ascend_ne_maintain : cmdAscend ≠ cmdMaintainDepth := by decide
@[simp] theorem maintain_ne_ascend : cmdMaintainDepth ≠ cmdAscend := by decide
@[simp] theorem descend_ne_maintain : cmdDescend ≠ cmdMaintainDepth := by decide
@[simp] theorem maintain_ne_descend : cmdMaintainDepth ≠ cmdDescend := by decide

theorem sinceMaintain_snoc (commands : List UInt8) (c : UInt8) :
    sinceMaintain (commands ++ [c]) = if c = cmdMaintainDepth then [] else sinceMaintain commands ++ [c] := by
  rw [sinceMaintain, List.foldl_append]
  rfl

theorem lastMotion_snoc (commands : List UInt8) (c : UInt8) : lastMotion (commands ++ [c]) =
    if c = cmdAscend ∨ c = cmdDescend ∨ c = cmdMaintainDepth then some c else lastMotion commands := by
  rw [lastMotion, List.foldl_append]
  rfl

/-- The flags of the controller are the motions commanded since the depth was last to be maintained. -/
structure Tracks (commands : List UInt8) (s : NetworkController) : Prop where
  ascending : s.ascending = true ↔ cmdAscend ∈ sinceMaintain commands
  descending : s.descending = true ↔ cmdDescend ∈ sinceMaintain commands

/-- A flag that a command sets and the maintaining of the depth clears. -/
theorem flag_snoc {flag : Bool} {wanted : UInt8} (other : wanted ≠ cmdMaintainDepth)
    (tracks : flag = true ↔ wanted ∈ sinceMaintain commands) (c : UInt8) :
    (if c = wanted then true else if c = cmdMaintainDepth then false else flag) = true ↔ wanted ∈ sinceMaintain (commands ++ [c]) := by
  rw [sinceMaintain_snoc]
  by_cases maintains : c = cmdMaintainDepth
  · simp [maintains, other.symm]
  · rw [if_neg maintains, if_neg maintains, List.mem_append, List.mem_singleton, ← tracks]
    by_cases same : c = wanted
    · simp [same]
    · simp [same, Ne.symm same]

theorem Tracks.processMessage (tracks : Tracks commands s) (c : UInt8) (param : Int8) :
    Tracks (commands ++ [c]) (s.processMessage c param).2.2 := by
  constructor
  · rw [processMessage_ascending]
    exact flag_snoc ascend_ne_maintain tracks.ascending c
  · rw [processMessage_descending]
    exact flag_snoc descend_ne_maintain tracks.descending c

theorem tracks_after (data : Buffer) (calls : List Call) : Tracks (calls.filterMap Call.command) (after data calls).controller := by
  induction calls using List.reverseRecOn with
  | nil => exact ⟨⟨nofun, nofun⟩, ⟨nofun, nofun⟩⟩
  | append_singleton calls c ih =>
    rw [List.filterMap_append, after_snoc]
    cases c with
    | update => exact (List.append_nil (calls.filterMap Call.command)).symm ▸ ih
    | datagram bytes =>
      cases bytes with
      | nil => exact (List.append_nil (calls.filterMap Call.command)).symm ▸ ih
      | cons c rest => cases rest <;> exact ih.processMessage c _

/-- The last command for the depth is one of those since the depth was last to be maintained, if there are any. -/
structure Latest (commands : List UInt8) : Prop where
  ascends : lastMotion commands = some cmdAscend → cmdAscend ∈ sinceMaintain commands
  descends : lastMotion commands = some cmdDescend → cmdDescend ∈ sinceMaintain commands
  some : cmdAscend ∈ sinceMaintain commands ∨ cmdDescend ∈ sinceMaintain commands →
    lastMotion commands = some cmdAscend ∨ lastMotion commands = some cmdDescend

theorem latest (commands : List UInt8) : Latest commands := by
  induction commands using List.reverseRecOn with
  | nil => exact ⟨nofun, nofun, fun none => by simp [sinceMaintain] at none⟩
  | append_singleton commands c ih =>
    constructor
    all_goals
      rw [lastMotion_snoc, sinceMaintain_snoc]
      by_cases maintains : c = cmdMaintainDepth
      · simp [maintains]
      · by_cases ascends : c = cmdAscend
        · simp [ascends]
        · by_cases descends : c = cmdDescend
          · simp [descends]
          · have plain : ¬ (c = cmdAscend ∨ c = cmdDescend ∨ c = cmdMaintainDepth) := by
              rintro (h | h | h) <;> contradiction
            rw [if_neg plain, if_neg maintains]
            simp only [List.mem_append, List.mem_singleton, Ne.symm ascends, Ne.symm descends, or_false]
            first | exact ih.ascends | exact ih.descends | exact ih.some

/-- An update publishes the last motion, unless both motions have been commanded: then it publishes none. -/
theorem motions_update (tracks : Tracks commands s) : motions s.update = motionOf (lastMotion commands) ↔
    ¬ (cmdAscend ∈ sinceMaintain commands ∧ cmdDescend ∈ sinceMaintain commands) := by
  have latest := latest commands
  rw [← tracks.ascending, ← tracks.descending]
  have ascends := latest.ascends
  have descends := latest.descends
  have some := latest.some
  rw [← tracks.ascending] at ascends some
  rw [← tracks.descending] at descends some
  cases up : s.ascending with
  | true =>
    cases down : s.descending with
    | true =>
      have none : motions s.update = [] := by simp [motions, NetworkController.update, up, down]
      rw [none]
      rcases some (.inl up) with last | last <;> rw [last] <;> simp
    | false =>
      have last : lastMotion commands = .some cmdAscend := by
        rcases some (.inl up) with last | last
        · exact last
        · exact absurd (descends last) (by rw [down]; decide)
      rw [last]
      simp [motions, NetworkController.update, up, down]
  | false =>
    cases down : s.descending with
    | true =>
      have last : lastMotion commands = .some cmdDescend := by
        rcases some (.inr down) with last | last
        · exact absurd (ascends last) (by rw [up]; decide)
        · exact last
      rw [last]
      simp [motions, NetworkController.update, up, down]
    | false =>
      have none : motionOf (lastMotion commands) = [] := by
        unfold motionOf
        split
        case h_1 last => exact absurd (ascends last) (by rw [up]; decide)
        case h_2 last => exact absurd (descends last) (by rw [down]; decide)
        case h_3 => rfl
      rw [none]
      simp [motions, NetworkController.update, up, down]

end

/-- The commands do what they should if and only if no parameter is missing and no update comes while both
    motions have been commanded. -/
theorem calls_correct (data : Buffer) (calls : List Call) : Correct data calls ↔ Careful calls := by
  constructor
  · rintro ⟨own, motion⟩
    refine ⟨fun c there => ?_, fun before rest split => ?_⟩
    · obtain ⟨before, rest, split⟩ := List.append_of_mem there
      exact (receive_own _ _).mp (own before [c] rest split) c rfl
    · exact (motions_update (tracks_after data before)).mp (motion before rest split)
  · rintro ⟨own, motion⟩
    refine ⟨fun before bytes rest split => (receive_own _ _).mpr ?_, fun before rest split => ?_⟩
    · rintro c rfl
      exact own c (split ▸ List.mem_append_right _ List.mem_cons_self)
    · exact (motions_update (tracks_after data before)).mpr (motion before rest split)

/-- After a descent the command to ascend stops both motions, and a speed without its byte is that of the
    datagram before. -/
theorem calls_stuck : ¬ Correct ⟨0, 0⟩ [.datagram [cmdDescend, 0], .datagram [cmdAscend, 0], .update] ∧
    ¬ Correct ⟨0, 0⟩ [.datagram [cmdAngleYaw, 5], .datagram [cmdSetSpeed]] := by
  constructor
  · rintro ⟨-, motion⟩
    have published := motion [.datagram [cmdDescend, 0], .datagram [cmdAscend, 0]] [] rfl
    exact absurd published (by decide)
  · rintro ⟨own, -⟩
    have same := own [.datagram [cmdAngleYaw, 5]] [cmdSetSpeed] [] rfl ⟨0, 0⟩
    exact absurd same (by decide)

end Tortuga.NetworkCommands
