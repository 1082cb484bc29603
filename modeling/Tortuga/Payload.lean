import Tortuga.HostBoard
import Tortuga.Machines

/-!
Markers and torpedoes: `SensorBoard` of the vehicle, the driver under it and the master
at the other end.
-/
namespace Tortuga.Payload
open Tortuga.Programs Tortuga.BusCodes Tortuga.Master Tortuga.Commands Tortuga.HostBoard Tortuga.Machines
open Tortuga.SensorApi (Host)
set_option linter.unusedSimpArgs false

/-! ### The vehicle -/

inductive Kind where
  | marker
  | torpedo
  deriving DecidableEq, Repr

abbrev numberOfMarkers : ℕ := 2
abbrev numberOfTorpedos : ℕ := 2

/-- `markersDropped` and `torpedosFired`. -/
abbrev Flags := Kind → List Bool

abbrev Vehicle := StateT Flags Host

def readFlag (kind : Kind) (i : ℕ) : Vehicle Bool := do
  match ((← get) kind)[i]? with
  | some used => pure used
  | none => fun _ => .fault

def setFlag (kind : Kind) (i : ℕ) : Vehicle Unit := do
  if i < ((← get) kind).length then modify fun flags => Function.update flags kind ((flags kind).set i true)
  else fun _ => .fault

/-- `handleReturn` in a method that holds `m_deviceMutex`: `establishConnection` locks
    it again, and the mutex is not recursive. -/
def handleReturn (ret : Int) : Host Unit := if ret < 0 then .fault else .ret ()

/-- The first unit from `i` on, of `count`, that no flag marks as used. -/
def releaseFrom (kind : Kind) (send : ℕ → Host Unit) (number : ℕ → Int) : ℕ → ℕ → Vehicle Int
  | _, 0 => pure (-1)
  | i, count + 1 => do
    if ← readFlag kind i then releaseFrom kind send number (i + 1) count
    else
      send i
      setFlag kind i
      return number i

/-- `SensorBoard::dropMarker(int)`, which does not look at the result. -/
def dropMarkerNum (markerNum : Int) : Host Unit := do
  let _ ← SensorApi.dropMarker markerNum

def dropMarker : Vehicle Int :=
  releaseFrom .marker (fun i => dropMarkerNum (i + 1)) (fun i => i + 1) 0 numberOfMarkers

def fireTorpedo : Vehicle Int :=
  releaseFrom .torpedo (fun i => do handleReturn (← SensorApi.fireTorpedo (toByte i))) (fun i => i) 0 numberOfTorpedos

/-- A call of `dropMarker()` or of `fireTorpedo()`. -/
def release : Kind → Vehicle Int
  | .marker => dropMarker
  | .torpedo => fireTorpedo

/-! ### The line to the board -/

/-- The board, the frames that the host sent to it, the bytes that the board wrote to its
    slaves and its replies that the host has not read. -/
structure Bench where
  mem : Mem
  frames : List (List Byte)
  written : List (Byte × Byte)
  replies : List Byte

/-- The board takes every frame and its replies come at once. -/
def serve (t : Bench) : (o : SensorApi.Op) → SensorApi.Ans o × Bench
  | .writeData bytes => match runCommand t.mem bytes with
    | some (mem, w) => ((), ⟨mem, t.frames ++ [bytes], t.written ++ w.written, t.replies ++ w.replies⟩)
    | none => ((), { t with frames := t.frames ++ [bytes] })
  | .readData nbytes => match t.replies with
    | [] => (none, t)
    | replies => (some (replies.take nbytes), { t with replies := replies.drop nbytes })
  | .usleep _ => ((), t)

/-- The vehicle and the board. -/
structure System where
  flags : Flags
  bench : Bench

def start (m : Mem) : System where
  flags
    | .marker => List.replicate numberOfMarkers false
    | .torpedo => List.replicate numberOfTorpedos false
  bench := ⟨m, [], [], []⟩

/-- One call, when it comes back. -/
def call (s : System) (kind : Kind) : Option (Int × System) :=
  (exec serve 0 (release kind s.flags) s.bench).map fun r => (r.1.1, ⟨r.1.2, r.2⟩)

/-- The bytes for the units of a kind. -/
def units : Kind → List (Byte × Byte)
  | .marker => [(busCmdMarker1, slaveIdMarkers), (busCmdMarker2, slaveIdMarkers)]
  | .torpedo => [(busCmdFireTorp1, slaveIdTorpedo), (busCmdFireTorp2, slaveIdTorpedo)]

/-- A call that finds `used` calls of its kind before it comes back; it releases a unit
    that is still there, or says -1 and sends nothing when there is none. -/
def Releases (s : System) (kind : Kind) (used : ℕ) : Prop :=
  ∃ r s', call s kind = some (r, s') ∧
    if used < (units kind).length then
      ∃ unit ∈ units kind, unit ∉ s.bench.written ∧ s'.bench.written = s.bench.written ++ [unit]
    else r = -1 ∧ s'.bench.frames = s.bench.frames

def step (s : System) (kind : Kind) : Option System := (call s kind).map Prod.snd

/-- Every call of a sequence releases a new unit while there is one. -/
def AllRelease (m : Mem) (calls : List Kind) : Prop :=
  ∀ earlier kind later, calls = earlier ++ kind :: later →
    ∃ s, runs step (start m) earlier = some s ∧ Releases s kind (earlier.count kind)

/-! ### One call -/

theorem exec_readFlag (kind : Kind) (i : ℕ) (flags : Flags) (t : Bench) :
    exec serve 0 (readFlag kind i flags) t = ((flags kind)[i]?).map fun used => ((used, flags), t) := by
  show exec serve 0 ((match (flags kind)[i]? with | some used => pure used | none => fun _ => .fault : Vehicle Bool) flags) t = _
  cases (flags kind)[i]? <;> rfl

theorem exec_setFlag (kind : Kind) (i : ℕ) (flags : Flags) (t : Bench) (inside : i < (flags kind).length) :
    exec serve 0 (setFlag kind i flags) t = some (((), Function.update flags kind ((flags kind).set i true)), t) := by
  simp [setFlag, inside]

/-- A unit that is used is passed over. -/
theorem releaseFrom_used {kind : Kind} {send : ℕ → Host Unit} {number : ℕ → Int} {i count : ℕ} {flags : Flags} {t : Bench}
    (used : (flags kind)[i]? = some true) : exec serve 0 (releaseFrom kind send number i (count + 1) flags) t =
      exec serve 0 (releaseFrom kind send number (i + 1) count flags) t := by
  simp [releaseFrom, exec_readFlag, used]

/-- A unit that is there is released. -/
theorem releaseFrom_free {kind : Kind} {send : ℕ → Host Unit} {number : ℕ → Int} {i count : ℕ} {flags : Flags} {t : Bench}
    (free : (flags kind)[i]? = some false) : exec serve 0 (releaseFrom kind send number i (count + 1) flags) t =
      (exec serve 0 (send i) t).map fun r =>
        ((number i, Function.update flags kind ((flags kind).set i true)), r.2) := by
  have inside : i < (flags kind).length := (List.getElem?_eq_some_iff.mp free).1
  simp only [releaseFrom, exec_all_bind, exec_readFlag, free, Option.map_some, Option.bind_some, exec_ite, exec_lift,
    Bool.false_eq_true, ↓reduceIte]
  cases exec serve 0 (send i) t with
  | none => rfl
  | some r => simp [exec_setFlag kind i flags r.2 inside]

/-- A frame that the board answers by one byte. -/
theorem exec_exchange (bytes : List Byte) (frames : List (List Byte)) (written : List (Byte × Byte)) {n : ℕ}
    (length : bytes.length = n) {mem mem' : Mem} {more : List (Byte × Byte)} {rest : List Byte} {reply : Byte}
    (ran : runCommand mem bytes = some (mem', ⟨rest, more, [reply]⟩)) :
    exec serve 0 (SensorApi.exchange (SensorApi.bufOf bytes) n) ⟨mem, frames, written, []⟩ =
      some (SensorApi.replyResult reply, ⟨mem', frames ++ [bytes], written ++ more, []⟩) := by
  have first := SensorApi.firstBytes_bufOf bytes
  rw [length] at first
  have replied : SensorApi.store (SensorApi.bufOf bytes) 0 [reply] 0 = reply := rfl
  simp [SensorApi.exchange, SensorApi.writeData, SensorApi.readData, serve, first, ran, replied]

/-- The board on the frame of a marker. -/
theorem run_marker (m : Mem) (v : Int) : runCommand m (paramFrame hostCmdMarker v) =
    if isBit (toByte v) = true then ([busCmdMarker1, busCmdMarker2][(toByte v).toNat]?).map fun data =>
      (received m hostCmdMarker v, ⟨[], [(data, slaveIdMarkers)], [hostReplySuccess]⟩)
    else some (received m hostCmdMarker v, ⟨[], [], [hostReplyBadchksum]⟩) :=
  run_select m (show dispatch hostCmdMarker = caseMarker from rfl) rfl (fun b m t => exec_marker m b t) v

variable (m : Mem) (flags : Flags) (frames : List (List Byte)) (written : List (Byte × Byte))

theorem exec_dropMarkerNum {v : Int} (low : 0 ≤ v) (high : v ≤ 2) {mem : Mem} {more : List (Byte × Byte)}
    {rest : List Byte} {reply : Byte} (ran : runCommand m (paramFrame hostCmdMarker v) = some (mem, ⟨rest, more, [reply]⟩)) :
    exec serve 0 (dropMarkerNum v) ⟨m, frames, written, []⟩ =
      some ((), ⟨mem, frames ++ [paramFrame hostCmdMarker v], written ++ more, []⟩) := by
  have sends := exec_exchange (paramFrame hostCmdMarker v) frames written (n := 3) rfl ran
  rw [dropMarkerNum, Prog.bind_eq, exec_bind, SensorApi.dropMarker, SensorApi.simpleWrite, if_neg (by omega)]
  show (exec serve 0 (SensorApi.exchange (SensorApi.bufOf (paramFrame hostCmdMarker v)) 3) _).bind _ = _
  rw [sends]
  rfl

/-- Marker number 1 is the second unit of the board. -/
theorem call_first {second : Bool} (fresh : flags .marker = [false, second]) :
    call ⟨flags, m, frames, written, []⟩ .marker = some (1, ⟨Function.update flags .marker [true, second],
      received m hostCmdMarker 1, frames ++ [paramFrame hostCmdMarker 1], written ++ [(busCmdMarker2, slaveIdMarkers)],
      []⟩) := by
  have sends := exec_dropMarkerNum m frames written (by decide) (by decide) (run_marker m 1)
  have first : (flags .marker)[0]? = some false := by simp [fresh]
  rw [call, release, dropMarker, releaseFrom_free first]
  refine (congrArg _ (congrArg _ sends)).trans ?_
  simp [fresh]

/-- The board has no marker number 2. -/
theorem call_second (one : flags .marker = [true, false]) :
    call ⟨flags, m, frames, written, []⟩ .marker = some (2, ⟨Function.update flags .marker [true, true],
      received m hostCmdMarker 2, frames ++ [paramFrame hostCmdMarker 2], written, []⟩) := by
  have sends := exec_dropMarkerNum m frames written (by decide) (by decide) (run_marker m 2)
  rw [List.append_nil] at sends
  have first : (flags .marker)[0]? = some true := by simp [one]
  have second : (flags .marker)[1]? = some false := by simp [one]
  rw [call, release, dropMarker, releaseFrom_used first, releaseFrom_free second]
  refine (congrArg _ (congrArg _ sends)).trans ?_
  simp [one]

/-- No marker is left. -/
theorem call_more {t : Bench} (both : flags .marker = [true, true]) : call ⟨flags, t⟩ .marker = some (-1, ⟨flags, t⟩) := by
  have first : (flags .marker)[0]? = some true := by simp [both]
  have second : (flags .marker)[1]? = some true := by simp [both]
  rw [call, release, dropMarker, releaseFrom_used first, releaseFrom_used second]
  rfl

/-- The driver has no torpedo number 0, and the call does not come back. -/
theorem call_torpedo {t : Bench} {second : Bool} (fresh : flags .torpedo = [false, second]) :
    call ⟨flags, t⟩ .torpedo = none := by
  have first : (flags .torpedo)[0]? = some false := by simp [fresh]
  rw [call, release, fireTorpedo, releaseFrom_free first]
  rfl

/-! ### Sequences of calls -/

/-- What `n` calls for a marker leave behind. -/
structure Reached (n : ℕ) (s : System) : Prop where
  markers : s.flags .marker = [decide (0 < n), decide (1 < n)]
  torpedos : s.flags .torpedo = [false, false]
  replies : s.bench.replies = []
  written : s.bench.written = if n = 0 then [] else [(busCmdMarker2, slaveIdMarkers)]

theorem start_reached : Reached 0 (start m) := ⟨rfl, rfl, rfl, rfl⟩

/-- The first call for a marker releases one, the second does not, and the later ones are refused. -/
theorem reached_marker {n : ℕ} {s : System} (reached : Reached n s) :
    (∃ r s', call s .marker = some (r, s') ∧ Reached (n + 1) s') ∧ (Releases s .marker n ↔ n ≠ 1) := by
  obtain ⟨flags, m, frames, written, replies⟩ := s
  obtain ⟨markers, torpedos, rfl, rfl⟩ := reached
  rcases n with - | - | n
  · have called := call_first m flags frames [] markers
    refine ⟨⟨_, _, called, by simp, by simpa using torpedos, rfl, rfl⟩, iff_of_true ?_ (by decide)⟩
    exact ⟨_, _, called, (busCmdMarker2, slaveIdMarkers), by decide, by simp, rfl⟩
  · have called := call_second m flags frames [(busCmdMarker2, slaveIdMarkers)] markers
    refine ⟨⟨_, _, called, by simp, by simpa using torpedos, rfl, rfl⟩, iff_of_false ?_ (by decide)⟩
    rintro ⟨r, s', again, released⟩
    obtain ⟨rfl, rfl⟩ := Prod.mk.inj (Option.some_inj.mp (called.symm.trans again))
    obtain ⟨unit, _, _, more⟩ := released
    simp at more
  · have called := call_more flags (t := ⟨m, frames, [(busCmdMarker2, slaveIdMarkers)], []⟩) (by simpa using markers)
    refine ⟨⟨_, _, called, by simpa using markers, torpedos, rfl, rfl⟩, iff_of_true ?_ (by omega)⟩
    refine ⟨_, _, called, ?_⟩
    rw [if_neg (by simp [units])]
    exact ⟨rfl, rfl⟩

/-- No call for a torpedo releases one. -/
theorem reached_torpedo {n : ℕ} {s : System} (reached : Reached n s) : call s .torpedo = none :=
  call_torpedo s.flags reached.torpedos

theorem reached_after (calls : List Kind) {n : ℕ} {s : System} (reached : Reached n s) :
    (∀ s', runs step s calls = some s' → Reached (n + calls.count .marker) s' ∧ calls.count .torpedo = 0) ∧
    (calls.count .torpedo = 0 → ∃ s', runs step s calls = some s') := by
  induction calls generalizing n s with
  | nil =>
    refine ⟨fun s' same => ?_, fun _ => ⟨s, rfl⟩⟩
    cases Option.some_inj.mp same
    exact ⟨reached, rfl⟩
  | cons kind calls ih =>
    rw [runs_cons, step]
    cases kind with
    | marker =>
      obtain ⟨⟨r, next, called, later⟩, -⟩ := reached_marker reached
      obtain ⟨found, exists'⟩ := ih later
      rw [called]
      refine ⟨fun s' same => ?_, fun none => exists' (by simpa using none)⟩
      obtain ⟨reached', none⟩ := found s' same
      rw [List.count_cons_self, Nat.add_comm (calls.count .marker) 1, ← Nat.add_assoc]
      exact ⟨reached', by simpa using none⟩
    | torpedo =>
      rw [reached_torpedo reached]
      exact ⟨fun s' same => by simp at same, fun none => by simp at none⟩

/-- Every call of a sequence releases a unit of its own while there is one if and only if
    the sequence has at most one call for a marker and none for a torpedo. -/
theorem release_once (m : Mem) (calls : List Kind) :
    AllRelease m calls ↔ calls.count .marker ≤ 1 ∧ calls.count .torpedo = 0 := by
  have reached (earlier : List Kind) := reached_after earlier (start_reached m)
  simp only [Nat.zero_add] at reached
  constructor
  · intro all
    constructor
    · by_contra two
      -- The call for the second marker has exactly one such call before it.
      obtain ⟨as, bs, rfl, fresh⟩ := List.eq_append_cons_of_mem (List.count_pos_iff.mp (show 0 < calls.count .marker by omega))
      have zero := List.count_eq_zero.mpr fresh
      have more : 0 < bs.count .marker := by
        rw [List.count_append, List.count_cons_self] at two
        omega
      obtain ⟨cs, ds, rfl, fresh'⟩ := List.eq_append_cons_of_mem (List.count_pos_iff.mp more)
      have zero' := List.count_eq_zero.mpr fresh'
      obtain ⟨s, found, releases⟩ := all (as ++ .marker :: cs) .marker ds (by simp)
      have one : (as ++ Kind.marker :: cs).count .marker = 1 := by simp [zero, zero']
      have state := ((reached _).1 s found).1
      rw [one] at state releases
      exact (reached_marker state).2.mp releases rfl
    · by_contra some
      obtain ⟨earlier, later, rfl⟩ := List.append_of_mem (List.count_pos_iff.mp (Nat.pos_of_ne_zero some))
      obtain ⟨s, found, r, s', called, -⟩ := all earlier .torpedo later rfl
      rw [reached_torpedo ((reached earlier).1 s found).1] at called
      simp at called
  · rintro ⟨one, none⟩ earlier kind later rfl
    rw [List.count_append, Nat.add_eq_zero_iff] at none
    rw [List.count_append] at one
    obtain ⟨s, found⟩ := (reached earlier).2 none.1
    refine ⟨s, found, ?_⟩
    cases kind with
    | marker =>
      rw [List.count_cons_self] at one
      exact (reached_marker ((reached earlier).1 s found).1).2.mpr (by omega)
    | torpedo => simp at none

/-- The second call for a marker releases nothing. -/
theorem second_marker_kept : ¬ AllRelease memory [.marker, .marker] := by
  intro all
  obtain ⟨s, found, releases⟩ := all [.marker] .marker [] rfl
  have state := ((reached_after [.marker] (start_reached memory)).1 s found).1
  exact (reached_marker state).2.mp releases rfl

end Tortuga.Payload
