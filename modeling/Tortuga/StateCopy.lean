import Tortuga.Machines
import Mathlib.Logic.Function.Basic

/-!
The state that `SensorBoard::update` shares with the callers of `setThrusterValue`: it is
copied under a lock, the copy is used for the talk with the board, and it is written back
under the lock.
-/
namespace Tortuga.StateCopy
open Tortuga.Machines
set_option linter.unusedSimpArgs false

/-! ### The threads -/

/-- `VehicleState`. What an update reads from the board (telemetry, depth, bus voltage)
    is in `readings`. -/
structure VehicleState (R : Type) where
  thrusterValues : Fin 6 → Int
  readings : R

/-- How far an update is. -/
inductive Phase where
  | copied
  | sent
  | read
  deriving DecidableEq, Repr

/-- An update in progress and its copy of the state. -/
structure Update (R : Type) where
  phase : Phase
  state : VehicleState R

/-- `m_state`, the updates in progress, and the one that holds `m_deviceMutex`. -/
structure SensorBoard (R : Type) where
  shared : VehicleState R
  updates : ℕ → Option (Update R)
  device : Option ℕ

/-- What a thread does while it holds a lock. -/
inductive Act (R : Type) where
  | setThrusterValue (address : Fin 6) (count : Int)
  | copyIn (u : ℕ)
  | setSpeeds (u : ℕ)
  | readBoard (u : ℕ) (readings : R)
  | copyBack (u : ℕ)

variable {R : Type}

/-- The update `u` is now `x`. -/
def SensorBoard.put (s : SensorBoard R) (u : ℕ) (x : Option (Update R)) : SensorBoard R :=
  { s with updates := Function.update s.updates u x }

def SensorBoard.setThrusterValue (s : SensorBoard R) (address : Fin 6) (count : Int) : SensorBoard R :=
  { s with shared := { s.shared with thrusterValues := Function.update s.shared.thrusterValues address count } }

def step (s : SensorBoard R) : Act R → Option (SensorBoard R)
  | .setThrusterValue address count => some (s.setThrusterValue address count)
  | .copyIn u => match s.updates u with
    | none => some (s.put u (some ⟨.copied, s.shared⟩))
    | some _ => none
  | .setSpeeds u => match s.updates u, s.device with
    | some ⟨.copied, state⟩, none => some { s.put u (some ⟨.sent, state⟩) with device := some u }
    | _, _ => none
  | .readBoard u readings => match s.updates u with
    | some ⟨.sent, state⟩ => some { s.put u (some ⟨.read, { state with readings := readings }⟩) with device := none }
    | _ => none
  | .copyBack u => match s.updates u with
    | some ⟨.read, state⟩ => some { s.put u none with shared := state }
    | _ => none

/-- The speeds that `setSpeeds` of an update sends. -/
def SensorBoard.speeds (s : SensorBoard R) (u : ℕ) : Option (Fin 6 → Int) :=
  (s.updates u).map fun x => x.state.thrusterValues

/-- No update is in progress. -/
def start (shared : VehicleState R) : SensorBoard R := ⟨shared, fun _ => none, none⟩

/-! ### One step -/

section
variable {s t : SensorBoard R} {a : Act R} {u : ℕ} {values : Fin 6 → Int}

theorem put_speeds (x : Option (Update R)) (v : ℕ) :
    (s.put u x).speeds v = if v = u then x.map (fun x => x.state.thrusterValues) else s.speeds v := by
  by_cases same : v = u
  · simp [SensorBoard.speeds, SensorBoard.put, same]
  · simp [SensorBoard.speeds, SensorBoard.put, same]

/-- What a possible step leads to. -/
theorem step_cases (stepped : step s a = some t) :
    (∃ i v, a = .setThrusterValue i v ∧ t.shared.thrusterValues = Function.update s.shared.thrusterValues i v ∧
      t.speeds = s.speeds) ∨
    (∃ u, a = .copyIn u ∧ s.speeds u = none ∧ t.shared = s.shared ∧
      t.speeds = Function.update s.speeds u (some s.shared.thrusterValues)) ∨
    ((∃ u, a = .setSpeeds u ∨ ∃ readings, a = .readBoard u readings) ∧ t.shared = s.shared ∧ t.speeds = s.speeds) ∨
    ∃ u values, a = .copyBack u ∧ s.speeds u = some values ∧ t.shared.thrusterValues = values ∧
      t.speeds = Function.update s.speeds u none := by
  cases a with
  | setThrusterValue i v =>
    cases Option.some_inj.mp stepped
    exact .inl ⟨i, v, rfl, rfl, rfl⟩
  | copyIn u =>
    rw [step] at stepped
    split at stepped
    case h_1 free =>
      cases Option.some_inj.mp stepped
      refine .inr (.inl ⟨u, rfl, by simp [SensorBoard.speeds, free], rfl, ?_⟩)
      funext v
      rw [put_speeds, Function.update_apply]
      rfl
    case h_2 => contradiction
  | setSpeeds u =>
    rw [step] at stepped
    split at stepped
    case h_1 state copied _ =>
      cases Option.some_inj.mp stepped
      refine .inr (.inr (.inl ⟨⟨u, .inl rfl⟩, rfl, ?_⟩))
      funext v
      refine (put_speeds _ v).trans ?_
      split
      case isTrue same => rw [same, SensorBoard.speeds, copied]; rfl
      case isFalse => rfl
    case h_2 => contradiction
  | readBoard u readings =>
    rw [step] at stepped
    split at stepped
    case h_1 state sent =>
      cases Option.some_inj.mp stepped
      refine .inr (.inr (.inl ⟨⟨u, .inr ⟨readings, rfl⟩⟩, rfl, ?_⟩))
      funext v
      refine (put_speeds _ v).trans ?_
      split
      case isTrue same => rw [same, SensorBoard.speeds, sent]; rfl
      case isFalse => rfl
    case h_2 => contradiction
  | copyBack u =>
    rw [step] at stepped
    split at stepped
    case h_1 state read =>
      cases Option.some_inj.mp stepped
      refine .inr (.inr (.inr ⟨u, state.thrusterValues, rfl, by rw [SensorBoard.speeds, read]; rfl, rfl, ?_⟩))
      funext v
      refine (put_speeds _ v).trans ?_
      rw [Function.update_apply]
      rfl
    case h_2 => contradiction

/-- An update keeps its speeds until it is written back. -/
theorem step_keeps (stepped : step s a = some t) (running : s.speeds u = some values) (other : a ≠ .copyBack u) :
    t.speeds u = some values := by
  rcases step_cases stepped with ⟨i, v, rfl, -, same⟩ | ⟨w, rfl, free, -, same⟩ | ⟨-, -, same⟩ | ⟨w, _, rfl, -, -, same⟩
  · rw [same, running]
  · have apart : u ≠ w := fun equal => by rw [equal, free] at running; contradiction
    rw [same, Function.update_of_ne apart, running]
  · rw [same, running]
  · have apart : u ≠ w := fun equal => other (equal ▸ rfl)
    rw [same, Function.update_of_ne apart, running]

end

/-! ### Lost commands -/

/-- After `setThrusterValue(i, v)` has led to `s`, the actions `ys` leave `v` alone, and
    an update that starts among them sends it. -/
structure Kept (i : Fin 6) (v : Int) (s : SensorBoard R) (ys : List (Act R)) : Prop where
  shared : ∀ zs ws t, ys = zs ++ ws → runs step s zs = some t → t.shared.thrusterValues i = v
  sent : ∀ zs u ws t values, ys = zs ++ .setSpeeds u :: ws → .copyIn u ∈ zs → runs step s zs = some t →
    t.speeds u = some values → values i = v

/-- No update that is in progress at `s` with another value for `i` is written back. -/
def Settled (i : Fin 6) (v : Int) (s : SensorBoard R) (ys : List (Act R)) : Prop :=
  ∀ u values, s.speeds u = some values → values i ≠ v → .copyBack u ∉ ys

section
variable {i : Fin 6} {v : Int} {s t : SensorBoard R} {ys : List (Act R)}

/-- The update `u` is in progress at `s` with another value for `i`. -/
def Stale (i : Fin 6) (v : Int) (s : SensorBoard R) (u : ℕ) : Prop := ∃ values, s.speeds u = some values ∧ values i ≠ v

/-- After the actions `done`, only updates that were stale at `s` have another value. -/
structure Holds (i : Fin 6) (v : Int) (s : SensorBoard R) (done : List (Act R)) (t : SensorBoard R) : Prop where
  shared : t.shared.thrusterValues i = v
  updates : ∀ u values, t.speeds u = some values → values i = v ∨ Stale i v s u ∧ .copyIn u ∉ done

theorem holds_step {done : List (Act R)} {a : Act R} {t' : SensorBoard R} (holds : Holds i v s done t)
    (stepped : step t a = some t') (quiet : ∀ w, a ≠ .setThrusterValue i w)
    (settled : ∀ u, Stale i v s u → a ≠ .copyBack u) : Holds i v s (done ++ [a]) t' := by
  have earlier : ∀ u values, t.speeds u = some values → a ≠ .copyIn u →
      values i = v ∨ Stale i v s u ∧ .copyIn u ∉ done ++ [a] := by
    intro u values running other
    rcases holds.updates u values running with same | ⟨stale, before⟩
    · exact .inl same
    · refine .inr ⟨stale, fun member => ?_⟩
      rcases List.mem_append.mp member with old | new
      · exact before old
      · exact other (List.mem_singleton.mp new).symm
  rcases step_cases stepped with ⟨j, w, rfl, shared, same⟩ | ⟨w, rfl, free, shared, same⟩ | ⟨kind, shared, same⟩ |
    ⟨w, values, rfl, running, shared, same⟩
  · refine ⟨?_, fun u values running => earlier u values (same ▸ running) nofun⟩
    have apart : i ≠ j := fun equal => quiet w (equal ▸ rfl)
    rw [shared, Function.update_of_ne apart]
    exact holds.shared
  · refine ⟨shared ▸ holds.shared, fun u values running => ?_⟩
    rw [same] at running
    by_cases new : u = w
    · subst new
      rw [Function.update_self] at running
      cases Option.some_inj.mp running
      exact .inl holds.shared
    · rw [Function.update_of_ne new] at running
      exact earlier u values running (fun equal => new (Act.copyIn.inj equal).symm)
  · refine ⟨shared ▸ holds.shared, fun u values running => earlier u values (same ▸ running) ?_⟩
    obtain ⟨_, rfl | ⟨_, rfl⟩⟩ := kind
    · nofun
    · nofun
  · refine ⟨?_, fun u values' running' => ?_⟩
    · rw [shared]
      rcases holds.updates w values running with good | ⟨stale, -⟩
      · exact good
      · exact absurd rfl (settled w stale)
    · rw [same] at running'
      by_cases ended : u = w
      · rw [ended, Function.update_self] at running'
        contradiction
      · rw [Function.update_of_ne ended] at running'
        exact earlier u values' running' nofun

theorem holds_start : Holds i v (s.setThrusterValue i v) [] (s.setThrusterValue i v) := by
  refine ⟨Function.update_self .., fun u values running => ?_⟩
  by_cases same : values i = v
  · exact .inl same
  · exact .inr ⟨⟨values, running, same⟩, List.not_mem_nil⟩

/-- Nothing that comes before `zs` is done disturbs the command. -/
theorem holds_run (last : ∀ w, .setThrusterValue i w ∉ ys) (settled : Settled i v (s.setThrusterValue i v) ys)
    {zs ws : List (Act R)} (split : ys = zs ++ ws) (run : runs step (s.setThrusterValue i v) zs = some t) :
    Holds i v (s.setThrusterValue i v) zs t := by
  have inside : (∀ a ∈ zs, a ∈ ys) → Holds i v (s.setThrusterValue i v) zs t := by
    refine runs_invariant (I := fun done t => (∀ a ∈ done, a ∈ ys) → Holds i v (s.setThrusterValue i v) done t)
      (fun _ => holds_start) (fun done a t u _ holds stepped among => ?_) run
    have member : a ∈ ys := among a (List.mem_append_right _ (List.mem_singleton_self a))
    refine holds_step (holds fun b old => among b (List.mem_append_left _ old)) stepped ?_ ?_
    · rintro w rfl
      exact last w member
    · rintro u ⟨values, running, other⟩ rfl
      exact settled u values running other member
  exact inside fun a member => split ▸ List.mem_append_left _ member

/-- The update `u` is still what it was when nothing has written it back. -/
theorem still_running {zs : List (Act R)} {u : ℕ} {values : Fin 6 → Int} (running : s.speeds u = some values)
    (unwritten : .copyBack u ∉ zs) (run : runs step s zs = some t) : t.speeds u = some values := by
  have kept : .copyBack u ∉ zs → t.speeds u = some values := by
    refine runs_invariant (I := fun done (t : SensorBoard R) => .copyBack u ∉ done → t.speeds u = some values)
      (fun _ => running) (fun done a t t' _ kept stepped before => ?_) run
    rw [List.mem_append, not_or, List.mem_singleton] at before
    exact step_keeps stepped (kept before.1) (Ne.symm before.2)
  exact kept unwritten

/-- A command survives if and only if no older update with another value is written back. -/
theorem kept_iff (run : runs step (s.setThrusterValue i v) ys = some t) (last : ∀ w, .setThrusterValue i w ∉ ys) :
    Kept i v (s.setThrusterValue i v) ys ↔ Settled i v (s.setThrusterValue i v) ys := by
  constructor
  · intro kept u values running other written
    obtain ⟨zs, ws, rfl, before⟩ := List.eq_append_cons_of_mem written
    obtain ⟨t₁, toZs, rest⟩ := runs_front run
    rw [runs_cons] at rest
    obtain ⟨t₂, back, -⟩ := Option.bind_eq_some_iff.mp rest
    have whole : runs step (s.setThrusterValue i v) (zs ++ [.copyBack u]) = some t₂ := by
      rw [runs_snoc, toZs]
      exact back
    have shared := kept.shared (zs ++ [.copyBack u]) ws t₂ (by simp) whole
    have held := still_running running before toZs
    rcases step_cases back with ⟨_, _, same, -⟩ | ⟨_, same, -⟩ | ⟨⟨_, same | ⟨_, same⟩⟩, -⟩ | ⟨w, back, same, held', shared', -⟩
    · contradiction
    · contradiction
    · contradiction
    · contradiction
    · cases same
      rw [held] at held'
      cases Option.some_inj.mp held'
      exact other (shared' ▸ shared)
  · intro settled
    constructor
    · intro zs ws t split ran
      exact (holds_run last settled split ran).shared
    · intro zs u ws t values split started ran running
      rcases (holds_run last settled split ran).updates u values running with same | ⟨-, before⟩
      · exact same
      · exact absurd started before

end

/-! ### Every run -/

/-- In the run `acts` the last value for each thruster is kept. -/
def NoLostCommand (shared : VehicleState R) (acts : List (Act R)) : Prop :=
  ∀ xs i v ys s, acts = xs ++ .setThrusterValue i v :: ys → (∀ w, .setThrusterValue i w ∉ ys) →
    runs step (start shared) xs = some s → Kept i v (s.setThrusterValue i v) ys

/-- In the run `acts` every update that is in progress at the last value for a thruster and
    is written back has that value. -/
def CopiesSettled (shared : VehicleState R) (acts : List (Act R)) : Prop :=
  ∀ xs i v ys s, acts = xs ++ .setThrusterValue i v :: ys → (∀ w, .setThrusterValue i w ∉ ys) →
    runs step (start shared) xs = some s → Settled i v (s.setThrusterValue i v) ys

/-- Commands get lost in the updates that overtake them, and nowhere else. -/
theorem no_lost_command (shared : VehicleState R) (acts : List (Act R)) (t : SensorBoard R)
    (run : runs step (start shared) acts = some t) : NoLostCommand shared acts ↔ CopiesSettled shared acts := by
  have each : ∀ xs i v ys s, acts = xs ++ .setThrusterValue i v :: ys → runs step (start shared) xs = some s →
      runs step (s.setThrusterValue i v) ys = some t := by
    rintro xs i v ys s rfl before
    obtain ⟨s', before', rest⟩ := runs_front run
    cases Option.some_inj.mp (before.symm.trans before')
    exact rest
  constructor
  · intro kept xs i v ys s split last before
    exact (kept_iff (each xs i v ys s split before) last).mp (kept xs i v ys s split last before)
  · intro settled xs i v ys s split last before
    exact (kept_iff (each xs i v ys s split before) last).mpr (settled xs i v ys s split last before)

def idle : VehicleState Unit := ⟨fun _ => 0, ()⟩

/-- A thruster. -/
def first : Fin 6 := ⟨0, by decide⟩

/-- A command before an update. -/
def inTurn : List (Act Unit) := [.setThrusterValue first 500, .copyIn 0, .setSpeeds 0, .readBoard 0 (), .copyBack 0]

theorem no_lost_command_in_turn : NoLostCommand idle inTurn := by
  refine (no_lost_command idle inTurn _ rfl).mpr ?_
  intro xs i v ys s split last before u values running other
  cases xs with
  | nil =>
    -- No update is in progress at the start.
    cases Option.some_inj.mp before
    contradiction
  | cons a xs =>
    have later : Act.setThrusterValue i v ∈ inTurn.tail := by
      rw [split]
      simp
    simp [inTurn] at later

/-- A command while an update talks to the board. -/
def overtaken : List (Act Unit) := [.copyIn 0, .setThrusterValue first 500, .setSpeeds 0, .readBoard 0 (), .copyBack 0]

/-- The update puts the old value back. -/
theorem overtaken_lost : (runs step (start idle) overtaken).isSome = true ∧ ¬ NoLostCommand idle overtaken := by
  refine ⟨rfl, fun kept => ?_⟩
  have shared := (kept [.copyIn 0] first 500 [.setSpeeds 0, .readBoard 0 (), .copyBack 0] _ rfl (by simp) rfl).shared
    [.setSpeeds 0, .readBoard 0 (), .copyBack 0] [] _ rfl rfl
  exact absurd shared (by decide)

end Tortuga.StateCopy
