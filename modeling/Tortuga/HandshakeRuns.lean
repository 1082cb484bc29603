import Tortuga.Blackfin
import Tortuga.BusHandshake
import Tortuga.Machines

/-!
What comes of the calls of `busWriteByte` and `busReadByte`, for every order of the statements of the master and the slaves: each takes effect at
once, as the model of the master has it, as long as the master gives up on no slave that is answering it.
-/
namespace Tortuga.HandshakeRuns
open Tortuga.BusCodes
open Tortuga.BusHandshake
open Tortuga.Machines
open Tortuga.Master (WriteAnswer ReadAnswer)

/-! ### Calls that take effect at once -/

section
variable {S : Line → Type}

/-- What a call returns, by the model of the master, and what becomes of the boards. -/
inductive Served (device : (k : Line) → Device (S k)) (boards : (k : Line) → S k) : Op × Int → ((k : Line) → S k) → Prop
  | written (req : Line) (data : Byte) : Served device boards (.write req data, WriteAnswer.delivered.code)
    (Function.update boards req ((device req).processData (boards req) data))
  | unwritten (req : Line) (data : Byte) : Served device boards (.write req data, WriteAnswer.noAck.code) boards
  | read (req : Line) : Served device boards (.read req, (ReadAnswer.byte ((device req).send (boards req)).1).code)
    (Function.update boards req ((device req).send (boards req)).2)
  | unread (req : Line) : Served device boards (.read req, ReadAnswer.noAck.code) boards

/-- Calls one after the other. -/
inductive Serves (device : (k : Line) → Device (S k)) (first : (k : Line) → S k) : List (Op × Int) → ((k : Line) → S k) → Prop
  | nil : Serves device first [] first
  | snoc {returned : List (Op × Int)} {boards boards' : (k : Line) → S k} {call : Op × Int} (serves : Serves device first returned boards)
    (served : Served device boards call boards') : Serves device first (returned ++ [call]) boards'

end

/-! ### A slave -/

section
variable {S : Type} (device : Device S)

/-- The board of a slave when it has processed the byte that it has. -/
def settled (b : Slave S) : S :=
  match b.place with
  | .processData byte => device.processData b.board byte
  | _ => b.board

/-- What a call does to the board. -/
def effect (x : S) : Op → S
  | .write _ data => device.processData x data
  | .read _ => (device.send x).2

/-- What a call returns that takes effect. -/
def answer (x : S) : Op → Int
  | .write _ _ => 0
  | .read _ => (device.send x).1.toNat

/-- A slave that is not asked for anything, and may have to process a byte. -/
inductive Resting : S → Slave S → Prop
  | main (x : S) (pending : Bool) : Resting x ⟨x, .main, pending, false, none⟩
  | checkReq (x : S) (pending : Bool) : Resting x ⟨x, .checkReq, pending, false, none⟩
  | processData (x : S) (byte : Byte) (pending : Bool) : Resting (device.processData x byte) ⟨x, .processData byte, pending, false, none⟩

/-- It has acknowledged the request. -/
inductive Ready : Op → S → Slave S → Prop
  | write (req : Line) (data : Byte) (x : S) (pending : Bool) : Ready (.write req data) x ⟨x, .waitReq (some data), pending, true, none⟩
  | read (req : Line) (x : S) (pending : Bool) :
    Ready (.read req) x ⟨(device.send x).2, .waitReq none, pending, true, some (device.send x).1⟩

/-- There is a request for it, which it has seen, or its interrupt is to come. -/
inductive Asked : Op → S → Slave S → Prop
  | resting {op : Op} {x : S} {b : Slave S} (resting : Resting device x b) (noticed : b.pending = true ∨ b.place = .checkReq) : Asked op x b
  | checkRw (op : Op) (x : S) (pending : Bool) : Asked op x ⟨x, .checkRw, pending, false, none⟩
  | readBus (req : Line) (data : Byte) (x : S) (pending : Bool) : Asked (.write req data) x ⟨x, .readBus, pending, false, none⟩
  | hasRead (req : Line) (data : Byte) (x : S) (pending : Bool) :
    Asked (.write req data) x ⟨x, .raiseAkn (some data), pending, false, none⟩
  | loadTxBuf (req : Line) (x : S) (pending : Bool) : Asked (.read req) x ⟨x, .loadTxBuf, pending, false, none⟩
  | writeBus (req : Line) (x : S) (pending : Bool) :
    Asked (.read req) x ⟨(device.send x).2, .writeBus (device.send x).1, pending, false, none⟩
  | hasWritten (req : Line) (x : S) (pending : Bool) :
    Asked (.read req) x ⟨(device.send x).2, .raiseAkn none, pending, false, some (device.send x).1⟩
  | ready {op : Op} {x : S} {b : Slave S} (ready : Ready device op x b) : Asked op x b

/-- The request that it has acknowledged is over. -/
inductive Leaving : Op → S → Slave S → Prop
  | ready {op : Op} {x : S} {b : Slave S} (ready : Ready device op x b) : Leaving op x b
  | dropAkn (req : Line) (data : Byte) (x : S) (pending : Bool) :
    Leaving (.write req data) x ⟨x, .dropAkn (some data), pending, true, none⟩
  | freeBus (req : Line) (x : S) (pending : Bool) :
    Leaving (.read req) x ⟨(device.send x).2, .freeBus, pending, true, some (device.send x).1⟩
  | freed (req : Line) (x : S) (pending : Bool) : Leaving (.read req) x ⟨(device.send x).2, .dropAkn none, pending, true, none⟩
  | resting {op : Op} {x : S} {b : Slave S} (resting : Resting device (effect device x op) b) : Leaving op x b

/-- A slave that does not answer. -/
def away (b : Slave S) : Bool :=
  match b.place with
  | .main | .checkReq | .processData _ => true
  | _ => false

variable {device}
variable {op : Op} {x : S} {b b' : Slave S} {rw : Bool} {value : Byte}

theorem Resting.still (resting : Resting device x b) : b.akn = false ∧ b.drives = none := by cases resting <;> exact ⟨rfl, rfl⟩

theorem Resting.settled (resting : Resting device x b) : settled device b = x := by cases resting <;> rfl

theorem Resting.pending (resting : Resting device x b) (pending : Bool) : Resting device x { b with pending := pending } := by
  cases resting with
  | main => exact .main x pending
  | checkReq => exact .checkReq x pending
  | processData x byte => exact .processData x byte pending

theorem Ready.pending (ready : Ready device op x b) (pending : Bool) : Ready device op x { b with pending := pending } := by
  cases ready with
  | write req data => exact .write req data x pending
  | read req => exact .read req x pending

theorem Resting.next (resting : Resting device x b) (next : b.next device false rw value = some b') : Resting device x b' := by
  cases resting with
  | main x pending =>
    obtain ⟨-, same⟩ := Option.ite_none_right_eq_some.mp next
    obtain rfl := Option.some_inj.mp same
    exact .checkReq x false
  | checkReq x pending =>
    obtain rfl := Option.some_inj.mp next
    exact .main x pending
  | processData x byte pending =>
    obtain rfl := Option.some_inj.mp next
    exact .main _ pending

theorem Ready.next (ready : Ready device op x b) (next : b.next device true rw value = some b') : b' = b := by
  cases ready with
  | write => exact (Option.some_inj.mp next).symm
  | read => exact (Option.some_inj.mp next).symm

/-- The slave goes on to acknowledge the request. -/
theorem Asked.next (asked : Asked device op x b) (right : ∀ data, op.data = some data → value = data)
    (next : b.next device true op.writes value = some b') : Asked device op x b' := by
  cases asked with
  | resting resting noticed =>
    cases resting with
    | main x pending =>
      obtain ⟨-, same⟩ := Option.ite_none_right_eq_some.mp next
      obtain rfl := Option.some_inj.mp same
      exact .resting (.checkReq x false) (.inr rfl)
    | checkReq x pending =>
      obtain rfl := Option.some_inj.mp next
      exact .checkRw op x pending
    | processData x byte pending =>
      obtain rfl := Option.some_inj.mp next
      exact .resting (.main _ pending) (noticed.imp_right nofun)
  | checkRw op x pending =>
    obtain rfl := Option.some_inj.mp next
    cases op with
    | write req data => exact .readBus req data x pending
    | read req => exact .loadTxBuf req x pending
  | readBus req data x pending =>
    obtain rfl := Option.some_inj.mp next
    rw [right data rfl]
    exact .hasRead req data x pending
  | hasRead req data x pending =>
    obtain rfl := Option.some_inj.mp next
    exact .ready (.write req data x pending)
  | loadTxBuf req x pending =>
    obtain rfl := Option.some_inj.mp next
    exact .writeBus req x pending
  | writeBus req x pending =>
    obtain rfl := Option.some_inj.mp next
    exact .hasWritten req x pending
  | hasWritten req x pending =>
    obtain rfl := Option.some_inj.mp next
    exact .ready (.read req x pending)
  | ready ready => exact ready.next next ▸ .ready ready

/-- The slave lets go of the pins, and has the byte. -/
theorem Leaving.next (leaving : Leaving device op x b) (next : b.next device false rw value = some b') : Leaving device op x b' := by
  cases leaving with
  | ready ready =>
    cases ready with
    | write req data x pending =>
      obtain rfl := Option.some_inj.mp next
      exact .dropAkn req data x pending
    | read req x pending =>
      obtain rfl := Option.some_inj.mp next
      exact .freeBus req x pending
  | dropAkn req data x pending =>
    obtain rfl := Option.some_inj.mp next
    exact .resting (.processData x data pending)
  | freeBus req x pending =>
    obtain rfl := Option.some_inj.mp next
    exact .freed req x pending
  | freed req x pending =>
    obtain rfl := Option.some_inj.mp next
    exact .resting (.main _ pending)
  | resting resting => exact .resting (resting.next next)

theorem Ready.akn (ready : Ready device op x b) : b.akn = true := by cases ready <;> rfl

theorem Ready.sends {req : Line} (ready : Ready device (.read req) x b) : b.drives = some (device.send x).1 := by cases ready; rfl

theorem Asked.quiet {req : Line} {data : Byte} (asked : Asked device (.write req data) x b) : b.drives = none := by
  cases asked with
  | resting resting _ => exact resting.still.2
  | ready ready => cases ready; rfl
  | _ => rfl

theorem Asked.ready_of_akn (asked : Asked device op x b) (akn : b.akn = true) : Ready device op x b := by
  cases asked with
  | resting resting _ => exact absurd (akn.symm.trans resting.still.1) (by decide)
  | ready ready => exact ready
  | _ => exact absurd akn Bool.false_ne_true

theorem Asked.resting_of_away (asked : Asked device op x b) (away : away b = true) : Resting device x b := by
  cases asked with
  | resting resting _ => exact resting
  | ready ready => cases ready <;> contradiction
  | _ => contradiction

theorem Asked.noticed (asked : Asked device op x b) (outside : b.place = .main) : b.pending = true := by
  cases asked with
  | resting resting noticed =>
    rcases noticed with pending | inside
    · exact pending
    · exact absurd (outside.symm.trans inside) (by decide)
  | ready ready => cases ready <;> contradiction
  | _ => contradiction

theorem Leaving.resting_of_akn (leaving : Leaving device op x b) (free : b.akn = false) : Resting device (effect device x op) b := by
  cases leaving with
  | ready ready => exact absurd (free.symm.trans ready.akn) (by decide)
  | resting resting => exact resting
  | _ => exact absurd free.symm Bool.false_ne_true

end

/-! ### Stages of a call -/

/-- What a call is about: nothing yet, or no longer, a request, one that has been acknowledged, or the end of it. -/
inductive Stage
  | rests
  | asked (op : Op)
  | ready (op : Op)
  | leaving (op : Op)

namespace Stage

/-- The line on which there is a request. -/
def raised : Stage → Option Line
  | asked op | ready op => some op.line
  | rests | leaving _ => none

/-- The slave that may be on the bus. -/
def line : Stage → Option Line
  | asked op | ready op | leaving op => some op.line
  | rests => none

end Stage

namespace Stage

variable {S : Type} (device : Device S)

/-- What a stage says of the slave that it is about. -/
def Within : Stage → S → Slave S → Prop
  | rests => Resting device
  | asked op => Asked device op
  | ready op => Ready device op
  | leaving op => Leaving device op

end Stage

section
variable {S : Line → Type} (device : (k : Line) → Device (S k)) (both : Line → Bool)
variable {s t : Bus S} {boards first : (k : Line) → S k} {stage : Stage} {k : Line} {b : Slave (S k)} {rw : Bool} {value : Byte}

/-- What a stage says of any slave. -/
def Stage.Holds (stage : Stage) (k : Line) (x : S k) (b : Slave (S k)) : Prop :=
  if stage.line = some k then stage.Within (device k) x b else Resting (device k) x b

def stageOf : Point → Stage
  | .out | .setRw _ | .writeBus _ _ | .raiseReq _ | .giveBack _ _ => .rests
  | .awaitAkn op _ | .giveUp op => .asked op
  | .readBus req => .ready (.read req)
  | .freeBus req data => .ready (.write req data)
  | .dropReq op _ => .ready op
  | .awaitFree op _ _ => .leaving op

/-- What the master has on the bus. -/
def driven : Point → Option Byte
  | .raiseReq op | .awaitAkn op _ | .giveUp op => op.data
  | .giveBack _ data | .freeBus _ data => some data
  | _ => none

/-- The call for which the other pins are set. -/
def asking : Point → Option Op
  | .writeBus req data => some (.write req data)
  | .raiseReq op | .awaitAkn op _ | .giveUp op => some op
  | _ => none

/-- The call of which the result is known. -/
def known : Point → Option (Op × Int)
  | .freeBus req data => some (.write req data, 0)
  | .dropReq op result | .awaitFree op result _ => some (op, result)
  | _ => none

/-- The pins and the slaves are as the next statement of the master has it, and the calls that have returned have taken effect at once. -/
structure Sound (first : (k : Line) → S k) (s : Bus S) (boards : (k : Line) → S k) : Prop where
  serves : Serves device first s.returned boards
  req : ∀ k, s.req k = true ↔ (stageOf s.point).raised = some k
  drives : s.drives = driven s.point
  rw : ∀ op, asking s.point = some op → s.rw = op.writes
  slaves : ∀ k, (stageOf s.point).Holds device k (boards k) (s.slave k)
  result : ∀ op result, known s.point = some (op, result) → result = answer (device op.line) (boards op.line) op

theorem sound_start (boards : (k : Line) → S k) : Sound device boards (start boards) boards where
  serves := .nil
  req _ := ⟨nofun, nofun⟩
  drives := rfl
  rw _ := nofun
  slaves k := .main (boards k) false
  result _ _ := nofun

variable {device both}

theorem asking_of_stage {point : Point} {op : Op} (asked : stageOf point = .asked op) : asking point = some op ∧ driven point = op.data := by
  cases point with
  | awaitAkn | giveUp =>
    obtain rfl := Stage.asked.inj asked
    exact ⟨rfl, rfl⟩
  | _ => exact Stage.noConfusion asked

theorem Stage.Holds.within {x : S k} (holds : stage.Holds device k x b) (here : stage.line = some k) : stage.Within (device k) x b := by
  rwa [Stage.Holds, if_pos here] at holds

theorem Stage.Holds.resting {x : S k} (holds : stage.Holds device k x b) (other : stage.line ≠ some k) : Resting (device k) x b := by
  rwa [Stage.Holds, if_neg other] at holds

theorem Stage.Within.holds {x : S k} (within : stage.Within (device k) x b) (here : stage.line = some k) : stage.Holds device k x b := by
  rwa [Stage.Holds, if_pos here]

theorem Stage.holds_of_resting {x : S k} (resting : Resting (device k) x b) (other : stage.line ≠ some k) : stage.Holds device k x b := by
  rwa [Stage.Holds, if_neg other]

/-- A slave does a step. -/
theorem Stage.Holds.next {x : S k} {b' : Slave (S k)} (holds : stage.Holds device k x b) {req : Bool}
    (raised : req = true ↔ stage.raised = some k) (set : ∀ op, stage = .asked op → rw = op.writes)
    (right : ∀ op data, stage = .asked op → op.line = k → op.data = some data → value = data)
    (next : b.next (device k) req rw value = some b') : stage.Holds device k x b' := by
  rw [Stage.Holds] at holds ⊢
  split_ifs at holds ⊢ with here
  · cases stage with
    | rests => contradiction
    | asked op =>
      obtain rfl : req = true := raised.mpr here
      obtain rfl := set op rfl
      exact Asked.next holds (fun data => right op data rfl (Option.some_inj.mp here)) next
    | ready op =>
      obtain rfl : req = true := raised.mpr here
      exact Ready.next holds next ▸ holds
    | leaving op =>
      obtain rfl : req = false := Bool.eq_false_iff.mpr fun high => Option.some_ne_none _ (raised.mp high).symm
      exact Leaving.next holds next
  · have low : stage.raised ≠ some k := by
      cases stage with
      | rests => nofun
      | leaving op => nofun
      | asked op => exact here
      | ready op => exact here
    obtain rfl : req = false := Bool.eq_false_iff.mpr fun high => low (raised.mp high)
    exact Resting.next holds next

/-! ### The shared pins -/

theorem flatMap_single {M N : Type} {l : List M} {f : M → List N} {m : M} (once : l.Nodup) (among : m ∈ l)
    (others : ∀ n ∈ l, n ≠ m → f n = []) :
    l.flatMap f = f m := by
  obtain ⟨front, back, rfl⟩ := List.append_of_mem among
  have apart := List.nodup_append.mp once
  have before : front.flatMap f = [] := List.flatMap_eq_nil_iff.mpr fun n there =>
    others n (List.mem_append_left _ there) (apart.2.2 n there m List.mem_cons_self)
  have after : back.flatMap f = [] := List.flatMap_eq_nil_iff.mpr fun n there =>
    others n (List.mem_append_right _ (List.mem_cons_of_mem m there)) fun same => (List.nodup_cons.mp apart.2.1).1 (same ▸ there)
  rw [List.flatMap_append, List.flatMap_cons, before, after, List.nil_append, List.append_nil]

theorem drivers_single (k : Line) (others : ∀ j, j ≠ k → (s.slave j).drives = none) :
    s.drivers = s.drives.toList ++ (s.slave k).drives.toList := by
  rw [Bus.drivers, flatMap_single (List.nodup_finRange 7) (List.mem_finRange k) fun j _ other => ?_]
  rw [others j other]
  rfl

theorem inAkn_single (k : Line) (others : ∀ j, j ≠ k → (s.slave j).akn = false) : s.inAkn = (s.slave k).akn := by
  rw [Bool.eq_iff_iff, Bus.inAkn, List.any_eq_true]
  constructor
  · rintro ⟨j, -, high⟩
    by_cases same : j = k
    · exact same ▸ high
    · exact absurd high (by rw [others j same]; decide)
  · exact fun high => ⟨k, List.mem_finRange k, high⟩

theorem Bus.setSlave_self : (s.setSlave k b).slave k = b := by
  simp only [Bus.setSlave, Function.update_self]

theorem Bus.setSlave_of_ne {j : Line} (other : j ≠ k) : (s.setSlave k b).slave j = s.slave j := by
  simp only [Bus.setSlave, Function.update_of_ne other]

theorem Sound.within (sound : Sound device first s boards) (staged : stageOf s.point = stage) (here : stage.line = some k) :
    stage.Within (device k) (boards k) (s.slave k) :=
  Stage.Holds.within (staged ▸ sound.slaves k) here

theorem Sound.resting (sound : Sound device first s boards) (other : (stageOf s.point).line ≠ some k) :
    Resting (device k) (boards k) (s.slave k) := (sound.slaves k).resting other

/-- The slave that is asked to read finds what the master has put there. -/
theorem Sound.value_asked (sound : Sound device first s boards) {op : Op} {data noise : Byte} (asked : stageOf s.point = .asked op)
    (writes : op.data = some data) : s.value noise = data := by
  have mine : Asked (device op.line) op (boards op.line) (s.slave op.line) := sound.within asked rfl
  have quiet : (s.slave op.line).drives = none := by
    cases op with
    | read req => contradiction
    | write req other => exact Asked.quiet mine
  have others : ∀ j, j ≠ op.line → (s.slave j).drives = none := fun j other => (sound.resting (by
    rw [asked]
    exact fun same => other (Option.some_inj.mp same).symm)).still.2
  have drivers : s.drivers = [data] := by
    rw [drivers_single op.line others, quiet, sound.drives, (asking_of_stage asked).2, writes]
    rfl
  rw [Bus.value, drivers]

/-- The master finds what the slave has put there. -/
theorem Sound.value_ready (sound : Sound device first s boards) {req : Line} {noise : Byte} (reads : s.point = .readBus req) :
    s.value noise = ((device req).send (boards req)).1 := by
  have staged : stageOf s.point = .ready (.read req) := by rw [reads]; rfl
  have mine : Ready (device req) (.read req) (boards req) (s.slave req) := sound.within staged rfl
  have others : ∀ j, j ≠ req → (s.slave j).drives = none := fun j other => (sound.resting (by
    rw [staged]
    exact fun same => other (Option.some_inj.mp same).symm)).still.2
  have drivers : s.drivers = [((device req).send (boards req)).1] := by
    rw [drivers_single req others, mine.sends, sound.drives, reads]
    rfl
  rw [Bus.value, drivers]

/-- The acknowledgement comes from the slave that the call is for. -/
theorem Sound.inAkn (sound : Sound device first s boards) {k : Line} (line : (stageOf s.point).line = some k) :
    s.inAkn = (s.slave k).akn :=
  inAkn_single k fun _ other => (sound.resting fun same => other (Option.some_inj.mp (same.symm.trans line))).still.1

/-! ### The steps -/

theorem Sound.slave (sound : Sound device first s boards) {noise : Byte}
    (next : (s.slave k).next (device k) (s.req k) s.rw (s.value noise) = some b) : Sound device first (s.setSlave k b) boards where
  serves := sound.serves
  req := sound.req
  drives := sound.drives
  rw := sound.rw
  slaves j := by
    by_cases same : j = k
    · subst same
      have holds : (stageOf s.point).Holds device j (boards j) b := (sound.slaves j).next (sound.req j)
        (fun op asked => sound.rw op (asking_of_stage asked).1) (fun op data asked _ writes => sound.value_asked asked writes) next
      rw [Bus.setSlave_self]
      exact holds
    · rw [Bus.setSlave_of_ne same]
      exact sound.slaves j
  result := sound.result

/-! What `setReq` does to the slaves. -/

theorem setReq_of_ne {j : Line} {val : Bool} (other : j ≠ k) : (s.setReq both k val).slave j = s.slave j := Bus.setSlave_of_ne other

variable (both) in
theorem setReq_self (s : Bus S) (k : Line) (val : Bool) :
    ∃ pending, (s.setReq both k val).slave k = { s.slave k with pending := pending } := ⟨_, Bus.setSlave_self⟩

theorem setReq_raised (low : s.req k = false) : ((s.setReq both k true).slave k) = { s.slave k with pending := true } := by
  refine Bus.setSlave_self.trans ?_
  rw [low]
  cases (s.slave k).pending <;> rfl

theorem raises_iff {req : Line → Bool} {j : Line} : Function.update req k true j = true ↔ j = k ∨ req j = true := by
  by_cases same : j = k
  · exact ⟨fun _ => .inl same, fun _ => same ▸ Function.update_self ..⟩
  · rw [Function.update_of_ne same, or_iff_right same]

theorem drops_iff {req : Line → Bool} {j : Line} : Function.update req k false j = true ↔ j ≠ k ∧ req j = true := by
  by_cases same : j = k
  · subst same
    rw [Function.update_self]
    exact ⟨nofun, fun high => absurd rfl high.1⟩
  · rw [Function.update_of_ne same, and_iff_right same]

/-! The statements of the master that change what the slaves are asked for. -/

theorem Sound.raiseReq (sound : Sound device first s boards) {op : Op} (here : s.point = .raiseReq op) :
    Sound device first { s.setReq both op.line true with point := .awaitAkn op 0 } boards := by
  have low : ∀ k, s.req k = false := fun k => Bool.eq_false_iff.mpr fun high => by
    have raised := (sound.req k).mp high
    rw [here] at raised
    exact Option.some_ne_none _ raised.symm
  refine ⟨sound.serves, fun k => ?_, ?_, fun op' same => ?_, fun k => ?_, nofun⟩
  · exact raises_iff.trans ⟨fun either => congrArg some (either.resolve_right (by rw [low]; decide)).symm,
      fun same => .inl (Option.some_inj.mp same).symm⟩
  · exact sound.drives.trans (by rw [here]; rfl)
  · exact sound.rw op' (by rw [here]; exact same)
  · have resting : Resting (device k) (boards k) (s.slave k) := sound.resting (by rw [here]; nofun)
    by_cases same : k = op.line
    · subst same
      refine Stage.Within.holds (?_ : Asked _ _ _ _) rfl
      rw [show _ = _ from setReq_raised (low op.line)]
      exact .resting (resting.pending true) (.inl rfl)
    · refine Stage.holds_of_resting ?_ fun line => same (Option.some_inj.mp line).symm
      rw [show _ = _ from setReq_of_ne same]
      exact resting

theorem Sound.acknowledged (sound : Sound device first s boards) {op : Op} {timeout : ℕ} (here : s.point = .awaitAkn op timeout)
    (akn : s.inAkn = true) : ∀ k, (Stage.ready op).Holds device k (boards k) (s.slave k) := by
  intro k
  have staged : stageOf s.point = .asked op := by rw [here]; rfl
  by_cases same : k = op.line
  · subst same
    have asked : Asked (device op.line) op (boards op.line) (s.slave op.line) := sound.within staged rfl
    have high : (s.slave op.line).akn = true := (sound.inAkn (by rw [staged]; rfl)).symm.trans akn
    exact Stage.Within.holds (asked.ready_of_akn high : Ready _ _ _ _) rfl
  · have other : (Stage.asked op).line ≠ some k := fun line => same (Option.some_inj.mp line).symm
    exact Stage.holds_of_resting (sound.resting (staged ▸ other)) other

theorem Sound.dropReq (sound : Sound device first s boards) {op : Op} {result : Int} (here : s.point = .dropReq op result) :
    Sound device first { s.setReq both op.line false with point := .awaitFree op result 0 } boards := by
  have staged : stageOf s.point = .ready op := by rw [here]; rfl
  refine ⟨sound.serves, fun k => ?_, ?_, nofun, fun k => ?_, fun op' result' same => ?_⟩
  · refine drops_iff.trans ⟨fun high => absurd ((sound.req k).mp high.2) ?_, nofun⟩
    rw [staged]
    exact fun line => high.1 (Option.some_inj.mp line).symm
  · exact sound.drives.trans (by rw [here]; rfl)
  · by_cases same : k = op.line
    · subst same
      have ready : Ready (device op.line) op (boards op.line) (s.slave op.line) := sound.within staged rfl
      refine Stage.Within.holds (?_ : Leaving _ _ _ _) rfl
      obtain ⟨pending, changed⟩ := setReq_self both s op.line false
      rw [show _ = _ from changed]
      exact .ready (ready.pending pending)
    · have other : (Stage.ready op).line ≠ some k := fun line => same (Option.some_inj.mp line).symm
      refine Stage.holds_of_resting ?_ other
      rw [show _ = _ from setReq_of_ne same]
      exact sound.resting (staged ▸ other)
  · exact sound.result op' result' (by rw [here]; exact same)

variable (both) in
theorem Sound.givenUp (sound : Sound device first s boards) {op : Op} (here : s.point = .giveUp op) (gone : away (s.slave op.line) = true) :
    (∀ k, Function.update s.req op.line false k = true ↔ none = some k) ∧
      ∀ k, Resting (device k) (boards k) ((s.setReq both op.line false).slave k) := by
  have staged : stageOf s.point = .asked op := by rw [here]; rfl
  refine ⟨fun k => drops_iff.trans ⟨fun high => absurd ((sound.req k).mp high.2) ?_, nofun⟩, fun k => ?_⟩
  · rw [staged]
    exact fun line => high.1 (Option.some_inj.mp line).symm
  · by_cases same : k = op.line
    · subst same
      have asked : Asked (device op.line) op (boards op.line) (s.slave op.line) := sound.within staged rfl
      obtain ⟨pending, changed⟩ := setReq_self both s op.line false
      rw [changed]
      exact (asked.resting_of_away gone).pending pending
    · rw [setReq_of_ne same]
      exact sound.resting (staged ▸ fun line => same (Option.some_inj.mp line).symm)

/-- A call returns that has taken effect. -/
theorem Sound.free (sound : Sound device first s boards) {op : Op} {result : Int} {timeout : ℕ} (here : s.point = .awaitFree op result timeout)
    (free : s.inAkn = false) :
    Sound device first (s.finish op result) (Function.update boards op.line (effect (device op.line) (boards op.line) op)) := by
  have staged : stageOf s.point = .leaving op := by rw [here]; rfl
  have done : result = answer (device op.line) (boards op.line) op := sound.result op result (by rw [here]; rfl)
  refine ⟨sound.serves.snoc ?_, fun k => ?_, ?_, nofun, fun k => ?_, nofun⟩
  · rw [done]
    cases op with
    | write req data => exact .written req data
    | read req => exact .read req
  · exact (sound.req k).trans (by rw [staged]; rfl)
  · exact sound.drives.trans (by rw [here]; rfl)
  · refine Stage.holds_of_resting ?_ nofun
    by_cases same : k = op.line
    · subst same
      have leaving : Leaving (device op.line) op (boards op.line) (s.slave op.line) := sound.within staged rfl
      have low : (s.slave op.line).akn = false := (sound.inAkn (by rw [staged]; rfl)).symm.trans free
      rw [Function.update_self]
      exact leaving.resting_of_akn low
    · rw [Function.update_of_ne same]
      exact sound.resting (staged ▸ fun line => same (Option.some_inj.mp line).symm)

/-- The master does not give up on a slave that is answering it, and a slave lets go of the bus before the master stops waiting for it. -/
def PromptAt (s : Bus S) : Point → Prop
  | .giveUp op => away (s.slave op.line) = true
  | .awaitFree _ _ timeout => timeout = busTimeout → s.inAkn = false
  | _ => True

instance (s : Bus S) : ∀ point, Decidable (PromptAt s point)
  | .giveUp op => inferInstanceAs (Decidable (away (s.slave op.line) = true))
  | .awaitFree _ _ timeout => inferInstanceAs (Decidable (timeout = busTimeout → s.inAkn = false))
  | .out | .setRw _ | .writeBus _ _ | .raiseReq _ | .awaitAkn _ _ | .giveBack _ _ | .readBus _ | .freeBus _ _ | .dropReq _ _ => isTrue trivial

def Prompt (s : Bus S) : Act → Prop
  | .master _ => PromptAt s s.point
  | _ => True

instance (s : Bus S) : ∀ act, Decidable (Prompt s act)
  | .master _ => inferInstanceAs (Decidable (PromptAt s s.point))
  | .call _ | .slave _ _ => isTrue trivial

theorem Sound.master (sound : Sound device first s boards) {noise : Byte} (prompt : Prompt s (.master noise))
    (next : s.master both noise = some t) : ∃ boards', Sound device first t boards' := by
  obtain ⟨point, req, rw, drives, slave, returned⟩ := s
  cases point with
  | out => exact absurd next nofun
  | setRw op =>
    refine ⟨boards, ?_⟩
    cases op with
    | write line data =>
      obtain rfl := Option.some_inj.mp next
      exact ⟨sound.serves, sound.req, sound.drives, fun _ same => congrArg Op.writes (Option.some_inj.mp same), sound.slaves, nofun⟩
    | read line =>
      obtain rfl := Option.some_inj.mp next
      exact ⟨sound.serves, sound.req, sound.drives, fun _ same => congrArg Op.writes (Option.some_inj.mp same), sound.slaves, nofun⟩
  | writeBus line data =>
    obtain rfl := Option.some_inj.mp next
    exact ⟨boards, sound.serves, sound.req, rfl, sound.rw, sound.slaves, nofun⟩
  | raiseReq op =>
    obtain rfl := Option.some_inj.mp next
    exact ⟨boards, sound.raiseReq rfl⟩
  | awaitAkn op timeout =>
    simp only [Bus.master] at next
    split_ifs at next with akn last
    · obtain rfl := Option.some_inj.mp next
      have ready := sound.acknowledged rfl akn
      cases op with
      | write line data =>
        exact ⟨boards, sound.serves, sound.req, sound.drives, nofun, ready, fun _ _ same => by cases same; rfl⟩
      | read line => exact ⟨boards, sound.serves, sound.req, sound.drives, nofun, ready, nofun⟩
    · obtain rfl := Option.some_inj.mp next
      exact ⟨boards, sound.serves, sound.req, sound.drives, sound.rw, sound.slaves, nofun⟩
    · obtain rfl := Option.some_inj.mp next
      exact ⟨boards, sound.serves, sound.req, sound.drives, sound.rw, sound.slaves, nofun⟩
  | giveUp op =>
    obtain ⟨low, resting⟩ := sound.givenUp both rfl prompt
    cases op with
    | write line data =>
      obtain rfl := Option.some_inj.mp next
      exact ⟨boards, sound.serves, low, sound.drives, nofun, fun k => Stage.holds_of_resting (resting k) nofun, nofun⟩
    | read line =>
      obtain rfl := Option.some_inj.mp next
      exact ⟨boards, sound.serves.snoc (.unread line), low, sound.drives, nofun, fun k => Stage.holds_of_resting (resting k) nofun, nofun⟩
  | giveBack line data =>
    obtain rfl := Option.some_inj.mp next
    exact ⟨boards, sound.serves.snoc (.unwritten line data), sound.req, rfl, nofun, sound.slaves, nofun⟩
  | readBus line =>
    obtain rfl := Option.some_inj.mp next
    refine ⟨boards, sound.serves, sound.req, sound.drives, nofun, sound.slaves, fun op result same => ?_⟩
    cases same
    exact congrArg (fun byte : Byte => (byte.toNat : Int)) (sound.value_ready rfl)
  | freeBus line data =>
    obtain rfl := Option.some_inj.mp next
    exact ⟨boards, sound.serves, sound.req, rfl, nofun, sound.slaves, sound.result⟩
  | dropReq op result =>
    obtain rfl := Option.some_inj.mp next
    exact ⟨boards, sound.dropReq rfl⟩
  | awaitFree op result timeout =>
    simp only [Bus.master] at next
    split_ifs at next with akn last
    · exact absurd (akn.symm.trans (prompt last)) (by decide)
    · obtain rfl := Option.some_inj.mp next
      exact ⟨boards, sound.serves, sound.req, sound.drives, sound.rw, sound.slaves, sound.result⟩
    · obtain rfl := Option.some_inj.mp next
      exact ⟨_, sound.free rfl (Bool.eq_false_iff.mpr akn)⟩

theorem Sound.step (sound : Sound device first s boards) {act : Act} (prompt : Prompt s act)
    (next : BusHandshake.step device both s act = some t) : ∃ boards', Sound device first t boards' := by
  cases act with
  | call op =>
    obtain ⟨point, req, rw, drives, slave, returned⟩ := s
    cases point with
    | out =>
      obtain rfl := Option.some_inj.mp next
      exact ⟨boards, sound.serves, sound.req, sound.drives, nofun, sound.slaves, nofun⟩
    | _ => exact absurd next nofun
  | master noise => exact sound.master prompt next
  | slave k noise =>
    obtain ⟨b, stepped, rfl⟩ := Option.map_eq_some_iff.mp next
    exact ⟨boards, sound.slave stepped⟩

/-- The master and the slave that is on the bus are not there both. -/
theorem Sound.apart (sound : Sound device first s boards) (line : (stageOf s.point).line = some k) :
    s.drives = none ∨ (s.slave k).drives = none := by
  obtain ⟨point, req, rw, drives, slave, returned⟩ := s
  cases point with
  | awaitAkn op | giveUp op =>
    obtain rfl := Option.some_inj.mp line
    cases op with
    | read req => exact .inl sound.drives
    | write req data => exact .inr (Asked.quiet (sound.within rfl rfl))
  | freeBus req data =>
    obtain rfl := Option.some_inj.mp line
    have ready : Ready (device req) (.write req data) (boards req) (slave req) := sound.within rfl rfl
    exact .inr (Asked.quiet (.ready ready))
  | readBus | dropReq | awaitFree => exact .inl sound.drives
  | _ => contradiction

theorem Sound.drivers_short (sound : Sound device first s boards) : s.drivers.length ≤ 1 := by
  have one : ∀ byte : Option Byte, byte.toList.length ≤ 1 := fun byte => by cases byte <;> simp
  cases line : (stageOf s.point).line with
  | none =>
    have quiet : ∀ k, (s.slave k).drives = none := fun k => (sound.resting (by rw [line]; nofun)).still.2
    rw [drivers_single 0 fun j _ => quiet j, quiet 0, Option.toList_none, List.append_nil]
    exact one _
  | some k =>
    have quiet : ∀ j, j ≠ k → (s.slave j).drives = none := fun j other =>
      (sound.resting (by rw [line]; exact fun same => other (Option.some_inj.mp same).symm)).still.2
    rw [drivers_single k quiet]
    rcases sound.apart line with free | free
    · rw [free]
      exact one _
    · rw [free, Option.toList_none, List.append_nil]
      exact one _

theorem Sound.akn_once (sound : Sound device first s boards) {j : Line} (one : (s.slave j).akn = true)
    (other : (s.slave k).akn = true) : j = k := by
  have line : ∀ i, (s.slave i).akn = true → (stageOf s.point).line = some i := fun i high =>
    by_contra fun away => absurd (high.symm.trans (sound.resting away).still.1) (by decide)
  exact Option.some_inj.mp ((line j one).symm.trans (line k other))

variable (device both)

/-- Every order of the statements of the master and the slaves comes to calls one after the other. Nobody disturbs what another has on the bus,
    and a request is not missed. -/
theorem calls_atomic {acts : List Act} (run : runs (BusHandshake.step device both) (start first) acts = some s)
    (prompt : Every (BusHandshake.step device both) Prompt (start first) acts) :
    (∃ boards, Serves device first s.returned boards ∧
      (s.point = .out → ∀ k, s.req k = false ∧ settled (device k) (s.slave k) = boards k)) ∧
    s.drivers.length ≤ 1 ∧ (∀ j k, (s.slave j).akn = true → (s.slave k).akn = true → j = k) ∧
    ∀ op timeout, s.point = .awaitAkn op timeout → (s.slave op.line).place = .main → (s.slave op.line).pending = true := by
  obtain ⟨boards, sound⟩ : ∃ boards, Sound device first s boards :=
    runs_every (I := fun s => ∃ boards, Sound device first s boards) (fun s act t kept prompt next => kept.choose_spec.step prompt next)
      ⟨first, sound_start device first⟩ prompt run
  refine ⟨⟨boards, sound.serves, fun out k => ?_⟩, sound.drivers_short, fun j k => sound.akn_once, fun op timeout here main => ?_⟩
  · have staged : stageOf s.point = .rests := by rw [out]; rfl
    have low : s.req k = false := Bool.eq_false_iff.mpr fun high => absurd ((sound.req k).mp high) (by rw [staged]; nofun)
    exact ⟨low, (sound.resting (by rw [staged]; nofun)).settled⟩
  · have staged : stageOf s.point = .asked op := by rw [here]; rfl
    exact Asked.noticed (sound.within staged rfl) main

end

/-- The board of the Blackfin. -/
def blackfin : Device Blackfin.Board where
  processData x data := Blackfin.processData data x
  send := Blackfin.sendData

/-- A byte is written to the slave 2, in an order where the slave processes it when the master is back, and one is read from the slave 3. -/
def writeThenRead : List Act :=
  [.call (.write 2 busCmdId)] ++ List.replicate 3 (.master 0) ++ List.replicate 5 (.slave 2 0) ++ List.replicate 3 (.master 0) ++
    List.replicate 2 (.slave 2 0) ++ [.master 0, .call (.read 3), .slave 2 0] ++ List.replicate 2 (.master 0) ++ List.replicate 6 (.slave 3 0) ++
    List.replicate 3 (.master 0) ++ List.replicate 3 (.slave 3 0) ++ [.master 0]

theorem written_then_read : ∃ s,
    runs (BusHandshake.step (fun _ => blackfin) fun _ => true) (start fun _ => Blackfin.initial) writeThenRead = some s ∧
    s.returned = [(.write 2 busCmdId, 0), (.read 3, 0)] ∧
    ∃ boards, Serves (fun _ => blackfin) (fun _ => Blackfin.initial) s.returned boards ∧
      ∀ k, s.req k = false ∧ settled blackfin (s.slave k) = boards k := by
  have result : (runs (BusHandshake.step (fun _ => blackfin) fun _ => true) (start fun _ => Blackfin.initial) writeThenRead).map
      (fun s => (s.point, s.returned)) = some (.out, [(.write 2 busCmdId, 0), (.read 3, 0)]) := by decide +kernel
  obtain ⟨s, run, same⟩ := Option.map_eq_some_iff.mp result
  have prompt : Every (BusHandshake.step (fun _ => blackfin) fun _ => true) Prompt (start fun _ => Blackfin.initial) writeThenRead := by
    decide +kernel
  obtain ⟨⟨boards, serves, still⟩, -⟩ := calls_atomic (fun _ => blackfin) (fun _ => true) run prompt
  obtain ⟨out, returned⟩ := Prod.mk.inj same
  exact ⟨s, run, returned, boards, serves, still out⟩

end Tortuga.HandshakeRuns
