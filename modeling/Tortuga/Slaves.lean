import Tortuga.Balancer
import Tortuga.Blackfin
import Tortuga.Distro
import Tortuga.Lcd
import Tortuga.Listeners

/-!
The slaves as the master meets them on the bus: each byte that it writes is a command or a parameter
of the command before, and when a slave is back at its top level.
-/
namespace Tortuga.Slaves
open Tortuga.BusCodes Tortuga.SlaveUarts Tortuga.Listeners Tortuga.Machines
set_option linter.unusedSimpArgs false

/-! ### The distribution board with its UARTs -/

/-- The variables of `distro.c`, and those that a build with UARTs has besides. -/
structure DistroBoard where
  shared : Distro.Shared
  ports : Ports

section
variable (build : Build)

/-- `case STATE_TOP_LEVEL`, with the commands of the UARTs that are built in. -/
def distroCmd (data : Byte) (s : DistroBoard) : DistroBoard :=
  if data = busCmdGetreplyU1 ∧ build.hasU1 = true then
    ⟨Distro.reply [1#8, (nextReply s.ports.u1).1] s.shared, { s.ports with u1 := (nextReply s.ports.u1).2 }⟩
  else if data = busCmdGetreplyU2 ∧ build.hasU2 = true then
    ⟨Distro.reply [1#8, (nextReply s.ports.u2).1] s.shared, { s.ports with u2 := (nextReply s.ports.u2).2 }⟩
  else { s with shared := Distro.topLevelCmd data s.shared }

/-- `case STATE_SETSPEED_U1` and `case STATE_SETSPEED_U2`. -/
def distroSpeed (first : Bool) (data : Byte) (s : DistroBoard) : DistroBoard :=
  let p1 := if s.shared.nParam = 0 then data else s.shared.p1
  if s.shared.nParam + 1 = 2 then
    ⟨{ s.shared with p1 := p1, nParam := 0, busState := .topLevel }, uartSendSpeed build 0x01#8 p1 data first s.ports⟩
  else { s with shared := { s.shared with p1 := p1, nParam := s.shared.nParam + 1 } }

/-- A byte elsewhere: a parameter. -/
def distroParam (data : Byte) (s : DistroBoard) : DistroBoard :=
  if s.shared.busState = .setspeedU1 ∧ build.hasUart = true then distroSpeed build true data s
  else if s.shared.busState = .setspeedU2 ∧ build.hasUart = true then distroSpeed build false data s
  else { s with shared := Distro.paramByte data s.shared }

/-- `processData` of `distro.c` in any build. -/
def distroData (s : DistroBoard) (data : Byte) : DistroBoard :=
  let s := { s with shared := { s.shared with txPtr := 0 } }
  if s.shared.busState = .topLevel then distroCmd build data s else distroParam build data s

/-- Without UARTs this is the board as it is built. -/
theorem distroData_none (s : DistroBoard) (data : Byte) :
    distroData ⟨false, false⟩ s data = { s with shared := Distro.processData data s.shared } := by
  simp only [distroData, distroCmd, distroParam, Distro.processData, Build.hasUart, Bool.false_eq_true, and_false,
    Bool.or_self, ↓reduceIte]
  split <;> rfl

end

/-! ### The four slaves -/

inductive Slave where
  | lcd
  | power
  | blackfin
  | distribution
  deriving DecidableEq

def Board : Slave → Type
  | .lcd => Lcd.Board
  | .power => Balancer.Board
  | .blackfin => Blackfin.Board
  | .distribution => DistroBoard

/-- The board before the first byte. `memory` is what its arrays hold, and what lies behind them. -/
def initial (memory : ℕ → Byte) : (b : Slave) → Board b
  | .lcd => Lcd.initial memory
  | .power => Balancer.initial memory
  | .blackfin => { Blackfin.initial with cfgRegs := memory }
  | .distribution => ⟨(Distro.initial memory true).shared, silentPorts⟩

/-- The states of the parsers, taken together. -/
inductive State where
  | topLevel
  | readCmd
  | writeCmd
  | writeLcd
  | setspeed
  | motrspeeds
  | setBarmode
  | setBars
  deriving DecidableEq

/-- The parameters of the command that leads to a state. -/
def State.params : State → ℕ
  | .topLevel => 0
  | .readCmd | .setBarmode | .setBars => 1
  | .writeCmd | .writeLcd | .setspeed => 2
  | .motrspeeds => 6

def lcdState : Lcd.BusState → State
  | .topLevel => .topLevel
  | .readCmd => .readCmd
  | .writeCmd => .writeCmd
  | .writeLcd => .writeLcd
  | .setspeedU1 | .setspeedU2 => .setspeed

def powerState : Balancer.BusState → State
  | .topLevel => .topLevel
  | .readCmd => .readCmd
  | .writeCmd => .writeCmd
  | .setspeedU1 | .setspeedU2 => .setspeed

def blackfinState : Blackfin.BusState → State
  | .topLevel => .topLevel
  | .readCmd => .readCmd
  | .writeCmd => .writeCmd
  | .writeLcd => .writeLcd
  | .setspeedU1 | .setspeedU2 => .setspeed

def distroState : Distro.BusState → State
  | .topLevel => .topLevel
  | .readCmd => .readCmd
  | .writeCmd => .writeCmd
  | .setspeedU1 | .setspeedU2 => .setspeed
  | .motrspeeds => .motrspeeds
  | .setBarmode => .setBarmode
  | .setBars => .setBars

theorem lcdState_top {state : Lcd.BusState} (top : lcdState state = .topLevel) : state = .topLevel := by
  cases state <;> first | rfl | cases top

theorem powerState_top {state : Balancer.BusState} (top : powerState state = .topLevel) : state = .topLevel := by
  cases state <;> first | rfl | cases top

theorem blackfinState_top {state : Blackfin.BusState} (top : blackfinState state = .topLevel) : state = .topLevel := by
  cases state <;> first | rfl | cases top

theorem distroState_top {state : Distro.BusState} (top : distroState state = .topLevel) : state = .topLevel := by
  cases state <;> first | rfl | cases top

/-- `busState` and `nParam`. -/
def parser : (b : Slave) → Board b → State × ℕ
  | .lcd, s => (lcdState s.busState, s.nParam)
  | .power, s => (powerState s.busState, s.nParam)
  | .blackfin, s => (blackfinState s.busState, s.nParam)
  | .distribution, s => (distroState s.shared.busState, s.shared.nParam)

/-- A byte that the master writes. -/
def write (build : Build) : (b : Slave) → Board b → Byte → Board b
  | .lcd, s, data => Lcd.processData build s data
  | .power, s, data => Balancer.processData build s data
  | .blackfin, s, data => Blackfin.processData data s
  | .distribution, s, data => distroData build s data

/-- What the commands do. -/
def execute (build : Build) : (b : Slave) → Byte → Board b → Board b
  | .lcd, data, s => Lcd.topLevelCmd build data { s with txPtr := 0 }
  | .power, data, s => Balancer.topLevelCmd build data { s with txPtr := 0 }
  | .blackfin, data, s => Blackfin.topLevelCmd data { s with txPtr := 0 }
  | .distribution, data, s => distroCmd build data { s with shared := { s.shared with txPtr := 0 } }

/-- The board as a machine that waits for the parameters of its commands. -/
def listener (build : Build) (b : Slave) : Listener (Board b) Byte where
  next := write build b
  top s := (parser b s).1 = .topLevel
  execute := execute build b
  pending s := (parser b s).1.params - (parser b s).2

/-- The board has a case for the parameters of the speeds: the LCD board always, the Blackfin board
    never, and the others with `HAS_UART`. -/
def takesSpeeds (build : Build) : Slave → Bool
  | .lcd => true
  | .power | .distribution => build.hasUart
  | .blackfin => false

/-- A command for a speed that the board has no case for. -/
def Deafens (build : Build) (b : Slave) (s : Board b) (data : Byte) : Prop :=
  (parser b s).1 = .topLevel ∧ (data = busCmdSetspeedU1 ∨ data = busCmdSetspeedU2) ∧ takesSpeeds build b = false

instance (build : Build) (b : Slave) (s : Board b) (data : Byte) : Decidable (Deafens build b s data) :=
  inferInstanceAs (Decidable (_ ∧ _ ∧ _))

/-! ### What a command does to the parser -/

/-- The commands with parameters and their states. -/
def openers : Slave → List (Byte × State)
  | .lcd =>
    [(busCmdReadReg, .readCmd), (busCmdWriteReg, .writeCmd), (busCmdSetspeedU1, .setspeed), (busCmdSetspeedU2, .setspeed),
      (busCmdLcdWrite, .writeLcd)]
  | .power | .blackfin =>
    [(busCmdReadReg, .readCmd), (busCmdWriteReg, .writeCmd), (busCmdSetspeedU1, .setspeed), (busCmdSetspeedU2, .setspeed)]
  | .distribution =>
    [(busCmdReadReg, .readCmd), (busCmdWriteReg, .writeCmd), (busCmdSetspeedU1, .setspeed), (busCmdSetspeedU2, .setspeed),
      (busCmdSetBars, .setBars), (busCmdMotrspeeds, .motrspeeds), (busCmdSetBarmode, .setBarmode)]

section
variable (build : Build) {data : Byte}

theorem opened (b : Slave) (s : Board b) : ∀ c ∈ openers b, parser b (execute build b c.1 s) = (c.2, 0) := by
  intro c inside
  cases b <;> simp only [openers, List.mem_cons, List.not_mem_nil, or_false] at inside
  case lcd => rcases inside with rfl | rfl | rfl | rfl | rfl <;> rfl
  case power => rcases inside with rfl | rfl | rfl | rfl <;> rfl
  case blackfin => rcases inside with rfl | rfl | rfl | rfl <;> rfl
  case distribution => rcases inside with rfl | rfl | rfl | rfl | rfl | rfl | rfl <;> cases build with | mk u1 u2 => cases u1 <;> cases u2 <;> rfl

theorem ite_same {S T : Type} {f : S → T} {t : T} {c : Prop} [Decidable c] {x y : S} (one : f x = t) (other : f y = t) :
    f (if c then x else y) = t := by
  split
  · exact one
  · exact other

theorem lcd_stays {s : Lcd.Board} (top : s.busState = .topLevel) (other : ∀ c ∈ openers .lcd, data ≠ c.1) :
    (Lcd.topLevelCmd build data s).busState = .topLevel := by
  simp only [openers, List.forall_mem_cons] at other
  obtain ⟨read, wr, u1, u2, lcd, -⟩ := other
  rw [Lcd.topLevelCmd, if_neg read, if_neg wr, if_neg u1, if_neg u2, if_neg lcd]
  repeat' refine ite_same (f := Lcd.Board.busState) ?_ ?_
  all_goals exact top

theorem power_stays {s : Balancer.Board} (top : s.busState = .topLevel) (other : ∀ c ∈ openers .power, data ≠ c.1) :
    (Balancer.topLevelCmd build data s).busState = .topLevel := by
  simp only [openers, List.forall_mem_cons] at other
  obtain ⟨read, wr, u1, u2, -⟩ := other
  rw [Balancer.topLevelCmd, if_neg read, if_neg wr, if_neg u1, if_neg u2]
  repeat' refine ite_same (f := Balancer.Board.busState) ?_ ?_
  iterate 12 exact top
  split <;> exact top

theorem blackfin_stays {s : Blackfin.Board} (top : s.busState = .topLevel) (other : ∀ c ∈ openers .blackfin, data ≠ c.1) :
    (Blackfin.topLevelCmd data s).busState = .topLevel := by
  simp only [openers, List.forall_mem_cons] at other
  obtain ⟨read, wr, u1, u2, -⟩ := other
  rw [Blackfin.topLevelCmd, if_neg read, if_neg wr, if_neg u1, if_neg u2]
  repeat' refine ite_same (f := Blackfin.Board.busState) ?_ ?_
  all_goals exact top

theorem checkMotors_busState (ms : List Distro.Motor) (s : Distro.Shared) :
    (Distro.checkMotors ms s).busState = s.busState := by
  induction ms generalizing s with
  | nil => rfl
  | cons m rest ih =>
    rw [Distro.checkMotors, ih]
    split <;> rfl

theorem distro_stays {s : DistroBoard} (top : s.shared.busState = .topLevel)
    (other : ∀ c ∈ openers .distribution, data ≠ c.1) : (distroCmd build data s).shared.busState = .topLevel := by
  simp only [openers, List.forall_mem_cons] at other
  obtain ⟨read, wr, u1, u2, bars, speeds, mode, -⟩ := other
  have others : (Distro.otherCmd data s.shared).busState = .topLevel := by
    rw [Distro.otherCmd, if_neg read, if_neg wr, if_neg bars, if_neg speeds, if_neg u1, if_neg u2, if_neg mode]
    repeat' refine ite_same (f := Distro.Shared.busState) ?_ ?_
    iterate 11 exact top
    split <;> exact top
  rw [distroCmd]
  split
  · exact top
  · split
    · exact top
    · show (Distro.topLevelCmd data s.shared).busState = _
      rw [Distro.topLevelCmd]
      split
      · exact (checkMotors_busState _ _).trans top
      · split
        · rw [Distro.motorOn]
          split <;> exact top
        · exact others

theorem stays (b : Slave) {s : Board b} (top : (parser b s).1 = .topLevel) (other : ∀ c ∈ openers b, data ≠ c.1) :
    (parser b (execute build b data s)).1 = .topLevel := by
  cases b with
  | lcd =>
    have state : s.busState = .topLevel := lcdState_top top
    exact congrArg lcdState (lcd_stays build (s := { s with txPtr := 0 }) state other)
  | power =>
    have state : s.busState = .topLevel := powerState_top top
    exact congrArg powerState (power_stays build (s := { s with txPtr := 0 }) state other)
  | blackfin =>
    have state : s.busState = .topLevel := blackfinState_top top
    exact congrArg blackfinState (blackfin_stays (s := { s with txPtr := 0 }) state other)
  | distribution =>
    have state : s.shared.busState = .topLevel := distroState_top top
    exact congrArg distroState (distro_stays build (s := { s with shared := { s.shared with txPtr := 0 } }) state other)

/-! ### What a parameter does to the parser -/

/-- The parser waits for the parameters of a speed that it has no case for. -/
def Deaf (b : Slave) (s : Board b) : Prop := (parser b s).1 = .setspeed ∧ takesSpeeds build b = false

/-- The parser has got one more of the parameters of its state. -/
def State.got (st : State) (n : ℕ) : State × ℕ := if n + 1 = st.params then (.topLevel, 0) else (st, n + 1)

theorem lcd_param {s : Lcd.Board} (inside : s.nParam < (lcdState s.busState).params) (data : Byte) :
    parser .lcd (Lcd.processData build s data) = (lcdState s.busState).got s.nParam := by
  cases state : s.busState <;> rw [state] at inside
  case topLevel => exact absurd inside (Nat.not_lt_zero _)
  case readCmd =>
    have none : s.nParam = 0 := Nat.lt_one_iff.mp inside
    simp [Lcd.processData, state, none, Lcd.reply, parser, lcdState, State.got, State.params]
  all_goals
    rcases Nat.lt_succ_iff_lt_or_eq.mp inside with first | second
    · have none : s.nParam = 0 := Nat.lt_one_iff.mp first
      simp [Lcd.processData, state, none, Lcd.countParam, parser, lcdState, State.got, State.params]
    · simp [Lcd.processData, state, second, Lcd.countParam, parser, lcdState, State.got, State.params]

theorem power_param {s : Balancer.Board} (inside : s.nParam < (powerState s.busState).params)
    (hears : ¬ Deaf build .power s) (data : Byte) :
    parser .power (Balancer.processData build s data) = (powerState s.busState).got s.nParam := by
  have built (speed : powerState s.busState = .setspeed) : build.hasUart = true :=
    Bool.not_eq_false _ ▸ fun none => hears ⟨speed, none⟩
  cases state : s.busState <;> rw [state] at inside built
  case topLevel => exact absurd inside (Nat.not_lt_zero _)
  case readCmd =>
    have none : s.nParam = 0 := Nat.lt_one_iff.mp inside
    simp [Balancer.processData, state, none, Balancer.reply, parser, powerState, State.got, State.params]
  case writeCmd =>
    rcases Nat.lt_succ_iff_lt_or_eq.mp inside with first | second
    · have none : s.nParam = 0 := Nat.lt_one_iff.mp first
      simp [Balancer.processData, state, none, Balancer.countParam, parser, powerState, State.got, State.params]
    · simp [Balancer.processData, state, second, Balancer.countParam, parser, powerState, State.got, State.params]
  all_goals
    have uart := built rfl
    rcases Nat.lt_succ_iff_lt_or_eq.mp inside with first | second
    · have none : s.nParam = 0 := Nat.lt_one_iff.mp first
      simp [Balancer.processData, Balancer.speedParam, uart, state, none, Balancer.countParam, parser, powerState, State.got,
        State.params]
    · simp [Balancer.processData, Balancer.speedParam, uart, state, second, Balancer.countParam, parser, powerState, State.got,
        State.params]

theorem blackfin_param {s : Blackfin.Board} (inside : s.nParam < (blackfinState s.busState).params)
    (hears : ¬ Deaf build .blackfin s) (entered : blackfinState s.busState ≠ .writeLcd) (data : Byte) :
    parser .blackfin (Blackfin.processData data s) = (blackfinState s.busState).got s.nParam := by
  have other : blackfinState s.busState ≠ .setspeed := fun speed => hears ⟨speed, rfl⟩
  cases state : s.busState <;> rw [state] at inside other entered
  case topLevel => exact absurd inside (Nat.not_lt_zero _)
  case readCmd =>
    have none : s.nParam = 0 := Nat.lt_one_iff.mp inside
    simp [Blackfin.processData, state, none, parser, blackfinState, State.got, State.params]
  case writeCmd =>
    rcases Nat.lt_succ_iff_lt_or_eq.mp inside with first | second
    · have none : s.nParam = 0 := Nat.lt_one_iff.mp first
      simp [Blackfin.processData, state, none, Blackfin.writeParam, parser, blackfinState, State.got, State.params]
    · simp [Blackfin.processData, state, second, Blackfin.writeParam, parser, blackfinState, State.got, State.params]
  case writeLcd => exact absurd rfl entered
  case setspeedU1 => exact absurd rfl other
  case setspeedU2 => exact absurd rfl other

theorem distro_param {s : DistroBoard} (inside : s.shared.nParam < (distroState s.shared.busState).params)
    (hears : ¬ Deaf build .distribution s) (data : Byte) :
    parser .distribution (distroData build s data) = (distroState s.shared.busState).got s.shared.nParam := by
  have built (speed : distroState s.shared.busState = .setspeed) : build.hasUart = true :=
    Bool.not_eq_false _ ▸ fun none => hears ⟨speed, none⟩
  cases state : s.shared.busState <;> rw [state] at inside built
  case topLevel => exact absurd inside (Nat.not_lt_zero _)
  case readCmd | setBarmode | setBars =>
    have none : s.shared.nParam = 0 := Nat.lt_one_iff.mp inside
    simp [distroData, distroParam, Distro.paramByte, state, none, Distro.reply, parser, distroState, State.got, State.params]
  case writeCmd =>
    simp only [distroData, distroParam, Distro.paramByte, state, parser, distroState, State.got, State.params]
    by_cases last : s.shared.nParam + 1 = 2 <;> simp [last, state]
  case motrspeeds =>
    simp only [distroData, distroParam, Distro.paramByte, state, parser, distroState, State.got, State.params]
    by_cases last : s.shared.nParam + 1 = 6 <;> simp [last, state]
  all_goals
    have uart := built rfl
    simp only [distroData, distroParam, distroSpeed, uart, state, parser, distroState, State.got, State.params]
    by_cases last : s.shared.nParam + 1 = 2 <;> simp [last, state]

/-- Fewer parameters have come than the state is for, and the Blackfin board does not write to an LCD. -/
structure Inside (b : Slave) (s : Board b) : Prop where
  few : (parser b s).1 ≠ .topLevel → (parser b s).2 < (parser b s).1.params
  entered : b = .blackfin → (parser b s).1 ≠ .writeLcd

theorem inside_initial (memory : ℕ → Byte) (b : Slave) : Inside b (initial memory b) := by
  cases b <;> exact ⟨fun other => absurd rfl other, fun _ => State.noConfusion⟩

theorem param_got (b : Slave) {s : Board b} (inside : Inside b s) (hears : ¬ Deaf build b s)
    (waits : (parser b s).1 ≠ .topLevel) (data : Byte) :
    parser b (write build b s data) = (parser b s).1.got (parser b s).2 := by
  have few := inside.few waits
  cases b with
  | lcd => exact lcd_param build few data
  | power => exact power_param build few hears data
  | blackfin => exact blackfin_param build few hears (inside.entered rfl) data
  | distribution => exact distro_param build few hears data

/-- A deaf parser takes any byte and stays. -/
theorem deaf_stays (b : Slave) {s : Board b} (deaf : Deaf build b s) (data : Byte) :
    parser b (write build b s data) = parser b s := by
  obtain ⟨speed, none⟩ := deaf
  cases b with
  | lcd => exact absurd none Bool.noConfusion
  | power =>
    have uart : build.hasUart = false := none
    cases state : s.busState <;> simp [parser, powerState, state] at speed
    all_goals simp [write, Balancer.processData, Balancer.speedParam, uart, state, parser]
  | blackfin =>
    cases state : s.busState <;> simp [parser, blackfinState, state] at speed
    all_goals simp [write, Blackfin.processData, state, parser]
  | distribution =>
    have uart : build.hasUart = false := none
    cases state : s.shared.busState <;> simp [parser, distroState, state] at speed
    all_goals simp [write, distroData, distroParam, Distro.paramByte, uart, state, parser]

theorem write_top (b : Slave) {s : Board b} (top : (parser b s).1 = .topLevel) (data : Byte) :
    write build b s data = execute build b data s := by
  cases b with
  | lcd =>
    have state : s.busState = .topLevel := lcdState_top top
    simp only [write, execute, Lcd.processData, state]
    rfl
  | power =>
    have state : s.busState = .topLevel := powerState_top top
    simp only [write, execute, Balancer.processData, state]
    rfl
  | blackfin =>
    have state : s.busState = .topLevel := blackfinState_top top
    simp only [write, execute, Blackfin.processData, state]
    rfl
  | distribution =>
    have state : s.shared.busState = .topLevel := distroState_top top
    exact if_pos state

/-- What a byte at the top level leads to. -/
theorem command_cases (b : Slave) {s : Board b} (top : (parser b s).1 = .topLevel) (data : Byte) :
    (∃ c ∈ openers b, data = c.1 ∧ parser b (write build b s data) = (c.2, 0)) ∨
      (∀ c ∈ openers b, data ≠ c.1) ∧ (parser b (write build b s data)).1 = .topLevel := by
  rw [write_top build b top]
  by_cases opens : ∃ c ∈ openers b, data = c.1
  · obtain ⟨c, inside, rfl⟩ := opens
    exact .inl ⟨c, inside, rfl, opened build b s c inside⟩
  · push Not at opens
    exact .inr ⟨opens, stays build b top opens⟩

/-- Only the commands for speeds lead to the state of a speed. -/
theorem opener_speed (b : Slave) : ∀ c ∈ openers b, (c.2 = .setspeed ↔ c.1 = busCmdSetspeedU1 ∨ c.1 = busCmdSetspeedU2) ∧
    0 < c.2.params ∧ (b = .blackfin → c.2 ≠ .writeLcd) := by
  cases b <;> decide

theorem speeds_open (b : Slave) : (busCmdSetspeedU1, State.setspeed) ∈ openers b ∧ (busCmdSetspeedU2, State.setspeed) ∈ openers b := by
  cases b <;> decide

theorem inside_write (b : Slave) {s : Board b} (inside : Inside b s) (data : Byte) : Inside b (write build b s data) := by
  by_cases top : (parser b s).1 = .topLevel
  · rcases command_cases build b top data with ⟨c, opener, -, became⟩ | ⟨-, became⟩
    · obtain ⟨-, positive, entered⟩ := opener_speed b c opener
      exact ⟨fun _ => by rw [became]; exact positive, fun same => by rw [became]; exact entered same⟩
    · exact ⟨fun other => absurd became other, fun _ => by rw [became]; exact State.noConfusion⟩
  · by_cases deaf : Deaf build b s
    · have same := deaf_stays build b deaf data
      exact ⟨fun _ => by rw [same]; exact inside.few top, fun blackfin => by rw [same]; exact inside.entered blackfin⟩
    · have got := param_got build b inside deaf top data
      have few := inside.few top
      rw [State.got] at got
      split at got
      · exact ⟨fun other => absurd (by rw [got]) other, fun _ => by rw [got]; exact State.noConfusion⟩
      · exact ⟨fun _ => by rw [got]; simp only; omega, fun blackfin => by rw [got]; exact inside.entered blackfin⟩

/-- The four parsers follow the rules of a machine that waits for parameters. -/
theorem listener_counts (b : Slave) : Counts (listener build b) (Inside b) (Deaf build b) (Deafens build b) where
  keeps s data inside := inside_write build b inside data
  top s inside hears := by
    show (parser b s).1 = .topLevel ↔ (parser b s).1.params - (parser b s).2 = 0
    constructor
    · intro top
      rw [top]
      exact Nat.zero_sub _
    · intro zero
      by_contra waits
      have := inside.few waits
      omega
  executes s data top := write_top build b top data
  param s data inside hears waits := by
    have got := param_got build b inside hears waits data
    have few := inside.few waits
    refine ⟨fun deafens => waits deafens.1, fun deaf => ?_, ?_⟩
    · have speed : (parser b (write build b s data)).1 = .setspeed := deaf.1
      rw [got, State.got] at speed
      split at speed
      · exact State.noConfusion speed
      · exact hears ⟨speed, deaf.2⟩
    · show (parser b (write build b s data)).1.params - (parser b (write build b s data)).2 + 1 =
        (parser b s).1.params - (parser b s).2
      rw [got, State.got]
      split
      · show 0 - 0 + 1 = _
        omega
      · show (parser b s).1.params - ((parser b s).2 + 1) + 1 = _
        omega
  command s data inside top := by
    show Deaf build b (write build b s data) ↔ _
    rcases command_cases build b top data with ⟨c, opener, rfl, became⟩ | ⟨other, became⟩
    · rw [Deaf, Deafens, became, (opener_speed b c opener).1]
      exact ⟨fun deaf => ⟨top, deaf⟩, fun deafens => deafens.2⟩
    · constructor
      · intro deaf
        exact State.noConfusion (became.symm.trans deaf.1)
      · rintro ⟨-, rfl | rfl, -⟩
        · exact absurd rfl (other _ (speeds_open b).1)
        · exact absurd rfl (other _ (speeds_open b).2)
  deaf s data deaf := by
    show (parser b s).1 ≠ .topLevel ∧ Deaf build b (write build b s data)
    have same := deaf_stays build b deaf data
    rw [Deaf, same]
    exact ⟨fun top => State.noConfusion (deaf.1.symm.trans top), deaf⟩

/-! ### Runs -/

/-- The board is not deaf, and what it still waits for is at most what its commands have: six bytes for
    the speeds of the motors and two else. -/
structure Attends (b : Slave) (s : Board b) : Prop where
  attentive : Attentive (listener build b) s
  bound : (listener build b).pending s ≤ if (parser b s).1 = .motrspeeds then 6 else 2

theorem pending_le (b : Slave) (s : Board b) :
    (listener build b).pending s ≤ if (parser b s).1 = .motrspeeds then 6 else 2 := by
  have params : (parser b s).1.params ≤ if (parser b s).1 = .motrspeeds then 6 else 2 := by
    cases (parser b s).1 <;> decide
  exact Nat.le_trans (Nat.sub_le _ _) params

theorem hears_initial (memory : ℕ → Byte) (b : Slave) : ¬ Deaf build b (initial memory b) := by
  rintro ⟨speed, -⟩
  cases b <;> exact State.noConfusion speed

end

end Tortuga.Slaves
