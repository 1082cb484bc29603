import Tortuga.Interlock

/-!
The interlock over runs of the pneumatics board, with the timer between any two steps.
-/
namespace Tortuga.InterlockRuns
open Tortuga.Programs Tortuga.Bitmaps Tortuga.BusCodes Tortuga.DelayQueue Tortuga.Pneumatics
open Tortuga.PneumaticsQueue Tortuga.PneumaticsRuns Tortuga.Valves Tortuga.Interlock
set_option linter.unusedSimpArgs false

/-- The commands of the bus that name a pair, or all of them, and no piston. -/
def pairCmds : List Byte := [busCmdVoidTorp1, busCmdVoidTorp2, busCmdVoidGrabber, busCmdVoidPneu, busCmdOffPneu]

/-- A frame that is about pairs and not about pistons. -/
def OnPairs (b0 b1 b2 : Byte) : Prop :=
  (b0 = ch 'V' ∧ b1 = ch 'A' ∧ b2 = ch '!') ∨ (b0 = ch 'V' ∧ b1 = ch 'O') ∨ (b0 = ch 'F' ∧ b1 = ch 'L') ∨
    (b0 = ch 'T' ∧ b1 = ch 'O') ∨ (b0 = ch 'O' ∧ b1 = ch 'F' ∧ b2 = ch 'F') ∨
    (b0 = ch 'B' ∧ b1 = ch 'C' ∧ b2 ∈ pairCmds)

instance (b0 b1 b2 : Byte) : Decidable (OnPairs b0 b1 b2) := inferInstanceAs (Decidable (_ ∨ _ ∨ _ ∨ _ ∨ _ ∨ _))

/-- The board, the bytes of the frame that it is in, and the ticks since its last frame. -/
structure Seen where
  board : Board
  heard : List Byte
  waited : ℕ

def Seen.next (s : Seen) (e : BoardEvent) : Seen where
  board := s.board.next e
  heard := match e with
    | .call .uartRX b => s.heard ++ [b]
    | .iter _ => []
    | _ => s.heard
  waited := match e with
    | .ext .t1 => s.waited + 1
    | .iter _ => 0
    | _ => s.waited

/-- The checksum of the frame that has begun with `l`: when it is good the frame is not about pairs. -/
def Sums (b3 : Byte) : List Byte → Prop
  | [b0, b1, b2] => b3 = b0 + b1 + b2 → ¬ OnPairs b0 b1 b2
  | _ => True

instance (b3 : Byte) : ∀ l, Decidable (Sums b3 l)
  | [b0, b1, b2] => inferInstanceAs (Decidable (b3 = b0 + b1 + b2 → ¬ OnPairs b0 b1 b2))
  | [] | [_] | [_, _] | _ :: _ :: _ :: _ :: _ => isTrue trivial

/-- A frame with a good checksum is about pistons, or about nothing that the board knows. -/
def PistonOnly (s : Seen) : BoardEvent → Prop
  | .call .uartRX b3 => Sums b3 s.heard
  | _ => True

instance (s : Seen) : ∀ e, Decidable (PistonOnly s e)
  | .call .uartRX b3 => inferInstanceAs (Decidable (Sums b3 s.heard))
  | .call .uartRXwait _ | .call (.addCmd _ _ _) _ | .call (.writeUart _) _ | .call (.clearValid _) _
  | .call (.voidPair _) _ | .call (.turnOff _) _ | .iter _ | .ext _ => isTrue trivial

/-- All pairs are off when no frame has come for the longest delay. -/
def Rested (s : Seen) : Prop :=
  Rest (future s.board) ∧ (s.heard.length < 4 → ∀ pair, Settled (future s.board) (longest - s.waited) pair)

/-- What holds at any time. -/
def Guarded (s : Seen) : Prop :=
  Interlocked (future s.board) ∧ (s.heard.length < 4 → ∀ pair, Settled (future s.board) (longest - s.waited) pair)

/-- The board on piston commands, with space for all of them. -/
def pistons : Monitor Op Ans Loop Interrupt Seen where
  next := Seen.next
  allows s e := Answered s.board e ∧ (Sound s.board ∧ HasSpace e) ∧ PistonOnly s e
  demands s e := Guarded (s.next e)
  faults _ := False

/-- In the course of a frame. -/
def Busy (busy : List ℕ) (shut : List (ℕ × ℕ)) (s : Seen) : Prop :=
  4 ≤ s.heard.length ∧ Steps busy shut (future s.board)

theorem Rested.guarded {s : Seen} (rested : Rested s) : Guarded s := ⟨rested.1.locked, rested.2⟩

section
variable {busy : List ℕ} {shut : List (ℕ × ℕ)}

theorem Busy.guarded {s : Seen} (steps : Busy busy shut s) : Guarded s := by
  refine ⟨steps.2.locked, fun short => ?_⟩
  have := steps.1
  omega

theorem Busy.rested {s : Seen} (steps : Busy [] [] s) : Rested s := by
  refine ⟨steps.2, fun short => ?_⟩
  have := steps.1
  omega

theorem guarded_stable : Stable pistons Guarded := by
  rintro s ⟨⟩ ⟨locked, waiting⟩ -
  refine ⟨locked.tick, fun short pair => ?_⟩
  have settled := (waiting short pair).tick
  rw [Nat.sub_sub] at settled
  exact settled

theorem rested_stable : Stable pistons Rested := by
  rintro s ⟨⟩ rested allowed
  exact ⟨rested.1.tick, (guarded_stable s .t1 rested.guarded allowed).2⟩

theorem busy_stable : Stable pistons (Busy busy shut) := by
  rintro s ⟨⟩ ⟨long, steps⟩ -
  exact ⟨long, steps.tick⟩

end

/-! ### Steps of the program -/

/-- A step that leaves the valves and the list alone. -/
theorem keeps_ask {α : Type} {I : Seen → Prop} {o : Op} {k : Ans o → Io α} (stable : Stable pistons I)
    (guarded : ∀ s, I s → Guarded s) (same : ∀ (s : Seen) a, I s → I (s.next (.call o a)))
    (rest : ∀ a, Keeps pistons I (k a)) : Keeps pistons I (.ask o k) := by
  refine .ask stable (fun s a inv _ => ?_) rest
  have kept := same s a inv
  exact ⟨guarded _ kept, kept⟩

theorem keeps_write {I : Seen → Prop} (stable : Stable pistons I) (guarded : ∀ s, I s → Guarded s)
    (same : ∀ (s : Seen) b a, I s → I (s.next (.call (.writeUart b) a))) (str : List Char) : Keeps pistons I (write str) := by
  induction str with
  | nil => exact .ret stable ()
  | cons c rest ih => exact keeps_ask stable guarded (fun s a inv => same s _ a inv) (fun _ => ih)

/-- A frame, once its four bytes have come. -/
abbrev Calm {α : Type} (p : Io α) : Prop := Keeps pistons (Busy [] []) p

theorem Calm.result {α : Type} {p : Io Unit} (calm : Calm p) (a : α) : Calm (p >>= fun _ => pure a) :=
  Keeps.bind calm (fun _ => .ret busy_stable a)

theorem Calm.next {α β : Type} {p : Io α} {f : α → Io β} (calm : Calm p) (rest : ∀ a, Calm (f a)) : Calm (p >>= f) :=
  Keeps.bind calm rest

theorem calm_write (str : List Char) : Calm (write str) :=
  keeps_write busy_stable (fun _ => Busy.guarded) (fun _ _ _ busy => busy) str

theorem rested_write (str : List Char) : Keeps pistons Rested (write str) :=
  keeps_write rested_stable (fun _ => Rested.guarded) (fun _ _ _ rested => rested) str

/-- A command comes into the plan. -/
theorem addCmd_steps {busy busy' : List ℕ} {shut shut' : List (ℕ × ℕ)} {cmd : PairCommand} {pair count : ℕ}
    (known : pair < 12) (positive : 0 < count)
    (step : ∀ F, Steps busy shut F → Steps busy' shut' (Plan.add F cmd pair count)) :
    Leads pistons (Busy busy shut) (Busy busy' shut') (addCmd cmd pair count) := by
  intro s start t rely space allowed
  obtain ⟨long, steps⟩ := busy_stable.rely rely start
  obtain ⟨answered, ⟨sound, found⟩, -⟩ := allowed
  obtain rfl : space = true := found
  have plan : future (t.board.addCmd cmd pair count).1 = Plan.add (future t.board) cmd pair count := by
    funext p k
    exact future_addCmd sound known positive answered.symm p k
  have after : Busy busy' shut' (t.next (.call (.addCmd cmd pair count) true)) := by
    refine ⟨long, ?_⟩
    show Steps busy' shut' (future (t.board.addCmd cmd pair count).1)
    rw [plan]
    exact step _ steps
  exact ⟨after.guarded, fun u later => busy_stable.rely later after⟩

/-- The two sides are at rest again at the end. -/
theorem busy_movePiston {first second : ℕ} (partners : Partners first second) :
    Leads pistons (Busy [] []) (Busy [] []) (movePiston first second) := by
  have known := partners.eq_other.2
  have known' := partners.symm.eq_other.2
  have void : Leads pistons (Busy [] []) (Busy [first] [(first, 1)]) (addCmd .void first 1) :=
    addCmd_steps known (by decide) (fun _ rest => Rest.void rest first)
  have fill : Leads pistons (Busy [first] [(first, 1)]) (Busy [first, second] [(first, 1)]) (addCmd .fill second 2) :=
    addCmd_steps known' (by decide) (fun _ steps => steps.fill partners)
  have off : Leads pistons (Busy [first, second] [(first, 1)]) (Busy [first] [(second, 500)]) (addCmd .off second 500) :=
    addCmd_steps known' (by decide) (fun _ steps => steps.off partners)
  have fillBack : Leads pistons (Busy [first] [(second, 500)]) (Busy [first] []) (addCmd .fill first 501) :=
    addCmd_steps known (by decide) (fun _ steps => steps.fillBack partners)
  have offBack : Leads pistons (Busy [first] []) (Busy [] []) (addCmd .off first 551) :=
    addCmd_steps known (by decide) (fun _ steps => steps.offBack)
  exact void.bind (fun _ => fill.bind (fun _ => off.bind (fun _ => fillBack.bind (fun _ => offBack))))

theorem calm_extendPiston (piston : ℕ) : Calm (extendPiston piston) := by
  rw [extendPiston]
  split
  case h_1 => exact .ret busy_stable ()
  case h_2 ext ret found => exact busy_movePiston ⟨piston, .inr found⟩

theorem calm_retractPiston (piston : ℕ) : Calm (retractPiston piston) := by
  rw [retractPiston]
  split
  case h_1 => exact .ret busy_stable ()
  case h_2 ext ret found => exact busy_movePiston ⟨piston, .inl found⟩

/-! ### Frames -/

theorem calm_ite {α : Type} {c : Prop} [Decidable c] {p q : Io α} (yes : c → Calm p) (no : ¬ c → Calm q) :
    Calm (if c then p else q) := by
  split
  · next holds => exact yes holds
  · next fails => exact no fails

theorem calm_busCommand {cmd : Byte} (piston : cmd ∉ pairCmds) (m : Markers) : Calm (busCommand cmd m) := by
  have skip {p : Io Markers} (c : Byte) (member : c ∈ pairCmds) (same : cmd = c) : Calm p :=
    absurd (same ▸ member) piston
  refine calm_ite (fun _ => (calm_retractPiston _).result m) (fun _ => ?_)
  refine calm_ite (fun _ => (calm_retractPiston _).result m) (fun _ => ?_)
  refine calm_ite (skip busCmdVoidTorp1 (by decide)) (fun _ => ?_)
  refine calm_ite (skip busCmdVoidTorp2 (by decide)) (fun _ => ?_)
  refine calm_ite (fun _ => (calm_extendPiston _).result m) (fun _ => ?_)
  refine calm_ite (fun _ => (calm_extendPiston _).result m) (fun _ => ?_)
  refine calm_ite (fun _ => (calm_extendPiston _).next (fun _ => (calm_extendPiston _).result m)) (fun _ => ?_)
  refine calm_ite (fun _ => (calm_retractPiston _).next (fun _ => (calm_retractPiston _).result m)) (fun _ => ?_)
  refine calm_ite (skip busCmdVoidGrabber (by decide)) (fun _ => ?_)
  have marker (out : Bool) (piston : ℕ) (m : Markers) : Calm (if out = true
      then (do retractPiston piston; return m) else (do extendPiston piston; return m) : Io Markers) :=
    calm_ite (fun _ => (calm_retractPiston _).result m) (fun _ => (calm_extendPiston _).result m)
  refine calm_ite (fun _ => marker m.marker1Ext marker1Pist _) (fun _ => ?_)
  refine calm_ite (fun _ => marker m.marker2Ext marker2Pist _) (fun _ => ?_)
  refine calm_ite (skip busCmdVoidPneu (by decide)) (fun _ => ?_)
  refine calm_ite (skip busCmdOffPneu (by decide)) (fun _ => ?_)
  exact (calm_write _).result m

theorem calm_checked {max n : Byte} {op : ℕ → Io Unit} (calm : ∀ i, Calm (op i)) : Calm (checked max n op) :=
  calm_ite (fun _ => calm_write _) (fun _ => calm _)

theorem calm_execute {b0 b1 b2 : Byte} (piston : ¬ OnPairs b0 b1 b2) (m : Markers) : Calm (execute b0 b1 b2 m) := by
  refine calm_ite (fun all => absurd (.inl all) piston) (fun _ => ?_)
  refine calm_ite (fun void => absurd (.inr (.inl void)) piston) (fun _ => ?_)
  refine calm_ite (fun fill => absurd (.inr (.inr (.inl fill))) piston) (fun _ => ?_)
  refine calm_ite (fun _ => (calm_checked calm_extendPiston).result m) (fun _ => ?_)
  refine calm_ite (fun _ => (calm_checked calm_retractPiston).result m) (fun _ => ?_)
  refine calm_ite (fun off => absurd (.inr (.inr (.inr (.inl off)))) piston) (fun _ => ?_)
  refine calm_ite (fun off => absurd (.inr (.inr (.inr (.inr (.inl off))))) piston) (fun _ => ?_)
  refine calm_ite (fun bus => ?_) (fun _ => (calm_write _).result m)
  refine calm_busCommand (fun member => piston ?_) m
  exact .inr (.inr (.inr (.inr (.inr ⟨bus.1, bus.2, member⟩))))

/-- The board has heard `l` of a frame. -/
def Heard (l : List Byte) (s : Seen) : Prop := Rested s ∧ s.heard = l

theorem heard_stable (l : List Byte) : Stable pistons (Heard l) := by
  rintro s ⟨⟩ ⟨rested, same⟩ allowed
  exact ⟨rested_stable s .t1 rested allowed, same⟩

theorem Rested.hears {s : Seen} (rested : Rested s) (b : Byte) : Rested (s.next (.call .uartRX b)) := by
  refine ⟨rested.1, fun short => rested.2 ?_⟩
  have longer : s.heard.length + 1 < 4 := by simpa [Seen.next] using short
  omega

/-- One more byte of a frame. -/
theorem wp_receive {l : List Byte} {s : Seen} (heard : Heard l s) : wp pistons receive
    (fun b t => Heard (l ++ [b]) t ∧ ∃ u : Seen, u.heard = l ∧ PistonOnly u (.call .uartRX b)) s := by
  intro t rely _ _
  have waiting := (heard_stable l).rely rely heard
  refine ⟨waiting.1.guarded, fun u rely' b allowed => ?_⟩
  obtain ⟨rested, same⟩ := (heard_stable l).rely rely' waiting
  have after : Heard (l ++ [b]) (u.next (.call .uartRX b)) := by
    refine ⟨rested.hears b, ?_⟩
    show u.heard ++ [b] = l ++ [b]
    rw [same]
  exact ⟨after.1.guarded, fun v later => ⟨(heard_stable _).rely later after, u, same, allowed.2.2⟩⟩

theorem wp_frame (m : Markers) {s : Seen} (heard : Heard [] s) : wp pistons (frame m) (fun _ => Busy [] []) s := by
  refine wp_bind (wp_mono ?_ (wp_receive heard))
  rintro b0 s ⟨heard, -⟩
  refine wp_bind (wp_mono ?_ (wp_receive heard))
  rintro b1 s ⟨heard, -⟩
  refine wp_bind (wp_mono ?_ (wp_receive heard))
  rintro b2 s ⟨heard, -⟩
  refine wp_bind (wp_mono ?_ (wp_receive heard))
  rintro b3 s ⟨⟨rested, whole⟩, u, before, piston⟩
  have busy : Busy [] [] s := by
    refine ⟨?_, rested.1⟩
    rw [whole]
    exact Nat.le_refl 4
  have sums : b3 = b0 + b1 + b2 → ¬ OnPairs b0 b1 b2 := by
    have checked : Sums b3 u.heard := piston
    rw [before] at checked
    exact checked
  have rest : Calm (if b3 ≠ b0 + b1 + b2 then (do write ['N', 'C', 'H', 'K']; return m)
      else (do write ['K']; execute b0 b1 b2 m) : Io Markers) :=
    calm_ite (fun _ => (calm_write _).result m) (fun same =>
      Keeps.bind (calm_write _) (fun _ => calm_execute (sums (not_not.mp same)) m))
  exact rest s busy

/-! ### Every run -/

theorem rested_hears {o : Op} {α : Type} {k : Ans o → Io α} (same : ∀ (s : Seen) a, Rested s → Rested (s.next (.call o a)))
    (rest : ∀ a, Keeps pistons Rested (k a)) : Keeps pistons Rested (.ask o k) :=
  keeps_ask rested_stable (fun _ => Rested.guarded) same rest

theorem rested_receive : Keeps pistons Rested receive :=
  rested_hears (fun _ _ rested => rested) (fun _ => rested_hears (fun _ b rested => rested.hears b) (.ret rested_stable))

theorem rested_ite {α : Type} {c : Prop} [Decidable c] {p q : Io α} (yes : Keeps pistons Rested p)
    (no : Keeps pistons Rested q) : Keeps pistons Rested (if c then p else q) := by
  split
  · exact yes
  · exact no

theorem rested_sync : Keeps pistons Rested sync := by
  have stop : Keeps pistons Rested (pure false : Io Bool) := .ret rested_stable false
  refine rested_hears (fun _ _ rested => rested) (fun _ => (rested_write _).bind (fun _ => ?_))
  refine rested_hears (fun _ b rested => rested.hears b) (fun _ => rested_ite stop ?_)
  refine (rested_write _).bind (fun _ => rested_receive.bind (fun _ => rested_ite stop ?_))
  refine (rested_write _).bind (fun _ => rested_receive.bind (fun _ => rested_ite stop ?_))
  refine (rested_write _).bind (fun _ => rested_receive.bind (fun _ => rested_ite stop ?_))
  exact (rested_write _).bind (fun _ => .ret rested_stable true)

/-- A new iteration begins, with no byte heard and no tick gone by. -/
theorem Rested.iter {s : Seen} (rested : Rested s) (l : Loop) : Heard [] (s.next (.iter l)) :=
  ⟨⟨rested.1, fun _ pair => rested.1.settled pair List.not_mem_nil⟩, rfl⟩

theorem rested_main : Keeps pistons Rested main := by
  refine (rested_write _).bind (fun _ => ?_)
  refine Keeps.loop rested_stable (fun s rested _ => ?_) (fun _ => ?_) (fun _ => ?_)
  · have begins := rested.iter .sync
    exact ⟨begins.1.guarded, begins.1⟩
  · exact rested_sync.bind (fun _ => rested_ite (.ret rested_stable _) (.ret rested_stable _))
  · refine (rested_write _).bind (fun _ => .loopFrom (B := Heard []) rested_stable (fun s rested _ => ?_) ?_ (fun none => none.elim))
    · have begins := rested.iter .frame
      exact ⟨begins.1.guarded, begins⟩
    · intro m s begins
      refine wp_bind (wp_mono (fun _ t busy u rely => ?_) (wp_frame m begins))
      exact (busy_stable.rely rely busy).rested

/-- At power-on, with no byte heard. -/
def powerOn : Seen := ⟨start, [], 0⟩

/-- The two sides of a piston are never both filling, not even in the course of an interrupt.
    Between frames a pair with a valve on has a command to turn it off, and all valves are off
    when the longest delay has gone by since the last frame. -/
structure PistonSafe (s : Seen) : Prop where
  apart : ∀ piston ext ret, pistonPairs piston = some (ext, ret) → ∀ i k, i < validBits → k ≤ 16 →
    ¬ ((midway s.board i k).fillPair ext = true ∧ (midway s.board i k).fillPair ret = true)
  closing : s.heard.length < 4 → ∀ pair, s.board.fillPair pair = true ∨ s.board.voidPair pair = true →
    ∃ j ∈ pendingOf s.board pair, (s.board.cmds j).cmd = .off
  rest : s.heard.length < 4 → longest ≤ s.waited → ∀ pair, s.board.fillPair pair = false ∧ s.board.voidPair pair = false

theorem shown_of_fill {b : Board} {pair : ℕ} (fills : b.fillPair pair = true) : shown b pair = .fill := if_pos fills

theorem shown_off {b : Board} {pair : ℕ} : shown b pair = .off ↔ b.fillPair pair = false ∧ b.voidPair pair = false := by
  rw [shown]
  cases b.fillPair pair <;> cases b.voidPair pair <;> simp

theorem Interlocked.apart {b : Board} (locked : Interlocked (future b)) (sound : Sound b) {x y : ℕ}
    (partners : Partners x y) {i k : ℕ} (word : i < validBits) (inside : k ≤ 16) :
    ¬ ((midway b i k).fillPair x = true ∧ (midway b i k).fillPair y = true) := by
  rintro ⟨first, second⟩
  have knownX := partners.eq_other.2
  have knownY := partners.symm.eq_other.2
  have both := locked x y partners
  rcases shown_between sound knownX word inside with nowX | nextX
  · have fillsX : future b x 0 = .fill := nowX.symm.trans (shown_of_fill first)
    rcases shown_between sound knownY word inside with nowY | nextY
    · exact (both 0 fillsX).1 (nowY.symm.trans (shown_of_fill second))
    · exact (both 0 fillsX).2 (nextY.symm.trans (shown_of_fill second))
  · have fillsX : future b x 1 = .fill := nextX.symm.trans (shown_of_fill first)
    rcases shown_between sound knownY word inside with nowY | nextY
    · exact (locked y x partners.symm 0 (nowY.symm.trans (shown_of_fill second))).2 fillsX
    · exact (both 1 fillsX).1 (nextY.symm.trans (shown_of_fill second))

theorem Guarded.pistonSafe {s : Seen} (guarded : Guarded s) (sound : Sound s.board) : PistonSafe s where
  apart piston ext ret found _ _ word inside := Interlocked.apart guarded.1 sound ⟨piston, .inl found⟩ word inside
  closing between pair valve := by
    have later : future s.board pair longest = .off := guarded.2 between pair longest (by omega)
    have now : shown s.board pair ≠ .off := by
      intro off
      have := shown_off.mp off
      simp [this] at valve
    by_cases known : pair < 12
    · obtain ⟨n, j, found⟩ := due_of_future sound known later now
      refine ⟨j, mem_pending.mpr ⟨_, found, rfl⟩, ?_⟩
      exact congrArg Entry.item (slots_some found)
    · rw [future_unknown known] at later
      exact absurd later now
  rest between long pair := shown_off.mp (guarded.2 between pair 0 (by omega))

theorem start_exclusive : Exclusive start := by
  rintro pair ⟨fills, -⟩
  simp [start] at fills

theorem rested_powerOn : Rested powerOn := by
  have still : start.t1Interrupt = start := rfl
  have idle (pair k : ℕ) : future powerOn.board pair k = .off := by
    rw [future, powerOn, Function.iterate_fixed still, shown_off]
    exact ⟨rfl, rfl⟩
  have settled (t pair : ℕ) : Settled (future powerOn.board) t pair := fun k _ => idle pair k
  refine ⟨⟨fun x y _ k => ?_, fun pair _ => settled _ pair, fun x member => absurd member List.not_mem_nil⟩, fun _ => settled _⟩
  rw [idle, idle, idle]
  decide

end Tortuga.InterlockRuns
