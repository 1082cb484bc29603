import Tortuga.PneumaticsQueue

/-!
Runs of the pneumatics board: frames of any kind, with the timer between any two steps.
-/
namespace Tortuga.PneumaticsRuns
open Tortuga.Programs Tortuga.BusCodes Tortuga.DelayQueue Tortuga.Pneumatics Tortuga.PneumaticsQueue
set_option linter.unusedSimpArgs false

/-! ### Parts of the program -/

/-- Keeps the list sound. -/
abbrev Safe {α : Type} (p : Io α) : Prop := Leads queue (Held []) (Held []) p

variable {α β : Type}

theorem safe_ret (a : α) : Safe (.ret a) := fun _ held _ rely => (held_stable []).rely rely held

theorem Safe.bind {p : Io α} {f : α → Io β} (first : Safe p) (rest : ∀ a, Safe (f a)) : Safe (p >>= f) :=
  Leads.bind first rest

/-- A step that is no `addCmd` only gives up commands. -/
theorem safe_ask {o : Op} {k : Ans o → Io α} (space : ∀ a, HasSpace (.call o a))
    (fewer : ∀ b a j e, slots (b.next (.call o a)) j = some e → slots b j = some e) (rest : ∀ a, Safe (k a)) :
    Safe (.ask o k) := by
  intro s start t rely a _
  have sound := ((held_stable []).rely rely start).sound.fewer (fewer t a)
  exact ⟨⟨space a, sound⟩, rest a _ ⟨sound, nofun⟩⟩

theorem safe_receive : Safe receive :=
  safe_ask (fun _ => trivial) (fun _ _ _ _ same => same) fun _ =>
    safe_ask (fun _ => trivial) (fun _ _ _ _ same => same) safe_ret

theorem safe_write (str : List Char) : Safe (write str) := by
  induction str with
  | nil => exact safe_ret ()
  | cons c rest ih => exact safe_ask (fun _ => trivial) (fun _ _ _ _ same => same) fun _ => ih

theorem safe_each {op : ℕ → Io Unit} (one : ∀ i, Safe (op i)) (i count : ℕ) : Safe (each op i count) := by
  induction count generalizing i with
  | zero => exact safe_ret ()
  | succ count ih => exact (one i).bind fun _ => ih (i + 1)

theorem safe_clearAll : Safe clearAll :=
  safe_each (fun i => safe_ask (o := .clearValid i) (fun _ => trivial) (fun b _ => clearValid_fewer b i) safe_ret) 0 validBits

/-- Valves that change by hand leave the list alone. -/
theorem safe_valves {o : ℕ → Op} {c : PairCommand} (space : ∀ pair a, HasSpace (.call (o pair) a))
    (valves : ∀ (b : Board) pair a, b.next (.call (o pair) a) = b.handleCmd c pair) (answer : ∀ pair, Ans (o pair) → Unit)
    (i count : ℕ) : Safe (each (fun pair => .ask (o pair) fun a => .ret (answer pair a)) i count) := by
  refine safe_each (fun pair => safe_ask (space pair) (fun b a j e found => ?_) fun a => safe_ret _) i count
  obtain ⟨cmds, valid⟩ := handleCmd_list b pair c
  rw [valves] at found
  simpa only [slots, slot, cmds, valid] using found

theorem safe_voidAll : Safe voidAll :=
  safe_clearAll.bind fun _ => safe_valves (o := .voidPair) (c := .void) (fun _ _ => trivial) (fun _ _ _ => rfl) (fun _ a => a) 0 12

theorem safe_offAll : Safe offAll :=
  safe_clearAll.bind fun _ => safe_valves (o := .turnOff) (c := .off) (fun _ _ => trivial) (fun _ _ _ => rfl) (fun _ a => a) 0 12

/-! ### Commands -/

/-- A command that is due at once makes all others of its pair go. -/
theorem safe_addCmd {cmd : PairCommand} {pair : ℕ} (known : pair < 12) : Safe (addCmd cmd pair 1) :=
  addCmd_leads known (by decide) (few_first [] pair 0) (by decide) (by simp)

/-- At every step the pair that is voided first has at most as many commands as steps. -/
theorem safe_movePiston {first second : ℕ} (known : first < 12) (known' : second < 12) (other : first ≠ second) :
    Safe (movePiston first second) := by
  have void : Leads queue (Held []) (Held [⟨first, 1, 1⟩]) (addCmd .void first 1) :=
    addCmd_leads known (by decide) (few_first [] first 0) (by decide) (by simp)
  have fill : Leads queue (Held [⟨first, 1, 1⟩]) (Held [⟨second, 2, 2⟩, ⟨first, 1, 1⟩]) (addCmd .fill second 2) :=
    addCmd_leads known' (by decide) (few_first _ second 1) (by decide) (by simp [other])
  have off : Leads queue (Held [⟨second, 2, 2⟩, ⟨first, 1, 1⟩]) (Held [⟨first, 1, 1⟩]) (addCmd .off second 500) :=
    addCmd_leads (n := 2) known' (by decide) (fun b held => (held.upto ⟨second, 2, 2⟩ (by simp)).earlier_le) (by decide) (by simp [other])
  have fillBack : Leads queue (Held [⟨first, 1, 1⟩]) (Held [⟨first, 501, 2⟩]) (addCmd .fill first 501) :=
    addCmd_leads (n := 1) known (by decide) (fun b held => (held.upto ⟨first, 1, 1⟩ (by simp)).earlier_le) (by decide) (by simp)
  have offBack : Leads queue (Held [⟨first, 501, 2⟩]) (Held []) (addCmd .off first 551) :=
    addCmd_leads (n := 2) known (by decide) (fun b held => (held.upto ⟨first, 501, 2⟩ (by simp)).earlier_le) (by decide) (by simp)
  exact void.bind fun _ => fill.bind fun _ => off.bind fun _ => fillBack.bind fun _ => offBack

theorem pistonPairs_known {piston ext ret : ℕ} (found : pistonPairs piston = some (ext, ret)) :
    ext < 12 ∧ ret < 12 ∧ ext ≠ ret := by
  unfold pistonPairs at found
  split at found
  case h_7 => contradiction
  all_goals
    obtain ⟨rfl, rfl⟩ := Prod.mk.inj (Option.some_inj.mp found)
    decide

theorem safe_extendPiston (piston : ℕ) : Safe (extendPiston piston) := by
  rw [extendPiston]
  split
  case h_1 => exact safe_ret ()
  case h_2 ext ret found =>
    obtain ⟨known, known', other⟩ := pistonPairs_known found
    exact safe_movePiston known' known other.symm

theorem safe_retractPiston (piston : ℕ) : Safe (retractPiston piston) := by
  rw [retractPiston]
  split
  case h_1 => exact safe_ret ()
  case h_2 ext ret found =>
    obtain ⟨known, known', other⟩ := pistonPairs_known found
    exact safe_movePiston known known' other

/-- A step and its result. -/
theorem Safe.result {p : Io Unit} (first : Safe p) (a : α) : Safe (p >>= fun _ => pure a) := first.bind fun _ => safe_ret a

theorem safe_ite {c : Prop} [Decidable c] {p q : Io α} (yes : Safe p) (no : Safe q) : Safe (if c then p else q) := by
  split
  · exact yes
  · exact no

theorem safe_busCommand (cmd : Byte) (m : Markers) : Safe (busCommand cmd m) := by
  have void {pair : ℕ} (known : pair < 12) : Safe (addCmd .void pair 1) := safe_addCmd known
  refine safe_ite ((safe_retractPiston _).result m) (safe_ite ((safe_retractPiston _).result m) (safe_ite ?torp1
    (safe_ite ?torp2 (safe_ite ((safe_extendPiston _).result m) (safe_ite ((safe_extendPiston _).result m) (safe_ite ?ext
    (safe_ite ?ret (safe_ite ?grabber (safe_ite ?marker1 (safe_ite ?marker2 (safe_ite (safe_voidAll.result m)
    (safe_ite (safe_offAll.result m) ((safe_write _).result m)))))))))))))
  case torp1 => exact (void (by decide)).bind fun _ => (void (by decide)).result m
  case torp2 => exact (void (by decide)).bind fun _ => (void (by decide)).result m
  case ext => exact (safe_extendPiston _).bind fun _ => (safe_extendPiston _).result m
  case ret => exact (safe_retractPiston _).bind fun _ => (safe_retractPiston _).result m
  case grabber =>
    exact (void (by decide)).bind fun _ => (void (by decide)).bind fun _ => (void (by decide)).bind fun _ =>
      (void (by decide)).result m
  case marker1 => exact safe_ite ((safe_retractPiston _).result _) ((safe_extendPiston _).result _)
  case marker2 => exact safe_ite ((safe_retractPiston _).result _) ((safe_extendPiston _).result _)

/-- A number of a frame that is checked. -/
theorem safe_checked {max n : Byte} {op : ℕ → Io Unit} (good : ∀ i, i ≤ max.toNat → Safe (op i)) : Safe (checked max n op) := by
  rw [checked]
  split
  case isTrue => exact safe_write _
  case isFalse low => exact good _ (by simpa [BitVec.lt_def] using low)

theorem safe_execute (b0 b1 b2 : Byte) (m : Markers) : Safe (execute b0 b1 b2 m) := by
  have numbered (cmd : PairCommand) : Safe (checked 11 b2 fun pair => addCmd cmd pair 1) :=
    safe_checked fun _ low => safe_addCmd (Nat.lt_succ_of_le low)
  exact safe_ite (safe_voidAll.result m) (safe_ite ((numbered .void).result m) (safe_ite ((numbered .fill).result m)
    (safe_ite ((safe_checked fun _ _ => safe_extendPiston _).result m)
    (safe_ite ((safe_checked fun _ _ => safe_retractPiston _).result m) (safe_ite ((numbered .off).result m)
    (safe_ite (safe_offAll.result m) (safe_ite (safe_busCommand b2 m) ((safe_write _).result m))))))))

theorem safe_frame (m : Markers) : Safe (frame m) :=
  safe_receive.bind fun _ => safe_receive.bind fun _ => safe_receive.bind fun _ => safe_receive.bind fun _ =>
    safe_ite ((safe_write _).result m) ((safe_write _).bind fun _ => safe_execute _ _ _ m)

theorem safe_sync : Safe sync :=
  Safe.bind (safe_ask (fun _ => trivial) (fun _ _ _ _ same => same) safe_ret) fun _ =>
    (safe_write _).bind fun _ =>
      Safe.bind (safe_ask (fun _ => trivial) (fun _ _ _ _ same => same) safe_ret) fun _ =>
        safe_ite (safe_ret _) ((safe_write _).bind fun _ => safe_receive.bind fun _ =>
          safe_ite (safe_ret _) ((safe_write _).bind fun _ => safe_receive.bind fun _ =>
            safe_ite (safe_ret _) ((safe_write _).bind fun _ => safe_receive.bind fun _ =>
              safe_ite (safe_ret _) ((safe_write _).bind fun _ => safe_ret _))))

/-- An iteration of a loop begins. -/
theorem safe_iter (l : Loop) (b : Board) (held : Held [] b) (_ : queue.allows b (.iter l)) :
    queue.demands b (.iter l) ∧ Held [] (queue.next b (.iter l)) := ⟨⟨trivial, held.sound⟩, held⟩

theorem safe_main : Safe main := by
  refine (safe_write _).bind fun _ => Keeps.loop (held_stable []) (safe_iter .sync) (fun _ => ?sync) fun _ => ?frames
  case sync => exact safe_sync.bind fun done => safe_ite (safe_ret _) (safe_ret _)
  case frames =>
    refine (safe_write _).bind fun _ => Keeps.loop (held_stable []) (safe_iter .frame) (fun m => ?frame) fun none => none.elim
    case frame => exact (safe_frame m).bind fun _ => safe_ret _

/-! ### Every run -/

/-- The pending commands of a pair. -/
def pendingOf (b : Board) (pair : ℕ) : Finset (Fin cmdCount) := pending (slots b) pair

/-- Commands of one pair have different counts, there are at most three of them, and the
    list has space left. -/
structure Bounded (b : Board) : Prop where
  distinct : ∀ pair, ∀ i ∈ pendingOf b pair, ∀ j ∈ pendingOf b pair, (b.cmds i).count = (b.cmds j).count → i = j
  few : ∀ pair, (pendingOf b pair).card ≤ 3
  space : (taken (slots b)).card < cmdCount

theorem slots_some {b : Board} {j : Fin cmdCount} {e : Entry ℕ PairCommand} (found : slots b j = some e) :
    entryOf (b.cmds j) = e := by
  rw [slots, slot] at found
  split at found
  case isTrue => exact Option.some_inj.mp found
  case isFalse => contradiction

theorem bounded_of_sound {b : Board} (sound : Sound b) : Bounded b := by
  refine ⟨fun pair i first j second same => ?_, sound.few, Nat.lt_of_le_of_lt sound.taken_le (by decide)⟩
  obtain ⟨e, found, keyE⟩ := mem_pending.mp first
  obtain ⟨f, found', keyF⟩ := mem_pending.mp second
  refine sound.distinct i j e f found found' (keyE.trans keyF.symm) ?_
  rw [← slots_some found, ← slots_some found']
  exact same

theorem start_held : Held [] start := by
  have empty : ∀ j e, slots start j ≠ some e := by
    intro j e found
    simp [slots, slot, Pneumatics.start, Bitmaps.flag] at found
  refine ⟨⟨fun j e found => absurd found (empty j e), fun j e found => absurd found (empty j e),
    fun i _ e _ found => absurd found (empty i e), fun pair => ?_⟩, fun _ member => absurd member List.not_mem_nil⟩
  have none : pending (slots start) pair = ∅ := by
    ext j
    simp [empty]
  rw [none]
  decide

/-- Along a trace whose own events leave a sound list, every state has one. -/
theorem sound_along (tr : List BoardEvent) {b : Board} (sound : Sound b)
    (own : queue.Along (fun b e => e.Own → queue.demands b e) b tr) :
    Sound (queue.after b tr) ∧ queue.Along (fun b e => Sound b ∧ HasSpace e) b tr := by
  induction tr generalizing b with
  | nil => exact ⟨sound, trivial⟩
  | cons e tr ih =>
    obtain ⟨first, rest⟩ := own
    cases e with
    | ext e =>
      have later := ih ((held_stable []) b e ⟨sound, nofun⟩ trivial).sound rest
      exact ⟨later.1, ⟨sound, trivial⟩, later.2⟩
    | call o a =>
      obtain ⟨space, kept⟩ := first trivial
      have later := ih kept rest
      exact ⟨later.1, ⟨sound, space⟩, later.2⟩
    | iter l =>
      obtain ⟨space, kept⟩ := first trivial
      have later := ih kept rest
      exact ⟨later.1, ⟨sound, space⟩, later.2⟩

/-- In every run of the board from its initial state, whatever the frames and wherever the
    timer ticks, the list stays bounded and `addCmd` has space. -/
theorem queue_bounded (tr : List BoardEvent) (q : Io Empty) (run : Run main tr q)
    (answered : queue.Along Answered start tr) :
    Bounded (queue.after start tr) ∧ queue.Along (fun _ e => HasSpace e) start tr := by
  have own := Keeps.run safe_main start_held run answered
  obtain ⟨sound, each⟩ := sound_along tr start_held.sound own
  exact ⟨bounded_of_sound sound, queue.along_mono (fun _ _ found => found.2) each⟩

/-- The board writes `str`. -/
def echoes (str : List Char) : List BoardEvent := str.map fun c => .call (.writeUart (BitVec.ofNat 8 c.toNat)) ()

def arrives (bytes : List Byte) : List BoardEvent :=
  bytes.flatMap fun b => [.call .uartRXwait (), .call .uartRX b]

/-- The board is synchronised and extends piston 0, with a tick after its first command. -/
def extended : List BoardEvent :=
  echoes ['P', 'N', 'E', 'U'] ++ [.iter .sync, .call .uartRXwait ()] ++ echoes ['G', '\n'] ++ [.call .uartRX 0xDE#8] ++
    echoes ['D', 'E'] ++ arrives [0xAF#8] ++ echoes ['A', 'F'] ++ arrives [0xBE#8] ++ echoes ['B', 'E'] ++ arrives [0xEF#8] ++
    echoes ['E', 'F', 'K'] ++ [.iter .frame] ++ arrives [ch 'E', ch 'X', 0#8, ch 'E' + ch 'X'] ++ echoes ['K'] ++
    [.call (.addCmd .void 0 1) true, .ext .t1, .call (.addCmd .fill 2 2) true, .call (.addCmd .off 2 500) true,
      .call (.addCmd .fill 0 501) true, .call (.addCmd .off 0 551) true, .iter .frame]

instance : ∀ b e, Decidable (Answered b e)
  | b, .call (.addCmd cmd pair count) space => inferInstanceAs (Decidable (space = (b.addCmd cmd pair count).2))
  | _, .call .uartRXwait _ | _, .call .uartRX _ | _, .call (.writeUart _) _ | _, .call (.clearValid _) _
  | _, .call (.voidPair _) _ | _, .call (.turnOff _) _ | _, .iter _ | _, .ext _ => isTrue trivial

theorem queue_bounded_extended : Bounded (queue.after start extended) := by
  obtain ⟨q, run⟩ := run_of_follow main extended (by decide +kernel)
  exact (queue_bounded extended q run (by decide +kernel)).1

end Tortuga.PneumaticsRuns
