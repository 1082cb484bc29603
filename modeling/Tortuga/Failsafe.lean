import Tortuga.CommandRules

/-!
The motor failsafe. A flag set by the timer interrupt at any time is served by the loops
that wait: the kill command and the six thruster-off commands go out before the loop
that began an iteration with the flag set begins the next one.
-/
namespace Tortuga.Failsafe
open Tortuga.Programs Tortuga.BusCodes Tortuga.Master Tortuga.Commands Tortuga.CommandRules
set_option linter.unusedSimpArgs false

/-- The writes of `checkFailsafe`, with their boards. -/
def allOff : List (Byte × Byte) := (busCmdKillMotors, slaveIdMotor) :: thrustersOff.map (·, slaveIdThrusters)

structure Guard where
  /-- `failsafeTripped == 1`. -/
  tripped : Bool
  /-- The loop has begun an iteration with the flag set, and `allOff` has not gone out
      since, nor has the failsafe been armed anew. -/
  due : Loop → Bool
  /-- After the flag is cleared: the writes that are still to go out. -/
  sending : Option (List (Byte × Byte))

def atStart (tripped : Bool) : Guard where
  tripped := tripped
  due _ := false
  sending := none

def Guard.next (s : Guard) : MasterEvent → Guard
  | .ext .t1 => { s with tripped := true }
  | .call .clearFailsafe _ => { s with tripped := false, sending := some allOff }
  | .call .startTimer _ => { s with due := fun _ => false, sending := none }
  | .call (.busWrite _ _) _ =>
    match s.sending with
    | some (_ :: []) => { s with due := fun _ => false, sending := none }
    | some (_ :: rest) => { s with sending := some rest }
    | _ => s
  | .iter l => { s with due := Function.update s.due l (s.due l || s.tripped) }
  | .call _ _ => s

/-- No loop begins an iteration while the flag that it found set before is not served. -/
def EveryLoop (s : Guard) : MasterEvent → Prop
  | .iter l => s.due l = false
  | _ => True

/-- The loops of `main` and of `waitchar` begin no iteration while the flag that they found
    set before is not served. Once the flag is cleared nothing comes before all of `allOff`
    has gone out, except that the timer is started at once. -/
def Served (s : Guard) : MasterEvent → Prop
  | .iter .usbLost => s.sending = none
  | .iter l => s.sending = none ∧ s.due l = false
  | .call (.busWrite data req) _ => ∀ p rest, s.sending = some (p :: rest) → (data, req) = p
  | .call .startTimer _ => s.sending = some allOff
  | .call _ _ => s.sending = none
  | .ext _ => True

def guard (allows demands : Guard → MasterEvent → Prop) : Monitor Op Ans Loop Interrupt Guard where
  next := Guard.next
  allows := allows
  demands := demands
  faults _ := True

/-- The flag is read as it is. -/
abbrev served : Monitor Op Ans Loop Interrupt Guard := guard (fun s => ReadsFlag s.tripped) Served

/-- Nothing is being sent, and what is due shows in the flag. -/
structure Idle (s : Guard) : Prop where
  sending : s.sending = none
  command : s.due .command = true → s.tripped = true
  waitchar : s.due .waitchar = true → s.tripped = true

/-- Inside an iteration of `main`, after its first look at the flag. -/
structure Looked (s : Guard) : Prop where
  sending : s.sending = none
  command : s.due .command = false
  waitchar : s.due .waitchar = true → s.tripped = true

/-- Nothing is due in a loop that looks at the flag. -/
structure Clear (s : Guard) : Prop where
  sending : s.sending = none
  command : s.due .command = false
  waitchar : s.due .waitchar = false

theorem Looked.idle {s : Guard} (looked : Looked s) : Idle s :=
  ⟨looked.sending, fun due => absurd due (by simp [looked.command]), looked.waitchar⟩

theorem Clear.looked {s : Guard} (clear : Clear s) : Looked s :=
  ⟨clear.sending, clear.command, fun due => absurd due (by simp [clear.waitchar])⟩

theorem stable_of {I : Guard → Prop} (trips : ∀ s, I s → I { s with tripped := true }) : Stable served I := by
  rintro s ⟨⟩ inv -
  exact trips s inv

theorem idle_stable : Stable served Idle := stable_of (fun _ inv => ⟨inv.sending, fun _ => rfl, fun _ => rfl⟩)
theorem looked_stable : Stable served Looked := stable_of (fun _ inv => ⟨inv.sending, inv.command, fun _ => rfl⟩)
theorem clear_stable : Stable served Clear := stable_of (fun _ inv => ⟨inv.sending, inv.command, inv.waitchar⟩)
theorem sending_stable (rest : Option (List (Byte × Byte))) : Stable served (fun s => s.sending = rest) :=
  stable_of (fun _ inv => inv)

/-! ### Serving the flag -/

/-- The next write of `allOff`, with others after it. -/
theorem sends_next {data req : Byte} {p : Byte × Byte} {rest : List (Byte × Byte)} {s : Guard}
    (sending : s.sending = some ((data, req) :: p :: rest)) :
    wp served (busWriteByte data req) (fun _ t => t.sending = some (p :: rest)) s := by
  intro t rely a _
  have here := (sending_stable _).rely rely sending
  refine ⟨fun q later same => ?_, fun u rely => (sending_stable _).rely rely ?_⟩
  · rw [here] at same
    cases same
    rfl
  · simp [guard, Guard.next, here]

/-- The last write of `allOff`. -/
theorem sends_last {data req : Byte} {s : Guard} (sending : s.sending = some [(data, req)]) :
    wp served (busWriteByte data req) (fun _ => Clear) s := by
  intro t rely a _
  have here := (sending_stable _).rely rely sending
  refine ⟨fun q later same => ?_, fun u rely => clear_stable.rely rely ?_⟩
  · rw [here] at same
    cases same
    rfl
  · simp only [guard, Guard.next, here]
    exact ⟨rfl, rfl, rfl⟩

theorem writeAll_sends (req data : Byte) (bytes : List Byte) {s : Guard}
    (sending : s.sending = some ((data :: bytes).map (·, req))) :
    wp served (writeAll req (data :: bytes)) (fun _ => Clear) s := by
  induction bytes generalizing data s with
  | nil => exact wp_bind (wp_mono (fun _ t clear u rely => clear_stable.rely rely clear) (sends_last sending))
  | cons b rest ih => exact wp_bind (wp_mono (fun _ t sending => ih b sending) (sends_next sending))

/-- Whatever was due is served. -/
theorem checkFailsafe_clears {s : Guard} (idle : Idle s) : wp served checkFailsafe (fun _ => Clear) s := by
  intro t rely found reads
  have idle := idle_stable.rely rely idle
  refine ⟨idle.sending, ?_⟩
  cases found with
  | false =>
    have quiet : t.tripped = false := reads.symm
    have none : Clear t :=
      ⟨idle.sending, by simpa [quiet] using idle.command, by simpa [quiet] using idle.waitchar⟩
    exact fun u rely => clear_stable.rely rely none
  | true =>
    intro u rely _ _
    have here := (sending_stable _).rely rely idle.sending
    refine ⟨here, wp_bind (wp_mono (fun _ v sending => ?_) (sends_next (p := (busCmdThruster1Off, slaveIdThrusters)) rfl))⟩
    exact writeAll_sends slaveIdThrusters busCmdThruster1Off thrustersOff.tail sending

theorem waits_looked : Waits served Idle Clear Looked (fun _ => Looked) where
  clear := clear_stable
  looked := looked_stable
  post _ := looked_stable
  check _ idle := checkFailsafe_clears idle
  again _ looked := looked.idle
  iter s clear _ := by
    refine ⟨⟨clear.sending, clear.waitchar⟩, clear.sending, clear.command, fun due => ?_⟩
    simpa [guard, Guard.next, clear.waitchar] using due
  byte _ _ looked _ := ⟨looked.sending, looked⟩
  empty _ looked _ := ⟨looked.sending, looked⟩
  present _ looked _ := ⟨looked.sending, looked⟩
  lost _ looked _ := ⟨looked.sending, looked⟩

theorem waitchar_looks {s : Guard} (idle : Idle s) : wp served waitchar (fun _ => Looked) s :=
  waits_looked.waitchar s idle

theorem looked_call {o : Op} {α : Type} {k : Ans o → Io α}
    (quiet : ∀ s a, Looked s → Served s (.call o a) ∧ Looked (s.next (.call o a)))
    (rest : ∀ a, Keeps served Looked (k a)) : Keeps served Looked (.ask o k) :=
  .ask looked_stable (fun s a looked _ => quiet s a looked) rest

theorem looked_writes (data req : Byte) : Keeps served Looked (busWriteByte data req) := by
  refine looked_call (fun s a looked => ⟨fun p rest same => ?_, ?_⟩) (fun _ => .ret looked_stable _)
  · rw [looked.sending] at same
    contradiction
  · simpa [Guard.next, looked.sending] using looked

theorem looked_serves : Serves served Looked where
  stable := looked_stable
  waits := fun _ looked => waitchar_looks looked.idle
  writes := fun data req _ => looked_writes data req
  reads := fun _ => looked_call (fun _ _ looked => ⟨looked.sending, looked⟩) (fun _ => .ret looked_stable _)
  sends := fun _ => looked_call (fun _ _ looked => ⟨looked.sending, looked⟩) (fun _ => .ret looked_stable _)
  asks := looked_call (fun _ _ looked => ⟨looked.sending, looked⟩) (fun _ => .ret looked_stable _)
  lost := by
    refine .loop looked_stable (fun s looked _ => ⟨looked.sending, looked.sending, looked.command, looked.waitchar⟩)
      (fun _ => ?_) (fun _ => .ret looked_stable _)
    refine looked_call (fun _ _ looked => ⟨looked.sending, looked⟩) (fun present => ?_)
    cases present <;> exact .ret looked_stable _
  faults _ := trivial

/-- A speed frame arms the failsafe anew. -/
theorem looked_arms : Keeps served Looked setMotorFailsafe := by
  intro s looked t rely _ _
  refine ⟨(looked_stable.rely rely looked).sending, fun u rely _ _ => ?_⟩
  have sending := (sending_stable (some allOff)).rely rely rfl
  exact ⟨sending, fun v rely => looked_stable.rely rely ⟨rfl, rfl, fun due => absurd due (by simp [guard, Guard.next])⟩⟩

/-- In every run of the master that reads the flag as it is, the waiting loops serve it. -/
theorem failsafe_served (m : Mem) (tripped : Bool) (tr : List MasterEvent) (q : Io Empty)
    (run : Run (commandLoop m) tr q) (reads : served.Along (fun s => ReadsFlag s.tripped) (atStart tripped) tr) :
    served.Along Served (atStart tripped) tr := by
  have keeps : Keeps served Looked (commandLoop m) := by
    refine .loopFrom (B := Idle) looked_stable (fun s looked _ => ?_) (fun m s idle => ?_) (fun b => b.elim)
    · refine ⟨⟨looked.sending, looked.command⟩, looked.sending, fun due => ?_, looked.waitchar⟩
      simpa [guard, Guard.next, looked.command] using due
    · refine wp_bind (wp_mono (fun r t looked u rely => looked_stable.rely rely looked) ?_)
      exact command_after looked_serves (fun s idle => waitchar_looks idle)
        (any_dispatch looked_serves.speaks (fun _ _ => looked_writes) looked_writes looked_arms) m s idle
  have shown := keeps.run ⟨rfl, rfl, fun due => absurd due Bool.false_ne_true⟩ run reads
  refine served.along_mono (fun s e own => ?_) shown
  cases e with
  | ext e => trivial
  | call o a => exact own trivial
  | iter l => exact own trivial

/-- The timer trips in the first iteration of `waitchar`. -/
def tripOnce : List MasterEvent :=
  [.iter .command, .call .readFailsafe false, .iter .waitchar, .ext .t1, .call .rxByte none,
    .call .usbPresent true, .call .readFailsafe true, .call .clearFailsafe ()] ++
    writes slaveIdMotor .noAck [busCmdKillMotors] ++ writes slaveIdThrusters .delivered thrustersOff ++
    [.iter .waitchar]

theorem failsafe_served_once : served.Along Served (atStart false) tripOnce := by
  obtain ⟨q, run⟩ := run_of_follow (commandLoop memory) tripOnce (by decide +kernel)
  exact failsafe_served memory false tripOnce q run (by decide +kernel)

/-- `showString`, with every write delivered. -/
def shown (str : List Char) (line : ℕ) : List MasterEvent :=
  writes slaveIdLcd .delivered
    (str.zipIdx.flatMap (fun p => [busCmdLcdWrite, BitVec.ofNat 8 (line * 16 + p.2), BitVec.ofNat 8 p.1.toNat]) ++
      [busCmdLcdRefresh])

/-- The host goes away, and the timer trips while the master waits for it. -/
def hostGone : List MasterEvent :=
  [.iter .command, .call .readFailsafe false, .iter .waitchar, .call .rxByte none, .call .usbPresent false,
    .call .usbPresent false] ++ shown lostMini 0 ++ shown lostFace 1 ++
    [.iter .usbLost, .ext .t1, .call .usbPresent false, .iter .usbLost, .call .usbPresent false]

/-- A write on the bus. -/
def isWrite : MasterEvent → Bool
  | .call (.busWrite _ _) _ => true
  | _ => false

/-- The loop for a lost USB goes on with the flag set, and no command has gone out; and
    the flag is cleared before any of the commands is sent. -/
theorem usbLost_unserved :
    (∃ tr q, Run (commandLoop memory) tr q ∧ served.Along (fun s => ReadsFlag s.tripped) (atStart false) tr ∧
      ¬ served.Along EveryLoop (atStart false) tr) ∧
    ∃ tr q, Run (commandLoop memory) (tr ++ [.call .clearFailsafe ()]) q ∧
      served.Along (fun s => ReadsFlag s.tripped) (atStart false) tr ∧
      (served.after (atStart false) tr).tripped = true ∧ tr.all (fun e => !isWrite e) = true := by
  constructor
  · obtain ⟨q, run⟩ := run_of_follow (commandLoop memory) (hostGone ++ [.iter .usbLost]) (by decide +kernel)
    refine ⟨_, q, run, by decide +kernel, fun along => ?_⟩
    have free : (served.after (atStart false) hostGone).due .usbLost = false := served.along_at along
    exact absurd free (by decide +kernel)
  · obtain ⟨q, run⟩ := run_of_follow (commandLoop memory) (tripOnce.take 7 ++ [.call .clearFailsafe ()])
      (by decide +kernel)
    exact ⟨tripOnce.take 7, q, run, by decide +kernel, by decide +kernel, by decide +kernel⟩

end Tortuga.Failsafe
