import Mathlib.Data.List.Basic
import Tortuga.FrameCommands
import Tortuga.SensorApi

/-!
The dispatcher of the master. What a frame does depends on nothing but the frame, and
every access is inside its array, but for a battery frame and two accidents.
-/
namespace Tortuga.Dispatcher
open Tortuga.Programs Tortuga.Lockstep Tortuga.BusCodes Tortuga.Master Tortuga.Commands Tortuga.CommandRules
open Tortuga.FrameRules Tortuga.FrameCommands
open Tortuga.SensorApi (store store_nil store_cons store_prefix)
set_option linter.unusedSimpArgs false

/-! ### The frames that are kept -/

variable {c : Byte} {leftover : Int} {host : List Int}

/-- Nothing came over the bus, and the host said `host`. -/
theorem said_steady (selects : ¬ Misses c leftover host) : Steady (fun h => ¬ Overruns c leftover h) (fun h => h = ⟨host, []⟩) where
  inside := by
    rintro h rfl (overruns | misses)
    · exact overruns
    · exact selects misses
  written := by
    rintro h rfl
    rfl

/-- The next byte of the host, on both sides. -/
theorem paired_waitchar (selects : ¬ Misses c leftover host) (m m' : Mem) :
    Paired (frame c leftover) (fun r r' t => r.1 = r'.1 ∧ r.2 = m ∧ r'.2 = m' ∧ -1 ≤ r.1 ∧ t = ⟨host ++ [r.1], []⟩)
      ((liftM waitchar : Main Int) m) ((liftM waitchar : Main Int) m') ⟨host, []⟩ := by
  have heard : wp (frame c leftover) waitchar (fun x t => -1 ≤ x ∧ t = ⟨host ++ [x], []⟩) ⟨host, []⟩ := by
    refine (said_steady selects).waitchar ?_ _ rfl
    rintro h x rfl low
    exact ⟨low, rfl⟩
  refine (Paired.diag heard).bind ?_
  rintro x _ t ⟨rfl, low, rfl⟩
  refine .ret (fun u rely => ?_)
  obtain rfl := rely_eq rely
  exact ⟨rfl, rfl, rfl, low, rfl⟩

theorem paired_receive {i : ℕ} (low : i < rxBufSize) (selects : ¬ Misses c leftover host) (m m' : Mem) :
    Paired (frame c leftover) (fun r r' t => ∃ x, t = ⟨host ++ [x], []⟩ ∧
        r = ((), { m with rxBuf := Function.update m.rxBuf i (toByte x) }) ∧
        r' = ((), { m' with rxBuf := Function.update m'.rxBuf i (toByte x) }))
      (receive i m) (receive i m') ⟨host, []⟩ := by
  refine (paired_waitchar selects m m').bind ?_
  rintro ⟨x, _⟩ ⟨_, _⟩ t ⟨rfl, rfl, rfl, -, rfl⟩
  show Paired _ _ (setRx i (toByte x) _) (setRx i (toByte x) _) _
  rw [setRx, if_pos low]
  refine .ret (fun u rely => ?_)
  obtain rfl := rely_eq rely
  exact ⟨x, rfl, rfl, rfl⟩

/-- The bytes of a frame end up in `rxBuf` on both sides. -/
theorem paired_receiveFrom (count first : ℕ) (room : first + count ≤ rxBufSize) (host : List Int) (m m' : Mem)
    (selects : ∀ xs : List Int, xs.length < count → ¬ Misses c leftover (host ++ xs)) :
    Paired (frame c leftover) (fun r r' t => ∃ xs : List Int, xs.length = count ∧ t = ⟨host ++ xs, []⟩ ∧
        r = ((), { m with rxBuf := store m.rxBuf first (xs.map toByte) }) ∧
        r' = ((), { m' with rxBuf := store m'.rxBuf first (xs.map toByte) }))
      (receiveFrom first count m) (receiveFrom first count m') ⟨host, []⟩ := by
  induction count generalizing first host m m' with
  | zero =>
    refine .ret (fun t rely => ?_)
    obtain rfl := rely_eq rely
    exact ⟨[], rfl, by simp, by simp, by simp⟩
  | succ count ih =>
    have now := selects [] (Nat.succ_pos count)
    rw [List.append_nil] at now
    refine (paired_receive (by omega) now m m').bind ?_
    rintro _ _ t ⟨x, rfl, rfl, rfl⟩
    refine (ih (first + 1) (by omega) (host ++ [x]) _ _ (fun xs short => ?_)).mono ?_
    · rw [List.append_assoc]
      exact selects (x :: xs) (Nat.succ_lt_succ short)
    · rintro _ _ t ⟨xs, length, rfl, rfl, rfl⟩
      refine ⟨x :: xs, congrArg (· + 1) length, ?_, ?_, ?_⟩
      · rw [List.append_assoc, List.singleton_append]
      · rw [store_cons, List.map_cons]
      · rw [store_cons, List.map_cons]

/-- After the last byte of a frame the two agree about `rxBuf`. -/
theorem agree_received {h : Heard} (inside : ¬ Overruns c leftover h) (m m' : Mem) :
    Agree c leftover .nothing m m' h := ⟨nofun, nofun, nofun, inside, nofun⟩

/-- A number past the end of a table. -/
theorem entry_missing {table : List Byte} {n : ℕ} (high : table.length ≤ n) (slave : Byte) (m : Mem) :
    (do writeOrFail (← entry table n) slave success : Main Unit) m = .fault := by
  rw [entry_none (List.getElem?_eq_none high)]
  rfl

/-! ### The battery frame -/

/-- The rest of `caseBattctl`, once the bytes have come. -/
def battctlRest : Main Unit := do
  let m ← get
  if m.t1 > 9 ∨ chksum m.rxBuf 1 hostCmdBattctl ≠ m.rxBuf 1 then sendByte hostReplyBadchksum
  else writeOrFail (← entry battCommands (m.rxBuf 0).toNat) slaveIdBattstat success

theorem caseBattctl_eq : caseBattctl = receiveFrom 0 2 >>= fun _ => battctlRest := rfl

theorem battctlRest_received (m : Mem) (x y : Byte) : battctlRest { m with rxBuf := store m.rxBuf 0 [x, y] } =
    (if 9 < m.t1 ∨ x + hostCmdBattctl ≠ y then sendByte hostReplyBadchksum
      else do writeOrFail (← entry battCommands x.toNat) slaveIdBattstat success : Main Unit)
      { m with rxBuf := store m.rxBuf 0 [x, y] } := by
  have sum : chksum (store m.rxBuf 0 [x, y]) 1 hostCmdBattctl = x + hostCmdBattctl := chksum_one _ _
  show (if m.t1 > 9 ∨ chksum (store m.rxBuf 0 [x, y]) 1 hostCmdBattctl ≠ y then _ else _ : Main Unit) _ = _
  rw [sum]
  rfl

theorem misses_battctl (x y : Int) : Misses hostCmdBattctl leftover [x, y] ↔
    leftover ≤ 9 ∧ toByte x + hostCmdBattctl = toByte y ∧ battCommands.length ≤ (toByte x).toNat := by
  constructor
  · rintro (⟨-, low, _, _, same, sum, high⟩ | ⟨other, -⟩)
    · obtain ⟨rfl, rfl⟩ : x = _ ∧ y = _ := by simpa using same
      exact ⟨low, sum, high⟩
    · exact absurd other (by decide)
  · rintro ⟨low, sum, high⟩
    exact .inl ⟨rfl, low, x, y, rfl, sum, high⟩

/-- Two masters on the same side of the check do the same. -/
theorem paired_battctl (m m' : Mem) (same : 9 < m.t1 ↔ 9 < m'.t1) :
    Paired (frame hostCmdBattctl m.t1) (fun _ _ t => ¬ Overruns hostCmdBattctl m.t1 t) (caseBattctl m) (caseBattctl m')
      ⟨[], []⟩ := by
  rw [caseBattctl_eq]
  refine (paired_receiveFrom 2 0 (by decide) [] m m' (fun xs short misses => ?_)).bind ?_
  · rcases misses with ⟨-, -, x, y, rfl, -⟩ | ⟨other, -⟩
    · simp at short
    · exact absurd other (by decide)
  · rintro _ _ t ⟨xs, length, rfl, rfl, rfl⟩
    obtain ⟨x, y, rfl⟩ := List.length_eq_two.mp length
    show Paired _ _ (battctlRest { m with rxBuf := store m.rxBuf 0 [toByte x, toByte y] })
      (battctlRest { m' with rxBuf := store m'.rxBuf 0 [toByte x, toByte y] }) (⟨[x, y], []⟩ : Heard)
    rw [battctlRest_received, battctlRest_received]
    have selects (fits : ¬ Misses hostCmdBattctl m.t1 [x, y]) : ¬ Overruns hostCmdBattctl m.t1 ⟨[x, y], []⟩ :=
      fun overruns => fits (overruns.resolve_left not_overfull_nil)
    rw [misses_battctl] at selects
    by_cases refused : 9 < m.t1 ∨ toByte x + hostCmdBattctl ≠ toByte y
    · rw [if_pos refused, if_pos (refused.imp_left same.mp)]
      refine Ends.send _ _ _ _ (agree_received (selects ?_) _ _)
      rintro ⟨low, sum, -⟩
      exact refused.elim (fun high => by omega) (fun bad => bad sum)
    · rw [if_neg refused, if_neg (fun refused' => refused (refused'.imp_left same.mpr))]
      obtain ⟨low, sum⟩ := not_or.mp refused
      by_cases inside : (toByte x).toNat < battCommands.length
      · have holds : Ends hostCmdBattctl m.t1 .nothing (do
            writeOrFail (← entry battCommands (toByte x).toNat) slaveIdBattstat success) :=
          (Lock.entry battCommands (by omega) (by omega)).ends (fun data => .writeOrFail .success data _)
        exact holds _ _ _ (agree_received (selects (fun misses => by omega)) _ _)
      · rw [entry_missing (by omega), entry_missing (by omega)]
        refine .fault (fun u rely => ?_)
        obtain rfl := rely_eq rely
        exact .inr ((misses_battctl x y).mpr ⟨by omega, not_not.mp sum, by omega⟩)

/-! ### The frame with the safety sequence -/

/-- The rest of `caseThrusters`, once `t1` and `t2` have come. -/
def thrustersRest (t1 t2 : Int) : Main Unit := do
  let m ← get
  let cs := chksum m.rxBuf 5 (toByte (t1 + hostCmdThrusters.toNat))
  if ¬ isSafety tkSafety m.rxBuf ∨ t1 > 11 ∨ t2 ≠ cs.toNat then sendByte hostReplyBadchksum
  else writeOrFail (← entry tkCommands t1) slaveIdThrusters success

theorem caseThrusters_eq : caseThrusters = (do
    receiveFrom 0 5
    let t1 ← waitchar
    setT1 t1
    let t2 ← waitchar
    setT2 t2
    thrustersRest t1 t2) := rfl

/-- The bytes are the safety sequence when they are where it is looked for. -/
theorem isSafety_iff {safety bytes : List Byte} (length : bytes.length = safety.length) (buf : ℕ → Byte) :
    isSafety safety (store buf 0 bytes) = true ↔ bytes = safety := by
  simp only [isSafety, List.all_eq_true, List.mem_range, decide_eq_true_eq]
  constructor
  · intro found
    refine List.ext_getElem length (fun i low low' => ?_)
    simpa [store, low, low'] using found i low'
  · rintro rfl i low
    simp [store, low]

/-- What the master adds up of a frame with the safety sequence. -/
theorem safety_total (buf : ℕ → Byte) (extra : Byte) :
    chksum (store buf 0 tkSafety) 5 extra = tkSafety.foldl (· + ·) 0#8 + extra := by
  have cells := store_prefix buf tkSafety []
  rw [List.append_nil] at cells
  rw [chksum_eq, show 5 = tkSafety.length from rfl, cells]

theorem thrustersRest_received {m : Mem} {buf : ℕ → Byte} {bytes : List Byte} (same : m.rxBuf = store buf 0 bytes)
    (length : bytes.length = 5) (t1 t2 : Int) : thrustersRest t1 t2 m =
    (if bytes = tkSafety ∧ t1 ≤ 11 ∧ t2 = safetySum t1 then do writeOrFail (← entry tkCommands t1) slaveIdThrusters success
      else sendByte hostReplyBadchksum : Main Unit) m := by
  have safe : isSafety tkSafety m.rxBuf = true ↔ bytes = tkSafety := by
    rw [same]
    exact isSafety_iff length buf
  have total (sequence : bytes = tkSafety) : (chksum m.rxBuf 5 (toByte (t1 + hostCmdThrusters.toNat))).toNat = safetySum t1 := by
    rw [same, sequence, safety_total]
    rfl
  show (if ¬ isSafety tkSafety m.rxBuf ∨ t1 > 11 ∨
    t2 ≠ (chksum m.rxBuf 5 (toByte (t1 + hostCmdThrusters.toNat))).toNat then _ else _ : Main Unit) m = _
  by_cases good : bytes = tkSafety ∧ t1 ≤ 11 ∧ t2 = safetySum t1
  · obtain ⟨sequence, high, sum⟩ := good
    rw [if_neg, if_pos ⟨sequence, high, sum⟩]
    rintro (unsafe' | overruns | bad)
    · exact unsafe' (safe.mpr sequence)
    · omega
    · exact bad (sum.trans (total sequence).symm)
  · rw [if_pos, if_neg good]
    by_cases sequence : bytes = tkSafety
    · by_cases high : t1 ≤ 11
      · exact .inr (.inr (fun sum => good ⟨sequence, high, sum.trans (total sequence)⟩))
      · exact .inr (.inl (by omega))
    · exact .inl (fun found => sequence (safe.mp found))

theorem misses_thrusters {xs : List Int} {t1 t2 : Int} : Misses hostCmdThrusters leftover (xs ++ [t1, t2]) ↔
    xs.map toByte = tkSafety ∧ t1 = errNousb ∧ t2 = safetySum t1 := by
  constructor
  · rintro (⟨other, -⟩ | ⟨-, ys, y, same, sequence, sum⟩)
    · exact absurd other (by decide)
    · obtain ⟨rfl, last⟩ := List.append_inj' same rfl
      obtain ⟨rfl, rfl⟩ : t1 = errNousb ∧ t2 = y := by simpa using last
      exact ⟨sequence, rfl, sum⟩
  · rintro ⟨sequence, rfl, sum⟩
    exact .inr ⟨rfl, xs, t2, rfl, sequence, sum⟩

/-- A frame with too few bytes selects nothing. -/
theorem not_misses_short {xs : List Int} (short : xs.length < 7) : ¬ Misses hostCmdThrusters leftover xs := by
  rintro (⟨other, -⟩ | ⟨-, ys, y, rfl, sequence, -⟩)
  · exact absurd other (by decide)
  · have length := congrArg List.length sequence
    simp only [List.length_map, List.length_append, List.length_cons, List.length_nil, tkSafety] at length short
    omega

theorem paired_thrusters (m m' : Mem) :
    Paired (frame hostCmdThrusters leftover) (fun _ _ t => ¬ Overruns hostCmdThrusters leftover t) (caseThrusters m)
      (caseThrusters m') ⟨[], []⟩ := by
  rw [caseThrusters_eq]
  refine (paired_receiveFrom 5 0 (by decide) [] m m' (fun xs short => not_misses_short (by simp; omega))).bind ?_
  rintro _ _ t ⟨xs, length, rfl, rfl, rfl⟩
  refine (paired_waitchar (not_misses_short (by simp; omega)) _ _).bind ?_
  rintro ⟨t1, _⟩ ⟨_, _⟩ t ⟨rfl, rfl, rfl, low, rfl⟩
  refine .bind (.ret (Q := fun r r' t => r = ((), _) ∧ r' = ((), _) ∧ t = _) (fun u rely => ⟨rfl, rfl, rely_eq rely⟩)) ?_
  rintro _ _ t ⟨rfl, rfl, rfl⟩
  refine (paired_waitchar (not_misses_short (by simp; omega)) _ _).bind ?_
  rintro ⟨t2, _⟩ ⟨_, _⟩ t ⟨rfl, rfl, rfl, -, rfl⟩
  refine .bind (.ret (Q := fun r r' t => r = ((), _) ∧ r' = ((), _) ∧ t = _) (fun u rely => ⟨rfl, rfl, rely_eq rely⟩)) ?_
  rintro _ _ t ⟨rfl, rfl, rfl⟩
  have five : (xs.map toByte).length = 5 := by rw [List.length_map, length]
  show Paired _ _ (thrustersRest t1 t2 _) (thrustersRest t1 t2 _) (⟨xs ++ [t1] ++ [t2], []⟩ : Heard)
  rw [thrustersRest_received rfl five, thrustersRest_received rfl five, List.append_assoc, List.singleton_append]
  have selects (fits : ¬ Misses hostCmdThrusters leftover (xs ++ [t1, t2])) :
      ¬ Overruns hostCmdThrusters leftover ⟨xs ++ [t1, t2], []⟩ := fun overruns => fits (overruns.resolve_left not_overfull_nil)
  rw [misses_thrusters] at selects
  by_cases good : xs.map toByte = tkSafety ∧ t1 ≤ 11 ∧ t2 = safetySum t1
  · rw [if_pos good]
    obtain ⟨sequence, high, sum⟩ := good
    by_cases byte : 0 ≤ t1
    · have holds : Ends hostCmdThrusters leftover .nothing (do
          writeOrFail (← entry tkCommands t1) slaveIdThrusters success) :=
        (Lock.entry tkCommands byte (by simp [tkCommands]; omega)).ends (fun data => .writeOrFail .success data _)
      refine holds _ _ _ (agree_received (selects (fun misses => absurd misses.2.1 ?_)) _ _)
      simp only [errNousb]
      omega
    · obtain rfl : t1 = errNousb := by simp only [errNousb]; omega
      refine .fault (fun u rely => ?_)
      obtain rfl := rely_eq rely
      exact .inr (misses_thrusters.mpr ⟨sequence, rfl, sum⟩)
  · rw [if_neg good]
    refine Ends.send _ _ _ _ (agree_received (selects ?_) _ _)
    rintro ⟨sequence, rfl, sum⟩
    exact good ⟨sequence, by decide, sum⟩

/-! ### Every frame -/

/-- What came in over a trace. -/
def heard (tr : List MasterEvent) : Heard := tr.foldl hear ⟨[], []⟩

/-- Two masters do the same with a frame, unless it is a battery frame and they are on
    different sides of its check. -/
theorem paired_dispatch (c : Byte) (m m' : Mem) (same : c = hostCmdBattctl → (9 < m.t1 ↔ 9 < m'.t1)) :
    Paired (frame c m.t1) (fun _ _ t => ¬ Overruns c m.t1 t) (dispatch c m) (dispatch c m') ⟨[], []⟩ := by
  by_cases loose : Loose c
  · rcases loose with rfl | rfl
    · exact paired_battctl m m' (same rfl)
    · exact paired_thrusters m m'
  · refine dispatch_strict (K := .nothing) loose m m' _ (agree_received ?_ m m')
    rintro (overruns | misses)
    · exact overruns
    · exact not_misses loose _ _ misses

instance : ∀ o, Nonempty (Ans o)
  | .rxByte => ⟨none⟩
  | .usbPresent => ⟨true⟩
  | .readFailsafe => ⟨true⟩
  | .clearFailsafe => ⟨()⟩
  | .startTimer => ⟨()⟩
  | .busWrite _ _ => ⟨.noAck⟩
  | .busRead _ => ⟨.noAck⟩
  | .sendByte _ => ⟨()⟩

/-- A command goes outside its arrays exactly where what came in says so. -/
theorem dispatch_fault_iff (c : Byte) (m : Mem) (now : List MasterEvent) : Run (dispatch c m) now .fault ↔
    (∃ q, Run (dispatch c m) now q) ∧ Overruns c m.t1 (heard now) := by
  have paired := paired_dispatch c m m (fun _ => Iff.rfl)
  have exact (q : Io (Unit × Mem)) (run : Run (dispatch c m) now q) : q = .fault ↔ Overruns c m.t1 (heard now) := by
    obtain ⟨_, -, rest⟩ := paired.run run (Monitor.along_of_all _ (fun _ _ => trivial) _ now)
    refine fault_iff (fun _ _ => trivial) (fun _ _ => id) (fun _ => id) ?_ rest.wp_left
    rintro _ _ ⟨_, inside⟩
    exact inside
  constructor
  · intro run
    exact ⟨⟨_, run⟩, (exact _ run).mp rfl⟩
  · rintro ⟨⟨q, run⟩, overruns⟩
    rwa [← (exact q run).mpr overruns]

/-- The rest of a battery frame for the first battery. -/
def batteryOff : List MasterEvent := arrive [0, hostCmdBattctl]

theorem follow_battery (m : Mem) (tr : List MasterEvent) : follow (dispatch hostCmdBattctl m) (batteryOff ++ tr) =
    follow ((if 9 < m.t1 then sendByte hostReplyBadchksum
      else do writeOrFail (← entry battCommands 0) slaveIdBattstat success : Main Unit)
      { m with rxBuf := store m.rxBuf 0 [0, hostCmdBattctl] }) tr := by
  have cells : Function.update (Function.update m.rxBuf 0 0) 1 hostCmdBattctl = store m.rxBuf 0 [0, hostCmdBattctl] := by
    rw [← store_cons, ← store_cons, store_nil]
  have received : follow (dispatch hostCmdBattctl m) (batteryOff ++ tr) =
    follow (battctlRest { m with rxBuf := Function.update (Function.update m.rxBuf 0 0) 1 hostCmdBattctl }) tr := rfl
  rw [received, cells, battctlRest_received]
  by_cases high : 9 < m.t1
  · rw [if_pos (.inl high), if_pos high]
  · rw [if_neg (not_or.mpr ⟨high, by decide⟩), if_neg high]
    rfl

/-- A leftover decides whether the battery frame is refused. -/
theorem refuses_battery (m : Mem) : 9 < m.t1 ↔
    ∃ q, Run (dispatch hostCmdBattctl m) (batteryOff ++ [.call (.sendByte hostReplyBadchksum) ()]) q := by
  constructor
  · intro high
    refine run_of_follow _ _ ?_
    rw [follow_battery, if_pos high]
    rfl
  · rintro ⟨q, run⟩
    have followed := run.followed
    rw [follow_battery] at followed
    by_cases high : 9 < m.t1
    · exact high
    · rw [if_neg high] at followed
      exact absurd followed nofun

/-- Frames mean the same to two masters exactly when a battery frame does. -/
theorem same_iff (c : Byte) (m m' : Mem) : Same Interrupt (dispatch c m) (dispatch c m') ↔
    (c = hostCmdBattctl → (9 < m.t1 ↔ 9 < m'.t1)) := by
  constructor
  · rintro same rfl
    rw [refuses_battery, refuses_battery]
    exact (same _).1
  · intro same
    exact (paired_dispatch c m m' same).same (fun _ _ => trivial) (fun _ _ => trivial)
      (paired_dispatch c m' m (fun battery => (same battery).symm))

/-! ### Every run -/

/-- The command loop from the first byte of a frame on. -/
def serving (c : Byte) (m : Mem) : Io Empty := (dispatch c m).bind fun r => commandLoop r.2

/-- In the run a frame goes outside its arrays. -/
def OverrunsIn (m : Mem) (tr : List MasterEvent) : Prop :=
  ∃ before now c m', tr = before ++ now ∧ Run (commandLoop m) before (serving c m') ∧
    (∃ q, Run (dispatch c m') now q) ∧ Overruns c m'.t1 (heard now)

/-- A master that never faults. -/
abbrev calm : Monitor Op Ans Loop Interrupt Heard := listen (fun _ => True) (fun _ => False)

theorem calm_steady : Steady (fun _ => True) (fun _ => True) := ⟨fun _ _ => trivial, fun _ _ => trivial⟩

theorem calm_talks : Talks calm (fun _ => True) where
  stable := Steady.stable
  waits := calm_steady.waitchar (fun _ _ _ _ => trivial)
  writes data req _ := calm_steady.write data req
  sends := calm_steady.send
  asks := calm_steady.ask (fun _ _ _ => trivial) (fun _ => Steady.ret _)
  lost := by
    refine .loop Steady.stable (fun _ _ _ => ⟨trivial, trivial⟩) (fun _ => ?_) (fun _ => Steady.ret _)
    refine calm_steady.ask (fun _ _ _ => trivial) (fun present => ?_)
    cases present <;> exact Steady.ret _

theorem calm_never {α : Type} {p : Io α} (keeps : Keeps calm (fun _ => True) p) (tr : List MasterEvent) :
    ¬ Run p tr .fault := by
  intro run
  exact (wp_run run (Monitor.along_of_all _ (fun _ _ => trivial) ⟨[], []⟩ tr) (keeps _ trivial)).2 _ .refl

theorem command_eq (m : Mem) : command m = waitchar.bind fun x => usbPresent.bind fun present =>
    if present then dispatch (toByte x) m else lostUsb m := by
  show (waitchar.bind fun x => .ret (x, m)).bind _ = _
  rw [Prog.bind_assoc]
  congr 1
  funext x
  show (usbPresent.bind fun present => .ret (present, m)).bind _ = _
  rw [Prog.bind_assoc]
  congr 1
  funext present
  cases present <;> rfl

/-- An iteration that faults does so in a frame. -/
theorem command_fault {m : Mem} {tr : List MasterEvent} (run : Run (command m) tr .fault) :
    ∃ before now c, tr = before ++ now ∧ Run (command m) before (dispatch c m) ∧ Run (dispatch c m) now .fault := by
  rw [command_eq] at run ⊢
  rcases run.fault_of_bind with stuck | ⟨x, first, rest, rfl, got, run⟩
  · exact absurd stuck (calm_never calm_talks.waits _)
  rcases run.fault_of_bind with stuck | ⟨present, second, now, rfl, asked, run⟩
  · exact absurd stuck (calm_never calm_talks.asks _)
  cases present with
  | false => exact absurd run (calm_never (calm_talks.lostUsb m) _)
  | true =>
    refine ⟨first ++ second, now, toByte x, (List.append_assoc first second now).symm, ?_, run⟩
    exact (got.bind _).append (asked.bind _)

theorem unroll_command (m : Mem) :
    Prog.unroll Loop.command (fun m => (command m).bind fun r => .ret (.inl r.2)) (.ret : Empty → Io Empty) m =
      (command m).bind fun r => commandLoop r.2 := by
  rw [Prog.unroll, Prog.bind_assoc]
  rfl

/-- A run of the loop that faults does so in one of its iterations. -/
theorem loop_fault (n : ℕ) (m : Mem) (tr : List MasterEvent) (short : tr.length ≤ n)
    (run : Run (commandLoop m) tr .fault) : ∃ before now m', tr = before ++ now ∧
      Run (commandLoop m) before ((command m').bind fun r => commandLoop r.2) ∧ Run (command m') now .fault := by
  induction n generalizing m tr with
  | zero =>
    obtain rfl := List.length_eq_zero_iff.mp (Nat.le_zero.mp short)
    exact nomatch run
  | succ n ih =>
    cases run with
    | step step run =>
      rename_i tr
      rw [List.length_cons] at short
      cases step with
      | ext p e =>
        obtain ⟨before, now, m', rfl, later, fault⟩ := ih m tr (by omega) run
        exact ⟨.ext e :: before, now, m', rfl, .step (.ext _ e) later, fault⟩
      | loop =>
        rw [unroll_command] at run
        have entered : Run (commandLoop m) ([.iter .command] : List MasterEvent) ((command m).bind fun r => commandLoop r.2) := by
          rw [← unroll_command]
          exact .step (.loop _ _ _ _) (.done _)
        rcases run.fault_of_bind with stuck | ⟨r, first, rest, rfl, finished, run⟩
        · exact ⟨[.iter .command], tr, m, rfl, entered, stuck⟩
        · rw [List.length_append] at short
          obtain ⟨before, now, m', rfl, later, fault⟩ := ih r.2 rest (by omega) run
          refine ⟨.iter .command :: (first ++ before), now, m', by simp, ?_, fault⟩
          exact entered.append ((finished.bind _).append later)

/-- The master goes outside its arrays exactly in the frames that overrun. -/
theorem fault_iff_overruns (m : Mem) (tr : List MasterEvent) : Run (commandLoop m) tr .fault ↔ OverrunsIn m tr := by
  constructor
  · intro run
    obtain ⟨before, now, m', rfl, entered, fault⟩ := loop_fault tr.length m tr (Nat.le_refl _) run
    obtain ⟨first, rest, c, rfl, came, fault⟩ := command_fault fault
    obtain ⟨shown, overruns⟩ := (dispatch_fault_iff c m' rest).mp fault
    exact ⟨before ++ first, rest, c, m', (List.append_assoc _ _ _).symm, entered.append (came.bind _), shown, overruns⟩
  · rintro ⟨before, now, c, m', rfl, came, shown, overruns⟩
    exact came.append (((dispatch_fault_iff c m' now).mpr ⟨shown, overruns⟩).bind _)

/-- Frames do the same whatever came before them, but for a battery frame on different
    sides of its check; and nothing else than the frames that overrun goes outside an array. -/
theorem dispatcher_memoryless (c : Byte) (m m' : Mem) (tr : List MasterEvent) :
    (Same Interrupt (dispatch c m) (dispatch c m') ↔ (c = hostCmdBattctl → (9 < m.t1 ↔ 9 < m'.t1))) ∧
      (Run (commandLoop m) tr .fault ↔ OverrunsIn m tr) :=
  ⟨same_iff c m m', fault_iff_overruns m tr⟩

/-- A ping with the repetition `b`. -/
def ping (b reply : Byte) : List MasterEvent :=
  [.iter .command] ++ arrive [hostCmdPing] ++ [.call .usbPresent true] ++ arrive [b] ++ [.call (.sendByte reply) ()]

/-- A battery frame for a battery that is not there. -/
def noBattery : List MasterEvent :=
  [.iter .command] ++ arrive [hostCmdBattctl] ++ [.call .usbPresent true] ++ arrive [12, 12 + hostCmdBattctl]

/-- A bad ping leaves a value that has the next battery frame refused, which is accepted
    after a good one; and a battery frame reads past its table. -/
theorem battery_remembers :
    (¬ ∀ (xs ys : List MasterEvent) m m', Run (commandLoop memory) xs (commandLoop m) →
      Run (commandLoop memory) ys (commandLoop m') → ∀ c, Same Interrupt (dispatch c m) (dispatch c m')) ∧
    ¬ ∀ tr : List MasterEvent, ¬ Run (commandLoop memory) tr .fault := by
  constructor
  · intro same
    have good : Run (commandLoop memory) (ping hostCmdPing hostReplySuccess) (commandLoop memory) :=
      follow_run _ _ _ rfl
    have bad : Run (commandLoop memory) (ping 0xFF#8 hostReplyBadchksum) (commandLoop { memory with t1 := 255 }) :=
      follow_run _ _ _ rfl
    have sides := (same_iff _ _ _).mp (same _ _ _ _ good bad hostCmdBattctl) rfl
    exact absurd sides (by decide)
  · intro never
    exact never (ping hostCmdPing hostReplySuccess ++ noBattery) (follow_run _ _ _ rfl)

end Tortuga.Dispatcher
