import Tortuga.CommandRules

/-!
The bytes of the host as the master takes them (`ic1.c`). A command waits for a number of
bytes that its first byte fixes, takes them and only then replies; whatever the frame, a
last byte of 0xFF is answered by one byte.
-/
namespace Tortuga.HostParser
open Tortuga.Programs Tortuga.BusCodes Tortuga.Master Tortuga.Commands Tortuga.CommandRules
set_option linter.unusedSimpArgs false

/-- Where an iteration of the loop of `main` is: before its look for USB, in the `switch`,
    or in the branch without USB. -/
inductive Phase where
  | fetching
  | serving
  | lost
  deriving DecidableEq, Repr

/-- The bytes of the command so far, -1 for each `waitchar` that ended without USB, and what
    the master has said since the last of them. -/
structure Parse where
  phase : Phase
  frame : List Int
  replies : List Byte
  deriving DecidableEq, Repr

namespace Parse

def hear (s : Parse) (x : Int) : Parse := { s with frame := s.frame ++ [x], replies := [] }

def next (s : Parse) : MasterEvent → Parse
  | .iter .command => { s with phase := .fetching, frame := [] }
  | .call .rxByte (some b) => s.hear b.toNat
  | .call .usbPresent present =>
    match s.phase, s.frame with
    | .lost, _ => s
    | .fetching, _ :: _ => { s with phase := if present then .serving else .lost }
    | _, _ => if present then s else s.hear errNousb
  | .call (.sendByte i) _ => { s with replies := s.replies ++ [i] }
  | _ => s

/-- The length of the whole frame, as its first byte has it. -/
def size : List Int → ℕ
  | [] => 1
  | x :: _ => params (toByte x) + 1

/-- The master waits for a byte: the first of a command, or one that is missing. -/
def Awaits (s : Parse) : Prop :=
  (s.phase = .fetching ∧ s.frame = []) ∨ (s.phase = .serving ∧ s.frame ≠ [] ∧ s.frame.length < size s.frame)

/-- The master has every byte of the command. -/
def Complete (s : Parse) : Prop := s.phase = .serving ∧ s.frame.length = size s.frame

/-- The command is done. A frame that ends with a sync byte has been answered. -/
def Done (s : Parse) : Prop := s.Complete ∧ (s.frame.getLast? = some 255 → s.replies ≠ [])

/-- The master looks for a byte only when it waits for one, and speaks only when it has them
    all: one byte after a sync byte, and `HOST_REPLY_SUCCESS` after one at the top. -/
def Answered (s : Parse) : MasterEvent → Prop
  | .call .rxByte _ => s.Awaits
  | .call (.sendByte i) _ =>
    s.Complete ∧ (s.frame.getLast? = some 255 → s.replies = []) ∧ (s.frame = [255] → i = hostReplySuccess)
  | .iter .command => (s.phase = .fetching ∧ s.frame = []) ∨ s.phase = .lost ∨ s.Done
  | _ => True

def fresh : Parse where
  phase := .fetching
  frame := []
  replies := []

end Parse

open Parse

def parser : Monitor Op Ans Loop Interrupt Parse where
  next := Parse.next
  allows _ _ := True
  demands := Answered
  faults _ := True

/-! ### The steps of a command -/

theorem stable (I : Parse → Prop) : Stable parser I := by
  rintro s ⟨⟩ inv -
  exact inv

theorem steps (I : Parse → Prop) : Steps parser I where
  stable := stable I
  writes _ _ _ := .ask (stable I) (fun _ _ inv _ => ⟨trivial, inv⟩) (fun _ => .ret (stable I) _)
  reads _ := .ask (stable I) (fun _ _ inv _ => ⟨trivial, inv⟩) (fun _ => .ret (stable I) _)
  faults _ := trivial

theorem anyWrite (I : Parse → Prop) (data req : Byte) : Keeps parser I (busWriteByte data req) :=
  .ask (stable I) (fun _ _ inv _ => ⟨trivial, inv⟩) (fun _ => .ret (stable I) _)

theorem writeAll_keeps (I : Parse → Prop) (req : Byte) (bytes : List Byte) : Keeps parser I (writeAll req bytes) := by
  induction bytes with
  | nil => exact .ret (stable I) ()
  | cons data rest ih => exact (anyWrite I data req).bind (fun _ => ih)

theorem checkFailsafe_keeps (I : Parse → Prop) : Keeps parser I checkFailsafe := by
  refine .ask (stable I) (fun _ _ inv _ => ⟨trivial, inv⟩) (fun tripped => ?_)
  cases tripped with
  | false => exact .ret (stable I) ()
  | true =>
    refine .ask (stable I) (fun _ _ inv _ => ⟨trivial, inv⟩) (fun _ => ?_)
    exact (anyWrite I _ _).bind (fun _ => writeAll_keeps I _ _)

theorem next_lost {s : Parse} (awaits : s.Awaits) : s.next (.call .usbPresent false) = s.hear errNousb := by
  obtain ⟨phase, frame, replies⟩ := s
  rcases awaits with ⟨rfl, rfl⟩ | ⟨rfl, -, -⟩
  · rfl
  · rfl

theorem next_present {s : Parse} (awaits : s.Awaits) : s.next (.call .usbPresent true) = s := by
  obtain ⟨phase, frame, replies⟩ := s
  rcases awaits with ⟨rfl, rfl⟩ | ⟨rfl, -, -⟩
  · rfl
  · rfl

/-- A master that waits for a byte gets it, or loses USB, and has done nothing else. -/
theorem waitchar_hears {s : Parse} (awaits : s.Awaits) : wp parser waitchar (fun x t => t = s.hear x) s := by
  have rules : Waits parser (· = s) (· = s) (· = s) (fun x t => t = s.hear x) :=
    { clear := stable _
      looked := stable _
      post := fun _ => stable _
      check := checkFailsafe_keeps _
      again := fun _ same => same
      iter := fun _ same _ => ⟨trivial, same⟩
      byte := fun t x same _ => by subst same; exact ⟨awaits, rfl⟩
      empty := fun t same _ => by subst same; exact ⟨awaits, rfl⟩
      present := fun t same _ => by subst same; exact ⟨trivial, next_present awaits⟩
      lost := fun t same _ => by subst same; exact ⟨trivial, next_lost awaits⟩ }
  exact rules.waitchar s rfl

/-- The command `c` and `n` of its bytes have come, and no reply has gone out. -/
structure Got (c : Byte) (n : ℕ) (s : Parse) : Prop where
  phase : s.phase = .serving
  first : ∃ x rest, s.frame = x :: rest ∧ toByte x = c ∧ rest.length = n
  replies : s.replies = []

/-- The master has every byte of the command, and the last one is not a sync byte. -/
def Free (s : Parse) : Prop := s.Complete ∧ s.frame.getLast? ≠ some 255

theorem Got.awaits {c : Byte} {n : ℕ} {s : Parse} (got : Got c n s) (room : n < params c) : s.Awaits := by
  obtain ⟨x, rest, frame, rfl, rfl⟩ := got.first
  refine .inr ⟨got.phase, by simp [frame], ?_⟩
  simp only [frame, size, List.length_cons]
  omega

theorem Got.hear {c : Byte} {n : ℕ} {s : Parse} (got : Got c n s) (y : Int) : Got c (n + 1) (s.hear y) := by
  obtain ⟨x, rest, frame, same, rfl⟩ := got.first
  exact ⟨got.phase, ⟨x, rest ++ [y], by simp [Parse.hear, frame], same, by simp⟩, rfl⟩

theorem Got.complete {c : Byte} {s : Parse} (got : Got c (params c) s) : s.Complete := by
  obtain ⟨x, rest, frame, rfl, count⟩ := got.first
  refine ⟨got.phase, ?_⟩
  simp only [frame, size, List.length_cons, count]

theorem Got.sync {c : Byte} {n : ℕ} {s : Parse} (got : Got c n s) (frame : s.frame = [255]) : c = hostCmdSync := by
  obtain ⟨x, rest, first, rfl, -⟩ := got.first
  rw [first, List.cons.injEq] at frame
  rw [frame.1]
  decide

theorem Free.done {s : Parse} (free : Free s) : s.Done := ⟨free.1, fun last => absurd last free.2⟩

/-- A reply to a whole frame ends the command. -/
theorem reply_ends {c i : Byte} (only : c = hostCmdSync → i = hostReplySuccess) :
    Leads parser (Got c (params c)) Done (sendByte i) := by
  intro s got t rely _ _
  have got := (stable _).rely rely got
  refine ⟨⟨got.complete, fun _ => got.replies, fun frame => only (got.sync frame)⟩, ?_⟩
  intro u rely
  refine (stable Done).rely rely ⟨got.complete, fun _ => ?_⟩
  simp [parser, Parse.next]

theorem ends (c : Byte) (other : c ≠ hostCmdSync) : Ends parser (Got c (params c)) Done where
  toSteps := steps _
  ended := stable _
  replies _ := reply_ends (fun sync => absurd sync other)

theorem ends_free : Ends parser Free Free where
  toSteps := steps _
  ended := stable _
  replies i := by
    refine Keeps.ask (stable _) (fun s _ free _ => ⟨⟨free.1, fun last => absurd last free.2, fun sync => ?_⟩, free⟩)
      (fun _ => .ret (stable _) _)
    exact absurd (by rw [sync]; rfl) free.2

theorem frame (c : Byte) (other : c ≠ hostCmdSync) : Frame parser (Got c) (params c) Done where
  toEnds := ends c other
  kept _ := stable _
  hears n room s got := by
    refine wp_mono (fun x t heard => ?_) (waitchar_hears (got.awaits room))
    subst heard
    exact got.hear x

/-- The repetition of a command is no sync byte. -/
theorem confirm_hears {c : Byte} (other : c ≠ hostCmdSync) (one : params c = 1) {s : Parse} (got : Got c 0 s) :
    wp parser waitchar (fun x t => Got c (params c) t ∧ (toByte x = c → Free t)) s := by
  refine wp_mono (fun x t heard => ?_) (waitchar_hears (got.awaits (by omega)))
  have all : Got c (params c) t := by
    rw [heard, one]
    exact got.hear x
  refine ⟨all, fun same => ⟨all.complete, fun last => other ?_⟩⟩
  have byte : x = 255 := by simpa [heard, Parse.hear] using last
  rw [← same, byte]
  decide

theorem Free.leads {p : Main Unit} (keeps : LeadsAll parser Free Free p) (m : Mem) {s : Parse} (free : Free s) :
    wp parser (p m) (fun _ => Done) s :=
  wp_mono (fun _ _ free => free.done) (keeps m s free)

/-- The same with the repetition in `rxBuf`. -/
theorem confirm_stores {c : Byte} (other : c ≠ hostCmdSync) (one : params c = 1) {s : Parse} (got : Got c 0 s) (m : Mem) :
    wp parser (receive 0 m) (fun r t => Got c (params c) t ∧ (r.2.rxBuf 0 = c → Free t)) s := by
  refine wp_lift_bind (wp_mono (fun x t heard => ?_) (confirm_hears other one got))
  rw [setRx, if_pos (by decide)]
  intro u rely
  have heard := (stable (fun t => Got c (params c) t ∧ (toByte x = c → Free t))).rely rely heard
  exact ⟨heard.1, fun same => heard.2 (by simpa using same)⟩

theorem confirms (c : Byte) (other : c ≠ hostCmdSync) (one : params c = 1) :
    Confirms parser Free c (LeadsAll parser (Got c 0) Done) where
  toEnds := ends_free
  t1 rest holds := by
    intro m s got
    refine wp_lift_bind (wp_mono (fun x t heard => ?_) (confirm_hears other one got))
    refine wp_bind (fun u rely => ?_)
    have heard := (stable (fun t => Got c (params c) t ∧ (toByte x = c → Free t))).rely rely heard
    show wp parser ((if x ≠ c.toNat then (liftM (sendByte hostReplyBadchksum) : Main Unit) else rest) _) _ u
    split
    case isTrue => exact (ends c other).send _ _ u heard.1
    case isFalse same => exact Free.leads holds _ (heard.2 (by rw [Decidable.of_not_not same, toByte_toNat]))
  t rest holds := by
    intro m s got
    refine wp_lift_bind (wp_mono (fun x t heard => ?_) (confirm_hears other one got))
    split
    case isTrue => exact (ends c other).send _ _ t heard.1
    case isFalse same => exact Free.leads holds _ (heard.2 (by rw [Decidable.of_not_not same, toByte_toNat]))
  byte rest holds := by
    intro m s got
    refine wp_lift_bind (wp_mono (fun x t heard => ?_) (confirm_hears other one got))
    split
    case isTrue => exact (ends c other).send _ _ t heard.1
    case isFalse same => exact Free.leads holds _ (heard.2 (Decidable.of_not_not same))
  cell rest holds := by
    intro m s got
    refine wp_bind (wp_mono (fun r t heard => ?_) (confirm_stores other one got m))
    show wp parser ((if r.2.rxBuf 0 ≠ c then (liftM (sendByte hostReplyBadchksum) : Main Unit) else rest) r.2) _ t
    split
    case isTrue => exact (ends c other).send _ _ t heard.1
    case isFalse same => exact Free.leads holds _ (heard.2 (Decidable.of_not_not same))

/-! ### A whole iteration -/

theorem params_unknown {c : Byte} (unknown : cases.lookup c = none) : params c = 0 := by
  have known (d : Byte) (found : (cases.lookup d).isSome = true) : c ≠ d := by
    rintro rfl
    rw [unknown] at found
    contradiction
  have two : ¬ (c = hostCmdSwitchpower ∨ c = hostCmdMarker ∨ c = hostCmdBacklight ∨ c = hostCmdBfinState ∨
      c = hostCmdBaranimation ∨ c = hostCmdSetBars ∨ c = hostCmdBars ∨ c = hostCmdBattctl ∨ c = hostCmdRuntimediag) := by
    simp only [not_or]
    exact ⟨known _ rfl, known _ rfl, known _ rfl, known _ rfl, known _ rfl, known _ rfl, known _ rfl, known _ rfl,
      known _ rfl⟩
  rw [params, if_neg (known _ rfl), if_neg (known _ rfl), if_neg (known _ rfl),
    if_neg (not_or.mpr ⟨known _ rfl, known _ rfl⟩), if_neg (known _ rfl), if_neg (known _ rfl), if_neg two, unknown]
  rfl

theorem speaks : Speaks parser Got Free Done where
  frame := frame
  confirms := confirms
  sync := LeadsAll.lift (stable Done) (reply_ends (fun _ => rfl))
  skips c s unknown got := by
    have all : Got c (params c) s := by rwa [params_unknown unknown]
    refine ⟨all.complete, fun last => ?_⟩
    obtain ⟨x, rest, first, same, count⟩ := got.first
    rw [List.length_eq_zero_iff.mp count] at first
    have byte : x = 255 := by simpa [first] using last
    rw [← same, byte] at unknown
    contradiction

/-- The state between two iterations of the loop of `main`. -/
def Settled (s : Parse) : Prop := (s.phase = .fetching ∧ s.frame = []) ∨ s.phase = .lost ∨ s.Done

theorem usbLost_keeps : Keeps parser (fun s => s.phase = .lost) usbLost := by
  refine .loop (stable _) (fun _ lost _ => ⟨trivial, lost⟩) (fun _ => ?_) (fun _ => .ret (stable _) _)
  refine .ask (stable _) (fun s present lost _ => ⟨trivial, ?_⟩) (fun present => ?_)
  · obtain ⟨phase, frame, replies⟩ := s
    cases lost
    rfl
  · cases present <;> exact .ret (stable _) _

theorem arms : Keeps parser (Got hostCmdSetspeed 0) setMotorFailsafe :=
  .ask (stable _) (fun _ _ inv _ => ⟨trivial, inv⟩) (fun _ =>
    .ask (stable _) (fun _ _ inv _ => ⟨trivial, inv⟩) (fun _ => .ret (stable _) _))

theorem command_settles (m : Mem) {s : Parse} (phase : s.phase = .fetching) (frame : s.frame = []) :
    wp parser (command m) (fun _ => Settled) s := by
  refine wp_lift_bind (wp_mono (fun x t heard => ?_) (waitchar_hears (.inl ⟨phase, frame⟩)))
  have heard : t = ⟨.fetching, [x], []⟩ := by rw [heard, Parse.hear, phase, frame, List.nil_append]
  refine wp_lift_bind (fun u rely present _ => ⟨trivial, fun v rely' => ?_⟩)
  have heard := (stable (· = ⟨.fetching, [x], []⟩)).rely rely heard
  rw [heard] at rely'
  have looked := (stable (· = Parse.next ⟨.fetching, [x], []⟩ (.call .usbPresent present))).rely rely' rfl
  subst looked
  cases present with
  | true =>
    have served := any_dispatch speaks (fun c n => anyWrite _) (anyWrite _) arms (toByte x) m
    exact wp_mono (fun _ _ done => .inr (.inr done)) (served _ ⟨rfl, ⟨x, [], rfl, rfl, rfl⟩, rfl⟩)
  | false =>
    have lost := (steps (fun s => s.phase = .lost)).lostUsb usbLost_keeps m
    exact wp_mono (fun _ _ lost => .inr (.inl lost)) (lost _ rfl)

theorem loop_keeps (m : Mem) : Keeps parser Settled (commandLoop m) := by
  refine .loopFrom (B := fun s => s.phase = .fetching ∧ s.frame = []) (stable _) (fun _ settled _ => ⟨settled, rfl, rfl⟩)
    (fun m s top => ?_) (fun b => b.elim)
  exact wp_bind (wp_mono (fun _ _ settled _ rely => (stable Settled).rely rely settled) (command_settles m top.1 top.2))

/-- Every run of the master hears its frames to their ends and answers them. -/
theorem parser_answers {m : Mem} {tr : List MasterEvent} {p : Io Empty} (run : Run (commandLoop m) tr p) :
    parser.Along Answered fresh tr := by
  have shown := (loop_keeps m).run (.inl ⟨rfl, rfl⟩) run (parser.along_of_all (fun _ _ => trivial) fresh tr)
  refine parser.along_mono (fun s e own => ?_) shown
  cases e with
  | ext e => trivial
  | call o a => exact own trivial
  | iter l => exact own trivial

/-! ### A sync byte -/

/-- No byte comes, and USB stays. -/
def Silent : MasterEvent → Prop
  | .call .rxByte b => b = none
  | .call .usbPresent present => present = true
  | _ => True

instance : ∀ e, Decidable (Silent e)
  | .call .rxByte b => inferInstanceAs (Decidable (b = none))
  | .call .usbPresent present => inferInstanceAs (Decidable (present = true))
  | .call .readFailsafe _ | .call .clearFailsafe _ | .call .startTimer _ | .call (.busWrite _ _) _
  | .call (.busRead _) _ | .call (.sendByte _) _ | .iter _ | .ext _ => isTrue trivial

/-- The sync bytes up to the one that is answered at the top. -/
def wanted (s : Parse) : ℕ := if s.phase = .serving then size s.frame - s.frame.length + 1 else 1

theorem Parse.Awaits.not_complete {s : Parse} (awaits : s.Awaits) : ¬ s.Complete := by
  rintro ⟨phase, length⟩
  rcases awaits with ⟨fetching, -⟩ | ⟨-, -, short⟩
  · rw [fetching] at phase
    contradiction
  · omega

theorem wanted_pos (s : Parse) : 1 ≤ wanted s := by
  unfold wanted
  split <;> omega

/-- No frame is longer than that of the display. -/
theorem wanted_le {s : Parse} (awaits : s.Awaits) : wanted s ≤ 19 := by
  unfold wanted
  rcases awaits with ⟨fetching, -⟩ | ⟨serving, begun, -⟩
  · rw [if_neg (by rw [fetching]; decide)]
    decide
  · obtain ⟨x, rest, frame⟩ := List.exists_cons_of_ne_nil begun
    have longest := params_le (toByte x)
    rw [if_pos serving, frame, size, List.length_cons]
    omega

/-- A master that waits does nothing before a byte comes. -/
theorem Parse.Awaits.same {s : Parse} {e : MasterEvent} (awaits : s.Awaits) (answered : Answered s e)
    (silent : Silent e) : s.next e = s := by
  cases e with
  | ext e => rfl
  | iter l =>
    cases l with
    | command =>
      obtain ⟨phase, frame, replies⟩ := s
      rcases answered with ⟨rfl, rfl⟩ | lost | done
      · rfl
      · rcases awaits with ⟨fetching, -⟩ | ⟨serving, -⟩
        · rw [fetching] at lost
          contradiction
        · rw [serving] at lost
          contradiction
      · exact absurd done.1 awaits.not_complete
    | waitchar | usbLost => rfl
  | call o a =>
    cases o with
    | rxByte =>
      cases silent
      rfl
    | usbPresent =>
      cases silent
      exact next_present awaits
    | sendByte i => exact absurd answered.1 awaits.not_complete
    | readFailsafe | clearFailsafe | startTimer | busWrite | busRead => rfl

theorem Parse.Awaits.after {s : Parse} {tr : List MasterEvent} (awaits : s.Awaits) (answered : parser.Along Answered s tr)
    (silent : ∀ e ∈ tr, Silent e) : parser.after s tr = s := by
  induction tr with
  | nil => rfl
  | cons e tr ih =>
    have same : parser.next s e = s := awaits.same answered.1 (silent e (.head _))
    have later := answered.2
    rw [same] at later
    rw [Monitor.after, List.foldl_cons, same]
    exact ih later (fun d member => silent d (.tail _ member))

/-- What comes of a sync byte that was the first of `n` that are wanted: it is one more byte of a
    frame; or it is the first of a command, or the last of a frame, which is answered by one byte. -/
inductive Taken : ℕ → Parse → Prop where
  | swallowed {s : Parse} (awaits : s.Awaits) (serving : s.phase = .serving) (silence : s.replies = []) :
      Taken (wanted s + 1) s
  | opening : Taken 1 ⟨.fetching, [255], []⟩
  | busy {n : ℕ} {s : Parse} (few : n ≤ 2) (complete : s.Complete) (last : s.frame.getLast? = some 255)
      (one : s.replies.length ≤ 1) (top : n = 1 → s.frame = [255] ∧ ∀ b ∈ s.replies, b = hostReplySuccess) : Taken n s
  | ended {n : ℕ} {s : Parse} (few : n ≤ 2) (phase : s.phase = .fetching) (frame : s.frame = [])
      (one : s.replies.length = 1) (top : n = 1 → ∀ b ∈ s.replies, b = hostReplySuccess) : Taken n s

theorem Parse.Awaits.hears {s : Parse} (awaits : s.Awaits) : Taken (wanted s) (s.hear 255) := by
  obtain ⟨phase, frame, replies⟩ := s
  rcases awaits with ⟨rfl, rfl⟩ | ⟨rfl, begun, short⟩
  · exact .opening
  · obtain ⟨x, rest, rfl⟩ := List.exists_cons_of_ne_nil begun
    simp only [size, List.length_cons] at short
    have fewer : wanted ⟨.serving, x :: rest, replies⟩ = params (toByte x) - rest.length + 1 := by
      simp [wanted, size]
    by_cases more : rest.length + 1 < params (toByte x)
    · have after : wanted (Parse.hear ⟨.serving, x :: rest, replies⟩ 255) + 1 = params (toByte x) - rest.length + 1 := by
        simp only [wanted, Parse.hear, List.cons_append, size, List.length_cons, List.length_append, List.length_nil,
          if_true]
        omega
      rw [fewer, ← after]
      refine .swallowed (.inr ⟨rfl, by simp [Parse.hear], ?_⟩) rfl rfl
      simp only [Parse.hear, List.cons_append, size, List.length_cons, List.length_append, List.length_nil]
      omega
    · refine .busy (by omega) ⟨rfl, ?_⟩ List.getLast?_concat (Nat.zero_le 1) (fun one => by omega)
      simp only [Parse.hear, List.cons_append, size, List.length_cons, List.length_append, List.length_nil]
      omega

/-- What the master says and does next. -/
theorem Taken.step {n : ℕ} {s : Parse} {e : MasterEvent} (taken : Taken n s) (answered : Answered s e)
    (silent : Silent e) : Taken n (s.next e) := by
  cases taken with
  | swallowed awaits serving silence =>
    rw [awaits.same answered silent]
    exact .swallowed awaits serving silence
  | ended few phase frame one top =>
    have awaits : s.Awaits := .inl ⟨phase, frame⟩
    rw [awaits.same answered silent]
    exact .ended few phase frame one top
  | opening =>
    cases e with
    | ext e => exact .opening
    | iter l =>
      cases l with
      | command => rcases answered with ⟨-, none⟩ | lost | ⟨⟨serving, -⟩, -⟩ <;> contradiction
      | waitchar | usbLost => exact .opening
    | call o a =>
      cases o with
      | rxByte => rcases answered with ⟨-, none⟩ | ⟨serving, -⟩ <;> contradiction
      | usbPresent =>
        cases silent
        exact .busy (by decide) ⟨rfl, rfl⟩ rfl (Nat.zero_le 1) (fun _ => ⟨rfl, List.forall_mem_nil _⟩)
      | sendByte i => exact absurd answered.1.1 (by decide)
      | readFailsafe | clearFailsafe | startTimer | busWrite | busRead => exact .opening
  | busy few complete last one top =>
    cases e with
    | ext e => exact .busy few complete last one top
    | iter l =>
      cases l with
      | command =>
        rcases answered with ⟨fetching, -⟩ | lost | done
        · exact absurd (fetching.symm.trans complete.1) (by decide)
        · exact absurd (lost.symm.trans complete.1) (by decide)
        · have spoken := List.length_pos_iff.mpr (done.2 last)
          exact .ended few rfl rfl (by show s.replies.length = 1; omega) (fun same => (top same).2)
      | waitchar | usbLost => exact .busy few complete last one top
    | call o a =>
      cases o with
      | rxByte => exact absurd complete (Parse.Awaits.not_complete answered)
      | usbPresent =>
        cases silent
        have here : s.next (.call .usbPresent true) = s := by
          obtain ⟨phase, frame, replies⟩ := s
          cases complete.1
          rfl
        rw [here]
        exact .busy few complete last one top
      | sendByte i =>
        have quiet := answered.2.1 last
        refine .busy few complete last (by simp [Parse.next, quiet]) (fun same => ⟨(top same).1, ?_⟩)
        simpa [Parse.next, quiet] using answered.2.2 (top same).1
      | readFailsafe | clearFailsafe | startTimer | busWrite | busRead => exact .busy few complete last one top

/-- A master that waits again has swallowed the byte, or it is at the top and has answered it. -/
theorem Taken.settles {n : ℕ} {s : Parse} (taken : Taken n s) (awaits : s.Awaits) :
    (s.replies = [] ∧ n = wanted s + 1) ∨
      ∃ b, s.replies = [b] ∧ n ≤ 2 ∧ wanted s = 1 ∧ (n = 1 → b = hostReplySuccess) := by
  cases taken with
  | swallowed _ _ silence => exact .inl ⟨silence, rfl⟩
  | opening => rcases awaits with ⟨-, none⟩ | ⟨serving, -⟩ <;> contradiction
  | busy few complete => exact absurd complete awaits.not_complete
  | ended few phase frame one top =>
    obtain ⟨b, reply⟩ := List.length_eq_one_iff.mp one
    refine .inr ⟨b, reply, few, ?_, fun same => top same b (by simp [reply])⟩
    rw [wanted, if_neg (by rw [phase]; decide)]

theorem Taken.few {n : ℕ} {s : Parse} (taken : Taken n s) : s.replies.length ≤ 1 := by
  cases taken with
  | swallowed _ _ silence => simp [silence]
  | opening => exact Nat.zero_le 1
  | busy _ _ _ one => exact one
  | ended _ _ _ one => exact Nat.le_of_eq one

end Tortuga.HostParser
