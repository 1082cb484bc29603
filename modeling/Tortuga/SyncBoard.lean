import Tortuga.HostParser
import Tortuga.SensorApi

/-!
`syncBoard` of the host (`sensorapi.c`) on a serial line to the master. The two run side by
side: what the master shows comes at any time between the steps of `syncBoard`.
-/
namespace Tortuga.SyncBoard
open Tortuga.Programs Tortuga.Programs.Prog Tortuga.BusCodes Tortuga.Master Tortuga.Commands Tortuga.HostParser
open Tortuga.SensorApi (sbOk sbError)
set_option linter.unusedSimpArgs false

/-! ### The host -/

inductive Op where
  /-- `poll` for input. -/
  | hasData (timeout : ℕ)
  /-- `read(fd, b, 1)`. -/
  | read
  | write (b : Byte)
  | usleep (usec : ℕ)
  deriving DecidableEq, Repr

/-- A read gets a byte, or does not return 1. -/
abbrev Ans : Op → Type
  | .hasData _ => Bool
  | .read => Option Byte
  | .write _ => Unit
  | .usleep _ => Unit

/-- `while(hasData(fd, 0))`. -/
inductive Loop where
  | eat
  deriving DecidableEq, Repr

abbrev Host := Prog Op Ans Loop

/-- An event of the host, or one of the master. -/
abbrev HostEvent := Event Op Ans Loop MasterEvent

abbrev ioTimeout : ℕ := 100
abbrev maxSyncAttempts : ℕ := 20

def hasData (timeout : ℕ) : Host Bool := .ask (.hasData timeout) .ret
def writeData (b : Byte) : Host Unit := .ask (.write b) .ret
def miniSleep : Host Unit := .ask (.usleep (20 * 1000)) .ret

/-- `readData(fd, b, 1)`: what `b[0]` holds then. -/
def readData (b : Byte) : Host Byte := do
  if ← hasData ioTimeout then .ask .read fun x => .ret (x.getD b)
  else pure b

/-- "Eat the incoming buffer": whether every read gets its byte. -/
def eatInput : Host Bool :=
  .loop .eat () (fun _ => .ask (.hasData 0) fun ready =>
    if ready then .ask .read fun x => .ret (if x.isSome then .inl () else .inr false)
    else .ret (.inr true)) .ret

/-- `b[0] = 0; if(hasData(fd, IO_TIMEOUT)) readData(fd, b, 1)`. -/
def reply : Host Byte := do
  if ← hasData ioTimeout then readData 0 else pure 0

/-- The loop of `syncBoard`, with `left` attempts to go. -/
def attempts : ℕ → Host Int
  | 0 => pure sbError
  | left + 1 => do
    writeData hostCmdSync
    miniSleep
    let b ← reply
    miniSleep
    let ready ← hasData ioTimeout
    if !ready && b = hostReplySuccess then pure sbOk else attempts left

def syncBoard : Host Int := do
  if ← eatInput then attempts maxSyncAttempts else pure sbError

/-! ### The line -/

/-- What the master has shown, and the bytes on their way; and the steps and attempts that
    `syncBoard` may still take. -/
structure Line where
  past : List MasterEvent
  toMaster : List Byte
  toHost : List Byte
  steps : ℕ
  tries : ℕ

/-- A byte that the master takes leaves the line. -/
def taken (toMaster : List Byte) : MasterEvent → List Byte
  | .call .rxByte _ => toMaster.tail
  | _ => toMaster

def said : MasterEvent → List Byte
  | .call (.sendByte i) _ => [i]
  | _ => []

def Line.next (s : Line) : HostEvent → Line
  | .ext e => { s with past := s.past ++ [e], toMaster := taken s.toMaster e, toHost := s.toHost ++ said e }
  | .call .read _ => { s with toHost := s.toHost.tail, steps := s.steps - 1 }
  | .call (.write b) _ =>
    { s with toMaster := s.toMaster ++ [b], steps := s.steps - 1, tries := s.tries - 1 }
  | _ => { s with steps := s.steps - 1 }

/-- No byte for the master is lost, and USB stays. -/
def Carries (toMaster : List Byte) : MasterEvent → Prop
  | .call .rxByte b => b = toMaster.head?
  | .call .usbPresent present => present = true
  | _ => True

/-- The master looks for a byte. -/
def looks : Io Empty → Bool
  | .ask .rxByte _ => true
  | _ => false

/-- The master has come to look for a byte, and none has come since. -/
def AwaitsByte (m : Mem) (past : List MasterEvent) : Prop :=
  ∃ n ≤ past.length, (follow (commandLoop m) (past.take n)).any looks = true ∧ ∀ e ∈ past.drop n, Silent e

/-- The events that the line allows. What the master shows is a run of it. A `poll` that runs
    into its timeout finds the line empty, and the master with nothing left to do but wait for
    a byte. -/
def Allowed (m : Mem) (s : Line) : HostEvent → Prop
  | .ext e => (follow (commandLoop m) (s.past ++ [e])).isSome = true ∧ Carries s.toMaster e
  | .call (.hasData _) true => s.toHost ≠ []
  | .call (.hasData timeout) false =>
    s.toHost = [] ∧ (timeout = 0 ∨ (s.toMaster = [] ∧ AwaitsByte m s.past))
  | .call .read b => b = s.toHost.head?
  | _ => True

instance (toMaster : List Byte) : ∀ e, Decidable (Carries toMaster e)
  | .call .rxByte b => inferInstanceAs (Decidable (b = toMaster.head?))
  | .call .usbPresent present => inferInstanceAs (Decidable (present = true))
  | .call .readFailsafe _ | .call .clearFailsafe _ | .call .startTimer _ | .call (.busWrite _ _) _
  | .call (.busRead _) _ | .call (.sendByte _) _ | .iter _ | .ext _ => isTrue trivial

instance (m : Mem) (past : List MasterEvent) : Decidable (AwaitsByte m past) :=
  inferInstanceAs (Decidable (∃ n, n ≤ past.length ∧
    ((follow (commandLoop m) (past.take n)).any looks = true ∧ ∀ e ∈ past.drop n, Silent e)))

instance (m : Mem) (s : Line) : ∀ e, Decidable (Allowed m s e)
  | .ext e => inferInstanceAs (Decidable ((follow (commandLoop m) (s.past ++ [e])).isSome = true ∧ Carries s.toMaster e))
  | .call (.hasData _) true => inferInstanceAs (Decidable (s.toHost ≠ []))
  | .call (.hasData timeout) false =>
    inferInstanceAs (Decidable (s.toHost = [] ∧ (timeout = 0 ∨ (s.toMaster = [] ∧ AwaitsByte m s.past))))
  | .call .read b => inferInstanceAs (Decidable (b = s.toHost.head?))
  | .call (.write _) _ | .call (.usleep _) _ | .iter _ => isTrue trivial

/-- A step and an attempt are left for each that is taken. -/
def Due (s : Line) : HostEvent → Prop
  | .ext _ => True
  | .call (.write _) _ => 0 < s.steps ∧ 0 < s.tries
  | _ => 0 < s.steps

def line (m : Mem) : Monitor Op Ans Loop MasterEvent Line where
  next := Line.next
  allows := Allowed m
  demands := Due
  faults _ := False

def heardSince (heard : List Byte) : MasterEvent → List Byte
  | .iter .command => []
  | .call .rxByte (some b) => heard ++ [b]
  | _ => heard

/-- The bytes that the master has taken since it was last at the top of its loop. -/
def pending (past : List MasterEvent) : List Byte := past.foldl heardSince []

/-- Nothing is on its way, and the master waits for the first byte of a command. -/
structure AtTop (m : Mem) (s : Line) : Prop where
  toMaster : s.toMaster = []
  toHost : s.toHost = []
  waits : AwaitsByte m s.past
  pending : pending s.past = []

/-! ### What the master does on the line -/

/-- The master as its parser sees it. -/
def Line.parse (s : Line) : Parse := parser.after Parse.fresh s.past

/-- The master has come to where it is. -/
def Known (m : Mem) (s : Line) : Prop := (follow (commandLoop m) s.past).isSome = true

theorem parse_next (s : Line) (e : MasterEvent) : (s.next (.ext e)).parse = s.parse.next e := by
  simp only [Line.parse, Line.next, Monitor.after, List.foldl_append, List.foldl_cons, List.foldl_nil]
  rfl

/-- The master takes the next byte, or the line stays as it is. -/
theorem Carries.cases {toMaster : List Byte} {e : MasterEvent} (carries : Carries toMaster e) :
    e = .call .rxByte toMaster.head? ∨ (Silent e ∧ taken toMaster e = toMaster) := by
  cases e with
  | ext e => exact .inr ⟨trivial, rfl⟩
  | iter l => exact .inr ⟨trivial, rfl⟩
  | call o a =>
    cases o with
    | rxByte =>
      cases carries
      exact .inl rfl
    | usbPresent => exact .inr ⟨carries, rfl⟩
    | readFailsafe | clearFailsafe | startTimer | busWrite | busRead | sendByte => exact .inr ⟨trivial, rfl⟩

theorem Carries.silent {e : MasterEvent} (carries : Carries [] e) : Silent e ∧ taken [] e = [] := by
  rcases carries.cases with rfl | quiet
  · exact ⟨rfl, rfl⟩
  · exact quiet

/-- What the master says is what its parser has seen it say. -/
theorem replies_next {e : MasterEvent} (silent : Silent e) (p : Parse) : (p.next e).replies = p.replies ++ said e := by
  obtain ⟨phase, frame, replies⟩ := p
  have nothing : replies = replies ++ [] := (List.append_nil replies).symm
  cases e with
  | ext e => exact nothing
  | iter l => cases l <;> exact nothing
  | call o a =>
    cases o with
    | rxByte =>
      cases silent
      exact nothing
    | usbPresent =>
      cases silent
      cases phase <;> cases frame <;> exact nothing
    | sendByte i => rfl
    | readFailsafe | clearFailsafe | startTimer | busWrite | busRead => exact nothing

theorem looks_ask {p : Io Empty} (look : looks p = true) : ∃ k, p = .ask .rxByte k := by
  cases p with
  | ask o k =>
    cases o with
    | rxByte => exact ⟨k, rfl⟩
    | usbPresent | readFailsafe | clearFailsafe | startTimer | busWrite | busRead | sendByte => contradiction
  | ret | fault | loop => contradiction

section
variable {m : Mem} {s : Line} {e : MasterEvent}

theorem Known.next (allowed : Allowed m s (.ext e)) : Known m (s.next (.ext e)) := allowed.1

theorem Known.answered (known : Known m s) : parser.Along Parse.Answered Parse.fresh s.past := by
  obtain ⟨p, run⟩ := run_of_follow (commandLoop m) s.past known
  exact parser_answers run

theorem answered_next (allowed : Allowed m s (.ext e)) : Parse.Answered s.parse e :=
  parser.along_at (Known.next allowed).answered

/-- The parser of a master that awaits a byte does. -/
theorem AwaitsByte.parse (known : Known m s) (waits : AwaitsByte m s.past) : s.parse.Awaits := by
  obtain ⟨n, -, found, silent⟩ := waits
  obtain ⟨p, followed, look⟩ := (Option.any_eq_true _ _).mp found
  obtain ⟨k, rfl⟩ := looks_ask look
  have run : Run (commandLoop m) (s.past.take n ++ [.call Master.Op.rxByte none]) (k none) :=
    (follow_run _ _ _ followed).append (.step (.ask Master.Op.rxByte k none) (.done _))
  have here : (parser.after Parse.fresh (s.past.take n)).Awaits := parser.along_at (parser_answers run)
  have along := known.answered
  rw [← List.take_append_drop n s.past, parser.along_append] at along
  rw [Line.parse, ← List.take_append_drop n s.past, parser.after_append, here.after along.2 silent]
  exact here

theorem AwaitsByte.next (waits : AwaitsByte m s.past) (silent : Silent e) : AwaitsByte m (s.next (.ext e)).past := by
  obtain ⟨n, low, found, quiet⟩ := waits
  refine ⟨n, ?_, ?_, ?_⟩
  · simp only [Line.next, List.length_append]
    omega
  · rwa [Line.next, List.take_append_of_le_length low]
  · rw [Line.next, List.drop_append_of_le_length low]
    simpa [or_imp, forall_and] using And.intro quiet silent

/-- Steps and attempts that `syncBoard` may still take. -/
def Left (k j : ℕ) (s : Line) : Prop := k ≤ s.steps ∧ j ≤ s.tries

theorem Left.due {k j : ℕ} {s : Line} (left : Left (k + 1) j s) : 0 < s.steps :=
  Nat.lt_of_lt_of_le (Nat.zero_lt_succ k) left.1

theorem Left.spend {k j : ℕ} {s : Line} (left : Left (k + 1) j s) : k ≤ s.steps - 1 := Nat.le_sub_one_of_lt left.1

/-! ### A line at rest -/

/-- Nothing is on its way to the master, which waits for a byte; the host has not read `held`. -/
structure Rest (m : Mem) (n : ℕ) (held : List Byte) (s : Line) : Prop where
  known : Known m s
  toMaster : s.toMaster = []
  toHost : s.toHost = held
  awaits : s.parse.Awaits
  wanted : wanted s.parse = n

theorem awaits_says {p : Parse} (awaits : p.Awaits) (answered : Parse.Answered p e) : said e = [] := by
  cases e with
  | ext e => rfl
  | iter l => rfl
  | call o a =>
    cases o with
    | sendByte i => exact absurd answered.1 awaits.not_complete
    | rxByte | usbPresent | readFailsafe | clearFailsafe | startTimer | busWrite | busRead => rfl

theorem Rest.silent {n : ℕ} {held : List Byte} (rest : Rest m n held s) (allowed : Allowed m s (.ext e)) : Silent e := by
  have carries := allowed.2
  rw [rest.toMaster] at carries
  exact carries.silent.1

theorem Rest.next {n : ℕ} {held : List Byte} (rest : Rest m n held s) (allowed : Allowed m s (.ext e)) :
    Rest m n held (s.next (.ext e)) := by
  have answered := answered_next allowed
  have carries := allowed.2
  rw [rest.toMaster] at carries
  have same := rest.awaits.same answered (rest.silent allowed)
  refine ⟨allowed.1, ?_, ?_, ?_, ?_⟩
  · rw [Line.next, rest.toMaster, carries.silent.2]
  · rw [Line.next, awaits_says rest.awaits answered, rest.toHost, List.append_nil]
  · rw [parse_next, same]
    exact rest.awaits
  · rw [parse_next, same]
    exact rest.wanted

theorem Rest.spend {n : ℕ} {held : List Byte} (rest : Rest m n held s) (i : ℕ) : Rest m n held { s with steps := i } :=
  ⟨rest.known, rest.toMaster, rest.toHost, rest.awaits, rest.wanted⟩

/-! ### A sync byte on the line -/

/-- A sync byte that was the first of `n` that are wanted, and what the host has read since. -/
structure Sent (m : Mem) (n : ℕ) (got : List Byte) (s : Line) : Prop where
  known : Known m s
  line : (s.toMaster = [hostCmdSync] ∧ got ++ s.toHost = [] ∧ s.parse.Awaits ∧ wanted s.parse = n) ∨
    (s.toMaster = [] ∧ got ++ s.toHost = s.parse.replies ∧ Taken n s.parse)

theorem Sent.next {n : ℕ} {got : List Byte} (sent : Sent m n got s) (allowed : Allowed m s (.ext e)) :
    Sent m n got (s.next (.ext e)) := by
  have answered := answered_next allowed
  have carries := allowed.2
  refine ⟨allowed.1, ?_⟩
  rcases sent.line with ⟨flying, empty, awaits, count⟩ | ⟨landed, heard, took⟩
  · obtain ⟨rfl, none⟩ := List.append_eq_nil_iff.mp empty
    rw [flying] at carries
    rcases carries.cases with rfl | ⟨silent, stays⟩
    · -- The master takes the byte.
      refine .inr ⟨?_, ?_, ?_⟩
      · rw [Line.next, flying]
        rfl
      · rw [parse_next, Line.next, none]
        rfl
      · rw [parse_next, ← count]
        exact awaits.hears
    · refine .inl ⟨by rw [Line.next, flying, stays], ?_, ?_⟩
      · rw [Line.next, none, awaits_says awaits answered]
        rfl
      · rw [parse_next, awaits.same answered silent]
        exact ⟨awaits, count⟩
  · rw [landed] at carries
    obtain ⟨silent, stays⟩ := carries.silent
    refine .inr ⟨by rw [Line.next, landed, stays], ?_, ?_⟩
    · rw [parse_next, replies_next silent, ← heard, Line.next, List.append_assoc]
    · rw [parse_next]
      exact took.step answered silent

theorem Sent.spend {n : ℕ} {got : List Byte} (sent : Sent m n got s) (i : ℕ) : Sent m n got { s with steps := i } :=
  ⟨sent.known, sent.line⟩

/-- A master that waits with nothing for the host left has swallowed the byte, or is at the top
    with its answer read. -/
theorem Sent.settles {n : ℕ} {got : List Byte} (sent : Sent m n got s) (landed : s.toMaster = []) (empty : s.toHost = [])
    (waits : AwaitsByte m s.past) :
    (got = [] ∧ ∃ k, n = k + 1 ∧ Rest m k [] s) ∨
      ∃ b, got = [b] ∧ n ≤ 2 ∧ Rest m 1 [] s ∧ (n = 1 → b = hostReplySuccess) := by
  have awaits := waits.parse sent.known
  rcases sent.line with ⟨flying, -⟩ | ⟨-, heard, took⟩
  · rw [landed] at flying
    contradiction
  · rw [empty, List.append_nil] at heard
    rcases took.settles awaits with ⟨silence, count⟩ | ⟨b, reply, few, one, top⟩
    · exact .inl ⟨heard.trans silence, _, count, sent.known, landed, empty, awaits, rfl⟩
    · exact .inr ⟨b, heard.trans reply, few, ⟨sent.known, landed, empty, awaits, one⟩, top⟩

/-- There is at most one byte for a sync byte. -/
theorem Sent.few {n : ℕ} {got : List Byte} (sent : Sent m n got s) : (got ++ s.toHost).length ≤ 1 := by
  rcases sent.line with ⟨-, empty, -⟩ | ⟨-, heard, took⟩
  · rw [empty]
    exact Nat.zero_le 1
  · rw [heard]
    exact took.few

/-- The host reads the byte. -/
theorem Sent.read {n : ℕ} (sent : Sent m n [] s) (ready : s.toHost ≠ []) :
    ∃ b, s.toHost = [b] ∧ Sent m n [b] (s.next (.call .read (some b))) := by
  obtain ⟨b, more, held⟩ := List.exists_cons_of_ne_nil ready
  have few := sent.few
  rw [held, List.nil_append, List.length_cons] at few
  have none : more = [] := List.length_eq_zero_iff.mp (by omega)
  subst none
  refine ⟨b, held, sent.known, .inr ?_⟩
  rcases sent.line with ⟨-, empty, -⟩ | ⟨landed, heard, took⟩
  · exact absurd empty ready
  · refine ⟨landed, ?_, took⟩
    rw [Line.next, held]
    rw [held] at heard
    exact heard

end

/-! ### The steps of an attempt -/

section
variable {m : Mem} {n k j : ℕ}

theorem left_stable : Stable (line m) (Left k j) := fun _ _ left _ => left
theorem rest_stable (held : List Byte) : Stable (line m) (Rest m n held) := fun _ _ rest allowed => rest.next allowed
theorem sent_stable (got : List Byte) : Stable (line m) (Sent m n got) := fun _ _ sent allowed => sent.next allowed

theorem ready_stable : Stable (line m) (fun s => s.toHost ≠ []) := by
  intro s e ready _
  simp [line, Line.next, ready]

/-- The line is at rest, and the master has come to look for a byte. -/
def Waiting (m : Mem) (n : ℕ) (s : Line) : Prop := Rest m n [] s ∧ AwaitsByte m s.past

theorem waiting_stable : Stable (line m) (Waiting m n) :=
  fun _ _ inv allowed => ⟨inv.1.next allowed, inv.2.next (inv.1.silent allowed)⟩

/-- What `b[0]` holds after a sync byte: 0 when the byte is swallowed, and else the answer. -/
def Heard (m : Mem) (n : ℕ) (b : Byte) (s : Line) : Prop :=
  (b = 0 ∧ ∃ k, n = k + 1 ∧ Rest m k [] s) ∨ Sent m n [b] s

theorem heard_stable (b : Byte) : Stable (line m) (Heard m n b) := by
  rintro s e (⟨zero, k, count, rest⟩ | sent) allowed
  · exact .inl ⟨zero, k, count, rest.next allowed⟩
  · exact .inr (sent.next allowed)

theorem sleeps {I : Line → Prop} (stable : Stable (line m) I) (ignores : ∀ s i, I s → I { s with steps := i }) :
    Leads (line m) (fun s => I s ∧ Left (k + 1) j s) (fun s => I s ∧ Left k j s) miniSleep := by
  intro s inv
  refine wp_ask (stable.and left_stable) inv (fun t _ inv _ => ⟨inv.2.due, fun u rely => ?_⟩)
  exact (stable.and left_stable).rely rely ⟨ignores t _ inv.1, inv.2.spend, inv.2.2⟩

theorem writes_sync : Leads (line m) (fun s => Rest m n [] s ∧ Left (k + 1) (j + 1) s)
    (fun s => Sent m n [] s ∧ Left k j s) (writeData hostCmdSync) := by
  intro s inv
  refine wp_ask ((rest_stable []).and left_stable) inv (fun t _ inv _ => ⟨?_, fun u rely => ?_⟩)
  · exact ⟨inv.2.due, Nat.lt_of_lt_of_le (Nat.zero_lt_succ j) inv.2.2⟩
  · have flying : t.toMaster ++ [hostCmdSync] = [hostCmdSync] := by rw [inv.1.toMaster, List.nil_append]
    have sent : Sent m n [] (t.next (.call (.write hostCmdSync) ())) :=
      ⟨inv.1.known, .inl ⟨flying, inv.1.toHost, inv.1.awaits, inv.1.wanted⟩⟩
    exact ((sent_stable []).and left_stable).rely rely ⟨sent, inv.2.spend, Nat.le_sub_one_of_lt inv.2.2⟩

/-- The answer to a sync byte is read when there is one. -/
theorem reply_hears {s : Line} (inv : Sent m n [] s ∧ Left (k + 3) j s) :
    wp (line m) reply (fun b t => Heard m n b t ∧ Left k j t) s := by
  refine wp_ask ((sent_stable []).and left_stable) inv (fun t ready inv allowed => ⟨inv.2.due, ?_⟩)
  have inv' : Sent m n [] (t.next (.call (.hasData ioTimeout) ready)) ∧
    Left (k + 2) j (t.next (.call (.hasData ioTimeout) ready)) := ⟨inv.1.spend _, inv.2.spend, inv.2.2⟩
  cases ready with
  | false =>
    obtain ⟨empty, soon | ⟨landed, waits⟩⟩ := allowed
    · exact absurd soon (by decide)
    rcases inv.1.settles landed empty waits with ⟨-, w, count, rest⟩ | ⟨b, none, -⟩
    · intro u rely
      obtain ⟨rest, left⟩ := ((rest_stable []).and left_stable).rely rely ⟨rest.spend _, inv'.2⟩
      exact ⟨.inl ⟨rfl, w, count, rest⟩, Nat.le_of_add_right_le left.1, left.2⟩
    · contradiction
  | true =>
    refine wp_ask (((sent_stable []).and left_stable).and ready_stable) ⟨inv', allowed⟩
      (fun u ready inv allowed => ⟨inv.1.2.due, ?_⟩)
    cases ready with
    | false => exact absurd allowed.1 inv.2
    | true =>
      have inv' : (Sent m n [] (u.next (.call (.hasData ioTimeout) true)) ∧
          Left (k + 1) j (u.next (.call (.hasData ioTimeout) true))) ∧ u.toHost ≠ [] :=
        ⟨⟨inv.1.1.spend _, inv.1.2.spend, inv.1.2.2⟩, inv.2⟩
      refine wp_ask (((sent_stable []).and left_stable).and ready_stable) inv' (fun v x inv allowed => ⟨inv.1.2.due, ?_⟩)
      obtain ⟨b, held, read⟩ := inv.1.1.read inv.2
      have got : x = some b := allowed.trans (by rw [held]; rfl)
      subst got
      exact fun w rely => ((heard_stable b).and left_stable).rely rely ⟨.inr read, inv.1.2.spend, inv.1.2.2⟩

theorem Heard.spend {b : Byte} {s : Line} (heard : Heard m n b s) (i : ℕ) : Heard m n b { s with steps := i } := by
  rcases heard with ⟨zero, w, count, rest⟩ | sent
  · exact .inl ⟨zero, w, count, rest.spend i⟩
  · exact .inr (sent.spend i)

theorem Heard.empty {b : Byte} {s : Line} (heard : Heard m n b s) : s.toHost = [] := by
  rcases heard with ⟨-, w, -, rest⟩ | sent
  · exact rest.toHost
  · have few := sent.few
    rw [List.length_append, List.length_singleton] at few
    exact List.length_eq_zero_iff.mp (by omega)

/-- What is known when the host has found nothing more after a sync byte. -/
def Judged (m : Mem) (n : ℕ) (b : Byte) (s : Line) : Prop :=
  (b = 0 ∧ ∃ w, n = w + 1 ∧ Waiting m w s) ∨ (n ≤ 2 ∧ Waiting m 1 s ∧ (n = 1 → b = hostReplySuccess))

theorem judged_stable (b : Byte) : Stable (line m) (Judged m n b) := by
  rintro s e (⟨zero, w, count, waiting⟩ | ⟨few, waiting, top⟩) allowed
  · exact .inl ⟨zero, w, count, waiting_stable s e waiting allowed⟩
  · exact .inr ⟨few, waiting_stable s e waiting allowed, top⟩

theorem Heard.judged {b : Byte} {s : Line} (heard : Heard m n b s) (landed : s.toMaster = [])
    (waits : AwaitsByte m s.past) : Judged m n b s := by
  have empty := heard.empty
  rcases heard with ⟨zero, w, count, rest⟩ | sent
  · exact .inl ⟨zero, w, count, rest, waits⟩
  · rcases sent.settles landed empty waits with ⟨none, -⟩ | ⟨c, same, few, rest, top⟩
    · contradiction
    · cases same
      exact .inr ⟨few, ⟨rest, waits⟩, top⟩

/-- The host finds nothing more, and the line is at rest. -/
theorem looks_again {b : Byte} {s : Line} (inv : Heard m n b s ∧ Left (k + 1) j s) :
    wp (line m) (hasData ioTimeout) (fun ready t => ready = false ∧ Judged m n b t ∧ Left k j t) s := by
  refine wp_ask ((heard_stable b).and left_stable) inv (fun t ready inv allowed => ⟨inv.2.due, ?_⟩)
  cases ready with
  | true => exact absurd inv.1.empty allowed
  | false =>
    obtain ⟨-, soon | ⟨landed, waits⟩⟩ := allowed
    · exact absurd soon (by decide)
    intro u rely
    refine ⟨rfl, ((judged_stable b).and left_stable).rely rely ⟨?_, inv.2.spend, inv.2.2⟩⟩
    rcases inv.1.judged landed waits with ⟨zero, w, count, rest, waits⟩ | ⟨few, ⟨rest, waits⟩, top⟩
    · exact .inl ⟨zero, w, count, rest.spend _, waits⟩
    · exact .inr ⟨few, ⟨rest.spend _, waits⟩, top⟩

/-- With an attempt for each sync byte that is wanted, `SB_OK` is returned at the top. -/
theorem attempts_sync (left : ℕ) {s : Line} (enough : n ≤ left) (inv : Rest m n [] s ∧ Left (7 * left) left s) :
    wp (line m) (attempts left) (fun r t => r = sbOk ∧ Waiting m 1 t) s := by
  have pos : 1 ≤ n := inv.1.wanted ▸ wanted_pos s.parse
  induction left generalizing n s with
  | zero => omega
  | succ left ih =>
    refine wp_bind (wp_mono (fun _ s inv => ?_) (writes_sync (k := 7 * left + 6) (j := left) s inv))
    have sent := sleeps (k := 7 * left + 5) (sent_stable []) (fun _ i sent => sent.spend i) s inv
    refine wp_bind (wp_mono (fun _ s inv => ?_) sent)
    refine wp_bind (wp_mono (fun b s inv => ?_) (reply_hears (k := 7 * left + 2) inv))
    have heard := sleeps (k := 7 * left + 1) (heard_stable b) (fun _ i heard => heard.spend i) s inv
    refine wp_bind (wp_mono (fun _ s inv => ?_) heard)
    refine wp_bind (wp_mono (fun ready s inv => ?_) (looks_again (k := 7 * left) inv))
    obtain ⟨rfl, ⟨rfl, w, count, waiting⟩ | ⟨few, waiting, top⟩, budget⟩ := inv
    · -- The byte is swallowed.
      exact ih (by omega) ⟨waiting.1, budget⟩ (waiting.1.wanted ▸ wanted_pos s.parse)
    · by_cases success : b = hostReplySuccess
      · subst success
        exact fun t rely => ⟨rfl, waiting_stable.rely rely waiting⟩
      · -- The byte ends a frame, and the next one is the first of a command.
        have again : (!false && decide (b = hostReplySuccess)) = false := by simp [success]
        show wp (line m) (if (!false && decide (b = hostReplySuccess)) = true then _ else _) _ s
        rw [again]
        have two : n ≠ 1 := fun one => success (top one)
        exact ih (by omega) ⟨waiting.1, budget⟩ (by decide)

/-! ### The whole of it -/

/-- The bytes that have come before are eaten. -/
theorem eatInput_rests {held : List Byte} {s : Line} (inv : Rest m n held s ∧ Left (3 * held.length + k + 2) j s) :
    wp (line m) eatInput (fun ok t => ok = true ∧ Rest m n [] t ∧ Left k j t) s := by
  have stable (held : List Byte) (i : ℕ) : Stable (line m) (fun s => Rest m n held s ∧ Left i j s) :=
    (rest_stable held).and left_stable
  intro t rely
  refine ⟨fun _ t => ∃ held, Rest m n held t ∧ Left (3 * held.length + k + 2) j t,
    ⟨held, (stable _ _).rely rely inv⟩, ?_⟩
  rintro - u ⟨held, inv⟩ v rely -
  have inv := (stable _ _).rely rely inv
  refine ⟨inv.2.due, ?_⟩
  have inv' : Rest m n held (v.next (.iter .eat)) ∧ Left (3 * held.length + k + 1) j (v.next (.iter .eat)) :=
    ⟨inv.1.spend _, inv.2.spend, inv.2.2⟩
  refine wp_ask (stable _ _) inv' (fun w ready inv allowed => ⟨inv.2.due, ?_⟩)
  have inv' : Rest m n held (w.next (.call (.hasData 0) ready)) ∧
    Left (3 * held.length + k) j (w.next (.call (.hasData 0) ready)) := ⟨inv.1.spend _, inv.2.spend, inv.2.2⟩
  cases ready with
  | false =>
    have none : held = [] := inv.1.toHost.symm.trans allowed.1
    subst none
    intro x rely y rely'
    have inv := (stable _ _).rely (rely.trans rely') inv'
    exact ⟨rfl, inv.1, by simpa using inv.2.1, inv.2.2⟩
  | true =>
    have more : held ≠ [] := inv.1.toHost ▸ allowed
    obtain ⟨b, rest, rfl⟩ := List.exists_cons_of_ne_nil more
    have count : 3 * (b :: rest).length + k = 3 * rest.length + k + 2 + 1 := by
      rw [List.length_cons]
      omega
    rw [count] at inv'
    refine wp_ask (stable _ _) inv' (fun x got inv allowed => ⟨inv.2.due, ?_⟩)
    have got : got = some b := allowed.trans (by rw [inv.1.toHost]; rfl)
    subst got
    have tail : Rest m n rest (x.next (.call .read (some b))) := by
      refine ⟨inv.1.known, inv.1.toMaster, ?_, inv.1.awaits, inv.1.wanted⟩
      rw [Line.next, inv.1.toHost, List.tail_cons]
    exact fun y rely => ⟨rest, (stable _ _).rely rely ⟨tail, inv.2.spend, inv.2.2⟩⟩

end

/-- `syncBoard` begins: `stale` has come from the master, and a step is left for each poll and
    read of the loop that eats it and for the seven of each attempt. -/
def start (past : List MasterEvent) (stale : List Byte) : Line where
  past := past
  toMaster := []
  toHost := stale
  steps := 3 * stale.length + 7 * maxSyncAttempts + 2
  tries := maxSyncAttempts

theorem syncBoard_sync {m : Mem} {past : List MasterEvent} {p : Io Empty} (reached : Run (commandLoop m) past p)
    (waits : AwaitsByte m past) (stale : List Byte) :
    wp (line m) syncBoard (fun r t => r = sbOk ∧ Waiting m 1 t) (start past stale) := by
  have known : Known m (start past stale) := by
    rw [Known, start, reached.followed]
    rfl
  have awaits := AwaitsByte.parse known waits
  have begins : Rest m (wanted (start past stale).parse) stale (start past stale) ∧
    Left (3 * stale.length + 7 * maxSyncAttempts + 2) maxSyncAttempts (start past stale) :=
    ⟨⟨known, rfl, rfl, awaits, rfl⟩, Nat.le_refl _, Nat.le_refl _⟩
  refine wp_bind (wp_mono (fun ok t inv => ?_) (eatInput_rests begins))
  obtain ⟨rfl, inv⟩ := inv
  exact attempts_sync maxSyncAttempts (Nat.le_succ_of_le (wanted_le awaits)) inv

/-- Without a byte since the top, the parser has none. -/
theorem pending_nil {past : List MasterEvent} (frame : (parser.after Parse.fresh past).frame = []) : pending past = [] := by
  have keeps (p : Parse) (heard : List Byte) (e : MasterEvent) (same : p.frame = [] → heard = []) :
      (p.next e).frame = [] → heardSince heard e = [] := by
    obtain ⟨phase, frame, replies⟩ := p
    cases e with
    | ext e => exact same
    | iter l =>
      cases l with
      | command => exact fun _ => rfl
      | waitchar | usbLost => exact same
    | call o a =>
      cases o with
      | rxByte =>
        cases a with
        | none => exact same
        | some b => exact fun none => absurd none (by simp [Parse.next, Parse.hear])
      | usbPresent =>
        intro none
        refine same ?_
        cases phase <;> cases frame <;> cases a <;> first | rfl | contradiction
      | readFailsafe | clearFailsafe | startTimer | busWrite | busRead | sendByte => exact same
  have whole (tr : List MasterEvent) (p : Parse) (heard : List Byte) (same : p.frame = [] → heard = []) :
      (parser.after p tr).frame = [] → tr.foldl heardSince heard = [] := by
    induction tr generalizing p heard with
    | nil => exact same
    | cons e tr ih => exact ih (p.next e) (heardSince heard e) (keeps p heard e same)
  exact whole past Parse.fresh [] (fun _ => rfl) frame

theorem Waiting.top {m : Mem} {s : Line} (waiting : Waiting m 1 s) : AtTop m s := by
  obtain ⟨rest, waits⟩ := waiting
  refine ⟨rest.toMaster, rest.toHost, waits, pending_nil ?_⟩
  have one := rest.wanted
  rcases rest.awaits with ⟨-, frame⟩ | ⟨serving, -, short⟩
  · exact frame
  · rw [wanted, if_pos serving] at one
    omega

/-- A step of the host. -/
def isStep : HostEvent → Bool
  | .ext _ => false
  | _ => true

/-- A sync byte. -/
def isTry : HostEvent → Bool
  | .call (.write _) _ => true
  | _ => false

theorem tries_due {m : Mem} {s : Line} {tr : List HostEvent}
    (due : (line m).Along (fun t e => e.Own → Due t e) s tr) : tr.countP isTry ≤ s.tries := by
  refine (line m).along_count isTry Line.tries (fun t e one => ?_) (fun t e other => ?_)
    ((line m).along_mono (fun t e own one => ?_) due)
  · cases e with
    | ext | iter => contradiction
    | call o a =>
      cases o with
      | write b => rfl
      | hasData | read | usleep => contradiction
  · cases e with
    | ext | iter => rfl
    | call o a =>
      cases o with
      | write b => contradiction
      | hasData | read | usleep => rfl
  · cases e with
    | ext | iter => contradiction
    | call o a =>
      cases o with
      | write b => exact (own trivial).2
      | hasData | read | usleep => contradiction

theorem steps_due {m : Mem} {s : Line} {tr : List HostEvent}
    (due : (line m).Along (fun t e => e.Own → Due t e) s tr) : tr.countP isStep ≤ s.steps := by
  refine (line m).along_count isStep Line.steps (fun t e one => ?_) (fun t e other => ?_)
    ((line m).along_mono (fun t e own one => ?_) due)
  · cases e with
    | ext => contradiction
    | iter => rfl
    | call o a => cases o <;> rfl
  · cases e with
    | ext => rfl
    | iter | call => contradiction
  · cases e with
    | ext => contradiction
    | iter => exact own trivial
    | call o a =>
      cases o with
      | write b => exact (own trivial).1
      | hasData | read | usleep => exact own trivial

/-- A request that the line answers, when the master has nothing left to do. -/
theorem answered {m : Mem} {s : Line} (landed : s.toMaster = []) (waits : AwaitsByte m s.past) (o : Op) :
    ∃ a, Allowed m s (.call o a) := by
  cases o with
  | hasData timeout =>
    by_cases empty : s.toHost = []
    · exact ⟨false, empty, .inr ⟨landed, waits⟩⟩
    · exact ⟨true, empty⟩
  | read => exact ⟨s.toHost.head?, rfl⟩
  | write b => exact ⟨(), trivial⟩
  | usleep usec => exact ⟨(), trivial⟩

/-- From every state in which the master waits for a byte, however much of a command it has,
    and whatever has come from it before, `syncBoard` takes at most 20 attempts and a bounded
    number of steps. When it returns, it returns `SB_OK` with the master at the top of its loop;
    until then it can go on as soon as the master has nothing left to do. -/
theorem sync_reaches_top (m : Mem) (past : List MasterEvent) (stale : List Byte) (tr : List HostEvent) (p : Io Empty)
    (q : Host Int) (reached : Run (commandLoop m) past p) (waits : AwaitsByte m past) (run : Run syncBoard tr q)
    (allowed : (line m).Along (Allowed m) (start past stale) tr) :
    tr.countP isTry ≤ maxSyncAttempts ∧ tr.countP isStep ≤ 3 * stale.length + 7 * maxSyncAttempts + 2 ∧
    (∀ r, q = .ret r → r = sbOk ∧ AtTop m ((line m).after (start past stale) tr)) ∧
    (((line m).after (start past stale) tr).toMaster = [] →
      AwaitsByte m ((line m).after (start past stale) tr).past →
      (∃ r, q = .ret r) ∨ ∃ e q', e.Own ∧ Allowed m ((line m).after (start past stale) tr) e ∧ Step q e q') := by
  obtain ⟨due, rest⟩ := wp_run run allowed (syncBoard_sync reached waits stale)
  refine ⟨tries_due due, steps_due due, ?_, fun landed waits => ?_⟩
  · rintro r rfl
    obtain ⟨ok, waiting⟩ := rest _ .refl
    exact ⟨ok, waiting.top⟩
  · cases q with
    | ret r => exact .inl ⟨r, rfl⟩
    | fault => exact (rest _ .refl).elim
    | ask o k =>
      obtain ⟨a, allowed⟩ := answered landed waits o
      exact .inr ⟨.call o a, k a, trivial, allowed, .ask o k a⟩
    | loop l x body k => exact .inr ⟨.iter l, unroll l body k x, trivial, trivial, .loop l x body k⟩

/-- The first byte of a ping has come. -/
def halfPing : List MasterEvent :=
  .iter .command :: arrive [hostCmdPing] ++ [.call .usbPresent true, .call .readFailsafe false, .iter .waitchar]

/-- The master takes a sync byte, answers it and is at the top. -/
def answers (between : List MasterEvent) (i : Byte) : List MasterEvent :=
  .call .rxByte (some hostCmdSync) :: between ++
    [.call (.sendByte i) (), .iter .command, .call .readFailsafe false, .iter .waitchar]

/-- An attempt that is answered. -/
def attempt (between : List MasterEvent) (i : Byte) : List HostEvent :=
  .call (.write hostCmdSync) () :: (answers between i).map .ext ++
    [.call (.usleep 20000) (), .call (.hasData 100) true, .call (.hasData 100) true, .call .read (some i),
      .call (.usleep 20000) (), .call (.hasData 100) false]

/-- A failure has come from the master before, and the ping costs one attempt. -/
def syncPing : List HostEvent :=
  [.iter .eat, .call (.hasData 0) true, .call .read (some hostReplyFailure), .iter .eat, .call (.hasData 0) false] ++
    attempt [] hostReplyBadchksum ++ attempt [.call .usbPresent true] hostReplySuccess

theorem sync_reaches_top_ping : AtTop memory ((line memory).after (start halfPing [hostReplyFailure]) syncPing) := by
  obtain ⟨p, reached⟩ := run_of_follow (commandLoop memory) halfPing (by decide +kernel)
  have run : Run syncBoard syncPing (.ret sbOk) := follow_run _ _ _ rfl
  exact ((sync_reaches_top memory halfPing [hostReplyFailure] syncPing p (.ret sbOk) reached (by decide +kernel) run
    (by decide +kernel)).2.2.1 sbOk rfl).2

end Tortuga.SyncBoard
