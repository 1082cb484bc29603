import Tortuga.Dvl

/-!
When `readDVLData` comes back with the frame that the line delivers, and when its checksum
is the one that the frame declares.
-/
namespace Tortuga.Dvl
open Tortuga.Programs Tortuga.Programs.Prog Tortuga.BusCodes Tortuga.Termination
open Tortuga.SensorApi (Buf store)
set_option linter.unusedSimpArgs false

/-! ### What is meant -/

/-- The last two bytes of the frame, where its own size says, are the sum of the bytes
    before them. -/
def Sound (dvlData : Buf) : Prop :=
  sum dvlData (word dvlData 2).toNat = word dvlData (word dvlData 2).toNat

instance (dvlData : Buf) : Decidable (Sound dvlData) := inferInstanceAs (Decidable (_ = _))

/-- `readDVLData` comes back without a byte written outside the buffer, with success only
    for a sound frame, and else with the measurement that was there. -/
def Good (line : Line) (stack : Buf) (dvl : RawDVLData) : Prop :=
  ∃ r fd, Ends line.serve (readDVLData stack dvl) opened r fd ∧ (r.result = 0 → Sound r.dvlData) ∧
    (r.result ≠ 0 → r.dvl.measurement = dvl.measurement)

section
variable (line : Line)

/-- What `dvl_waitByte` takes when the line does not fall silent. -/
def Line.byte (fd : Fd) : Byte × Fd :=
  match line.replies fd.replied with
  | .failed left => (left, ⟨fd.replied + 1, 0, fd.pos⟩)
  | .gives _ => (line.bytes fd.pos, ⟨fd.replied + 1, 0, fd.pos + 1⟩)

/-- Whether so many attempts find the two bytes before a frame, and where they end. -/
def Line.sync : ℕ → Fd → Bool × Fd
  | 0, fd => (false, fd)
  | left + 1, fd =>
    if (line.byte fd).1 = 0x7D#8 then
      if (line.byte (line.byte fd).2).1 = 0x00#8 then (true, (line.byte (line.byte fd).2).2)
      else sync left (line.byte (line.byte fd).2).2
    else sync left (line.byte fd).2

/-- The frame whose first two bytes are before `fd`. -/
def Line.frame (fd : Fd) : Buf
  | 0 => 0x7D
  | 1 => 0x00
  | i + 2 => line.bytes (fd.pos + i)

def Line.size (fd : Fd) : ℕ := (word (line.frame fd) 2).toNat

/-- How many bytes the reply `i` gives of those asked for. -/
def Line.count (i asked : ℕ) : ℕ :=
  match line.replies i with
  | .failed _ => 0
  | .gives more => min (more + 1) asked

/-- The length and the replies after up to `n` reads towards `target`, each of which asks
    for the rest of `request`. -/
def Line.reach (target request : ℕ) : ℕ → ℕ × ℕ → ℕ × ℕ
  | 0, x => x
  | n + 1, x =>
    if x.1 < target then reach target request n (x.1 + line.count x.2 (request - x.1), x.2 + 1) else x

/-- After the reads of the header; of the body, or up to the first byte outside the buffer;
    and of the checksum, or up to that byte. -/
def Line.header (fd : Fd) : ℕ × ℕ := line.reach 4 6 2 (2, fd.replied)

def Line.body (fd : Fd) : ℕ × ℕ :=
  line.reach (min (line.size fd) (bufSize + 1)) (min (line.size fd) (bufSize + 1)) (bufSize + 1) (line.header fd)

def Line.checksum (fd : Fd) : ℕ × ℕ :=
  line.reach (min (line.size fd + 2) (bufSize + 1)) (min (line.size fd + 2) (bufSize + 1)) (bufSize + 1) (line.body fd)

/-- No reply from `low` on and before `high` is a failure. -/
def Line.Unfailing (low high : ℕ) : Prop := ∀ i, low ≤ i → i < high → ∃ more, line.replies i = .gives more

/-- The line does not fall silent for good before the reply `high`. -/
def Line.Served (low high : ℕ) : Prop := ∀ i, low ≤ i → i < high → line.empty i ≠ none

/-- How many replies a call takes. -/
def Line.taken : ℕ :=
  if (line.sync syncFailBytecount opened).1 then (line.checksum (line.sync syncFailBytecount opened).2).2
  else (line.sync syncFailBytecount opened).2.replied

/-- The buffer with the first `len` bytes of the frame. -/
def Line.filled (stack : Buf) (fd : Fd) (len : ℕ) : Buf := fun i => if i < len then line.frame fd i else stack i

/-- The bytes 45 and 46 of the buffer are the sum of what is read before the checksum. -/
def Line.Accepted (stack : Buf) (fd : Fd) : Prop :=
  sum (line.frame fd) (max (line.header fd).1 (line.size fd)) =
    word (line.filled stack fd (max (line.header fd).1 (line.size fd + 2))) 45

instance (stack : Buf) (fd : Fd) : Decidable (line.Accepted stack fd) := inferInstanceAs (Decidable (_ = _))

end

/-! ### Loops that wait -/

section
variable {line : Line} {fd : Fd} {α : Type} {a : α} {u : Fd}

theorem serve_quiet (quiet : line.quiet fd = true) (nbytes : ℕ) :
    line.serve fd (.read nbytes) = (.got [], { fd with waited := fd.waited + 1 }) := by
  rw [Line.serve, if_pos quiet]

theorem serve_failed (ready : line.quiet fd = false) {left : Byte} (reply : line.replies fd.replied = .failed left)
    (nbytes : ℕ) : line.serve fd (.read nbytes) = (.failed left, ⟨fd.replied + 1, 0, fd.pos⟩) := by
  rw [Line.serve, if_neg (by simp [ready]), reply]

theorem serve_gives (ready : line.quiet fd = false) {more : ℕ} (reply : line.replies fd.replied = .gives more)
    (nbytes : ℕ) : line.serve fd (.read nbytes) = (.got ((List.range (min (more + 1) nbytes)).map fun i => line.bytes (fd.pos + i)),
      ⟨fd.replied + 1, 0, fd.pos + min (more + 1) nbytes⟩) := by
  rw [Line.serve, if_neg (by simp [ready]), reply]

/-- A loop that an empty read leaves where it is waits for a reply. -/
theorem loop_waits {p : Driver α}
    (round : ∀ fd, line.quiet fd = true → (Ends line.serve p fd a u ↔ Ends line.serve p { fd with waited := fd.waited + 1 } a u))
    (served : line.empty fd.replied ≠ none) : ∃ w, line.quiet { fd with waited := w } = false ∧
      (Ends line.serve p fd a u ↔ Ends line.serve p { fd with waited := w } a u) := by
  obtain ⟨k, known⟩ := Option.ne_none_iff_exists'.mp served
  have waits : ∀ n waited, k - waited = n → ∃ w, line.quiet { fd with waited := w } = false ∧
      (Ends line.serve p { fd with waited := waited } a u ↔ Ends line.serve p { fd with waited := w } a u) := by
    intro n
    induction n with
    | zero =>
      intro waited done
      exact ⟨waited, by simp [Line.quiet, known]; omega, Iff.rfl⟩
    | succ n ih =>
      intro waited left
      obtain ⟨w, ready, same⟩ := ih (waited + 1) (by omega)
      have quiet : line.quiet { fd with waited := waited } = true := by
        simp [Line.quiet, known]
        omega
      exact ⟨w, ready, (round _ quiet).trans same⟩
  exact waits _ fd.waited rfl

/-- A loop that an empty read leaves where it is does not end on a line that has fallen silent. -/
theorem silent_never {σ β : Type} {l : Loop} {x : σ} {body : σ → Driver (σ ⊕ β)} {k : β → Driver α}
    (silent : line.empty fd.replied = none) (round : ∀ fd, line.quiet fd = true →
      Ends line.serve (body x) fd (.inl x) { fd with waited := fd.waited + 1 }) :
    ¬ Ends line.serve (.loop l x body k) fd a u := by
  refine not_ends_of_rounds (I := fun y t => y = x ∧ t.replied = fd.replied) (fun y t inv => ?_) ⟨rfl, rfl⟩
  obtain ⟨rfl, same⟩ := inv
  exact ⟨y, _, round t (by simp [Line.quiet, same, silent]), rfl, same⟩

theorem waitByte_round (quiet : line.quiet fd = true) :
    Ends line.serve (.ask (.read 1) fun answer => .ret (rxb answer) : Driver (Unit ⊕ Byte)) fd (.inl ())
      { fd with waited := fd.waited + 1 } := by
  rw [ends_ask, serve_quiet quiet]
  exact ends_ret.mpr ⟨rfl, rfl⟩

theorem dvlWaitByte_ends (served : line.empty fd.replied ≠ none) :
    Ends line.serve dvlWaitByte fd (line.byte fd).1 (line.byte fd).2 := by
  have round {a : Byte} {u : Fd} (fd : Fd) (quiet : line.quiet fd = true) : Ends line.serve dvlWaitByte fd a u ↔
      Ends line.serve dvlWaitByte { fd with waited := fd.waited + 1 } a u := by
    rw [dvlWaitByte, ends_loop, unroll, (waitByte_round quiet).bind]
  obtain ⟨w, ready, same⟩ := loop_waits round served
  rw [same, dvlWaitByte, ends_loop, unroll, ask_bind, ends_ask, Line.byte]
  cases reply : line.replies fd.replied with
  | failed left =>
    rw [serve_failed ready reply]
    exact ends_ret.mpr ⟨rfl, rfl⟩
  | gives more =>
    rw [serve_gives ready reply, show min (more + 1) 1 = 1 by omega]
    exact ends_ret.mpr ⟨rfl, rfl⟩

theorem dvlWaitByte_served {a : Byte} (ends : Ends line.serve dvlWaitByte fd a u) : line.empty fd.replied ≠ none :=
  fun silent => silent_never silent (fun _ quiet => waitByte_round quiet) ends

theorem byte_replied (line : Line) (fd : Fd) : (line.byte fd).2.replied = fd.replied + 1 := by
  unfold Line.byte
  split <;> rfl

theorem sync_replied (line : Line) (left : ℕ) (fd : Fd) : fd.replied ≤ (line.sync left fd).2.replied := by
  induction left generalizing fd with
  | zero => exact Nat.le_refl _
  | succ left ih =>
    have one := byte_replied line fd
    have two := byte_replied line (line.byte fd).2
    have later := ih (line.byte (line.byte fd).2).2
    have early := ih (line.byte fd).2
    rw [Line.sync]
    split
    · split
      · simp only; omega
      · omega
    · omega

/-- The attempts come to the end that the bytes of the line lead to, when it does not fall
    silent before. -/
theorem attempts_ends_iff (left : ℕ) (fd : Fd) {r : Int} :
    Ends line.serve (attempts left) fd r u ↔ line.Served fd.replied (line.sync left fd).2.replied ∧
      r = (if (line.sync left fd).1 then 0 else -1) ∧ u = (line.sync left fd).2 := by
  induction left generalizing fd with
  | zero =>
    refine ends_ret.trans ⟨fun same => ⟨fun i low high => ?_, same⟩, fun all => all.2⟩
    exact absurd high (Nat.not_lt.mpr low)
  | succ left ih =>
    -- A byte is waited for first, whatever comes then.
    have wait {fd : Fd} {p : Byte → Driver Int} {high : ℕ} {same : Prop} (later : (line.byte fd).2.replied ≤ high)
        (rest : Ends line.serve (p (line.byte fd).1) (line.byte fd).2 r u ↔ line.Served (line.byte fd).2.replied high ∧ same) :
        Ends line.serve (dvlWaitByte.bind p) fd r u ↔ line.Served fd.replied high ∧ same := by
      have next := byte_replied line fd
      constructor
      · intro ends
        obtain ⟨a, v, first, _⟩ := ends_bind.mp ends
        have served := dvlWaitByte_served first
        obtain ⟨more, whole⟩ := rest.mp ((dvlWaitByte_ends served).bind.mp ends)
        refine ⟨fun i low below => ?_, whole⟩
        rcases Nat.eq_or_lt_of_le low with here | above
        · exact here ▸ served
        · exact more i (by omega) below
      · rintro ⟨served, whole⟩
        refine (dvlWaitByte_ends (served _ (Nat.le_refl _) (by omega))).bind.mpr (rest.mpr ⟨fun i low below => ?_, whole⟩)
        exact served i (by omega) below
    have one := byte_replied line fd
    have two := byte_replied line (line.byte fd).2
    rw [attempts, bind_eq, Line.sync]
    by_cases first : (line.byte fd).1 = 0x7D#8
    · by_cases second : (line.byte (line.byte fd).2).1 = 0x00#8
      · rw [if_pos first, if_pos second]
        dsimp only
        refine wait (by omega) ?_
        rw [if_pos first]
        refine wait (Nat.le_refl _) ?_
        rw [if_pos second]
        refine ends_ret.trans ⟨fun same => ⟨fun i low high => ?_, same⟩, fun all => all.2⟩
        exact absurd high (Nat.not_lt.mpr low)
      · rw [if_pos first, if_neg second]
        have later := sync_replied line left (line.byte (line.byte fd).2).2
        refine wait (by omega) ?_
        rw [if_pos first]
        refine wait later ?_
        rw [if_neg second]
        exact ih _
    · rw [if_neg first]
      refine wait (sync_replied line left _) ?_
      rw [if_neg first]
      exact ih _

/-! ### How far the reads come -/

theorem reach_replied (line : Line) (target request n : ℕ) (x : ℕ × ℕ) : x.2 ≤ (line.reach target request n x).2 := by
  induction n generalizing x with
  | zero => exact Nat.le_refl _
  | succ n ih =>
    rw [Line.reach]
    split
    · have later := ih (x.1 + line.count x.2 (request - x.1), x.2 + 1)
      exact Nat.le_of_succ_le later
    · exact Nat.le_refl _

theorem count_gives {i more : ℕ} (reply : line.replies i = .gives more) (asked : ℕ) :
    line.count i asked = min (more + 1) asked := by
  rw [Line.count, reply]

/-- The target is reached, and the request is kept, when each reply brings something. -/
theorem reach_bounds {target request n : ℕ} {x : ℕ × ℕ} (asks : target ≤ request) (enough : target ≤ x.1 + n)
    (low : x.1 ≤ request) (unfailing : line.Unfailing x.2 (line.reach target request n x).2) :
    target ≤ (line.reach target request n x).1 ∧ x.1 ≤ (line.reach target request n x).1 ∧
      (line.reach target request n x).1 ≤ request := by
  induction n generalizing x with
  | zero => exact ⟨enough, Nat.le_refl _, low⟩
  | succ n ih =>
    rw [Line.reach] at unfailing ⊢
    split
    · next short =>
      rw [if_pos short] at unfailing
      have later := reach_replied line target request n (x.1 + line.count x.2 (request - x.1), x.2 + 1)
      obtain ⟨more, reply⟩ := unfailing x.2 (Nat.le_refl _) (by omega)
      have counted := count_gives reply (request - x.1)
      have rest := ih (x := (x.1 + line.count x.2 (request - x.1), x.2 + 1)) (by simp only; omega) (by simp only; omega)
        (fun i below above => unfailing i (by omega) above)
      simp only at rest
      omega
    · next done => exact ⟨Nat.not_lt.mp done, Nat.le_refl _, low⟩

/-- Reads that ask for what is missing come to the target, when they are not past it. -/
theorem reach_max {target n : ℕ} {x : ℕ × ℕ} (enough : target ≤ x.1 + n)
    (unfailing : line.Unfailing x.2 (line.reach target target n x).2) : (line.reach target target n x).1 = max x.1 target := by
  by_cases short : x.1 < target
  · have bounds := reach_bounds (Nat.le_refl target) enough (Nat.le_of_lt short) unfailing
    omega
  · have done : line.reach target target n x = x := by
      cases n with
      | zero => rfl
      | succ n => rw [Line.reach, if_neg short]
    rw [done]
    omega

/-! ### Reads into the buffer -/

section
variable {l : Loop} {target request len : ℕ} {buf stack : Buf} {r : Int × Buf} {start : Fd}

theorem fill_done (enough : target ≤ len) :
    Ends line.serve (fill l target request len buf) fd r u ↔ r = ((len : Int), buf) ∧ u = fd := by
  rw [fill, ends_loop, unroll, if_neg (by omega)]
  exact ends_ret

theorem fill_quiet {target request len : Int} (short : len < target) (fd : Fd) (quiet : line.quiet fd = true) :
    Ends line.serve (if len < target then do
        let r ← readTo buf len (request - len)
        return .inl (len + r.1, r.2)
      else return .inr (len, buf) : Driver ((Int × Buf) ⊕ (Int × Buf))) fd (.inl (len, buf))
      { fd with waited := fd.waited + 1 } := by
  rw [if_pos short, readTo, bind_eq, ask_bind, ends_ask, serve_quiet quiet]
  exact ends_ret.mpr ⟨by simp, rfl⟩

theorem fill_silent {target request len : Int} (short : len < target) (silent : line.empty fd.replied = none) :
    ¬ Ends line.serve (fill l target request len buf) fd r u :=
  silent_never silent (fill_quiet short)

/-- A read that gives something stores it in the buffer, or it would write past the end. -/
theorem fill_reads (served : line.empty fd.replied ≠ none) {more : ℕ} (reply : line.replies fd.replied = .gives more)
    (short : len < target) (asks : target ≤ request) {count : ℕ} (gives : count = min (more + 1) (request - len)) :
    Ends line.serve (fill l target request len buf) fd r u ↔
      len + count ≤ bufSize ∧ Ends line.serve
        (fill l target request (len + count : ℕ) (store buf len ((List.range count).map fun i => line.bytes (fd.pos + i))))
        ⟨fd.replied + 1, 0, fd.pos + count⟩ r u := by
  have below : (len : Int) < target := by omega
  have asked : ((request : Int) - len).toNat = request - len := by omega
  have round (fd : Fd) (quiet : line.quiet fd = true) : Ends line.serve (fill l target request len buf) fd r u ↔
      Ends line.serve (fill l target request len buf) { fd with waited := fd.waited + 1 } r u := by
    rw [fill, ends_loop, unroll, (fill_quiet below fd quiet).bind]
  obtain ⟨w, ready, same⟩ := loop_waits round served
  rw [same, fill, ends_loop, unroll, if_pos below, readTo, bind_eq, ask_bind, ask_bind, ends_ask,
    serve_gives ready reply, asked, ← gives]
  have size : ((List.range count).map fun i => line.bytes (fd.pos + i)).length = count := by simp
  generalize (List.range count).map (fun i => line.bytes (fd.pos + i)) = bytes at size ⊢
  cases bytes with
  | nil =>
    have : 0 = count := size
    omega
  | cons b rest =>
    by_cases inside : len + count ≤ bufSize
    · have fits : 0 ≤ (len : Int) ∧ (len : Int) + (b :: rest).length ≤ bufSize := by rw [size]; omega
      have cast : (len : Int) + (b :: rest).length = (len + count : ℕ) := by rw [size]; omega
      dsimp only
      rw [if_pos fits]
      simp only [fill, pure_eq, ret_bind, cast, Int.toNat_natCast, inside, true_and]
    · have beyond : ¬ (0 ≤ (len : Int) ∧ (len : Int) + (b :: rest).length ≤ bufSize) := by rw [size]; omega
      simp only [if_neg beyond, fault_bind, not_ends_fault, inside, false_and]

/-- What a read of the frame adds to the buffer. -/
theorem store_filled {len count : ℕ} (begun : 2 ≤ len) (place : fd.pos = start.pos + (len - 2)) :
    store (line.filled stack start len) len ((List.range count).map fun i => line.bytes (fd.pos + i)) =
      line.filled stack start (len + count) := by
  funext i
  simp only [store, Line.filled]
  by_cases before : i < len
  · simp [before, Nat.not_le.mpr before, Nat.lt_add_right count before]
  · obtain ⟨k, rfl⟩ : ∃ k, i = len + k := ⟨i - len, by omega⟩
    by_cases inside : k < count
    · have cell : line.frame start (len + k) = line.bytes (fd.pos + k) := by
        obtain ⟨m, rfl⟩ : ∃ m, len = m + 2 := ⟨len - 2, by omega⟩
        rw [show m + 2 + k = (m + k) + 2 by omega, place]
        show line.bytes (start.pos + (m + k)) = _
        congr 1
        omega
      simp [inside, cell]
    · have past : ¬ len + k < len + count := by omega
      simp [inside, before, past]

/-- Reads that stay inside the buffer end when the line does not fall silent before, with
    so much of the frame in the buffer. -/
theorem fill_ends_iff (l : Loop) (stack : Buf) {n : ℕ} (begun : 2 ≤ len) (place : fd.pos = start.pos + (len - 2)) (asks : target ≤ request)
    (fits : request ≤ bufSize) (enough : target ≤ len + n)
    (unfailing : line.Unfailing fd.replied (line.reach target request n (len, fd.replied)).2) :
    ∃ fd', fd'.replied = (line.reach target request n (len, fd.replied)).2 ∧
      fd'.pos = start.pos + ((line.reach target request n (len, fd.replied)).1 - 2) ∧
      ∀ r u, Ends line.serve (fill l target request len (line.filled stack start len)) fd r u ↔
        line.Served fd.replied fd'.replied ∧
          r = (((line.reach target request n (len, fd.replied)).1 : Int),
            line.filled stack start (line.reach target request n (len, fd.replied)).1) ∧ u = fd' := by
  induction n generalizing len fd with
  | zero =>
    refine ⟨fd, rfl, place, fun r u => (fill_done enough).trans ⟨fun same => ⟨fun i low high => ?_, same⟩, fun all => all.2⟩⟩
    exact absurd high (Nat.not_lt.mpr low)
  | succ n ih =>
    rw [Line.reach] at unfailing ⊢
    dsimp only at unfailing ⊢
    by_cases short : len < target
    · rw [if_pos short] at unfailing ⊢
      have later := reach_replied line target request n (len + line.count fd.replied (request - len), fd.replied + 1)
      obtain ⟨more, reply⟩ := unfailing fd.replied (Nat.le_refl _) (by omega)
      generalize gives : line.count fd.replied (request - len) = count at unfailing later ⊢
      rw [count_gives reply] at gives
      have moved : Fd.pos ⟨fd.replied + 1, 0, fd.pos + count⟩ = start.pos + (len + count - 2) := by
        simp only [place]
        omega
      obtain ⟨fd', replied, place', ends⟩ := ih (by omega) moved (by omega)
        (fun i low high => unfailing i (Nat.le_of_succ_le low) high)
      refine ⟨fd', replied, place', fun r u => ?_⟩
      by_cases served : line.empty fd.replied = none
      · refine iff_of_false (fill_silent (by omega) served) fun all => ?_
        exact all.1 fd.replied (Nat.le_refl _) (by rw [replied]; exact later) served
      · rw [fill_reads served reply short asks gives.symm, store_filled begun place, ends]
        constructor
        · rintro ⟨-, rest, same⟩
          refine ⟨fun i low high => ?_, same⟩
          rcases Nat.eq_or_lt_of_le low with here | above
          · exact here ▸ served
          · exact rest i above high
        · rintro ⟨rest, same⟩
          exact ⟨by omega, fun i low high => rest i (Nat.le_of_succ_le low) high, same⟩
    · rw [if_neg short]
      refine ⟨fd, rfl, place, fun r u => (fill_done (Nat.not_lt.mp short)).trans ⟨fun same => ⟨fun i low high => ?_, same⟩, fun all => all.2⟩⟩
      exact absurd high (Nat.not_lt.mpr low)

/-- A target past the end of the buffer is not reached. -/
theorem fill_never {n : ℕ} (low : len ≤ bufSize) (far : bufSize < target) (enough : bufSize + 1 ≤ len + n)
    (unfailing : line.Unfailing fd.replied (line.reach (bufSize + 1) (bufSize + 1) n (len, fd.replied)).2) :
    ¬ Ends line.serve (fill l target target len buf) fd r u := by
  induction n generalizing len fd buf with
  | zero => omega
  | succ n ih =>
    rw [Line.reach] at unfailing
    dsimp only at unfailing
    rw [if_pos (by omega)] at unfailing
    have later := reach_replied line (bufSize + 1) (bufSize + 1) n
      (len + line.count fd.replied (bufSize + 1 - len), fd.replied + 1)
    obtain ⟨more, reply⟩ := unfailing fd.replied (Nat.le_refl _) (by omega)
    by_cases served : line.empty fd.replied = none
    · exact fill_silent (by omega) served
    · obtain ⟨count, gives⟩ : ∃ count, count = min (more + 1) (target - len) := ⟨_, rfl⟩
      rw [fill_reads served reply (by omega) (Nat.le_refl _) gives]
      rintro ⟨inside, ends⟩
      have counted : line.count fd.replied (bufSize + 1 - len) = count := by rw [count_gives reply]; omega
      rw [counted] at unfailing
      exact ih inside (by omega) (fun i low high => unfailing i (Nat.le_of_succ_le low) high) ends

theorem store_begin (stack : Buf) (start : Fd) : store stack 0 [0x7D#8, 0#8] = line.filled stack start 2 := by
  funext i
  match i with
  | 0 => rfl
  | 1 => rfl
  | i + 2 =>
    have past : ¬ i + 2 < 2 := by omega
    simp [store, Line.filled, past]

theorem word_filled {i len : ℕ} (inside : i + 1 < len) :
    word (line.filled stack start len) i = word (line.frame start) i := by
  have before : i < len := by omega
  simp [word, Line.filled, inside, before]

theorem sum_filled {len n : ℕ} (inside : n ≤ len) : sum (line.filled stack start len) n = sum (line.frame start) n := by
  unfold sum
  congr 1
  refine List.map_congr_left fun i mem => ?_
  have below : i < len := Nat.lt_of_lt_of_le (List.mem_range.mp mem) inside
  simp [Line.filled, below]

theorem sound_filled {len : ℕ} (header : 4 ≤ len) (whole : line.size start + 2 ≤ len) :
    Sound (line.filled stack start len) ↔ Sound (line.frame start) := by
  have size : word (line.filled stack start len) 2 = word (line.frame start) 2 := word_filled (by omega)
  unfold Sound
  rw [size, show (word (line.frame start) 2).toNat = line.size start from rfl, sum_filled (by omega), word_filled (by omega)]

end

/-! ### The whole of it -/

section
variable (line : Line)

/-- What `readDVLData` comes back with for a frame that fits. -/
def Line.outcome (stack : Buf) (dvl : RawDVLData) (fd : Fd) : Outcome :=
  let dvlData := line.filled stack fd (max (line.header fd).1 (line.size fd + 2))
  if line.Accepted stack fd then ⟨0, ⟨1, measure dvlData⟩, dvlData⟩
  else ⟨errChksum, { dvl with valid := BitVec.ofInt 32 errChksum }, dvlData⟩

end

variable {stack : Buf} {dvl : RawDVLData} {start : Fd} {r : Outcome}

theorem outcome_result : (line.outcome stack dvl start).result = 0 ↔ line.Accepted stack start := by
  unfold Line.outcome
  split
  · next accepted => exact iff_of_true rfl accepted
  · next refused => exact iff_of_false (show errChksum ≠ 0 by decide) refused

theorem outcome_dvlData : (line.outcome stack dvl start).dvlData =
    line.filled stack start (max (line.header start).1 (line.size start + 2)) := by
  unfold Line.outcome
  split <;> rfl

theorem outcome_measurement (refused : ¬ line.Accepted stack start) :
    (line.outcome stack dvl start).dvl.measurement = dvl.measurement := by
  rw [Line.outcome, if_neg refused]

variable (stack dvl) in
/-- Without a frame on the line the call ends when the line does not fall silent before. -/
theorem readDVLData_nosync (missed : (line.sync syncFailBytecount opened).1 = false) :
    Ends line.serve (readDVLData stack dvl) opened r u ↔ line.Served 0 line.taken ∧
      r = ⟨errNosync, { dvl with valid := BitVec.ofInt 32 errNosync }, stack⟩ ∧ u = (line.sync syncFailBytecount opened).2 := by
  rw [Line.taken, if_neg (by simp [missed]), readDVLData, bind_eq, ends_bind]
  constructor
  · rintro ⟨a, v, ends, rest⟩
    obtain ⟨served, rfl, rfl⟩ := (attempts_ends_iff ..).mp ends
    rw [missed] at rest
    exact ⟨served, ends_ret.mp rest⟩
  · rintro ⟨served, whole⟩
    refine ⟨_, _, (attempts_ends_iff ..).mpr ⟨served, rfl, rfl⟩, ?_⟩
    rw [missed]
    exact ends_ret.mpr whole

theorem header_bounds (unfailing : line.Unfailing start.replied (line.header start).2) :
    4 ≤ (line.header start).1 ∧ (line.header start).1 ≤ 6 := by
  have reads : line.Unfailing (2, start.replied).2 (line.reach 4 6 2 (2, start.replied)).2 := unfailing
  have bounds := reach_bounds (by omega) (by omega) (by omega) reads
  exact ⟨bounds.1, bounds.2.2⟩

/-- What `readDVLData` does after the body. -/
def afterBody (dvl : RawDVLData) (tempsize len : Int) (dvlData : Buf) : Driver Outcome := do
  let checksum := sum dvlData len.toNat
  let (_, dvlData) ← fill .checksum (tempsize + 2) (tempsize + 2) len dvlData
  if checksum ≠ word dvlData 45 then return ⟨errChksum, { dvl with valid := BitVec.ofInt 32 errChksum }, dvlData⟩
  else return ⟨0, ⟨1, measure dvlData⟩, dvlData⟩

/-- What `readDVLData` does after the header. -/
def afterHeader (dvl : RawDVLData) (tempsize len : Int) (dvlData : Buf) : Driver Outcome := do
  let (len, dvlData) ← fill .body tempsize tempsize len dvlData
  afterBody dvl tempsize len dvlData

theorem served_append {low mid high : ℕ} (first : low ≤ mid) (second : mid ≤ high) :
    line.Served low high ↔ line.Served low mid ∧ line.Served mid high := by
  constructor
  · exact fun all => ⟨fun i above below => all i above (by omega), fun i above below => all i (by omega) below⟩
  · rintro ⟨one, two⟩ i above below
    by_cases early : i < mid
    · exact one i above early
    · exact two i (Nat.not_lt.mp early) below

variable (stack dvl) in
/-- With a frame on the line: the synchronisation and the header come first. -/
theorem readDVLData_header (found : line.sync syncFailBytecount opened = (true, start))
    (unfailing : line.Unfailing start.replied (line.header start).2) :
    ∃ fd, fd.replied = (line.header start).2 ∧ fd.pos = start.pos + ((line.header start).1 - 2) ∧ ∀ r u,
      Ends line.serve (readDVLData stack dvl) opened r u ↔ line.Served 0 fd.replied ∧
        Ends line.serve (afterHeader dvl (line.size start) (line.header start).1 (line.filled stack start (line.header start).1))
          fd r u := by
  have reads : line.Unfailing start.replied (line.reach 4 6 2 (2, start.replied)).2 := unfailing
  have begun : start.pos = start.pos + (2 - 2) := rfl
  obtain ⟨fd, replied, place, ends⟩ := fill_ends_iff .header stack (Nat.le_refl 2) begun (by omega) (by decide) (by omega) reads
  have sync {a : Int} {v : Fd} : Ends line.serve dvlWaitSync opened a v ↔ line.Served 0 start.replied ∧ a = 0 ∧ v = start := by
    rw [dvlWaitSync, attempts_ends_iff, found]
    rfl
  have size : (word (line.filled stack start (line.header start).1) 2).toNat = line.size start := by
    have bounds := (header_bounds unfailing).1
    rw [word_filled (by omega)]
    rfl
  have early := reach_replied line 4 6 2 (2, start.replied)
  refine ⟨fd, replied, place, fun r u => ?_⟩
  rw [served_append (Nat.zero_le start.replied) (by rw [replied]; exact early), readDVLData, bind_eq, ends_bind]
  constructor
  · rintro ⟨_, _, first, rest⟩
    obtain ⟨served, rfl, rfl⟩ := sync.mp first
    rw [if_neg (by decide), store_begin, bind_eq, ends_bind] at rest
    obtain ⟨_, _, second, rest⟩ := rest
    obtain ⟨served', rfl, rfl⟩ := (ends _ _).mp second
    refine ⟨⟨served, served'⟩, ?_⟩
    rw [← size]
    exact rest
  · rintro ⟨⟨served, served'⟩, rest⟩
    refine ⟨_, _, sync.mpr ⟨served, rfl, rfl⟩, ?_⟩
    rw [if_neg (by decide), store_begin, bind_eq, ends_bind]
    refine ⟨_, _, (ends _ _).mpr ⟨served', rfl, rfl⟩, ?_⟩
    rw [← size] at rest
    exact rest

/-- The replies to the parts of a frame. -/
theorem replies_order (line : Line) (start : Fd) : start.replied ≤ (line.header start).2 ∧
    (line.header start).2 ≤ (line.body start).2 ∧ (line.body start).2 ≤ (line.checksum start).2 :=
  ⟨reach_replied line 4 6 2 (2, start.replied), reach_replied .., reach_replied ..⟩

section
variable (stack dvl) (found : line.sync syncFailBytecount opened = (true, start))
  (unfailing : line.Unfailing start.replied (line.checksum start).2)
include found unfailing

/-- The reads of the header and, of a body that fits, those of the body. -/
theorem readDVLData_body (fits : line.size start ≤ bufSize) :
    ∃ fd, fd.replied = (line.body start).2 ∧ fd.pos = start.pos + ((line.body start).1 - 2) ∧
      (line.body start).1 = max (line.header start).1 (line.size start) ∧ ∀ r u,
      Ends line.serve (readDVLData stack dvl) opened r u ↔ line.Served 0 fd.replied ∧
        Ends line.serve (afterBody dvl (line.size start) (line.body start).1 (line.filled stack start (line.body start).1)) fd r u := by
  obtain ⟨_, late, last⟩ := replies_order line start
  have inHeader : line.Unfailing start.replied (line.header start).2 := fun i low high => unfailing i low (by omega)
  have bounds := header_bounds inHeader
  have body : line.body start = line.reach (line.size start) (line.size start) (bufSize + 1) (line.header start) := by
    rw [Line.body, Nat.min_eq_left (by omega)]
  have inBody : line.Unfailing (line.header start).2
      (line.reach (line.size start) (line.size start) (bufSize + 1) (line.header start)).2 :=
    fun i low high => unfailing i (by omega) (by rw [← body] at high; omega)
  have length := reach_max (by omega) inBody
  obtain ⟨one, replied, place, header⟩ := readDVLData_header stack dvl found inHeader
  have reads : line.Unfailing one.replied
      (line.reach (line.size start) (line.size start) (bufSize + 1) ((line.header start).1, one.replied)).2 := by
    rw [replied]
    exact inBody
  obtain ⟨two, replied', place', ends⟩ := fill_ends_iff .body stack (by omega) place (Nat.le_refl _) fits (by omega) reads
  rw [replied] at replied' place' ends
  have same : line.reach (line.size start) (line.size start) (bufSize + 1) ((line.header start).1, (line.header start).2) =
    line.body start := body.symm
  rw [same] at replied' place' ends
  rw [← replied] at ends
  refine ⟨two, replied', place', by rw [body, length], fun r u => ?_⟩
  rw [header, served_append (Nat.zero_le one.replied) (show one.replied ≤ two.replied by rw [replied, replied']; exact late),
    and_assoc, afterHeader, bind_eq, ends_bind]
  refine and_congr_right fun _ => ?_
  constructor
  · rintro ⟨_, _, first, rest⟩
    obtain ⟨served, rfl, rfl⟩ := (ends _ _).mp first
    exact ⟨served, rest⟩
  · rintro ⟨served, rest⟩
    exact ⟨_, _, (ends _ _).mpr ⟨served, rfl, rfl⟩, rest⟩

/-- A frame that fits in the buffer is read to its end when the line does not fall silent before. -/
theorem readDVLData_frame (fits : line.size start + 2 ≤ bufSize) :
    ∃ fd, ∀ r u, Ends line.serve (readDVLData stack dvl) opened r u ↔
      line.Served 0 (line.checksum start).2 ∧ r = line.outcome stack dvl start ∧ u = fd := by
  obtain ⟨_, _, last⟩ := replies_order line start
  obtain ⟨two, replied, place, length, body⟩ := readDVLData_body stack dvl found unfailing (by omega)
  have bounds := header_bounds fun i low high => unfailing i low (by omega)
  have checksum : line.checksum start =
      line.reach (line.size start + 2) (line.size start + 2) (bufSize + 1) (line.body start) := by
    rw [Line.checksum, Nat.min_eq_left (by omega)]
  have reads : line.Unfailing two.replied
      (line.reach (line.size start + 2) (line.size start + 2) (bufSize + 1) ((line.body start).1, two.replied)).2 := by
    rw [replied]
    exact fun i low high => unfailing i (by omega) (by rw [checksum]; exact high)
  have enough : line.size start + 2 ≤ (line.body start).1 + (bufSize + 1) := by omega
  have length' := reach_max (x := ((line.body start).1, two.replied)) enough reads
  obtain ⟨three, replied', -, ends⟩ := fill_ends_iff .checksum stack (by omega) place (Nat.le_refl _) fits enough reads
  have whole : max (line.body start).1 (line.size start + 2) = max (line.header start).1 (line.size start + 2) := by omega
  have order : two.replied ≤ three.replied := replied' ▸ reach_replied line _ _ _ ((line.body start).1, two.replied)
  have last : three.replied = (line.checksum start).2 := by rw [replied', replied, checksum]
  rw [length'] at ends
  simp only [whole] at ends
  -- What is computed when the checksum is there.
  have computed {r : Outcome} {u : Fd} : Ends line.serve (if sum (line.filled stack start (line.body start).1) (line.body start).1 ≠
      word (line.filled stack start (max (line.header start).1 (line.size start + 2))) 45 then
        return ⟨errChksum, { dvl with valid := BitVec.ofInt 32 errChksum },
          line.filled stack start (max (line.header start).1 (line.size start + 2))⟩
      else return ⟨0, ⟨1, measure (line.filled stack start (max (line.header start).1 (line.size start + 2)))⟩,
        line.filled stack start (max (line.header start).1 (line.size start + 2))⟩ : Driver Outcome) three r u ↔
      r = line.outcome stack dvl start ∧ u = three := by
    rw [sum_filled (Nat.le_refl _), length]
    simp only [ne_eq, ite_not, Line.outcome]
    split
    · next accepted =>
      rw [if_pos (show line.Accepted stack start from accepted)]
      exact ends_ret
    · next refused =>
      rw [if_neg (show ¬ line.Accepted stack start from refused)]
      exact ends_ret
  refine ⟨three, fun r u => ?_⟩
  rw [body, ← last, served_append (Nat.zero_le two.replied) order, and_assoc, afterBody, bind_eq, ends_bind]
  refine and_congr_right fun _ => ?_
  constructor
  · rintro ⟨_, _, first, rest⟩
    obtain ⟨served, rfl, rfl⟩ := (ends _ _).mp first
    exact ⟨served, computed.mp rest⟩
  · rintro ⟨served, rest⟩
    exact ⟨_, _, (ends _ _).mpr ⟨served, rfl, rfl⟩, computed.mpr rest⟩

/-- A frame that does not fit is written past the end of the buffer. -/
theorem readDVLData_large (large : bufSize < line.size start + 2) {u : Fd} :
    ¬ Ends line.serve (readDVLData stack dvl) opened r u := by
  obtain ⟨_, late, last⟩ := replies_order line start
  have inHeader : line.Unfailing start.replied (line.header start).2 := fun i low high => unfailing i low (by omega)
  have bounds := header_bounds inHeader
  have room : 6 ≤ bufSize := by decide
  by_cases body : line.size start ≤ bufSize
  · obtain ⟨two, replied, place, length, same⟩ := readDVLData_body stack dvl found unfailing body
    have checksum : line.checksum start = line.reach (bufSize + 1) (bufSize + 1) (bufSize + 1) (line.body start) := by
      rw [Line.checksum, Nat.min_eq_right (by omega)]
    have reads : line.Unfailing two.replied
        (line.reach (bufSize + 1) (bufSize + 1) (bufSize + 1) ((line.body start).1, two.replied)).2 := by
      rw [replied]
      exact fun i low high => unfailing i (by omega) (by rw [checksum]; exact high)
    rw [same, afterBody, bind_eq, ends_bind]
    rintro ⟨-, _, _, ends, -⟩
    exact fill_never (by omega) large (by omega) reads ends
  · obtain ⟨one, replied, place, same⟩ := readDVLData_header stack dvl found inHeader
    have reach : line.body start = line.reach (bufSize + 1) (bufSize + 1) (bufSize + 1) (line.header start) := by
      rw [Line.body, Nat.min_eq_right (by omega)]
    have reads : line.Unfailing one.replied
        (line.reach (bufSize + 1) (bufSize + 1) (bufSize + 1) ((line.header start).1, one.replied)).2 := by
      rw [replied]
      exact fun i low high => unfailing i (by omega) (Nat.lt_of_lt_of_le (by rw [reach]; exact high) last)
    rw [same, afterHeader, bind_eq, ends_bind]
    rintro ⟨-, _, _, ends, -⟩
    exact fill_never (by omega) (Nat.lt_of_not_le body) (by omega) reads ends

end

end

/-- A frame of 47 bytes is accepted if and only if it is sound. -/
theorem accepted_iff_sound {line : Line} {start : Fd} (stack : Buf) (size : line.size start = 45)
    (unfailing : line.Unfailing start.replied (line.header start).2) : line.Accepted stack start ↔ Sound (line.frame start) := by
  have bounds := header_bounds unfailing
  unfold Line.Accepted Sound
  rw [show (word (line.frame start) 2).toNat = 45 from size, size, Nat.max_eq_right (by omega), word_filled (by omega)]

/-- When no read after the synchronisation fails: `readDVLData` does what it should if and
    only if the line does not fall silent before the end, and the frame that the
    synchronisation found, if any, fits into the buffer with its checksum and is sound when
    its bytes 45 and 46 are the sum. -/
theorem good_iff (line : Line) (stack : Buf) (dvl : RawDVLData)
    (unfailing : line.Unfailing (line.sync syncFailBytecount opened).2.replied line.taken) :
    Good line stack dvl ↔ line.Served 0 line.taken ∧ ∀ start, line.sync syncFailBytecount opened = (true, start) →
      line.size start + 2 ≤ bufSize ∧ (line.Accepted stack start → Sound (line.frame start)) := by
  unfold Good
  generalize ends : line.sync syncFailBytecount opened = synced at unfailing ⊢
  obtain ⟨_ | _, start⟩ := synced
  · have missed : (line.sync syncFailBytecount opened).1 = false := by rw [ends]
    have nosync {r : Outcome} {u : Fd} := readDVLData_nosync stack dvl missed (r := r) (u := u)
    constructor
    · rintro ⟨r, fd, back, -⟩
      refine ⟨(nosync.mp back).1, ?_⟩
      rintro _ ⟨⟩
    · rintro ⟨served, -⟩
      refine ⟨_, _, nosync.mpr ⟨served, rfl, rfl⟩, fun fine => ?_, fun _ => rfl⟩
      exact absurd fine (show errNosync ≠ 0 by decide)
  · have taken : line.taken = (line.checksum start).2 := by rw [Line.taken, ends]; rfl
    rw [taken] at unfailing ⊢
    dsimp only at unfailing
    by_cases fits : line.size start + 2 ≤ bufSize
    · obtain ⟨fd, frame⟩ := readDVLData_frame stack dvl ends unfailing fits
      have order := replies_order line start
      have bounds := header_bounds fun i low high => unfailing i low (by omega)
      have whole : Sound (line.outcome stack dvl start).dvlData ↔ Sound (line.frame start) := by
        rw [outcome_dvlData]
        exact sound_filled (by omega) (by omega)
      constructor
      · rintro ⟨r, fd', back, good, -⟩
        obtain ⟨served, rfl, rfl⟩ := (frame _ _).mp back
        refine ⟨served, ?_⟩
        rintro _ ⟨⟩
        exact ⟨fits, fun accepted => whole.mp (good (outcome_result.mpr accepted))⟩
      · rintro ⟨served, fine⟩
        refine ⟨_, _, (frame _ _).mpr ⟨served, rfl, rfl⟩, fun done => ?_, fun refused => ?_⟩
        · exact whole.mpr ((fine start rfl).2 (outcome_result.mp done))
        · exact outcome_measurement (mt outcome_result.mpr refused)
    · refine iff_of_false ?_ fun all => fits (all.2 start rfl).1
      rintro ⟨r, fd, back, -⟩
      exact readDVLData_large stack dvl ends unfailing (Nat.lt_of_not_le fits) back

/-- A line on which every read gives what it is asked for. -/
def steady (bytes : ℕ → Byte) : Line where
  bytes := bytes
  replies _ := .gives 99
  empty _ := some 0

def unmeasured : RawDVLData := ⟨0, ⟨0, 0, 0, 0, 0, 0, 0, 0, 0⟩⟩

/-- A frame of 47 bytes with nothing but its size in it. -/
def still : Line := steady fun i => if i = 0 then 0x7D else if i = 2 then 0x2D else if i = 45 then 0xAA else 0

theorem still_good : Good still (fun _ => 0) unmeasured := by
  refine (good_iff still (fun _ => 0) unmeasured fun i _ _ => ⟨99, rfl⟩).mpr ⟨fun i _ _ => by simp [still, steady], ?_⟩
  have found : still.sync syncFailBytecount opened = (true, ⟨2, 0, 2⟩) := by decide
  rintro start same
  rw [found] at same
  cases same
  exact ⟨by decide, fun _ => by decide⟩

/-- The bytes before a frame, and a size of 65535. -/
def endless : Line := steady fun i => if i = 0 then 0x7D else if i = 1 then 0 else 0xFF

theorem endless_not_good : ¬ Good endless (fun _ => 0) unmeasured := by
  have found : endless.sync syncFailBytecount opened = (true, ⟨2, 0, 2⟩) := by decide
  rintro ⟨r, fd, ends, -⟩
  exact readDVLData_large (fun _ => 0) unmeasured found (fun i _ _ => ⟨99, rfl⟩) (by decide) ends

end Tortuga.Dvl
