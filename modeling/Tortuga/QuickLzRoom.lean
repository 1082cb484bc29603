import Tortuga.QuickLzRoundTrip

/-!
How much of its destination `qlz_compress` writes to. A word for every 31 items makes what is written longer than the source, but then the
source is stored as it is.
-/
namespace Tortuga.QuickLzRoom
open Tortuga.BusCodes
open Tortuga.LittleEndian
open Tortuga.ControlWords
open Tortuga.QuickLz
open Tortuga.QuickLzItems
open Tortuga.QuickLzRoundTrip

/-- The states that the loops of `qlz_compress_core` go through, also where they end without a result. -/
inductive Passed (source : ℕ → Byte) (size : ℕ) (table : HashTable) : Compressor → Prop
  | start : Passed source size table { src := 0, finished := [], pending := [], cwordVal := 2 ^ 31, table := table }
  | word {s} (passed : Passed source size table s) (more : s.src + 11 ≤ size) (full : s.cwordVal &&& 1 = 1) (fine : ¬s.Poor size) :
    Passed source size table s.nextWord
  | item {s} (passed : Passed source size table s) (more : s.src + 11 ≤ size) (room : ¬s.cwordVal &&& 1 = 1) :
    Passed source size table (s.item source size)
  | last {s} (passed : Passed source size table s) (past : size < s.src + 11) (left : s.src < size) :
    Passed source size table (s.last source size)

section
variable {source : ℕ → Byte} {size begun : ℕ} {table : HashTable} {s t : Compressor} {flags : List Bool}

/-- A group, from the place where it has begun. An item is not longer than what it stands for, nor than three bytes. -/
structure Group (s : Compressor) (flags : List Bool) (begun : ℕ) : Prop where
  few : flags.length ≤ 31
  cword : s.cwordVal = filling 31 flags
  items : begun + flags.length ≤ s.src
  pays : begun + s.pending.length ≤ s.src
  short : s.pending.length ≤ 3 * flags.length
  rate : 31 * s.finished.length ≤ 35 * begun

theorem Group.full_iff (group : Group s flags begun) : s.cwordVal &&& 1 = 1 ↔ flags.length = 31 := by
  rw [group.cword, filling_full group.few]

/-- The control word is less than an eighth of a group. -/
theorem Group.dst_le (group : Group s flags begun) : 31 * s.dst ≤ 35 * s.src + 124 := by
  have pays := group.pays
  have rate := group.rate
  rw [Compressor.dst]
  omega

theorem nextWord_finished (s : Compressor) : s.nextWord.finished.length = s.dst := by
  rw [Compressor.nextWord, Compressor.dst, List.length_append, List.length_append, length_bytes, Nat.add_assoc]

/-- A group that is full is followed by another one. -/
theorem Group.nextWord (group : Group s flags begun) (full : flags.length = 31) : Group s.nextWord [] s.src := by
  refine ⟨Nat.zero_le 31, (filling_nil 31).symm, le_rfl, le_rfl, le_rfl, ?_⟩
  have items := group.items
  have pays := group.pays
  have rate := group.rate
  rw [nextWord_finished, Compressor.dst]
  omega

/-- An item is put into a group. -/
theorem Group.put (group : Group s flags begun) (room : flags.length < 31) (f : Bool) (cost : ℕ) (finished : t.finished = s.finished)
    (cword : t.cwordVal = s.flag f) (pending : t.pending.length = s.pending.length + cost) (short : cost ≤ 3)
    (some : s.src + 1 ≤ t.src) (pays : s.src + cost ≤ t.src) :
    Group t (flags ++ [f]) begun := by
  have count : (flags ++ [f]).length = flags.length + 1 := List.length_append
  have items := group.items
  have before := group.pays
  have three := group.short
  refine ⟨by omega, ?_, by omega, by omega, by omega, ?_⟩
  · rw [cword, Compressor.flag, group.cword, filling_snoc flags room f]
  · rw [finished]
    exact group.rate

theorem writeMatch_length (hash matchlen : ℕ) : (writeMatch hash matchlen).length ≤ 3 := by
  rw [writeMatch]
  split_ifs
  · rw [length_bytes]
    decide
  · rw [length_bytes]

/-- An item of the main loop is put into its group, and ends before the source does. -/
theorem Group.item (group : Group s flags begun) (room : flags.length < 31) (more : s.src + 11 ≤ size) :
    (∃ f, Group (s.item source size) (flags ++ [f]) begun) ∧ (s.item source size).src ≤ size := by
  rw [Compressor.item]
  dsimp only
  split_ifs with hit
  · have three := matchLength_ge source size (s.table.offset (hashFunc (fastRead source s.src))) s.src
    have inside := (matchLength_le source (s.table.offset (hashFunc (fastRead source s.src))) more).2
    have cost := writeMatch_length (hashFunc (fastRead source s.src))
      (matchLength source size (s.table.offset (hashFunc (fastRead source s.src))) s.src)
    refine ⟨⟨true, group.put room true _ rfl rfl List.length_append cost ?_ ?_⟩, ?_⟩ <;> dsimp only <;> omega
  · refine ⟨⟨false, group.put room false 1 rfl rfl List.length_append (by decide) le_rfl le_rfl⟩, ?_⟩
    dsimp only
    omega

variable (source size) in
/-- One of the last bytes is put into a group, which may be the next one. -/
theorem Group.last (group : Group s flags begun) : (∃ flags begun, Group (s.last source size) flags begun) ∧
    (s.last source size).src = s.src + 1 ∧ (s.last source size).dst ≤ s.dst + 5 := by
  obtain ⟨u, flags', begun', u_eq, now, room, src, dst⟩ : ∃ u flags' begun', (if s.cwordVal &&& 1 = 1 then s.nextWord else s) = u ∧
      Group u flags' begun' ∧ flags'.length < 31 ∧ u.src = s.src ∧ u.dst ≤ s.dst + 4 := by
    by_cases full : flags.length = 31
    · refine ⟨s.nextWord, [], s.src, if_pos (group.full_iff.mpr full), group.nextWord full, by decide, rfl, ?_⟩
      rw [Compressor.dst, nextWord_finished]
      exact le_rfl
    · exact ⟨s, flags, begun, if_neg fun one => full (group.full_iff.mp one), group, lt_of_le_of_ne group.few full, rfl, Nat.le_add_right _ _⟩
  -- the table is no part of what is counted
  have parts : (s.last source size).src = u.src + 1 ∧ (s.last source size).finished = u.finished ∧
      (s.last source size).pending = u.pending ++ [source s.src] ∧ (s.last source size).cwordVal = u.flag false := by
    rw [Compressor.last, u_eq, ← src]
    split_ifs <;> exact ⟨rfl, rfl, rfl, rfl⟩
  have pending : (s.last source size).pending.length = u.pending.length + 1 := by
    rw [parts.2.2.1]
    exact List.length_append
  refine ⟨⟨_, _, now.put room false 1 parts.2.1 parts.2.2.2 pending (by decide) parts.1.ge parts.1.ge⟩, by rw [parts.1, src], ?_⟩
  rw [Compressor.dst] at dst ⊢
  rw [parts.2.1, pending]
  omega

/-- Before the last bytes there is room for what is written, since a group begins where it has paid, or before the last quarter of the source. -/
structure Room (size : ℕ) (s : Compressor) (flags : List Bool) (begun : ℕ) : Prop where
  group : Group s flags begun
  inside : s.src ≤ size
  early : s.finished.length ≤ begun ∨ begun ≤ 3 * (size >>> 2)

theorem Room.dst_le (room : Room size s flags begun) : s.dst ≤ size + 97 := by
  have few := room.group.few
  have pays := room.group.pays
  have short := room.group.short
  have rate := room.group.rate
  have inside := room.inside
  have early := room.early
  rw [Nat.shiftRight_eq_div_pow] at early
  rw [Compressor.dst]
  omega

theorem Room.nextWord (room : Room size s flags begun) (full : s.cwordVal &&& 1 = 1) (fine : ¬s.Poor size) : Room size s.nextWord [] s.src := by
  refine ⟨room.group.nextWord (room.group.full_iff.mp full), room.inside, ?_⟩
  rw [nextWord_finished]
  rcases Nat.lt_or_ge (3 * (size >>> 2)) s.src with late | early
  · refine .inl ((Nat.le_of_not_lt fun more => fine ⟨late, more⟩).trans (Nat.sub_le _ _))
  · exact .inr early

/-- What holds in all of the loops. -/
theorem Passed.room (passed : Passed source size table s) : (∃ flags begun, Group s flags begun) ∧ s.src ≤ size ∧
    ((∃ flags begun, Room size s flags begun) ∨ size < s.src + 11 ∧ s.dst + 5 * (size - s.src) ≤ size + 147) := by
  induction passed with
  | start =>
    have group : Group { src := 0, finished := [], pending := [], cwordVal := 2 ^ 31, table := table } [] 0 :=
      ⟨Nat.zero_le 31, (filling_nil 31).symm, le_rfl, le_rfl, le_rfl, le_rfl⟩
    exact ⟨⟨[], 0, group⟩, Nat.zero_le size, .inl ⟨[], 0, group, Nat.zero_le size, .inl le_rfl⟩⟩
  | @word s passed more full fine ih =>
    obtain ⟨-, inside, ⟨flags, begun, room⟩ | past⟩ := ih
    · have next := room.nextWord full fine
      exact ⟨⟨_, _, next.group⟩, inside, .inl ⟨_, _, next⟩⟩
    · omega
  | @item s passed more space ih =>
    obtain ⟨-, inside, ⟨flags, begun, room⟩ | past⟩ := ih
    · have less := lt_of_le_of_ne room.group.few fun full => space (room.group.full_iff.mpr full)
      obtain ⟨⟨f, next⟩, inside⟩ := room.group.item less more
      refine ⟨⟨_, _, next⟩, inside, .inl ⟨_, _, next, inside, ?_⟩⟩
      have same : (s.item source size).finished = s.finished := by
        rw [Compressor.item]
        dsimp only
        split_ifs <;> rfl
      rw [same]
      exact room.early
    · omega
  | @last s passed past left ih =>
    obtain ⟨⟨flags, begun, group⟩, inside, room⟩ := ih
    obtain ⟨next, src, dst⟩ := group.last source size
    refine ⟨next, by omega, .inr ⟨by omega, ?_⟩⟩
    rcases room with ⟨flags, begun, room⟩ | ⟨-, room⟩
    · have bound := room.dst_le
      omega
    · omega

/-! ### What is returned -/

theorem mainLoop_passed (passed : Passed source size table s) (loop : s.mainLoop source size = some t) :
    Passed source size table t ∧ size < t.src + 11 := by
  fun_induction Compressor.mainLoop source size s with
  | case1 s more ready poor => contradiction
  | case2 s more ready fine ih =>
    have unready : ¬s.nextWord.cwordVal &&& 1 = 1 := (by decide : ¬2 ^ 31 &&& 1 = 1)
    exact ih ((passed.word more ready fine).item more unready) loop
  | case3 s more unready ih => exact ih (passed.item more unready) loop
  | case4 s past =>
    obtain rfl := Option.some_inj.mp loop
    exact ⟨passed, Nat.not_le.mp past⟩

theorem lastLoop_passed (left : ℕ) (passed : Passed source size table s) (past : size < s.src + 11) (count : s.src + left = size) :
    Passed source size table (s.lastLoop source size left) ∧ (s.lastLoop source size left).src = size := by
  induction left generalizing s with
  | zero => exact ⟨passed, count⟩
  | succ left ih =>
    obtain ⟨⟨flags, begun, group⟩, -, -⟩ := passed.room
    obtain ⟨-, src, -⟩ := group.last source size
    exact ih (passed.last past (by omega)) (by omega) (by omega)

/-- The length of what is written is that of the last state. -/
theorem compressCore_passed {out : List Byte} (core : compressCore source size table = some out) :
    ∃ s, Passed source size table s ∧ s.src = size ∧ out.length = s.dst := by
  obtain ⟨s, loop, rfl⟩ := Option.map_eq_some_iff.mp core
  obtain ⟨passed, past⟩ := mainLoop_passed .start loop
  have inside := passed.room.2.1
  obtain ⟨passed, all⟩ := lastLoop_passed (size - s.src) passed past (by omega)
  refine ⟨_, passed, all, ?_⟩
  rw [List.length_append, List.length_append, length_bytes, Compressor.dst, Nat.add_assoc]

end

end Tortuga.QuickLzRoom
