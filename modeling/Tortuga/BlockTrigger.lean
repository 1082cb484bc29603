import Mathlib.Algebra.Order.Ring.Int
import Mathlib.Data.Finset.Lattice.Fold
import Mathlib.Data.Int.Notation
import Mathlib.Order.Lattice.Nat
import Tortuga.RunningMaxima

/-!
The block trigger (`sonard/trigger.c`): the block before a trigger sample where the signal jumps most.
-/
namespace Tortuga.BlockTrigger
open Tortuga.RunningMaxima
set_option linter.unusedSimpArgs false

/-! ### Samples -/

/-- `ALLOC_UNIT_NUMBITS`. -/
abbrev allocUnitNumBits : ℕ := 10

/-- `BLOCKSIZE`, in samples. -/
abbrev blockSize : ℕ := 20

/-- `BACKTRACK_BLOCKS`. -/
abbrev backtrackBlocks : ℕ := 80

/-- `BACKTRACK`, in samples. -/
abbrev backtrack : ℕ := backtrackBlocks * blockSize

/-- The samples of four channels, in units of 1024 samples. -/
structure Dataset where
  size : ℤ
  data : ℕ → Fin 4 → ℕ → BitVec 16

def getSample (d : Dataset) (ch : Fin 4) (index : ℤ) : BitVec 16 :=
  if index < 0 ∨ d.size ≤ index then -1
  else d.data (index.toNat >>> allocUnitNumBits) ch (index.toNat &&& (2 ^ allocUnitNumBits - 1))

def sAbs (v : BitVec 16) : BitVec 16 := if 0 < v.toInt then v else -v

/-! ### The trigger -/

/-- What the search has found, and the samples that it has examined. -/
structure State where
  j : ℕ
  blockMax : ℤ
  lastBlockMax : ℤ
  highestJump : ℕ
  highestJumpIndex : ℤ
  examined : List ℤ

def State.new : State where
  j := 0
  blockMax := 0
  lastBlockMax := 0
  highestJump := 0
  highestJumpIndex := 0
  examined := []

/-- One sample of a block: its absolute value is taken twice for the comparison. -/
def louder (d : Dataset) (ch : Fin 4) (i blockMax : ℤ) (j : ℕ) : ℤ :=
  let curSample := sAbs (getSample d ch (i + j))
  if blockMax < (sAbs curSample).toInt then curSample.toInt else blockMax

/-- "Find maximum of this block." -/
def findMaximum (d : Dataset) (ch : Fin 4) (i blockMax : ℤ) : ℤ := (List.range blockSize).foldl (louder d ch i) blockMax

/-- One block: its maximum starts with the sample at the `j` that the block before has left. -/
def State.block (d : Dataset) (ch : Fin 4) (s : State) (i : ℤ) : State :=
  let lastBlockMax := s.blockMax
  let blockMax := findMaximum d ch i (sAbs (getSample d ch (i + s.j))).toInt
  let blockJump := (blockMax - lastBlockMax).natAbs
  let higher := s.highestJump < blockJump
  { j := blockSize
    blockMax
    lastBlockMax
    highestJump := if higher then blockJump else s.highestJump
    highestJumpIndex := if higher then i else s.highestJumpIndex
    examined := s.examined ++ (i + s.j) :: (List.range blockSize).map fun (j : ℕ) => i + j }

/-- The starts of the blocks from a sample on. -/
def blocks (searchStart : ℤ) : List ℤ := (List.range backtrackBlocks).map fun (k : ℕ) => searchStart + k * blockSize

def search (d : Dataset) (ch : Fin 4) (searchStart : ℤ) : State := (blocks searchStart).foldl (State.block d ch) .new

/-- The samples that are examined, and the sample that is returned. -/
def blockTrigger (s : Option Dataset) (ch : Fin 4) (highestDftSample : ℤ) : List ℤ × ℤ :=
  match s with
  | none => ([], -1)
  | some d =>
    if highestDftSample < backtrack then ([], -1)
    else
      let last := search d ch (highestDftSample - backtrack)
      (last.examined, last.highestJumpIndex)

/-! ### What the trigger is for -/

/-- The true magnitude of a sample. -/
def magnitude (d : Dataset) (ch : Fin 4) (index : ℤ) : ℕ := (getSample d ch index).toInt.natAbs

/-- The greatest magnitude of the samples of a block. -/
def maximum (d : Dataset) (ch : Fin 4) (i : ℤ) : ℕ := (Finset.range blockSize).sup fun (j : ℕ) => magnitude d ch (i + j)

/-- How much the maximum of a block differs from that of the block before. -/
def jump (d : Dataset) (ch : Fin 4) (searchStart i : ℤ) : ℕ :=
  ((maximum d ch i : ℤ) - if i = searchStart then 0 else (maximum d ch (i - blockSize) : ℤ)).natAbs

/-- The trigger examines the samples before the trigger sample, and returns the block with the greatest jump. -/
structure Correct (d : Dataset) (ch : Fin 4) (highestDftSample : ℤ) : Prop where
  examined : ∀ i ∈ (blockTrigger (some d) ch highestDftSample).1, highestDftSample - backtrack ≤ i ∧ i < highestDftSample
  returned : First (jump d ch (highestDftSample - backtrack)) (blocks (highestDftSample - backtrack))
    (blockTrigger (some d) ch highestDftSample).2

section
variable {d : Dataset} {ch : Fin 4} {searchStart : ℤ}

/-! ### The samples examined -/

@[simp] theorem block_j (s : State) (i : ℤ) : (s.block d ch i).j = blockSize := rfl

@[simp] theorem block_blockMax (s : State) (i : ℤ) :
    (s.block d ch i).blockMax = findMaximum d ch i (sAbs (getSample d ch (i + s.j))).toInt := by rw [State.block]

@[simp] theorem block_examined (s : State) (i : ℤ) :
    (s.block d ch i).examined = s.examined ++ (i + s.j) :: (List.range blockSize).map fun (j : ℕ) => i + j := by rw [State.block]

/-- The blocks before the last one, and the last one. -/
theorem blocks_last (searchStart : ℤ) : ∃ earlier, earlier ≠ [] ∧ blocks searchStart = earlier ++ [searchStart + backtrack - blockSize] := by
  refine ⟨(List.range (backtrackBlocks - 1)).map fun (k : ℕ) => searchStart + k * blockSize, ?_, ?_⟩
  · intro none
    have length := congrArg List.length none
    simp at length
  · have whole : List.range backtrackBlocks = List.range (backtrackBlocks - 1) ++ [backtrackBlocks - 1] :=
      List.range_succ
    rw [blocks, whole, List.map_append, List.map_singleton]
    have place : searchStart + ((backtrackBlocks - 1 : ℕ) : ℤ) * (blockSize : ℕ) = searchStart + (backtrack : ℕ) - (blockSize : ℕ) := by
      simp only [backtrackBlocks, backtrack, blockSize]
      omega
    rw [place]

theorem foldl_block_j (d : Dataset) (ch : Fin 4) {l : List ℤ} (some : l ≠ []) (s : State) : (l.foldl (State.block d ch) s).j = blockSize := by
  obtain ⟨earlier, last, rfl⟩ := List.eq_nil_or_concat l |>.resolve_left some
  simp

/-- The last block starts with the trigger sample, which comes behind its own samples. -/
theorem examined_trigger (d : Dataset) (ch : Fin 4) (searchStart : ℤ) : searchStart + backtrack ∈ (search d ch searchStart).examined := by
  obtain ⟨earlier, some, same⟩ := blocks_last searchStart
  have past := foldl_block_j d ch some .new
  rw [search, same, List.foldl_append, List.foldl_cons, List.foldl_nil, block_examined, past, Int.sub_add_cancel]
  exact List.mem_append_right _ List.mem_cons_self

/-- The absolute value is the magnitude, if the magnitude fits. -/
theorem sAbs_magnitude {i : ℤ} (fits : getSample d ch i ≠ BitVec.intMin 16) :
    (sAbs (getSample d ch i)).toInt = magnitude d ch i ∧ (sAbs (sAbs (getSample d ch i))).toInt = magnitude d ch i := by
  rw [magnitude]
  generalize getSample d ch i = v at fits ⊢
  have negated := BitVec.toInt_neg_of_ne_intMin fits
  by_cases positive : 0 < v.toInt
  · have same : sAbs v = v := if_pos positive
    rw [same, same]
    omega
  · have same : sAbs v = -v := if_neg positive
    rw [same, sAbs, negated]
    split_ifs with more
    · omega
    · have zero : v = 0 := BitVec.eq_of_toInt_eq (show v.toInt = 0 by omega)
      rw [zero]
      decide

theorem foldl_louder {i : ℤ} {n : ℕ} (fits : ∀ j < n, getSample d ch (i + (j : ℕ)) ≠ BitVec.intMin 16) (seed : ℕ) :
    (List.range n).foldl (louder d ch i) seed = (max seed ((Finset.range n).sup fun (j : ℕ) => magnitude d ch (i + j)) : ℕ) := by
  induction n with
  | zero => simp
  | succ n ih =>
    obtain ⟨once, twice⟩ := sAbs_magnitude (fits n (Nat.lt_succ_self n))
    rw [List.range_succ, List.foldl_append, ih fun j less => fits j (Nat.lt_succ_of_lt less)]
    rw [List.foldl_cons, List.foldl_nil, louder, once, twice, Finset.range_add_one, Finset.sup_insert]
    generalize magnitude d ch (i + n) = m
    generalize (Finset.range n).sup (fun (j : ℕ) => magnitude d ch (i + j)) = rest
    split_ifs with more
    · have less := Int.ofNat_lt.mp more
      exact congrArg Nat.cast (show m = max seed (max m rest) by omega)
    · have le : m ≤ max seed rest := by omega
      exact congrArg Nat.cast (show max seed rest = max seed (max m rest) by omega)

/-- Samples for which the search does what it should: every magnitude fits, and the sample behind a block
    is not louder than the block. -/
structure Quiet (d : Dataset) (ch : Fin 4) (searchStart : ℤ) : Prop where
  fits : ∀ i, searchStart ≤ i → i ≤ searchStart + backtrack → getSample d ch i ≠ BitVec.intMin 16
  behind : ∀ k < backtrackBlocks, 0 < k →
    magnitude d ch (searchStart + k * blockSize + blockSize) ≤ maximum d ch (searchStart + k * blockSize)

theorem Quiet.findMaximum (quiet : Quiet d ch searchStart) {k : ℕ} (inside : k < backtrackBlocks) {j : ℕ}
    (seed : k = 0 ∧ j = 0 ∨ 0 < k ∧ j = blockSize) :
    findMaximum d ch (searchStart + k * blockSize) (sAbs (getSample d ch (searchStart + k * blockSize + j))).toInt =
      maximum d ch (searchStart + k * blockSize) := by
  simp only [backtrackBlocks] at inside
  have fits : ∀ m ≤ blockSize, getSample d ch (searchStart + k * blockSize + (m : ℕ)) ≠ BitVec.intMin 16 := by
    intro m small
    refine quiet.fits _ ?_ ?_
    · simp only [blockSize]
      omega
    · simp only [blockSize, backtrack, backtrackBlocks] at small ⊢
      omega
  have below : magnitude d ch (searchStart + k * blockSize + j) ≤ maximum d ch (searchStart + k * blockSize) := by
    rcases seed with ⟨-, rfl⟩ | ⟨positive, rfl⟩
    · exact Finset.le_sup (f := fun (j : ℕ) => magnitude d ch (searchStart + k * blockSize + j)) (Finset.mem_range.mpr (by decide))
    · exact quiet.behind k inside positive
  have room : j ≤ blockSize := by rcases seed with ⟨-, rfl⟩ | ⟨-, rfl⟩ <;> decide
  rw [(sAbs_magnitude (fits j room)).1, BlockTrigger.findMaximum, foldl_louder fun m less => fits m less.le]
  exact congrArg Nat.cast (max_eq_right below)

/-- The blocks up to the `n`-th leave its maximum, and the greatest jump so far. -/
theorem Quiet.foldl_block (quiet : Quiet d ch searchStart) {n : ℕ} (inside : n ≤ backtrackBlocks) :
    let s := ((List.range n).map fun (k : ℕ) => searchStart + k * blockSize).foldl (State.block d ch) .new
    (s.j = if n = 0 then 0 else blockSize) ∧
      (s.blockMax = if n = 0 then 0 else (maximum d ch (searchStart + n * blockSize - blockSize) : ℤ)) ∧
      (s.highestJump, s.highestJumpIndex) =
        ((List.range n).map fun (k : ℕ) => searchStart + k * blockSize).foldl (exceed (jump d ch searchStart)) (0, 0) := by
  induction n with
  | zero => exact ⟨rfl, rfl, rfl⟩
  | succ n ih =>
    obtain ⟨place, loud, best⟩ := ih (Nat.le_of_succ_le inside)
    dsimp only
    rw [List.range_succ, List.map_append, List.foldl_append, List.foldl_append, ← best]
    generalize (((List.range n).map fun (k : ℕ) => searchStart + k * blockSize).foldl (State.block d ch) .new) = s at place loud best ⊢
    have seed : n = 0 ∧ s.j = 0 ∨ 0 < n ∧ s.j = blockSize := by
      rw [place]
      cases n with
      | zero => exact .inl ⟨rfl, rfl⟩
      | succ n => exact .inr ⟨Nat.succ_pos n, rfl⟩
    have whole := quiet.findMaximum inside seed
    have before : s.blockMax = if searchStart + (n : ℤ) * (blockSize : ℕ) = searchStart then 0
        else (maximum d ch (searchStart + (n : ℤ) * (blockSize : ℕ) - (blockSize : ℕ)) : ℤ) := by
      rw [loud]
      refine if_congr ?_ rfl rfl
      simp only [blockSize]
      omega
    have higher : (maximum d ch (searchStart + n * blockSize) - s.blockMax).natAbs = jump d ch searchStart (searchStart + n * blockSize) := by
      rw [jump, before]
    rw [List.map_singleton, List.foldl_cons, List.foldl_nil, List.foldl_cons, List.foldl_nil]
    refine ⟨?_, ?_, ?_⟩
    · rw [block_j, if_neg (Nat.succ_ne_zero n)]
    · rw [block_blockMax, whole, if_neg (Nat.succ_ne_zero n)]
      refine congrArg (fun i => (maximum d ch i : ℤ)) ?_
      simp only [blockSize]
      omega
    · rw [State.block, whole, exceed, higher]
      split_ifs <;> rfl

/-- Where the signal is quiet behind the blocks and jumps somewhere, the block returned is the right one. -/
theorem Quiet.returned (quiet : Quiet d ch searchStart) (jumps : ∃ i ∈ blocks searchStart, 0 < jump d ch searchStart i) :
    First (jump d ch searchStart) (blocks searchStart) (search d ch searchStart).highestJumpIndex := by
  obtain ⟨i, there, positive⟩ := jumps
  have best := (quiet.foldl_block le_rfl).2.2
  rcases foldl_exceed (jump d ch searchStart) (blocks searchStart) (0, 0) with ⟨-, none⟩ | ⟨x, same, -, first⟩
  · exact absurd positive (Nat.not_lt.mpr (none i there))
  · rw [blocks] at same
    rw [same] at best
    have index : (search d ch searchStart).highestJumpIndex = x := by
      rw [search, blocks]
      exact (Prod.mk.inj best).2
    rw [index]
    exact first

theorem blockTrigger_eq (searchStart : ℕ) : blockTrigger (some d) ch (searchStart + backtrack) =
    ((search d ch searchStart).examined, (search d ch searchStart).highestJumpIndex) := by
  have room : ¬ ((searchStart : ℤ) + (backtrack : ℕ) < (backtrack : ℕ)) := by omega
  rw [blockTrigger, if_neg room, Int.add_sub_cancel]

end

/-- Whatever the samples are, the trigger sample itself is examined with the last block. -/
theorem blockTrigger_past (d : Dataset) (ch : Fin 4) (searchStart : ℕ) : ¬ Correct d ch (searchStart + backtrack) := by
  intro correct
  have examined := correct.examined (searchStart + backtrack)
  rw [blockTrigger_eq] at examined
  exact lt_irrefl _ (examined (examined_trigger d ch searchStart)).2

/-- A click at the sample 100. -/
def click : Dataset where
  size := 2000
  data unit _ offset := if unit = 0 ∧ offset = 100 then 1000 else 0

/-- The click is the first sample of its block, and the block before it is returned. -/
theorem blockTrigger_click : ¬ Correct click 0 1600 := by
  intro correct
  have greatest := correct.returned.greatest 100 (by decide +kernel)
  have before : (blockTrigger (some click) 0 1600).2 = 80 := by decide +kernel
  rw [before] at greatest
  exact absurd greatest (by decide +kernel)

end Tortuga.BlockTrigger
