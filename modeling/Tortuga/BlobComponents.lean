import Tortuga.BlobDetector
import Tortuga.Connectivity
import Mathlib.Algebra.BigOperators.Group.Finset.Basic

/-!
When the blobs of the detector are the connected components of the image (`BlobDetector.cpp`), and
an image of which it makes two blobs where there is one component.
-/
namespace Tortuga.BlobComponents
open Tortuga.Forests Tortuga.Connectivity Tortuga.BlobDetector

/-! ### The image as a graph -/

section
variable (img : Image)

/-- The column of a pixel. -/
def column (p : ℕ) : ℕ := p % img.width

def row (p : ℕ) : ℕ := p / img.width

/-- The first byte of the pixel is not zero. The top row and the front edge are not marked. -/
def Marked (p : ℕ) : Prop :=
  p < img.width * img.height ∧ column img p ≠ 0 ∧ row img p ≠ 0 ∧ 0 < img.imageData (3 * p)

instance (p : ℕ) : Decidable (Marked img p) := by
  unfold Marked
  infer_instance

/-- Beside or above one another. -/
def Neighbour (p q : ℕ) : Prop :=
  row img p = row img q ∧ (column img p + 1 = column img q ∨ column img q + 1 = column img p) ∨
  column img p = column img q ∧ (row img p + 1 = row img q ∨ row img q + 1 = row img p)

/-- Two marked pixels that meet. -/
def Edge (p q : ℕ) : Prop := Marked img p ∧ Marked img q ∧ Neighbour img p q

variable {img} {p q k : ℕ}

theorem edge_symm (p q : ℕ) (edge : Edge img p q) : Edge img q p := by
  obtain ⟨left, right, near⟩ := edge
  refine ⟨right, left, ?_⟩
  rcases near with ⟨same, one | one⟩ | ⟨same, one | one⟩
  · exact .inl ⟨same.symm, .inr one⟩
  · exact .inl ⟨same.symm, .inl one⟩
  · exact .inr ⟨same.symm, .inr one⟩
  · exact .inr ⟨same.symm, .inl one⟩

theorem pixel_eq (p : ℕ) : img.width * row img p + column img p = p := Nat.div_add_mod p img.width

theorem pixel_row {x y : ℕ} (less : x < img.width) : row img (y * img.width + x) = y := by
  rw [row, Nat.mul_comm, Nat.mul_add_div img.wide, Nat.div_eq_of_lt less, Nat.add_zero]

theorem pixel_column {x y : ℕ} (less : x < img.width) : column img (y * img.width + x) = x := by
  rw [column, Nat.mul_comm, Nat.mul_add_mod, Nat.mod_eq_of_lt less]

/-- There is a pixel above a marked one, and one to its left. -/
theorem Marked.after (marked : Marked img k) : img.width < k ∧ 0 < k := by
  obtain ⟨_, column, row, _⟩ := marked
  have whole := @pixel_eq img k
  have once : img.width * 1 ≤ img.width * BlobComponents.row img k := Nat.mul_le_mul_left _ (Nat.pos_of_ne_zero row)
  omega

theorem row_add : row img (p + img.width) = row img p + 1 := Nat.add_div_right p img.wide

theorem column_add : column img (p + img.width) = column img p := Nat.add_mod_right p img.width

theorem next_pixel (inside : column img (p + 1) ≠ 0) : row img (p + 1) = row img p ∧ column img (p + 1) = column img p + 1 := by
  have less : column img p < img.width := Nat.mod_lt p img.wide
  have whole := @pixel_eq img p
  by_cases last : column img p + 1 = img.width
  · have edge : p + 1 = img.width * (row img p + 1) := by rw [Nat.mul_succ]; omega
    rw [column, edge, Nat.mul_mod_right] at inside
    contradiction
  · have here : p + 1 = row img p * img.width + (column img p + 1) := by rw [Nat.mul_comm]; omega
    have within : column img p + 1 < img.width := by omega
    constructor
    · conv_lhs => rw [here]
      exact pixel_row within
    · conv_lhs => rw [here]
      exact pixel_column within

/-- The neighbours of a marked pixel that come before it are the one to its left and the one above it. -/
theorem edge_before (marked : Marked img k) (before : p < k) : Edge img p k ↔ Marked img p ∧ (p = k - 1 ∨ p = k - img.width) := by
  obtain ⟨above, left⟩ := marked.after
  constructor
  · rintro ⟨other, _, near⟩
    refine ⟨other, ?_⟩
    have first := @pixel_eq img p
    have second := @pixel_eq img k
    rcases near with ⟨same, one | one⟩ | ⟨same, one | one⟩
    · rw [same] at first
      omega
    · rw [same] at first
      omega
    · rw [← one, Nat.mul_succ] at second
      omega
    · rw [← one, Nat.mul_succ] at first
      omega
  · rintro ⟨other, rfl | rfl⟩
    · refine ⟨other, marked, .inl ?_⟩
      obtain ⟨j, rfl⟩ : ∃ j, k = j + 1 := ⟨k - 1, by omega⟩
      obtain ⟨same, one⟩ := next_pixel marked.2.1
      exact ⟨same.symm, .inl one.symm⟩
    · refine ⟨other, marked, .inr ?_⟩
      obtain ⟨j, rfl⟩ : ∃ j, k = j + img.width := ⟨k - img.width, by omega⟩
      rw [Nat.add_sub_cancel, column_add, row_add]
      exact ⟨rfl, .inl rfl⟩

/-- Only marked pixels are connected. -/
theorem marked_of_connected {n : ℕ} (marked : Marked img p) (connected : Connected (Edge img) n p q) : Marked img q := by
  induction connected with
  | refl => exact marked
  | tail _ inside _ => exact inside.2.2.2.1

end

/-! ### The blacked image -/

section
variable {img : Image}

theorem blackEdge_apply {width y k : ℕ} {data : ℕ → UInt8} :
    blackEdge width data y (3 * k) = if k = width * y then 0 else data (3 * k) := by
  by_cases here : k = width * y
  · rw [if_pos here, here, blackEdge]
    have first : 3 * (width * y) = 3 * width * y := (Nat.mul_assoc 3 width y).symm
    rw [first, Function.update_of_ne (by omega), Function.update_of_ne (by omega), Function.update_self]
  · rw [if_neg here, blackEdge]
    have first : 3 * width * y = 3 * (width * y) := Nat.mul_assoc 3 width y
    rw [first, Function.update_of_ne (by omega), Function.update_of_ne (by omega), Function.update_of_ne (by omega)]

theorem blackEdges_apply {width n k : ℕ} {data : ℕ → UInt8} (wide : 0 < width) :
    (List.range n).foldl (blackEdge width) data (3 * k) = if k % width = 0 ∧ k / width < n then 0 else data (3 * k) := by
  induction n with
  | zero => simp
  | succ n ih =>
    rw [List.range_succ, List.foldl_append, List.foldl_cons, List.foldl_nil, blackEdge_apply, ih]
    have whole := Nat.div_add_mod k width
    by_cases edge : k % width = 0
    · by_cases here : k / width = n
      · have same : k = width * n := by rw [edge, here] at whole; omega
        rw [if_pos same, if_pos ⟨edge, by omega⟩]
      · have other : k ≠ width * n := by
          rintro rfl
          exact here (Nat.mul_div_cancel_left n wide)
        rw [if_neg other]
        have same : (k % width = 0 ∧ k / width < n + 1) ↔ (k % width = 0 ∧ k / width < n) := by
          constructor
          · rintro ⟨_, less⟩
            exact ⟨edge, by omega⟩
          · rintro ⟨_, less⟩
            exact ⟨edge, by omega⟩
        simp only [same]
    · have other : k ≠ width * n := by
        rintro rfl
        exact edge (Nat.mul_mod_right width n)
      rw [if_neg other, if_neg fun both => edge both.1, if_neg fun both => edge both.1]

/-- The pass finds the marked pixels. -/
theorem blacked_marked {k : ℕ} (there : k < img.width * img.height) : 0 < blacked img (3 * k) ↔ Marked img k := by
  have high : k / img.width < img.height := Nat.div_lt_of_lt_mul there
  rw [blacked, blackEdges_apply img.wide, Marked, column, row]
  by_cases edge : k % img.width = 0
  · rw [if_pos ⟨edge, high⟩]
    exact ⟨fun never => absurd never (by decide), fun marked => absurd edge marked.2.1⟩
  · rw [if_neg fun both => edge both.1]
    by_cases top : k / img.width = 0
    · have less : k < img.width := by
        rcases Nat.div_eq_zero_iff.mp top with zero | less
        · exact absurd zero (Nat.ne_of_gt img.wide)
        · exact less
      rw [if_pos (by omega)]
      exact ⟨fun never => absurd never (by decide), fun marked => absurd top marked.2.2.1⟩
    · have more : ¬ 3 * k < img.width * 3 := by
        intro less
        exact top (Nat.div_eq_of_lt (by omega))
      rw [if_neg more]
      exact ⟨fun bright => ⟨there, edge, top, bright⟩, fun marked => marked.2.2.2⟩

end

/-! ### Sums over pixels -/

section
variable {img : Image} {P Q : Finset ℕ} {c d : Cluster} {k : ℕ}

/-- The cluster has counted the pixels of a set. -/
structure Sums (img : Image) (P : Finset ℕ) (c : Cluster) : Prop where
  pixelCount : c.pixelCount = int32 P.card
  totalX : c.totalX = int32 (P.sum (column img) : ℕ)
  totalY : c.totalY = int32 (P.sum (row img) : ℕ)
  minX : (∃ p ∈ P, (column img p : ℤ) = c.minX) ∧ ∀ p ∈ P, c.minX ≤ column img p
  maxX : (∃ p ∈ P, (column img p : ℤ) = c.maxX) ∧ ∀ p ∈ P, (column img p : ℤ) ≤ c.maxX
  minY : (∃ p ∈ P, (row img p : ℤ) = c.minY) ∧ ∀ p ∈ P, c.minY ≤ row img p
  maxY : (∃ p ∈ P, (row img p : ℤ) = c.maxY) ∧ ∀ p ∈ P, (row img p : ℤ) ≤ c.maxY

theorem int32_add (a b : ℤ) : int32 (int32 a + int32 b) = int32 (a + b) := by
  rw [int32, int32, int32, int32, Int.bmod_add_bmod, Int.add_bmod_bmod]

theorem int32_small {n : ℕ} (small : n < 2147483648) : int32 n = n := by
  rw [int32, Int.bmod_eq_of_le] <;> omega

/-- What comes first in one of two sets, and no later than what is first in the other, is first in both together. -/
theorem first_union {r : ℤ → ℤ → Prop} (trans : ∀ x y z, r x y → r y z → r x z) {f : ℕ → ℤ} {a b c : ℤ}
    (one : c = a ∨ c = b) (left : r c a) (right : r c b) (first : (∃ p ∈ P, f p = a) ∧ ∀ p ∈ P, r a (f p))
    (second : (∃ p ∈ Q, f p = b) ∧ ∀ p ∈ Q, r b (f p)) : (∃ p ∈ P ∪ Q, f p = c) ∧ ∀ p ∈ P ∪ Q, r c (f p) := by
  obtain ⟨⟨p, inP, here⟩, all⟩ := first
  obtain ⟨⟨q, inQ, there⟩, each⟩ := second
  constructor
  · rcases one with rfl | rfl
    · exact ⟨p, Finset.mem_union_left _ inP, here⟩
    · exact ⟨q, Finset.mem_union_right _ inQ, there⟩
  · intro u member
    rcases Finset.mem_union.mp member with inside | inside
    · exact trans c a (f u) left (all u inside)
    · exact trans c b (f u) right (each u inside)

/-- The smaller of what is smallest in each of two sets. -/
theorem least_union {f : ℕ → ℤ} {a b : ℤ} (first : (∃ p ∈ P, f p = a) ∧ ∀ p ∈ P, a ≤ f p)
    (second : (∃ p ∈ Q, f p = b) ∧ ∀ p ∈ Q, b ≤ f p) :
    (∃ p ∈ P ∪ Q, f p = if b < a then b else a) ∧ ∀ p ∈ P ∪ Q, (if b < a then b else a) ≤ f p := by
  refine first_union (r := fun x y => x ≤ y) (fun _ _ _ => Int.le_trans) ?_ ?_ ?_ first second <;> split <;> omega

theorem greatest_union {f : ℕ → ℤ} {a b : ℤ} (first : (∃ p ∈ P, f p = a) ∧ ∀ p ∈ P, f p ≤ a)
    (second : (∃ p ∈ Q, f p = b) ∧ ∀ p ∈ Q, f p ≤ b) :
    (∃ p ∈ P ∪ Q, f p = if a < b then b else a) ∧ ∀ p ∈ P ∪ Q, f p ≤ if a < b then b else a := by
  refine first_union (r := fun x y => y ≤ x) (fun _ _ _ below above => Int.le_trans above below) ?_ ?_ ?_ first second <;>
    split <;> omega

/-- The clusters of two sets of pixels, put together. -/
theorem Sums.merge (first : Sums img P c) (second : Sums img Q d) (apart : Disjoint P Q) : Sums img (P ∪ Q) (c.merge d) where
  pixelCount := by
    rw [Cluster.merge, first.pixelCount, second.pixelCount, int32_add, Finset.card_union_of_disjoint apart, Int.natCast_add]
  totalX := by
    rw [Cluster.merge, first.totalX, second.totalX, int32_add, Finset.sum_union apart, Int.natCast_add]
  totalY := by
    rw [Cluster.merge, first.totalY, second.totalY, int32_add, Finset.sum_union apart, Int.natCast_add]
  minX := least_union first.minX second.minX
  maxX := greatest_union first.maxX second.maxX
  minY := least_union first.minY second.minY
  maxY := greatest_union first.maxY second.maxY

/-- The numbers of an image are small. -/
theorem column_small (k : ℕ) : column img k < 2147483648 := by
  have less : column img k < img.width := Nat.mod_lt k img.wide
  have area : img.width * 1 ≤ img.width * img.height := Nat.mul_le_mul_left _ img.high
  have fits := img.fits
  omega

theorem row_small (there : k < img.width * img.height) : row img k < 2147483648 := by
  have less : row img k < img.height := Nat.div_lt_of_lt_mul there
  have area : 1 * img.height ≤ img.width * img.height := Nat.mul_le_mul_right _ img.wide
  have fits := img.fits
  omega

theorem sums_new (there : k < img.width * img.height) : Sums img {k} (.new (column img k) (row img k)) where
  pixelCount := by
    rw [Finset.card_singleton, int32_small (by omega)]
    rfl
  totalX := by
    rw [Finset.sum_singleton, int32_small (column_small k)]
    rfl
  totalY := by
    rw [Finset.sum_singleton, int32_small (row_small there)]
    rfl
  minX := ⟨⟨k, Finset.mem_singleton_self k, rfl⟩, fun p member => by rw [Finset.mem_singleton.mp member]; exact Int.le_refl _⟩
  maxX := ⟨⟨k, Finset.mem_singleton_self k, rfl⟩, fun p member => by rw [Finset.mem_singleton.mp member]; exact Int.le_refl _⟩
  minY := ⟨⟨k, Finset.mem_singleton_self k, rfl⟩, fun p member => by rw [Finset.mem_singleton.mp member]; exact Int.le_refl _⟩
  maxY := ⟨⟨k, Finset.mem_singleton_self k, rfl⟩, fun p member => by rw [Finset.mem_singleton.mp member]; exact Int.le_refl _⟩

/-- One more pixel is a cluster of one put to the others. -/
theorem add_eq_merge (sums : Sums img P c) :
    c.add (column img k) (row img k) = c.merge (.new (column img k) (row img k)) := by
  obtain ⟨p, member, _⟩ := sums.minX.1
  have wide : c.minX ≤ c.maxX := Int.le_trans (sums.minX.2 p member) (sums.maxX.2 p member)
  have high : c.minY ≤ c.maxY := Int.le_trans (sums.minY.2 p member) (sums.maxY.2 p member)
  rw [Cluster.add, Cluster.merge, Cluster.new]
  have x : (if (column img k : ℤ) < c.minX then c.maxX else if c.maxX < column img k then (column img k : ℤ) else c.maxX) =
      if c.maxX < column img k then (column img k : ℤ) else c.maxX := by
    split
    · rw [if_neg (by omega)]
    · rfl
  have y : (if (row img k : ℤ) < c.minY then c.maxY else if c.maxY < row img k then (row img k : ℤ) else c.maxY) =
      if c.maxY < row img k then (row img k : ℤ) else c.maxY := by
    split
    · rw [if_neg (by omega)]
    · rfl
  rw [x, y]

theorem Sums.add (sums : Sums img P c) (there : k < img.width * img.height) (new : k ∉ P) :
    Sums img (P ∪ {k}) (c.add (column img k) (row img k)) := by
  rw [add_eq_merge sums]
  exact sums.merge (sums_new there) (Finset.disjoint_singleton_right.mpr new)

end

/-! ### The pass over the image -/

section
variable (img : Image)

/-- The pixels before `k` that have the index `i`. -/
def labelled (t : Table) (k i : ℕ) : Finset ℕ := (Finset.range k).filter fun p => Marked img p ∧ t.pixelBlobIndex p = i

/-- What meets at a pixel cannot be joined: the blob above it has been joined to an earlier one since the pixel
    above was visited, and the blob to its left is earlier still. -/
def Hazard (k : ℕ) : Prop :=
  Marked img k ∧ Marked img (k - img.width) ∧ Marked img (k - 1) ∧
  ∃ a b l, Earliest (Edge img) (k - img.width + 1) (k - img.width) a ∧ Earliest (Edge img) k (k - img.width) b ∧
    Earliest (Edge img) k (k - 1) l ∧ l < b ∧ b < a

/-- What is known when the pixels before `k` have been visited. `s` are the first pixels of the indices. -/
structure Scanned (s : ℕ → ℕ) (k : ℕ) (t : Table) : Prop where
  positive : 0 < t.initialBlobIndex
  few : t.initialBlobIndex ≤ k + 1
  forest : Forest t.joinedBlobIndex t.initialBlobIndex
  labels : ∀ p < k, Marked img p → 0 < t.pixelBlobIndex p ∧ t.pixelBlobIndex p < t.initialBlobIndex
  blank : ∀ p < k, ¬ Marked img p → t.pixelBlobIndex p = 0
  classes : ∀ p < k, ∀ q < k, Marked img p → Marked img q →
    (root t.joinedBlobIndex (t.pixelBlobIndex p) = root t.joinedBlobIndex (t.pixelBlobIndex q) ↔ Connected (Edge img) k p q)
  starts : ∀ i, 0 < i → i < t.initialBlobIndex → s i < k ∧ Marked img (s i) ∧ t.pixelBlobIndex (s i) = i
  increasing : ∀ i j, 0 < i → i < j → j < t.initialBlobIndex → s i < s j
  named : ∀ p < k, Marked img p → Earliest (Edge img) (p + 1) p (s (t.pixelBlobIndex p))
  clusters : ∀ i, 0 < i → i < t.initialBlobIndex → Sums img (labelled img t k i) (t.clusters i)
  last : 0 < k → Marked img (k - 1) → t.joinedBlobIndex (t.pixelBlobIndex (k - 1)) = t.pixelBlobIndex (k - 1)

variable {img} {s : ℕ → ℕ} {k i : ℕ} {t : Table}

theorem mem_labelled {p : ℕ} : p ∈ labelled img t k i ↔ p < k ∧ Marked img p ∧ t.pixelBlobIndex p = i := by
  rw [labelled, Finset.mem_filter, Finset.mem_range]

/-- One pixel more with another index. -/
theorem labelled_other {u : Table} {j : ℕ} (pixels : u.pixelBlobIndex = Function.update t.pixelBlobIndex k j)
    (other : Marked img k → j ≠ i) : labelled img u (k + 1) i = labelled img t k i := by
  ext p
  rw [mem_labelled, mem_labelled, pixels]
  by_cases here : p = k
  · rw [here, Function.update_self]
    constructor
    · rintro ⟨_, marked, same⟩
      exact absurd same (other marked)
    · rintro ⟨less, _⟩
      exact absurd less (Nat.lt_irrefl k)
  · rw [Function.update_of_ne here]
    have same : p < k + 1 ↔ p < k := by omega
    rw [same]

theorem labelled_same {u : Table} (pixels : u.pixelBlobIndex = Function.update t.pixelBlobIndex k i) (marked : Marked img k) :
    labelled img u (k + 1) i = labelled img t k i ∪ {k} := by
  ext p
  rw [Finset.mem_union, mem_labelled, mem_labelled, Finset.mem_singleton, pixels]
  by_cases here : p = k
  · rw [here, Function.update_self]
    exact ⟨fun _ => .inr rfl, fun _ => ⟨Nat.lt_succ_self k, marked, rfl⟩⟩
  · rw [Function.update_of_ne here]
    constructor
    · rintro ⟨less, both⟩
      exact .inl ⟨by omega, both⟩
    · rintro (⟨less, both⟩ | same)
      · exact ⟨by omega, both⟩
      · exact absurd same here

/-- The first pixel of a blob has the index that the others lead to. -/
theorem Scanned.earliest (scanned : Scanned img s k t) {p : ℕ} (less : p < k) (marked : Marked img p) :
    Earliest (Edge img) k p (s (root t.joinedBlobIndex (t.pixelBlobIndex p))) := by
  obtain ⟨positive, small⟩ := scanned.labels p less marked
  obtain ⟨above, below, ends⟩ := root_spec scanned.forest positive small
  have within := Nat.lt_of_le_of_lt below small
  obtain ⟨there, start, index⟩ := scanned.starts _ above within
  constructor
  · refine (scanned.classes p less _ there marked start).mp ?_
    rw [index, root_self ends]
  · intro q connected
    have inside : q < k := connected.lt less
    have other : Marked img q := marked_of_connected marked connected
    obtain ⟨positive', small'⟩ := scanned.labels q inside other
    have same := (scanned.classes p less q inside marked other).mpr connected
    have order : root t.joinedBlobIndex (t.pixelBlobIndex p) ≤ t.pixelBlobIndex q := by
      rw [same]
      exact (root_spec scanned.forest positive' small').2.1
    have first : s (t.pixelBlobIndex q) ≤ q := (scanned.named q inside other).le
    rcases Nat.lt_or_eq_of_le order with less | equal
    · exact Nat.le_trans (Nat.le_of_lt (scanned.increasing _ _ above less small')) first
    · rw [equal]
      exact first

/-- An unmarked pixel belongs to no blob. -/
theorem Scanned.unmarked (scanned : Scanned img s k t) (unmarked : ¬ Marked img k) :
    Scanned img s (k + 1) { t with pixelBlobIndex := Function.update t.pixelBlobIndex k 0 } := by
  have old {p : ℕ} (less : p < k + 1) (marked : Marked img p) : p < k ∧ Function.update t.pixelBlobIndex k 0 p = t.pixelBlobIndex p := by
    have other : p ≠ k := by
      rintro rfl
      exact unmarked marked
    exact ⟨by omega, Function.update_of_ne other _ _⟩
  refine ⟨scanned.positive, Nat.le_succ_of_le scanned.few, scanned.forest, ?_, ?_, ?_, ?_, scanned.increasing, ?_, ?_, ?_⟩ <;> dsimp only
  · intro p less marked
    obtain ⟨less, same⟩ := old less marked
    rw [same]
    exact scanned.labels p less marked
  · intro p less blank
    by_cases here : p = k
    · rw [here, Function.update_self]
    · rw [Function.update_of_ne here]
      exact scanned.blank p (by omega) blank
  · intro p less q less' marked marked'
    obtain ⟨less, same⟩ := old less marked
    obtain ⟨less', same'⟩ := old less' marked'
    rw [same, same', scanned.classes p less q less' marked marked',
      connected_isolated edge_symm fun a _ edge => unmarked edge.2.1]
  · intro i positive small
    obtain ⟨less, marked, index⟩ := scanned.starts i positive small
    refine ⟨Nat.lt_succ_of_lt less, marked, ?_⟩
    rw [(old (Nat.lt_succ_of_lt less) marked).2, index]
  · intro p less marked
    obtain ⟨less, same⟩ := old less marked
    rw [same]
    exact scanned.named p less marked
  · intro i positive small
    rw [labelled_other (t := t) (j := 0) rfl fun marked => absurd marked unmarked]
    exact scanned.clusters i positive small
  · intro _ marked
    exact absurd marked unmarked

/-- A pixel with no marked one above it or to its left begins a blob. -/
theorem Scanned.new (scanned : Scanned img s k t) (there : k < img.width * img.height) (bright : Marked img k)
    (above : ¬ Marked img (k - img.width)) (left : ¬ Marked img (k - 1)) :
    Scanned img (Function.update s t.initialBlobIndex k) (k + 1)
      { joinedBlobIndex := Function.update t.joinedBlobIndex t.initialBlobIndex t.initialBlobIndex
        clusters := Function.update t.clusters t.initialBlobIndex (.new (column img k) (row img k))
        pixelBlobIndex := Function.update t.pixelBlobIndex k t.initialBlobIndex
        initialBlobIndex := t.initialBlobIndex + 1 } := by
  have alone (a : ℕ) (less : a < k) : ¬ Edge img a k := by
    intro edge
    obtain ⟨other, rfl | rfl⟩ := (edge_before bright less).mp edge
    · exact left other
    · exact above other
  have pixel {p : ℕ} (less : p < k) : Function.update t.pixelBlobIndex k t.initialBlobIndex p = t.pixelBlobIndex p :=
    Function.update_of_ne (Nat.ne_of_lt less) _ _
  have start {i : ℕ} (less : i < t.initialBlobIndex) : Function.update s t.initialBlobIndex k i = s i :=
    Function.update_of_ne (Nat.ne_of_lt less) _ _
  have newRoot : root (Function.update t.joinedBlobIndex t.initialBlobIndex t.initialBlobIndex) t.initialBlobIndex =
      t.initialBlobIndex := root_self (Function.update_self _ _ _)
  have oldRoot {p : ℕ} (less : p < k) (marked : Marked img p) :
      root (Function.update t.joinedBlobIndex t.initialBlobIndex t.initialBlobIndex) (t.pixelBlobIndex p) =
        root t.joinedBlobIndex (t.pixelBlobIndex p) ∧ root t.joinedBlobIndex (t.pixelBlobIndex p) < t.initialBlobIndex := by
    obtain ⟨positive, small⟩ := scanned.labels p less marked
    exact ⟨root_new scanned.forest positive small,
      Nat.lt_of_le_of_lt (root_spec scanned.forest positive small).2.1 small⟩
  refine ⟨Nat.succ_pos _, Nat.succ_le_succ scanned.few, scanned.forest.new, ?_, ?_, ?_, ?_, ?_, ?_, ?_, ?_⟩ <;> dsimp only
  · intro p less marked
    rcases Nat.lt_succ_iff_lt_or_eq.mp less with less | rfl
    · rw [pixel less]
      obtain ⟨positive, small⟩ := scanned.labels p less marked
      exact ⟨positive, Nat.lt_succ_of_lt small⟩
    · rw [Function.update_self]
      exact ⟨scanned.positive, Nat.lt_succ_self _⟩
  · intro p less blank
    rcases Nat.lt_succ_iff_lt_or_eq.mp less with less | rfl
    · rw [pixel less]
      exact scanned.blank p less blank
    · exact absurd bright blank
  · refine labels_succ edge_symm scanned.classes fun p less marked => .inr ?_
    rw [pixel less, Function.update_self, newRoot]
    obtain ⟨same, small⟩ := oldRoot less marked
    refine ⟨same, Nat.ne_of_lt small, ?_⟩
    rintro (rfl | ⟨a, before, edge, _⟩)
    · exact Nat.lt_irrefl p less
    · exact alone a before edge
  · intro i positive small
    rcases Nat.lt_succ_iff_lt_or_eq.mp small with small | rfl
    · obtain ⟨less, marked, index⟩ := scanned.starts i positive small
      rw [start small, pixel less]
      exact ⟨Nat.lt_succ_of_lt less, marked, index⟩
    · rw [Function.update_self, Function.update_self]
      exact ⟨Nat.lt_succ_self k, bright, rfl⟩
  · intro i j positive less small
    rcases Nat.lt_succ_iff_lt_or_eq.mp small with small | rfl
    · rw [start small, start (Nat.lt_trans less small)]
      exact scanned.increasing i j positive less small
    · rw [start less, Function.update_self]
      exact (scanned.starts i positive less).1
  · intro p less marked
    rcases Nat.lt_succ_iff_lt_or_eq.mp less with less | rfl
    · rw [pixel less, start (scanned.labels p less marked).2]
      exact scanned.named p less marked
    · rw [Function.update_self, Function.update_self]
      refine ⟨.refl, fun q connected => ?_⟩
      have old := (connected_isolated edge_symm alone).mp connected
      exact Nat.le_of_eq ((old.symm edge_symm).of_ge (Nat.le_refl p)).symm
  · intro i positive small
    rcases Nat.lt_succ_iff_lt_or_eq.mp small with small | rfl
    · rw [labelled_other (t := t) (j := t.initialBlobIndex) rfl fun _ => Nat.ne_of_gt small]
      rw [Function.update_of_ne (Nat.ne_of_lt small)]
      exact scanned.clusters i positive small
    · have none : labelled img t k t.initialBlobIndex = ∅ := by
        refine Finset.eq_empty_of_forall_notMem fun p member => ?_
        obtain ⟨less, marked, index⟩ := mem_labelled.mp member
        exact absurd index (Nat.ne_of_lt (scanned.labels p less marked).2)
      rw [labelled_same (t := t) rfl bright, none, Finset.empty_union]
      rw [Function.update_self]
      exact sums_new there
  · intro _ _
    rw [Nat.add_sub_cancel, Function.update_self, Function.update_self]

theorem Scanned.index_ne (scanned : Scanned img s k t) {p : ℕ} (less : p < k) : t.pixelBlobIndex p ≠ 0 ↔ Marked img p := by
  constructor
  · intro index
    by_contra unmarked
    exact index (scanned.blank p less unmarked)
  · intro marked
    exact Nat.ne_of_gt (scanned.labels p less marked).1

/-- What the pixel meets: the blobs of the pixels above it and to its left. -/
theorem Scanned.touches_iff (scanned : Scanned img s k t) (bright : Marked img k) {p : ℕ} (less : p < k) (marked : Marked img p) :
    Touches (Edge img) k p ↔ Touched t.joinedBlobIndex (t.pixelBlobIndex (k - img.width)) (t.pixelBlobIndex (k - 1))
      (root t.joinedBlobIndex (t.pixelBlobIndex p)) := by
  obtain ⟨wide, positive⟩ := bright.after
  have above : k - img.width < k := Nat.sub_lt positive img.wide
  have left : k - 1 < k := Nat.sub_lt positive Nat.one_pos
  constructor
  · rintro (same | ⟨q, inside, edge, connected⟩)
    · exact absurd same (Nat.ne_of_lt less)
    · obtain ⟨other, rfl | rfl⟩ := (edge_before bright inside).mp edge
      · exact .inr ⟨(scanned.index_ne left).mpr other, (scanned.classes p less _ left marked other).mpr connected⟩
      · exact .inl ⟨(scanned.index_ne above).mpr other, (scanned.classes p less _ above marked other).mpr connected⟩
  · rintro (⟨index, same⟩ | ⟨index, same⟩)
    · have other := (scanned.index_ne above).mp index
      exact .inr ⟨_, above, (edge_before bright above).mpr ⟨other, .inr rfl⟩,
        (scanned.classes p less _ above marked other).mp same⟩
    · have other := (scanned.index_ne left).mp index
      exact .inr ⟨_, left, (edge_before bright left).mpr ⟨other, .inl rfl⟩,
        (scanned.classes p less _ left marked other).mp same⟩

/-- What is touched is a root of a blob that there is. -/
theorem Scanned.touched_spec (scanned : Scanned img s k t) {c d r : ℕ} (first : c < t.initialBlobIndex) (second : d < t.initialBlobIndex)
    (touched : Touched t.joinedBlobIndex c d r) : 0 < r ∧ r < t.initialBlobIndex ∧ t.joinedBlobIndex r = r := by
  have one {x : ℕ} (some : x ≠ 0) (small : x < t.initialBlobIndex) : 0 < root t.joinedBlobIndex x ∧
      root t.joinedBlobIndex x < t.initialBlobIndex ∧ t.joinedBlobIndex (root t.joinedBlobIndex x) = root t.joinedBlobIndex x := by
    obtain ⟨above, below, ends⟩ := root_spec scanned.forest (Nat.pos_of_ne_zero some) small
    exact ⟨above, Nat.lt_of_le_of_lt below small, ends⟩
  rcases touched with ⟨some, rfl⟩ | ⟨some, rfl⟩
  · exact one some first
  · exact one some second

/-- The smaller of the blobs that meet is one of them. -/
theorem Scanned.final_spec (scanned : Scanned img s k t) (there : k < img.width * img.height) {c d : ℕ} (first : c < t.initialBlobIndex)
    (second : d < t.initialBlobIndex) (some : ¬ (c = 0 ∧ d = 0)) :
    Touched t.joinedBlobIndex c d (min (joinedTo t.joinedBlobIndex d) (joinedTo t.joinedBlobIndex c)) ∧
    ∀ r, Touched t.joinedBlobIndex c d r → min (joinedTo t.joinedBlobIndex d) (joinedTo t.joinedBlobIndex c) ≤ r := by
  have small {x : ℕ} (some : x ≠ 0) (less : x < t.initialBlobIndex) : root t.joinedBlobIndex x < uintMax := by
    have below := (root_spec scanned.forest (Nat.pos_of_ne_zero some) less).2.1
    have few := scanned.few
    have fits := img.fits
    show _ < 4294967295
    omega
  have joined (x : ℕ) (some : x ≠ 0) : joinedTo t.joinedBlobIndex x = root t.joinedBlobIndex x := if_neg some
  have zero : joinedTo t.joinedBlobIndex 0 = uintMax := if_pos rfl
  by_cases left : d = 0
  · have above : c ≠ 0 := fun none => some ⟨none, left⟩
    rw [left, zero, joined c above, Nat.min_eq_right (Nat.le_of_lt (small above first))]
    refine ⟨.inl ⟨above, rfl⟩, ?_⟩
    rintro r (⟨_, rfl⟩ | ⟨none, _⟩)
    · exact Nat.le_refl _
    · exact absurd rfl none
  · by_cases above : c = 0
    · rw [above, zero, joined d left, Nat.min_eq_left (Nat.le_of_lt (small left second))]
      refine ⟨.inr ⟨left, rfl⟩, ?_⟩
      rintro r (⟨none, _⟩ | ⟨_, rfl⟩)
      · exact absurd rfl none
      · exact Nat.le_refl _
    · rw [joined c above, joined d left]
      constructor
      · rcases Nat.le_total (root t.joinedBlobIndex d) (root t.joinedBlobIndex c) with order | order
        · rw [Nat.min_eq_left order]
          exact .inr ⟨left, rfl⟩
        · rw [Nat.min_eq_right order]
          exact .inl ⟨above, rfl⟩
      · rintro r (⟨_, rfl⟩ | ⟨_, rfl⟩)
        · exact Nat.min_le_right _ _
        · exact Nat.min_le_left _ _

/-- Where there is no hazard, both blobs can be joined. -/
theorem Scanned.meets (scanned : Scanned img s k t) (bright : Marked img k) (safe : ¬ Hazard img k) {f : ℕ}
    (among : Touched t.joinedBlobIndex (t.pixelBlobIndex (k - img.width)) (t.pixelBlobIndex (k - 1)) f)
    (least : ∀ r, Touched t.joinedBlobIndex (t.pixelBlobIndex (k - img.width)) (t.pixelBlobIndex (k - 1)) r → f ≤ r)
    (target : 0 < f ∧ f < t.initialBlobIndex ∧ t.joinedBlobIndex f = f) :
    Meets t.joinedBlobIndex t.initialBlobIndex (t.pixelBlobIndex (k - img.width)) f ∧
    Meets t.joinedBlobIndex t.initialBlobIndex (t.pixelBlobIndex (k - 1)) f := by
  obtain ⟨wide, positive⟩ := bright.after
  have above : k - img.width < k := Nat.sub_lt positive img.wide
  have left : k - 1 < k := Nat.sub_lt positive Nat.one_pos
  constructor
  · by_cases index : t.pixelBlobIndex (k - img.width) = 0
    · exact .inl index
    · have marked := (scanned.index_ne above).mp index
      obtain ⟨more, small⟩ := scanned.labels _ above marked
      refine .inr ⟨more, small, target.1, target.2.2, least _ (.inl ⟨index, rfl⟩), ?_⟩
      by_contra neither
      obtain ⟨goes, alone⟩ := not_or.mp neither
      obtain ⟨low, below, ends⟩ := root_spec scanned.forest more small
      -- The blob to the left is the smaller one, and the one above has been joined before.
      rcases among with ⟨_, same⟩ | ⟨other, same⟩
      · exact goes same.symm
      · have beside := (scanned.index_ne left).mp other
        have order : f < root t.joinedBlobIndex (t.pixelBlobIndex (k - img.width)) :=
          Nat.lt_of_le_of_ne (least _ (.inl ⟨index, rfl⟩)) fun equal => goes equal.symm
        have moved : root t.joinedBlobIndex (t.pixelBlobIndex (k - img.width)) < t.pixelBlobIndex (k - img.width) := by
          refine Nat.lt_of_le_of_ne below fun equal => alone ?_
          rw [equal] at ends
          exact ends
        refine safe ⟨bright, marked, beside, _, _, _, scanned.named _ above marked, scanned.earliest above marked,
          scanned.earliest left beside, ?_, ?_⟩
        · rw [← same]
          exact scanned.increasing _ _ target.1 order (Nat.lt_trans moved small)
        · exact scanned.increasing _ _ low moved small
  · by_cases index : t.pixelBlobIndex (k - 1) = 0
    · exact .inl index
    · have marked := (scanned.index_ne left).mp index
      obtain ⟨more, small⟩ := scanned.labels _ left marked
      exact .inr ⟨more, small, target.1, target.2.2, least _ (.inr ⟨index, rfl⟩), .inr (scanned.last positive marked)⟩

/-- The first pixel of the blobs that meet at a pixel is the first that it is connected to. -/
theorem Scanned.joined_first (scanned : Scanned img s k t) (bright : Marked img k) {f : ℕ}
    (among : Touched t.joinedBlobIndex (t.pixelBlobIndex (k - img.width)) (t.pixelBlobIndex (k - 1)) f)
    (least : ∀ r, Touched t.joinedBlobIndex (t.pixelBlobIndex (k - img.width)) (t.pixelBlobIndex (k - 1)) r → f ≤ r)
    (target : 0 < f ∧ f < t.initialBlobIndex ∧ t.joinedBlobIndex f = f) : Earliest (Edge img) (k + 1) k (s f) := by
  obtain ⟨before, marked, index⟩ := scanned.starts f target.1 target.2.1
  constructor
  · refine ((connected_new edge_symm before).mpr ?_).symm edge_symm
    refine (scanned.touches_iff bright before marked).mpr ?_
    rw [index, root_self target.2.2]
    exact among
  · intro q connected
    rcases Nat.lt_succ_iff_lt_or_eq.mp (connected.lt (Nat.lt_succ_self k)) with less | rfl
    · have marked' := marked_of_connected bright connected
      have touches := (connected_new edge_symm less).mp (connected.symm edge_symm)
      have order := least _ ((scanned.touches_iff bright less marked').mp touches)
      obtain ⟨more, small⟩ := scanned.labels q less marked'
      have below := (root_spec scanned.forest more small).2.1
      have last := (scanned.named q less marked').le
      rcases Nat.lt_or_eq_of_le (Nat.le_trans order below) with smaller | equal
      · exact Nat.le_trans (Nat.le_of_lt (scanned.increasing _ _ target.1 smaller small)) last
      · rw [equal]
        exact last
    · exact Nat.le_of_lt before

/-- A pixel that meets blobs belongs to the first of them, which takes in the others. -/
theorem Scanned.join (scanned : Scanned img s k t) (there : k < img.width * img.height) (bright : Marked img k) {f : ℕ}
    (first : Meets t.joinedBlobIndex t.initialBlobIndex (t.pixelBlobIndex (k - img.width)) f)
    (second : Meets t.joinedBlobIndex t.initialBlobIndex (t.pixelBlobIndex (k - 1)) f)
    (among : Touched t.joinedBlobIndex (t.pixelBlobIndex (k - img.width)) (t.pixelBlobIndex (k - 1)) f)
    (least : ∀ r, Touched t.joinedBlobIndex (t.pixelBlobIndex (k - img.width)) (t.pixelBlobIndex (k - 1)) r → f ≤ r)
    (target : 0 < f ∧ f < t.initialBlobIndex ∧ t.joinedBlobIndex f = f) :
    Scanned img s (k + 1)
      { t with
        joinedBlobIndex :=
          Function.update (Function.update t.joinedBlobIndex (t.pixelBlobIndex (k - img.width)) f) (t.pixelBlobIndex (k - 1)) f
        clusters := Function.update t.clusters f ((t.clusters f).add (column img k) (row img k))
        pixelBlobIndex := Function.update t.pixelBlobIndex k f } := by
  have pixel {p : ℕ} (less : p < k) : Function.update t.pixelBlobIndex k f p = t.pixelBlobIndex p :=
    Function.update_of_ne (Nat.ne_of_lt less) _ _
  have again := first.after scanned.forest second
  have self : Function.update (Function.update t.joinedBlobIndex (t.pixelBlobIndex (k - img.width)) f)
      (t.pixelBlobIndex (k - 1)) f f = f := by
    have one {parent : ℕ → ℕ} (c : ℕ) (self : parent f = f) : Function.update parent c f f = f := by
      by_cases here : f = c
      · rw [here, Function.update_self]
      · rw [Function.update_of_ne here, self]
    exact one _ (one _ target.2.2)
  -- The pixels that lead to the blob from now on are those that the new one touches.
  have leads {p : ℕ} (less : p < k) (marked : Marked img p) :
      root (Function.update (Function.update t.joinedBlobIndex (t.pixelBlobIndex (k - img.width)) f) (t.pixelBlobIndex (k - 1)) f)
        (t.pixelBlobIndex p) = f ∧ Touches (Edge img) k p ∨
      root (Function.update (Function.update t.joinedBlobIndex (t.pixelBlobIndex (k - img.width)) f) (t.pixelBlobIndex (k - 1)) f)
        (t.pixelBlobIndex p) = root t.joinedBlobIndex (t.pixelBlobIndex p) ∧ root t.joinedBlobIndex (t.pixelBlobIndex p) ≠ f ∧
        ¬ Touches (Edge img) k p := by
    obtain ⟨positive, small⟩ := scanned.labels p less marked
    by_cases touches : Touches (Edge img) k p
    · exact .inl ⟨root_touched scanned.forest first second ((scanned.touches_iff bright less marked).mp touches) positive small, touches⟩
    · have untouched := mt (scanned.touches_iff bright less marked).mpr touches
      refine .inr ⟨root_untouched scanned.forest first second among untouched positive small, ?_, touches⟩
      intro same
      exact untouched (same ▸ among)
  refine ⟨scanned.positive, Nat.le_succ_of_le scanned.few, (scanned.forest.meet first).meet again, ?_, ?_, ?_, ?_, scanned.increasing,
    ?_, ?_, ?_⟩ <;> dsimp only
  · intro p less marked
    rcases Nat.lt_succ_iff_lt_or_eq.mp less with less | rfl
    · rw [pixel less]
      exact scanned.labels p less marked
    · rw [Function.update_self]
      exact ⟨target.1, target.2.1⟩
  · intro p less blank
    rcases Nat.lt_succ_iff_lt_or_eq.mp less with less | rfl
    · rw [pixel less]
      exact scanned.blank p less blank
    · exact absurd bright blank
  · refine labels_succ edge_symm scanned.classes fun p less marked => ?_
    rw [pixel less, Function.update_self, root_self self]
    exact leads less marked
  · intro i positive small
    obtain ⟨less, marked, index⟩ := scanned.starts i positive small
    rw [pixel less]
    exact ⟨Nat.lt_succ_of_lt less, marked, index⟩
  · intro p less marked
    rcases Nat.lt_succ_iff_lt_or_eq.mp less with less | rfl
    · rw [pixel less]
      exact scanned.named p less marked
    · rw [Function.update_self]
      exact scanned.joined_first bright among least target
  · intro i positive small
    by_cases here : i = f
    · rw [here, Function.update_self, labelled_same (t := t) rfl bright]
      refine (scanned.clusters f target.1 target.2.1).add there fun member => ?_
      exact Nat.lt_irrefl k (mem_labelled.mp member).1
    · rw [Function.update_of_ne here, labelled_other (t := t) (j := f) rfl fun _ => Ne.symm here]
      exact scanned.clusters i positive small
  · intro _ _
    rw [Nat.add_sub_cancel, Function.update_self]
    exact self

theorem Scanned.index_lt (scanned : Scanned img s k t) {p : ℕ} (less : p < k) : t.pixelBlobIndex p < t.initialBlobIndex := by
  by_cases marked : Marked img p
  · exact (scanned.labels p less marked).2
  · rw [scanned.blank p less marked]
    exact scanned.positive

/-- Every pixel keeps what is known, where there is no hazard. -/
theorem Scanned.visit (scanned : Scanned img s k t) (there : k < img.width * img.height) (safe : ¬ Hazard img k) :
    ∃ s', Scanned img s' (k + 1) (visit img.width (blacked img) t (row img k) (column img k)) := by
  have count : row img k * img.width + column img k = k := Nat.div_add_mod' k img.width
  unfold BlobDetector.visit
  simp only [count]
  by_cases bright : Marked img k
  · rw [if_pos ((blacked_marked there).mpr bright)]
    obtain ⟨_, positive⟩ := bright.after
    have above : k - img.width < k := Nat.sub_lt positive img.wide
    have left : k - 1 < k := Nat.sub_lt positive Nat.one_pos
    by_cases none : t.pixelBlobIndex (k - img.width) = 0 ∧ t.pixelBlobIndex (k - 1) = 0
    · rw [if_pos none]
      refine ⟨_, scanned.new there bright ?_ ?_⟩
      · exact fun marked => (scanned.index_ne above).mpr marked none.1
      · exact fun marked => (scanned.index_ne left).mpr marked none.2
    · rw [if_neg none]
      obtain ⟨among, least⟩ := scanned.final_spec there (scanned.index_lt above) (scanned.index_lt left) none
      have target := scanned.touched_spec (scanned.index_lt above) (scanned.index_lt left) among
      obtain ⟨first, second⟩ := scanned.meets bright safe among least target
      exact ⟨s, scanned.join there bright first second among least target⟩
  · rw [if_neg fun found => bright ((blacked_marked there).mp found)]
    exact ⟨s, scanned.unmarked bright⟩

theorem scanned_prepared : Scanned img s 0 (prepared img t) where
  positive := Nat.one_pos
  few := Nat.le_refl 1
  forest := fun _ positive less => absurd less (Nat.not_lt.mpr positive)
  labels := fun _ less => absurd less (Nat.not_lt_zero _)
  blank := fun _ less => absurd less (Nat.not_lt_zero _)
  classes := fun _ less => absurd less (Nat.not_lt_zero _)
  starts := fun _ positive less => absurd less (Nat.not_lt.mpr positive)
  increasing := fun _ _ positive between less => absurd (Nat.lt_trans between less) (Nat.not_lt.mpr positive)
  named := fun _ less => absurd less (Nat.not_lt_zero _)
  clusters := fun _ positive less => absurd less (Nat.not_lt.mpr positive)
  last := fun never => absurd never (Nat.lt_irrefl 0)

/-- The pixels of one row. -/
theorem Scanned.row {y : ℕ} (scanned : Scanned img s (y * img.width) t) (inside : y < img.height)
    (safe : ∀ k, ¬ Hazard img k) {n : ℕ} (few : n ≤ img.width) :
    ∃ s', Scanned img s' (y * img.width + n)
      ((List.range n).foldl (fun t x => BlobDetector.visit img.width (blacked img) t y x) t) := by
  induction n with
  | zero => exact ⟨s, scanned⟩
  | succ n ih =>
    obtain ⟨s', before⟩ := ih (Nat.le_of_succ_le few)
    have there : y * img.width + n < img.width * img.height := by
      have rows : (y + 1) * img.width ≤ img.height * img.width := Nat.mul_le_mul_right _ inside
      rw [Nat.succ_mul, Nat.mul_comm img.height] at rows
      omega
    rw [List.range_succ, List.foldl_append, List.foldl_cons, List.foldl_nil]
    have after := before.visit there (safe _)
    rw [pixel_row few, pixel_column few] at after
    exact after

/-- What the pass over the image finds. -/
theorem scanned_visitAll (safe : ∀ k, ¬ Hazard img k) (t : Table) : ∃ s, Scanned img s (img.width * img.height) (visitAll img t) := by
  have rows {n : ℕ} (few : n ≤ img.height) : ∃ s, Scanned img s (n * img.width)
      ((List.range n).foldl (fun t y =>
        (List.range img.width).foldl (fun t x => BlobDetector.visit img.width (blacked img) t y x) t) (prepared img t)) := by
    induction n with
    | zero =>
      rw [Nat.zero_mul]
      exact ⟨fun _ => 0, scanned_prepared⟩
    | succ n ih =>
      obtain ⟨s, before⟩ := ih (Nat.le_of_succ_le few)
      rw [List.range_succ, List.foldl_append, List.foldl_cons, List.foldl_nil, Nat.succ_mul]
      exact before.row few safe (Nat.le_refl _)
  rw [Nat.mul_comm]
  exact rows (Nat.le_refl _)

end

end Tortuga.BlobComponents
