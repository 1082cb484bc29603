import Tortuga.BlobComponents
import Mathlib.Data.List.Perm.Basic
import Mathlib.Algebra.Order.BigOperators.Group.Finset

/-!
The list of blobs that the detector makes of its clusters (`BlobDetector.cpp`): what the pass over
the clusters collects, and when each component of the image is found once.
-/
namespace Tortuga.BlobLists
open Tortuga.Forests Tortuga.Connectivity Tortuga.BlobDetector Tortuga.BlobComponents

/-! ### The pass over the blobs -/

section
variable (img : Image)

/-- The marked pixels that have been gathered at a cluster. -/
def gathered (place : ℕ → ℕ) (i : ℕ) : Finset ℕ :=
  (Finset.range (img.width * img.height)).filter fun p => Marked img p ∧ place p = i

/-- The marked pixels whose index leads to `i`. -/
def family (t : Table) (i : ℕ) : Finset ℕ := gathered img (fun p => root t.joinedBlobIndex (t.pixelBlobIndex p)) i

/-- What is known when the clusters after `m` have been collapsed. `place` is the cluster that counts a pixel. -/
structure Collapsed (t : Table) (m : ℕ) (place : ℕ → ℕ) (clusters : ℕ → Cluster) : Prop where
  sums : ∀ i, 0 < i → i ≤ m → Sums img (gathered img place i) (clusters i)
  leads : ∀ p < img.width * img.height, Marked img p → 0 < place p ∧ place p < t.initialBlobIndex ∧
    root t.joinedBlobIndex (place p) = root t.joinedBlobIndex (t.pixelBlobIndex p)
  within : ∀ p < img.width * img.height, Marked img p → root t.joinedBlobIndex (t.pixelBlobIndex p) ≤ m → place p ≤ m

variable {img} {s place : ℕ → ℕ} {k i m : ℕ} {t : Table} {clusters : ℕ → Cluster} {p : ℕ}

theorem mem_gathered : p ∈ gathered img place i ↔ p < img.width * img.height ∧ Marked img p ∧ place p = i := by
  rw [gathered, Finset.mem_filter, Finset.mem_range]

/-- When it is the turn of a root, its cluster has counted all pixels that lead to it. -/
theorem Collapsed.root_family (collapsed : Collapsed img t (m + 1) place clusters) (forest : Forest t.joinedBlobIndex t.initialBlobIndex)
    (self : t.joinedBlobIndex (m + 1) = m + 1) : gathered img place (m + 1) = family img t (m + 1) := by
  ext p
  rw [family, mem_gathered, mem_gathered]
  refine and_congr_right fun there => and_congr_right fun marked => ?_
  obtain ⟨positive, small, same⟩ := collapsed.leads p there marked
  constructor
  · intro here
    rw [← same, here, root_self self]
  · intro goes
    have below := (root_spec forest positive small).2.1
    rw [same, goes] at below
    exact Nat.le_antisymm (collapsed.within p there marked (Nat.le_of_eq goes)) below

theorem Collapsed.root (collapsed : Collapsed img t (m + 1) place clusters) (self : t.joinedBlobIndex (m + 1) = m + 1) :
    Collapsed img t m place clusters where
  sums := fun i positive less => collapsed.sums i positive (Nat.le_succ_of_le less)
  leads := collapsed.leads
  within := by
    intro p there marked below
    have less := collapsed.within p there marked (Nat.le_succ_of_le below)
    refine Nat.le_of_lt_succ (Nat.lt_of_le_of_ne less fun here => ?_)
    have same := (collapsed.leads p there marked).2.2
    rw [here, root_self self] at same
    omega

/-- A cluster that is not final is put to the one that it points to. -/
theorem Collapsed.join (collapsed : Collapsed img t (m + 1) place clusters) (forest : Forest t.joinedBlobIndex t.initialBlobIndex)
    (small : m + 1 < t.initialBlobIndex) (other : t.joinedBlobIndex (m + 1) ≠ m + 1) :
    Collapsed img t m (fun p => if place p = m + 1 then t.joinedBlobIndex (m + 1) else place p)
      (Function.update (Function.update clusters (t.joinedBlobIndex (m + 1))
        ((clusters (t.joinedBlobIndex (m + 1))).merge (clusters (m + 1)))) (m + 1) { clusters (m + 1) with pixelCount := 0 }) := by
  obtain ⟨above, below⟩ := forest (m + 1) (Nat.succ_pos m) small
  refine ⟨?_, ?_, ?_⟩
  · intro i positive less
    rw [Function.update_of_ne (by omega)]
    by_cases here : i = t.joinedBlobIndex (m + 1)
    · have both : gathered img (fun p => if place p = m + 1 then t.joinedBlobIndex (m + 1) else place p) i =
          gathered img place i ∪ gathered img place (m + 1) := by
        ext p
        rw [Finset.mem_union, mem_gathered, mem_gathered, mem_gathered, ← and_or_left, ← and_or_left]
        refine and_congr_right fun _ => and_congr_right fun _ => ?_
        by_cases moved : place p = m + 1
        · rw [if_pos moved]
          exact ⟨fun _ => .inr moved, fun _ => here.symm⟩
        · rw [if_neg moved]
          exact ⟨.inl, fun way => way.resolve_right moved⟩
      rw [both, here, Function.update_self, ← here]
      refine (collapsed.sums i positive (by omega)).merge (collapsed.sums (m + 1) (Nat.succ_pos m) (Nat.le_refl _)) ?_
      refine Finset.disjoint_left.mpr fun p first second => ?_
      have one := (mem_gathered.mp first).2.2
      have two := (mem_gathered.mp second).2.2
      omega
    · have same : gathered img (fun p => if place p = m + 1 then t.joinedBlobIndex (m + 1) else place p) i =
          gathered img place i := by
        ext p
        rw [mem_gathered, mem_gathered]
        refine and_congr_right fun _ => and_congr_right fun _ => ?_
        by_cases moved : place p = m + 1
        · rw [if_pos moved, moved]
          exact ⟨fun joined => absurd joined.symm here, fun late => absurd late (by omega)⟩
        · rw [if_neg moved]
      rw [same, Function.update_of_ne here]
      exact collapsed.sums i positive (by omega)
  · intro p there marked
    obtain ⟨positive, less, same⟩ := collapsed.leads p there marked
    by_cases moved : place p = m + 1
    · rw [if_pos moved, root_parent forest (Nat.succ_pos m) small]
      rw [moved] at same
      exact ⟨above, Nat.lt_of_le_of_lt below small, same⟩
    · rw [if_neg moved]
      exact ⟨positive, less, same⟩
  · intro p there marked final
    have less := collapsed.within p there marked (Nat.le_succ_of_le final)
    by_cases moved : place p = m + 1
    · rw [if_pos moved]
      omega
    · rw [if_neg moved]
      omega

/-- Before the pass, each cluster has counted the pixels of its index. -/
theorem collapsed_scanned (scanned : Scanned img s (img.width * img.height) t) :
    Collapsed img t (t.initialBlobIndex - 1) t.pixelBlobIndex t.clusters where
  sums := fun i positive less => scanned.clusters i positive (by have := scanned.positive; omega)
  leads := fun p there marked => ⟨(scanned.labels p there marked).1, (scanned.labels p there marked).2, rfl⟩
  within := fun p there marked _ => Nat.le_sub_one_of_lt (scanned.labels p there marked).2

/-- The blob has been made of the pixels that lead to `i`. -/
def Final (img : Image) (t : Table) (i : ℕ) (b : Blob) : Prop := ∃ c, Sums img (family img t i) c ∧ b = c.blob

theorem card_small (place : ℕ → ℕ) (i : ℕ) : (gathered img place i).card < 2147483648 := by
  have few : (gathered img place i).card ≤ (Finset.range (img.width * img.height)).card := Finset.card_filter_le _ _
  rw [Finset.card_range] at few
  have fits := img.fits
  omega

/-- An index that gives no blob adds nothing to those below it. -/
theorem below_succ {P : Prop} {i : ℕ} (none : i = m + 1 → ¬ P) : (0 < i ∧ i ≤ m ∧ P) ↔ 0 < i ∧ i ≤ m + 1 ∧ P := by
  constructor
  · rintro ⟨positive, early, rest⟩
    exact ⟨positive, Nat.le_succ_of_le early, rest⟩
  · rintro ⟨positive, early, rest⟩
    rcases Nat.le_succ_iff.mp early with early | here
    · exact ⟨positive, early, rest⟩
    · exact absurd rest (none here)

/-- The pass collects one blob for each root that has enough pixels. -/
theorem collapseAll_spec (forest : Forest t.joinedBlobIndex t.initialBlobIndex) (few : t.initialBlobIndex ≤ uintMax)
    (minBlobSize : ℤ) (small : m < t.initialBlobIndex) (collapsed : Collapsed img t m place clusters) (blobs : List Blob) :
    ∃ (roots : List ℕ) (found : List Blob), roots.Nodup ∧
      (∀ i, i ∈ roots ↔ 0 < i ∧ i ≤ m ∧ t.joinedBlobIndex i = i ∧ minBlobSize ≤ (family img t i).card) ∧
      (collapseAll t minBlobSize m (clusters, blobs)).2 = blobs ++ found ∧ List.Forall₂ (Final img t) roots found := by
  induction m generalizing place clusters blobs with
  | zero =>
    refine ⟨[], [], List.nodup_nil, fun i => ?_, (List.append_nil blobs).symm, .nil⟩
    constructor
    · exact fun member => absurd member List.not_mem_nil
    · rintro ⟨positive, none, _⟩
      omega
  | succ m ih =>
    have below := (forest (m + 1) (Nat.succ_pos m) small).2
    have some : t.joinedBlobIndex (m + 1) ≠ uintMax := by omega
    have less : m < t.initialBlobIndex := Nat.lt_of_succ_lt small
    rw [collapseAll, collapse]
    simp only [if_neg some]
    by_cases self : t.joinedBlobIndex (m + 1) = m + 1
    · rw [if_neg (not_not.mpr self)]
      have family := collapsed.root_family forest self
      have sums := collapsed.sums (m + 1) (Nat.succ_pos m) (Nat.le_refl _)
      have count : (clusters (m + 1)).pixelCount = (BlobLists.family img t (m + 1)).card := by
        rw [sums.pixelCount, int32_small (card_small _ _), family]
      rw [count]
      by_cases large : minBlobSize ≤ (BlobLists.family img t (m + 1)).card
      · rw [if_pos large]
        obtain ⟨roots, found, nodup, mem, list, finals⟩ := ih less (collapsed.root self) (blobs ++ [(clusters (m + 1)).blob])
        refine ⟨(m + 1) :: roots, (clusters (m + 1)).blob :: found, ?_, fun i => ?_, ?_, ?_⟩
        · refine List.nodup_cons.mpr ⟨fun member => ?_, nodup⟩
          have late := ((mem _).mp member).2.1
          omega
        · rw [List.mem_cons, mem]
          constructor
          · rintro (rfl | ⟨positive, early, rest⟩)
            · exact ⟨Nat.succ_pos m, Nat.le_refl _, self, large⟩
            · exact ⟨positive, Nat.le_succ_of_le early, rest⟩
          · rintro ⟨positive, early, rest⟩
            rcases Nat.le_succ_iff.mp early with early | here
            · exact .inr ⟨positive, early, rest⟩
            · exact .inl here
        · rw [list, List.append_assoc, List.singleton_append]
        · exact .cons ⟨_, family ▸ sums, rfl⟩ finals
      · rw [if_neg large]
        obtain ⟨roots, found, nodup, mem, list, finals⟩ := ih less (collapsed.root self) blobs
        refine ⟨roots, found, nodup, fun i => ?_, list, finals⟩
        rw [mem]
        refine below_succ ?_
        rintro rfl ⟨_, enough⟩
        exact large enough
    · rw [if_pos self]
      obtain ⟨roots, found, nodup, mem, list, finals⟩ := ih less (collapsed.join forest small self) blobs
      refine ⟨roots, found, nodup, fun i => ?_, list, finals⟩
      rw [mem]
      refine below_succ ?_
      rintro rfl ⟨root, _⟩
      exact self root

end

/-! ### The components of the image -/

section
variable (img : Image)

/-- A largest set of connected marked pixels. -/
def IsComponent (C : Finset ℕ) : Prop :=
  ∃ p, Marked img p ∧ ∀ q, q ∈ C ↔ Connected (Edge img) (img.width * img.height) p q

/-- The blob has the number of the pixels, the average of their coordinates, and their bounds. -/
structure Describes (C : Finset ℕ) (b : Blob) : Prop where
  size : b.size = C.card
  centerX : b.centerX = (C.sum (column img) / C.card : ℕ)
  centerY : b.centerY = (C.sum (row img) / C.card : ℕ)
  minX : (∃ p ∈ C, (column img p : ℤ) = b.minX) ∧ ∀ p ∈ C, b.minX ≤ column img p
  maxX : (∃ p ∈ C, (column img p : ℤ) = b.maxX) ∧ ∀ p ∈ C, (column img p : ℤ) ≤ b.maxX
  minY : (∃ p ∈ C, (row img p : ℤ) = b.minY) ∧ ∀ p ∈ C, b.minY ≤ row img p
  maxY : (∃ p ∈ C, (row img p : ℤ) = b.maxY) ∧ ∀ p ∈ C, (row img p : ℤ) ≤ b.maxY

/-- The list has one blob for each component that is large enough, and the largest come first. -/
structure Labelling (minBlobSize : ℤ) (blobs : List Blob) : Prop where
  found : ∃ components : List (Finset ℕ), components.Nodup ∧
    (∀ C, C ∈ components ↔ IsComponent img C ∧ minBlobSize ≤ C.card) ∧ List.Forall₂ (Describes img) components blobs
  ordered : blobs.Pairwise fun a b => b.size ≤ a.size

variable {img} {s : ℕ → ℕ} {t : Table} {p q i : ℕ} {P : Finset ℕ} {c : Cluster}

/-- The sums of a cluster are those of its blob, where they are numbers of an `int`. -/
theorem sums_describes (sums : Sums img P c) (few : P.card < 2147483648) (x : P.sum (column img) < 2147483648)
    (y : P.sum (row img) < 2147483648) : Describes img P c.blob where
  size := by rw [Cluster.blob, sums.pixelCount, int32_small few]
  centerX := by
    rw [Cluster.blob, sums.totalX, sums.pixelCount, int32_small few, int32_small x, Int.ofNat_tdiv]
  centerY := by
    rw [Cluster.blob, sums.totalY, sums.pixelCount, int32_small few, int32_small y, Int.ofNat_tdiv]
  minX := sums.minX
  maxX := sums.maxX
  minY := sums.minY
  maxY := sums.maxY

/-- The pixels that lead where a marked pixel leads are its component. -/
theorem mem_family (scanned : Scanned img s (img.width * img.height) t) (marked : Marked img p) :
    q ∈ family img t (root t.joinedBlobIndex (t.pixelBlobIndex p)) ↔ Connected (Edge img) (img.width * img.height) p q := by
  rw [family, mem_gathered]
  constructor
  · rintro ⟨there, other, same⟩
    exact (scanned.classes p marked.1 q there marked other).mp same.symm
  · intro connected
    have there := connected.lt marked.1
    have other := marked_of_connected marked connected
    exact ⟨there, other, ((scanned.classes p marked.1 q there marked other).mpr connected).symm⟩

/-- The first pixel of a root leads to it. -/
theorem start_root (scanned : Scanned img s (img.width * img.height) t) (positive : 0 < i) (small : i < t.initialBlobIndex)
    (self : t.joinedBlobIndex i = i) : Marked img (s i) ∧ root t.joinedBlobIndex (t.pixelBlobIndex (s i)) = i := by
  obtain ⟨_, marked, index⟩ := scanned.starts i positive small
  rw [index]
  exact ⟨marked, root_self self⟩

/-- The components are what the roots have counted. -/
theorem isComponent_iff (scanned : Scanned img s (img.width * img.height) t) (C : Finset ℕ) :
    IsComponent img C ↔ ∃ i, 0 < i ∧ i < t.initialBlobIndex ∧ t.joinedBlobIndex i = i ∧ family img t i = C := by
  constructor
  · rintro ⟨p, marked, mem⟩
    obtain ⟨positive, small⟩ := scanned.labels p marked.1 marked
    obtain ⟨above, below, ends⟩ := root_spec scanned.forest positive small
    refine ⟨_, above, Nat.lt_of_le_of_lt below small, ends, ?_⟩
    ext q
    rw [mem, mem_family scanned marked]
  · rintro ⟨i, positive, small, self, rfl⟩
    obtain ⟨marked, leads⟩ := start_root scanned positive small self
    refine ⟨s i, marked, fun q => ?_⟩
    rw [← mem_family scanned marked, leads]

theorem family_injective (scanned : Scanned img s (img.width * img.height) t) {j : ℕ} (positive : 0 < i)
    (small : i < t.initialBlobIndex) (self : t.joinedBlobIndex i = i) (same : family img t i = family img t j) : i = j := by
  obtain ⟨marked, leads⟩ := start_root scanned positive small self
  have member : s i ∈ family img t i := mem_gathered.mpr ⟨marked.1, marked, leads⟩
  rw [same] at member
  rw [← leads]
  exact (mem_gathered.mp member).2.2

/-- A list of blobs in another order, and what they describe. -/
theorem describes_perm {components : List (Finset ℕ)} {blobs sorted : List Blob} (perm : sorted.Perm blobs)
    (described : List.Forall₂ (Describes img) components blobs) :
    ∃ others, others.Perm components ∧ List.Forall₂ (Describes img) others sorted := by
  obtain ⟨others, matched, same⟩ := List.perm_comp_forall₂ perm described.flip
  exact ⟨others, same, matched.flip⟩

theorem mergeSort_ordered (blobs : List Blob) : (blobs.mergeSort noSmaller).Pairwise fun a b => b.size ≤ a.size := by
  have sorted := @List.pairwise_mergeSort _ noSmaller ?_ ?_ blobs
  · exact sorted.imp fun less => of_decide_eq_true less
  · intro a b c first second
    exact decide_eq_true (Int.le_trans (of_decide_eq_true second) (of_decide_eq_true first))
  · intro a b
    rw [Bool.or_eq_true]
    exact (Int.le_total b.size a.size).imp decide_eq_true decide_eq_true

/-- Where no pixel has a hazard and the sums are numbers of an `int`, each component that is large enough is listed once. -/
theorem blobs_components (minBlobSize : ℤ) (t : Table) (safe : ∀ k, ¬ Hazard img k)
    (fits : ∀ C, IsComponent img C → minBlobSize ≤ C.card → C.sum (column img) < 2147483648 ∧ C.sum (row img) < 2147483648) :
    Labelling img minBlobSize (processImage t minBlobSize img) := by
  refine ⟨?_, mergeSort_ordered _⟩
  obtain ⟨s, scanned⟩ := scanned_visitAll safe t
  have few : (visitAll img t).initialBlobIndex ≤ uintMax := by
    have pixels := img.fits
    have bound := scanned.few
    show _ ≤ 4294967295
    omega
  obtain ⟨roots, found, nodup, mem, list, finals⟩ := collapseAll_spec scanned.forest few minBlobSize
    (Nat.sub_lt scanned.positive Nat.one_pos) (collapsed_scanned scanned) []
  -- A root has a component, whose sums are those of its cluster.
  have components {i : ℕ} (member : i ∈ roots) : 0 < i ∧ i < (visitAll img t).initialBlobIndex ∧
      (visitAll img t).joinedBlobIndex i = i ∧ minBlobSize ≤ (family img (visitAll img t) i).card := by
    obtain ⟨positive, less, self, large⟩ := (mem i).mp member
    exact ⟨positive, by have := scanned.positive; omega, self, large⟩
  have described : List.Forall₂ (Describes img) (roots.map (family img (visitAll img t))) found := by
    rw [List.forall₂_map_left_iff]
    refine List.Forall₂.imp ?_ ((List.forall₂_and_left roots found).mpr ⟨fun i => components, finals⟩)
    rintro i b ⟨⟨positive, small, self, large⟩, c, sums, rfl⟩
    obtain ⟨x, y⟩ := fits _ ((isComponent_iff scanned _).mpr ⟨i, positive, small, self, rfl⟩) large
    exact sums_describes sums (card_small _ _) x y
  obtain ⟨others, perm, matched⟩ := describes_perm (List.mergeSort_perm found noSmaller) described
  refine ⟨others, perm.nodup_iff.mpr ?_, fun C => ?_, ?_⟩
  · refine List.Nodup.map_on (fun i member j _ same => ?_) nodup
    obtain ⟨positive, small, self, _⟩ := components member
    exact family_injective scanned positive small self same
  · rw [perm.mem_iff, List.mem_map, isComponent_iff scanned]
    constructor
    · rintro ⟨i, member, rfl⟩
      obtain ⟨positive, small, self, large⟩ := components member
      exact ⟨⟨i, positive, small, self, rfl⟩, large⟩
    · rintro ⟨⟨i, positive, small, self, rfl⟩, large⟩
      exact ⟨i, (mem i).mpr ⟨positive, Nat.le_sub_one_of_lt small, self, large⟩, rfl⟩
  · rw [processImage, finalBlobs, list, List.nil_append]
    exact matched

/-- What the sums of a component can be in an image. -/
theorem component_sums {C : Finset ℕ} (component : IsComponent img C) :
    C.sum (column img) ≤ img.width * img.height * img.width ∧ C.sum (row img) ≤ img.width * img.height * img.height := by
  obtain ⟨p, marked, mem⟩ := component
  have there {q : ℕ} (member : q ∈ C) : q < img.width * img.height := ((mem q).mp member).lt marked.1
  have few : C.card ≤ img.width * img.height := by
    have subset : C ⊆ Finset.range (img.width * img.height) := fun q member => Finset.mem_range.mpr (there member)
    exact (Finset.card_le_card subset).trans (Nat.le_of_eq (Finset.card_range _))
  constructor
  · refine (Finset.sum_le_card_nsmul C (column img) img.width fun q _ => ?_).trans (Nat.mul_le_mul_right _ few)
    exact Nat.le_of_lt (Nat.mod_lt q img.wide)
  · refine (Finset.sum_le_card_nsmul C (row img) img.height fun q member => ?_).trans (Nat.mul_le_mul_right _ few)
    exact Nat.le_of_lt (Nat.div_lt_of_lt_mul (there member))

end

/-! ### Two images -/

/-- An image in which the pixels of a list are white. -/
def drawn (width height : ℕ) (wide : 0 < width) (high : 0 < height) (fits : 3 * (width * height) < 2147483648)
    (pixels : List ℕ) : Image where
  width := width
  height := height
  imageData := fun i => if pixels.contains (i / 3) then 255 else 0
  wide := wide
  high := high
  fits := fits

/-- The vectors before the first image. -/
def unused : Table where
  joinedBlobIndex := fun _ => uintMax
  clusters := fun _ => ⟨0, 0, 0, 0, 0, 0, 0⟩
  pixelBlobIndex := fun _ => 0
  initialBlobIndex := 1

/-- A bar of two pixels, and a pixel beside it. -/
def bars : Image := drawn 4 4 (Nat.succ_pos 3) (Nat.succ_pos 3) (by decide) [5, 9, 7]

theorem blobs_components_bars : Labelling bars 1 (processImage unused 1 bars) := by
  refine blobs_components 1 unused ?_ fun C component _ => ?_
  · rintro k ⟨marked, above, left, _⟩
    have alone : ∀ k < 16, ¬ (Marked bars k ∧ Marked bars (k - 4) ∧ Marked bars (k - 1)) := by decide
    exact alone k marked.1 ⟨marked, above, left⟩
  · obtain ⟨x, y⟩ := component_sums component
    exact ⟨Nat.lt_of_le_of_lt x (by decide), Nat.lt_of_le_of_lt y (by decide)⟩

/-- A hook whose right end is joined to its middle before the middle is joined to the left. -/
def hook : Image := drawn 6 4 (Nat.succ_pos 5) (Nat.succ_pos 3) (by decide) [7, 11, 13, 15, 16, 17, 19, 20, 21]

/-- The hook is in one piece. -/
theorem hook_connected {p : ℕ} (marked : Marked hook p) : Connected (Edge hook) 24 p 7 := by
  have link {p q : ℕ} (inside : p < 24 ∧ q < 24 ∧ Marked hook p ∧ Marked hook q) (near : Neighbour hook p q)
      (rest : Connected (Edge hook) 24 q 7) : Connected (Edge hook) 24 p 7 :=
    .head ⟨inside.1, inside.2.1, inside.2.2.1, inside.2.2.2, near⟩ rest
  have left : Connected (Edge hook) 24 13 7 := link (by decide) (.inr (by decide)) .refl
  have corner : Connected (Edge hook) 24 19 7 := link (by decide) (.inr (by decide)) left
  have bottom : Connected (Edge hook) 24 20 7 := link (by decide) (.inl (by decide)) corner
  have turn : Connected (Edge hook) 24 21 7 := link (by decide) (.inl (by decide)) bottom
  have middle : Connected (Edge hook) 24 15 7 := link (by decide) (.inr (by decide)) turn
  have bridge : Connected (Edge hook) 24 16 7 := link (by decide) (.inl (by decide)) middle
  have right : Connected (Edge hook) 24 17 7 := link (by decide) (.inl (by decide)) bridge
  have tip : Connected (Edge hook) 24 11 7 := link (by decide) (.inr (by decide)) right
  have cases : ∀ p < 24, Marked hook p → p = 7 ∨ p = 11 ∨ p = 13 ∨ p = 15 ∨ p = 16 ∨ p = 17 ∨ p = 19 ∨ p = 20 ∨ p = 21 := by
    decide
  rcases cases p marked.1 marked with rfl | rfl | rfl | rfl | rfl | rfl | rfl | rfl | rfl
  · exact .refl
  · exact tip
  · exact left
  · exact middle
  · exact bridge
  · exact right
  · exact corner
  · exact bottom
  · exact turn

/-- The hook makes two blobs. -/
theorem not_blobs_components :
    ¬ ∀ (img : Image) (minBlobSize : ℤ) (t : Table), 1 ≤ minBlobSize → Labelling img minBlobSize (processImage t minBlobSize img) := by
  intro all
  obtain ⟨components, nodup, mem, described⟩ := (all hook 1 unused (Int.le_refl 1)).found
  have two : (processImage unused 1 hook).length = 2 := by
    rw [processImage, List.length_mergeSort]
    decide +kernel
  have same {C D : Finset ℕ} (one : C ∈ components) (other : D ∈ components) : C = D := by
    obtain ⟨p, marked, first⟩ := ((mem C).mp one).1
    obtain ⟨q, marked', second⟩ := ((mem D).mp other).1
    have joined := (hook_connected marked).trans ((hook_connected marked').symm edge_symm)
    ext r
    rw [first, second]
    exact ⟨fun way => (joined.symm edge_symm).trans way, fun way => joined.trans way⟩
  rw [← described.length_eq] at two
  obtain ⟨C, D, rfl⟩ := List.length_eq_two.mp two
  have equal : C = D := same List.mem_cons_self (List.mem_cons_of_mem _ List.mem_cons_self)
  rw [equal] at nodup
  exact (List.nodup_cons.mp nodup).1 List.mem_cons_self

end Tortuga.BlobLists
