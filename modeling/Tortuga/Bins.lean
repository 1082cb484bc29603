import Tortuga.BlobDetector
import Tortuga.TrackedBlobs

/-!
The tracking of bins (`BinDetector.cpp`): the bins of an image get ids, which are matched with those
of the images before, and the events of the bins are published.
-/
namespace Tortuga.Bins
open Tortuga.SortedMaps Tortuga.TrackedBlobs

/-- An event about a bin has its place, symbol, angle and id. -/
inductive Event (B A : Type)
  | dropped (bin : TrackedBlob B)
  | multiBinAngle (arrayAngle : A)
  | centered (bin : TrackedBlob B)
  | found (bin : TrackedBlob B)
  | lost

/-- What the detector knows of the bins. -/
structure BinDetector (B : Type) where
  found : Bool
  centered : Bool
  bins : List (TrackedBlob B)
  lostBins : SortedMap ℤ (B × ℕ)
  binID : ℤ

/-- The properties, and what is computed from the places of bins. -/
structure Settings (B D A : Type) where
  distanceTo : B → B → D
  /-- The 10000 of `updateIds`. -/
  far : D
  binSameThreshold : D
  binLostFrames : ℕ
  /-- `binToCenterComparer` -/
  binToCenterComparer : TrackedBlob B → TrackedBlob B → Bool
  findArrayAngle : List (TrackedBlob B) → Option A
  /-- The first bin is less than `m_centeredLimit` from the center. -/
  isCentered : TrackedBlob B → Bool

section
variable {B D A : Type} [LT D] [LE D] [DecidableLT D] [DecidableLE D]

/-- Before the first image. -/
def BinDetector.start : BinDetector B := ⟨false, false, [], .empty, 0⟩

/-- `processBin` for each candidate: a bin gets the next id. -/
def processBins : List B → ℤ → List (TrackedBlob B) × ℤ
  | [], binID => ([], binID)
  | blob :: rest, binID =>
    let more := processBins rest (BlobDetector.int32 (binID + 1))
    (⟨blob, binID⟩ :: more.1, more.2)

/-- One image, with the candidates found in it, and the events that it publishes. -/
def processImage (settings : Settings B D A) (d : BinDetector B) (binBlobs : List B) : BinDetector B × List (Event B A) :=
  if 0 < binBlobs.length then
    let processed := processBins binBlobs d.binID
    let updated := updateIds settings.distanceTo settings.far settings.binSameThreshold settings.binLostFrames
      ⟨d.bins, d.lostBins⟩ processed.1
    let bins := updated.2.mergeSort fun a b => !settings.binToCenterComparer b a
    let near := bins.head?.any settings.isCentered
    ({ found := true, centered := near, bins := bins, lostBins := updated.1.lostBlobMap, binID := processed.2 },
      updated.1.oldList.map .dropped ++ (settings.findArrayAngle bins).toList.map .multiBinAngle ++
        (if near && !d.centered then bins.head?.toList.map .centered else []) ++ bins.map .found)
  else if d.found then
    let updated := updateIds settings.distanceTo settings.far settings.binSameThreshold settings.binLostFrames
      ⟨d.bins, d.lostBins⟩ []
    if updated.1.lostBlobMap.entries.length = 0 then
      ({ d with found := false, centered := false, bins := updated.2, lostBins := updated.1.lostBlobMap },
        updated.1.oldList.map .dropped ++ [.lost])
    else ({ d with bins := updated.2, lostBins := updated.1.lostBlobMap }, updated.1.oldList.map .dropped)
  else (d, [])

/-- The detector after the first `n` images. -/
def detectorAt (settings : Settings B D A) (frames : ℕ → List B) : ℕ → BinDetector B
  | 0 => .start
  | n + 1 => (processImage settings (detectorAt settings frames n) (frames n)).1

/-- What the image number `n` publishes. -/
def published (settings : Settings B D A) (frames : ℕ → List B) (n : ℕ) : List (Event B A) :=
  (processImage settings (detectorAt settings frames n) (frames n)).2

end

end Tortuga.Bins
