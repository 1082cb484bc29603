import Tortuga.Forests
import Mathlib.Data.Int.Notation

/-!
The blob detector (`BlobDetector.cpp`): one pass over the image that gives each marked pixel the
index of a blob and joins blobs that meet, and a pass over the blobs that collapses the joined ones.
-/
namespace Tortuga.BlobDetector
open Tortuga.Forests

/-- A packed image of three bytes a pixel (`IplImage`), whose size in bytes is an `int`. -/
structure Image where
  width : ℕ
  height : ℕ
  imageData : ℕ → UInt8
  wide : 0 < width
  high : 0 < height
  fits : 3 * (width * height) < 2147483648

/-- What an `int` keeps of a number. -/
def int32 (z : ℤ) : ℤ := Int.bmod z 4294967296

def uintMax : ℕ := 4294967295

/-- `BlobDetector::Blob`. -/
structure Blob where
  size : ℤ
  centerX : ℤ
  centerY : ℤ
  maxX : ℤ
  minX : ℤ
  maxY : ℤ
  minY : ℤ
  deriving DecidableEq, Repr

/-- What the vectors `m_pixelCounts`, `m_blobTotalX` to `m_blobMaxY` have at one index. -/
structure Cluster where
  pixelCount : ℤ
  totalX : ℤ
  totalY : ℤ
  minX : ℤ
  maxX : ℤ
  minY : ℤ
  maxY : ℤ

/-- The vectors, `m_pixelBlobIndex`, and `initialBlobIndex`, which is the size of the vectors. -/
structure Table where
  joinedBlobIndex : ℕ → ℕ
  clusters : ℕ → Cluster
  pixelBlobIndex : ℕ → ℕ
  initialBlobIndex : ℕ

/-! ### The pass over the image -/

/-- The front edge of a row is blacked out. -/
def blackEdge (width : ℕ) (data : ℕ → UInt8) (y : ℕ) : ℕ → UInt8 :=
  let imgCount := 3 * width * y
  Function.update (Function.update (Function.update data imgCount 0) (imgCount + 1) 0) (imgCount + 2) 0

/-- The image without its top row and its front edge. -/
def blacked (img : Image) : ℕ → UInt8 :=
  (List.range img.height).foldl (blackEdge img.width) (fun i => if i < img.width * 3 then 0 else img.imageData i)

/-- A new blob of one pixel. -/
def Cluster.new (x y : ℕ) : Cluster := ⟨1, x, y, x, x, y, y⟩

/-- One more pixel for a blob. -/
def Cluster.add (c : Cluster) (x y : ℕ) : Cluster where
  pixelCount := int32 (c.pixelCount + 1)
  totalX := int32 (c.totalX + x)
  totalY := int32 (c.totalY + y)
  minX := if x < c.minX then x else c.minX
  maxX := if x < c.minX then c.maxX else if c.maxX < x then x else c.maxX
  minY := if y < c.minY then y else c.minY
  maxY := if y < c.minY then c.maxY else if c.maxY < y then y else c.maxY

/-- The blob that an index has been joined to, or `UINT_MAX` where there is none. -/
def joinedTo (joined : ℕ → ℕ) (index : ℕ) : ℕ := if index = 0 then uintMax else root joined index

/-- One pixel of the image. -/
def visit (width : ℕ) (data : ℕ → UInt8) (t : Table) (y x : ℕ) : Table :=
  let count := y * width + x
  if 0 < data (3 * count) then
    let aboveBlobIndex := t.pixelBlobIndex (count - width)
    let leftBlobIndex := t.pixelBlobIndex (count - 1)
    if aboveBlobIndex = 0 ∧ leftBlobIndex = 0 then
      { joinedBlobIndex := Function.update t.joinedBlobIndex t.initialBlobIndex t.initialBlobIndex
        clusters := Function.update t.clusters t.initialBlobIndex (.new x y)
        pixelBlobIndex := Function.update t.pixelBlobIndex count t.initialBlobIndex
        initialBlobIndex := t.initialBlobIndex + 1 }
    else
      let finalBlobIndex := min (joinedTo t.joinedBlobIndex leftBlobIndex) (joinedTo t.joinedBlobIndex aboveBlobIndex)
      { t with
        joinedBlobIndex :=
          Function.update (Function.update t.joinedBlobIndex aboveBlobIndex finalBlobIndex) leftBlobIndex finalBlobIndex
        clusters := Function.update t.clusters finalBlobIndex ((t.clusters finalBlobIndex).add x y)
        pixelBlobIndex := Function.update t.pixelBlobIndex count finalBlobIndex }
  else { t with pixelBlobIndex := Function.update t.pixelBlobIndex count 0 }

/-- The vectors keep their first entries, and the top row and the front edge belong to no blob. -/
def prepared (img : Image) (t : Table) : Table where
  joinedBlobIndex := t.joinedBlobIndex
  clusters := t.clusters
  pixelBlobIndex := (List.range img.height).foldl (fun pixels y => Function.update pixels (img.width * y) 0)
    (fun i => if i < img.width then 0 else t.pixelBlobIndex i)
  initialBlobIndex := 1

/-- Every pixel of the image is visited. -/
def visitAll (img : Image) (t : Table) : Table :=
  (List.range img.height).foldl (fun t y => (List.range img.width).foldl (fun t x => visit img.width (blacked img) t y x) t)
    (prepared img t)

/-! ### The pass over the blobs -/

/-- A cluster and another that is part of it. -/
def Cluster.merge (c d : Cluster) : Cluster where
  pixelCount := int32 (c.pixelCount + d.pixelCount)
  totalX := int32 (c.totalX + d.totalX)
  totalY := int32 (c.totalY + d.totalY)
  minX := if d.minX < c.minX then d.minX else c.minX
  maxX := if c.maxX < d.maxX then d.maxX else c.maxX
  minY := if d.minY < c.minY then d.minY else c.minY
  maxY := if c.maxY < d.maxY then d.maxY else c.maxY

def Cluster.blob (c : Cluster) : Blob where
  size := c.pixelCount
  centerX := c.totalX.tdiv c.pixelCount
  centerY := c.totalY.tdiv c.pixelCount
  maxX := c.maxX
  minX := c.minX
  maxY := c.maxY
  minY := c.minY

/-- One cluster is added to the one that it has been joined to, or is final. -/
def collapse (t : Table) (minBlobSize : ℤ) (i : ℕ) (s : (ℕ → Cluster) × List Blob) : (ℕ → Cluster) × List Blob :=
  let join := if t.joinedBlobIndex i = uintMax then t.initialBlobIndex - 1 else t.joinedBlobIndex i
  if join ≠ i then
    (Function.update (Function.update s.1 join ((s.1 join).merge (s.1 i))) i { s.1 i with pixelCount := 0 }, s.2)
  else if minBlobSize ≤ (s.1 i).pixelCount then (s.1, s.2 ++ [(s.1 i).blob])
  else s

/-- The clusters from `i` down to the first. -/
def collapseAll (t : Table) (minBlobSize : ℤ) : ℕ → (ℕ → Cluster) × List Blob → (ℕ → Cluster) × List Blob
  | 0, s => s
  | i + 1, s => collapseAll t minBlobSize i (collapse t minBlobSize (i + 1) s)

/-- The final clusters that are large enough, in the order in which they are found. -/
def finalBlobs (t : Table) (minBlobSize : ℤ) : List Blob :=
  (collapseAll t minBlobSize (t.initialBlobIndex - 1) (t.clusters, [])).2

/-- `BlobComparer::compare`, as an order for sorting. -/
def noSmaller (a b : Blob) : Bool := b.size ≤ a.size

/-- `m_blobs` after `processImage` with what the vectors held before. -/
def processImage (t : Table) (minBlobSize : ℤ) (img : Image) : List Blob :=
  (finalBlobs (visitAll img t) minBlobSize).mergeSort noSmaller

end Tortuga.BlobDetector
