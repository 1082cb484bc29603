import Tortuga.SortedMaps
import Mathlib.Data.Int.Order.Basic

/-!
Blobs with ids that are kept from one image to the next (`TrackedBlob.h`).
-/
namespace Tortuga.TrackedBlobs
open Tortuga.SortedMaps

/-- A blob with its id. `blob` is all the rest of it. -/
structure TrackedBlob (B : Type) where
  blob : B
  id : ℤ

/-- The lists that `updateIds` changes. The map is in the order of the ids. -/
structure BlobIdLists (B : Type) where
  oldList : List (TrackedBlob B)
  lostBlobMap : SortedMap ℤ (B × ℕ)

section
variable {B D : Type} [LT D] [LE D] [DecidableLT D] [DecidableLE D]

/-- The closest of the blobs from the iterator `i` on: its distance and its iterator. -/
def closest {E : Type} (distance : E → D) : List E → ℕ → D × ℕ → D × ℕ
  | [], _, best => best
  | b :: rest, i, best => closest distance rest (i + 1) (if distance b < best.1 then (distance b, i) else best)

/-- What one new blob finds: the closest of a list and its distance. `far` is where the search begins, at 10000. -/
def search {E : Type} (far : D) (distance : E → D) (es : List E) : D × ℕ := closest distance es 0 (far, 0)

/-- `_setId` -/
def TrackedBlob.setId (b : TrackedBlob B) (id : ℤ) : TrackedBlob B := { b with id := id }

variable (distanceTo : B → B → D) (far : D)

/-- One blob of the new list takes the id of the closest blob, if that is close enough. -/
def updateId (distanceThreshold : D) (s : BlobIdLists B) (b : TrackedBlob B) : BlobIdLists B × TrackedBlob B :=
  let current := search far (fun o : TrackedBlob B => distanceTo o.blob b.blob) s.oldList
  let map := search far (fun e : ℤ × B × ℕ => distanceTo e.2.1 b.blob) s.lostBlobMap.entries
  if current.1 < distanceThreshold ∧ current.1 ≤ map.1 then
    match s.oldList[current.2]? with
    | some old => ({ s with oldList := s.oldList.eraseIdx current.2 }, b.setId old.id)
    | none => (s, b)
  else if map.1 < distanceThreshold ∧ map.1 < current.1 then
    match s.lostBlobMap.entries[map.2]? with
    | some lost => ({ s with lostBlobMap := s.lostBlobMap.erase lost.1 }, b.setId lost.1)
    | none => (s, b)
  else (s, b)

/-- The first loop: the blobs of the new list. -/
def matchIds (distanceThreshold : D) : BlobIdLists B → List (TrackedBlob B) → BlobIdLists B × List (TrackedBlob B)
  | s, [] => (s, [])
  | s, b :: rest =>
    let one := updateId distanceTo far distanceThreshold s b
    let more := matchIds distanceThreshold one.1 rest
    (more.1, one.2 :: more.2)

/-- `insert` of a `std::map`, which keeps what is there. -/
def insertLost (m : SortedMap ℤ (B × ℕ)) (b : TrackedBlob B) (lostFrameCount : ℕ) : SortedMap ℤ (B × ℕ) :=
  if (m.get? b.id).isSome then m else m.set b.id (b.blob, lostFrameCount)

/-- The other loops: what is left goes to the map, and what has been there long enough comes back. -/
def countDown (lostFrameCount : ℕ) (s : BlobIdLists B) : BlobIdLists B :=
  if 0 < lostFrameCount then
    let inserted := s.oldList.foldl (fun m b => insertLost m b lostFrameCount) s.lostBlobMap
    let gone := (inserted.entries.filter fun e => e.2.2 = 0).map fun e => ⟨e.2.1, e.1⟩
    let counted := inserted.mapValues fun lost => if lost.2 = 0 then lost else (lost.1, lost.2 - 1)
    { oldList := gone, lostBlobMap := gone.foldl (fun m b => m.erase b.id) counted }
  else s

/-- `updateIds` with a map of lost blobs, and the new list with its ids. -/
def updateIds (distanceThreshold : D) (lostFrameCount : ℕ) (s : BlobIdLists B) (newList : List (TrackedBlob B)) :
    BlobIdLists B × List (TrackedBlob B) :=
  let matched := matchIds distanceTo far distanceThreshold s newList
  (countDown lostFrameCount matched.1, matched.2)

/-! ### Without a map -/

/-- One blob of the new list, for the other `updateIds`. -/
def updateIdPlain (distanceThreshold : D) (oldList : List (TrackedBlob B)) (b : TrackedBlob B) :
    List (TrackedBlob B) × TrackedBlob B :=
  let current := search far (fun o : TrackedBlob B => distanceTo o.blob b.blob) oldList
  if current.1 < distanceThreshold then
    match oldList[current.2]? with
    | some old => (oldList.eraseIdx current.2, b.setId old.id)
    | none => (oldList, b)
  else (oldList, b)

/-- `updateIds` without a map. -/
def updateIdsPlain (distanceThreshold : D) : List (TrackedBlob B) → List (TrackedBlob B) → List (TrackedBlob B) × List (TrackedBlob B)
  | oldList, [] => (oldList, [])
  | oldList, b :: rest =>
    let one := updateIdPlain distanceTo far distanceThreshold oldList b
    let more := updateIdsPlain distanceThreshold one.1 rest
    (more.1, one.2 :: more.2)

end

end Tortuga.TrackedBlobs
