import Mathlib.Data.List.Basic

/-!
Archives: the members of an object are put into a list of data in a fixed order, and taken out of it
again in the same order.
-/
namespace Tortuga.Archives

/-- One thing that a class puts into an archive. `copy` is what the way through the archive does to the two objects. -/
structure Entry (E T : Type) where
  save : E → T
  load : T → E → Option E
  copy : E → E → E
  loads : ∀ e t, load (save e) t = some (copy e t)

section
variable {E B T V : Type}

/-- A member of the object, as a datum of its type. -/
def Entry.member (tag : V → T) (untag : T → Option V) (same : ∀ v, untag (tag v) = some v) (get : E → V) (set : V → E → E) : Entry E T where
  save e := tag (get e)
  load d t := (untag d).map fun v => set v t
  copy e t := set (get e) t
  loads e t := by rw [same, Option.map_some]

/-- An entry of a part of the object, or of its base class. -/
def Entry.part (get : E → B) (set : B → E → E) (entry : Entry B T) : Entry E T where
  save e := entry.save (get e)
  load d t := (entry.load d (get t)).map fun b => set b t
  copy e t := set (entry.copy (get e) (get t)) t
  loads e t := by rw [entry.loads, Option.map_some]

def parts (get : E → B) (set : B → E → E) (entries : List (Entry B T)) : List (Entry E T) := entries.map (.part get set)

def saveAll (entries : List (Entry E T)) (e : E) : List T := entries.map fun entry => entry.save e

/-- The object after its entries have been read, and the rest of the archive. -/
def loadAll : List (Entry E T) → E → List T → Option (E × List T)
  | [], t, rest => some (t, rest)
  | _ :: _, _, [] => none
  | entry :: entries, t, d :: rest => (entry.load d t).bind fun t => loadAll entries t rest

/-- What an object becomes that the entries of another are read into. -/
def copyAll (entries : List (Entry E T)) (e t : E) : E := entries.foldl (fun t entry => entry.copy e t) t

/-- What is saved is loaded again, whatever the new object was. -/
theorem loadAll_saveAll (entries : List (Entry E T)) (e t : E) (rest : List T) :
    loadAll entries t (saveAll entries e ++ rest) = some (copyAll entries e t, rest) := by
  induction entries generalizing t with
  | nil => rfl
  | cons entry entries ih =>
    show (entry.load (entry.save e) t).bind (fun t => loadAll entries t (saveAll entries e ++ rest)) = _
    rw [entry.loads, Option.bind_some, ih]
    rfl

end

end Tortuga.Archives
