/-
**Suggesting a name for a misspelt one.**

The distance of two texts is the least number of characters to insert, delete or exchange on the
way from one to the other. A suggestion is the nearest candidate within a small distance.

* `editDistance` — the distance, computed row by row.
* `closestName` — the first of the nearest candidates, if one is near enough.
-/

namespace Bindery.Text

/-- The rest of the row for the character `c`: `diagonal` and `above` come from the row before,
`left` is the entry just written. -/
def distanceRow (c : Char) (diagonal left : Nat) : List Char → List Nat → List Nat
  | d :: target, above :: row =>
    let here := min (min (above + 1) (left + 1)) (diagonal + if c = d then 0 else 1)
    here :: distanceRow c above here target row
  | _, _ => []

/-- The row of distances for one more character of the source text. -/
def nextDistanceRow (target : List Char) (row : List Nat) (c : Char) : List Nat :=
  match row with
  | [] => []
  | first :: rest => (first + 1) :: distanceRow c first (first + 1) target rest

/-- The least number of insertions, deletions and exchanges between two texts. -/
def editDistance (source target : List Char) : Nat :=
  (source.foldl (nextDistanceRow target) (List.range (target.length + 1))).getLastD 0

/-- How far a suggestion may lie from a name: texts below four bytes allow a single edit. -/
def suggestionReach (name : String) : Nat := if name.utf8ByteSize < 4 then 1 else 2

/-- Keeps the better of the best candidate so far, with its distance, and one more candidate. -/
def nearerName (name : String) (best : Option (Nat × String)) (candidate : String) :
    Option (Nat × String) :=
  if candidate = name then best
  else
    let distance := editDistance name.toList candidate.toList
    if suggestionReach name < distance then best
    else match best with
      | none => some (distance, candidate)
      | some (least, _) => if distance < least then some (distance, candidate) else best

/-- The first of the candidates nearest to `name`; never `name` itself, and none out of reach. -/
def closestName (name : String) (candidates : List String) : Option String :=
  (candidates.foldl (nearerName name) none).map Prod.snd

end Bindery.Text
