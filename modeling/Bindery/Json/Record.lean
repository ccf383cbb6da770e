/-
**Reading records, maps and lists out of JSON values.**

A record is an object or the array of its fields in their order of declaration. An object may hold
further members, but no field twice; an array holds no more than the fields. A map is an object in
which the last value of a repeated key counts.

* `Json.fields?` — the fields of a record.
* `Json.map?` — the values of a map.
-/

import Bindery.Json.Value
import Bindery.OrderedMap

namespace Bindery.Json

/-! ## Plain values -/

/-- The text of a string. -/
def text? : Json → Option String
  | string text => text
  | _ => none

/-- The truth value. -/
def bool? : Json → Option Bool
  | bool value => some value
  | _ => none

/-- The items of an array, each read in the same way. -/
def list? {α : Type} (read : Json → Option α) : Json → Option (List α)
  | array items => items.mapM read
  | _ => none

/-! ## Maps -/

/-- The members of an object, if every key has a text. -/
def members? : Json → Option (List (String × Json))
  | object members => members.mapM fun (key, value) => key.map fun text => (text, value)
  | _ => none

/-- The values of a map, each read with its key. -/
def map? {α : Type} (read : String → Json → Option α) (value : Json) : Option (OrderedMap α) := do
  let members ← value.members?
  let pairs ← members.mapM fun (key, value) => (read key value).map fun item => (key, item)
  return OrderedMap.ofList pairs

/-! ## Records -/

/-- The fields of a record by name. -/
structure Fields where
  values : List (String × Json)

/-- The fields of a record whose declared fields are `names`, in their order. -/
def fields? (names : List String) : Json → Option Fields
  | array items => if items.length ≤ names.length then some ⟨names.zip items⟩ else none
  | value => do
    let known := (← value.members?).filter fun (key, _) => names.contains key
    if (known.map Prod.fst).Nodup then some ⟨known⟩ else none

namespace Fields

/-- A field that has to be there. -/
def required? {α : Type} (fields : Fields) (name : String) (read : Json → Option α) : Option α :=
  (lookupPair name fields.values).bind read

/-- A field that may be missing. -/
def orElse? {α : Type} (fields : Fields) (name : String) (read : Json → Option α) (missing : α) :
    Option α :=
  match lookupPair name fields.values with
  | none => some missing
  | some value => read value

/-- A text that may be missing; then it is empty. -/
def text? (fields : Fields) (name : String) : Option String := fields.orElse? name Json.text? ""

/-- A flag that may be missing; then it is not set. -/
def flag? (fields : Fields) (name : String) : Option Bool := fields.orElse? name Json.bool? false

end Fields

/-! ## Writing fields -/

/-- A text field, left out when it is empty. -/
def textField (name value : String) : List (String × Json) :=
  if value.isEmpty then [] else [(name, text value)]

/-- A flag, left out when it is not set. -/
def flagField (name : String) (value : Bool) : List (String × Json) :=
  if value then [(name, bool true)] else []

/-- A list of texts, left out when it is empty. -/
def textsField (name : String) (values : List String) : List (String × Json) :=
  if values.isEmpty then [] else [(name, array (values.map text))]

end Bindery.Json
