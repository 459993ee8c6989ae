/-!
# JSON values

A value as its text has it: numbers stay rows of characters, members keep their
order and may repeat a name.

A JSON string can hold half of a surrogate pair, which no text can.  Such a
string is a legal value without a content.
-/

namespace TreeQuery

inductive JsonValue where
  | null
  | bool (value : Bool)
  | number (chars : List Char)
  | text (content : Option String)
  | array (items : List JsonValue)
  | object (members : List (Option String × JsonValue))

namespace JsonValue

/-- The values of the members with the given names.  A name that occurs twice, and a member whose
name has no content, spoil the whole object.  An array gives its items in the order of the names
and may end early. -/
def fields? (names : List String) : JsonValue → Option (List (Option JsonValue))
  | .object members =>
      let timesOf (name : String) := members.countP fun m => m.1 == some name
      if members.all (fun m => m.1.isSome) && names.all (fun name => timesOf name ≤ 1) then
        some (names.map fun name => (members.find? fun m => m.1 == some name).map (·.2))
      else
        none
  | .array items =>
      if items.length ≤ names.length then some (names.mapIdx fun i _ => items[i]?) else none
  | _ => none

/-- The choice that a name stands for: the name itself, or an object with the name alone, whose
value is null. -/
def choice? {A : Type} (table : List (String × A)) : JsonValue → Option A
  | .text (some name) => table.lookup name
  | .object [(some name, .null)] => table.lookup name
  | _ => none

end JsonValue
end TreeQuery
