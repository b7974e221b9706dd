/-
# JSON documents

A document is read as a tree. The entries of an object are kept in the order of the
text, repeated keys included; a reader that collects them into a map keeps the last.
-/

/-- A JSON document. Numbers are natural numbers or any other literal. -/
inductive Json
  | null
  | bool (value : Bool)
  | number (value : Nat)
  | otherNumber (literal : String)
  | string (value : String)
  | array (items : List Json)
  | object (entries : List (String × Json))

namespace Json

def asStr : Json → Option String
  | .string value => some value
  | _ => none

/-- The value of a key: of several entries the last. -/
def lookup (key : String) (entries : List (String × Json)) : Option Json :=
  (entries.reverse.find? fun entry => entry.1 == key).map (·.2)

end Json
