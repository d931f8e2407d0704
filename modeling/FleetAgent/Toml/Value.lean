/-
# TOML values

The value tree of a configuration document.  A table has every key at most once.  Of floating
point numbers and of dates only their presence is kept, since no setting has one of these
types.
-/
namespace FleetAgent.Toml

/-- A value of a document. -/
inductive Value where
  | text (s : String)
  | integer (n : Int)
  | float
  | boolean (b : Bool)
  | dateTime
  | array (items : List Value)
  | table (entries : List (String × Value))
deriving Repr, Inhabited

/-- The value of a key in the entries of a table. -/
def lookup? (key : String) (entries : List (String × Value)) : Option Value :=
  (entries.find? fun e => e.1 == key).map Prod.snd

end FleetAgent.Toml
