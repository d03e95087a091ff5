/-!
# TOML values

What a TOML document holds.  Floats and dates are kept as they are written: nothing here computes
with them.
-/

namespace RuleLens.Toml

inductive Value where
  | string (text : String)
  | integer (n : Int)
  | float (text : String)
  | boolean (b : Bool)
  | datetime (text : String)
  | array (items : List Value)
  | table (entries : List (String × Value))
deriving Repr

end RuleLens.Toml
