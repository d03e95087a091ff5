/-!
# Modules of the rule language

A module is a structure of named members.  A member is a constant, a property, a function, or a
structure of its own.
-/

namespace RuleLens

inductive MemberKind where
  | nested
  | enum
  | property
  | method
deriving Repr, DecidableEq

namespace MemberKind

def name : MemberKind → String
  | .nested => "class"
  | .enum => "enum"
  | .property => "property"
  | .method => "method"

/-- The kind of that name.  An unknown name counts as a structure. -/
def ofName (text : String) : MemberKind :=
  if text = "enum" then .enum
  else if text = "property" then .property
  else if text = "method" then .method
  else .nested

end MemberKind

/-- What a name stands for: a leaf, or the members of a structure. -/
inductive Member where
  | enum
  | property
  | method
  | nested (members : List (String × Member))

namespace Member

def kind : Member → MemberKind
  | .enum => .enum
  | .property => .property
  | .method => .method
  | .nested _ => .nested

/-- Members that are all of one kind. -/
def each (member : Member) (names : List String) : List (String × Member) :=
  names.map (·, member)

end Member

end RuleLens
