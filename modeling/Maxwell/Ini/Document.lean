/-! INI documents: properties, in groups under headings.

    A name may occur more than once. The first group of a name and the first property of a key count. -/

namespace Maxwell

namespace Ini

/-- A line of a document. -/
inductive Item where
  | heading (name : String)
  | property (key value : String)
  deriving DecidableEq, Repr

/-- The properties under one heading. -/
structure Group where
  name : String
  properties : List (String × String)
  deriving DecidableEq, Repr

end Ini

/-- A document. Properties before the first heading belong to no group. -/
structure Ini where
  loose : List (String × String) := []
  groups : List Ini.Group := []
  deriving DecidableEq, Repr

namespace Ini

/-- The document of its lines: a property belongs to the nearest heading above it. -/
def ofItems : List Item → Ini
  | [] => {}
  | .heading name :: items =>
    let rest := ofItems items
    ⟨[], ⟨name, rest.loose⟩ :: rest.groups⟩
  | .property key value :: items =>
    let rest := ofItems items
    ⟨(key, value) :: rest.loose, rest.groups⟩

/-- The value of a key in a group. -/
def get? (ini : Ini) (group key : String) : Option String :=
  (ini.groups.find? fun g => g.name == group).bind fun g => g.properties.lookup key

end Ini

end Maxwell
