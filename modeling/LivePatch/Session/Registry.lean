/-!
# Registries

Values under names, in the order of the names.
-/

namespace LivePatch.Session

/-- Values under names, least name first. -/
abbrev Registry (α : Type) := List (String × α)

namespace Registry

variable {α : Type}

/-- The value under a name. -/
def get? (registry : Registry α) (name : String) : Option α := registry.lookup name

/-- The registry without the name. -/
def erase (registry : Registry α) (name : String) : Registry α := registry.filter (·.1 ≠ name)

/-- Adds a value in the order of names, in place of the value under the same name if there is any. -/
def put (registry : Registry α) (name : String) (value : α) : Registry α :=
  match registry with
  | [] => [(name, value)]
  | (other, old) :: rest =>
    if name < other then (name, value) :: (other, old) :: rest
    else if name = other then (name, value) :: rest
    else (other, old) :: put rest name value

end Registry

end LivePatch.Session
