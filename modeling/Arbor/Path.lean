/-
# Paths

The parts of a path that `type_name` in `core/node`, `from_path_and_id` in `query/query` and
`get_parent_of_type` in `introspection/proxy` look at.

The path of an object names the types on the way down to it: `/App/Panel/Button`.  Its components
are the non-empty parts between slashes; its last part, which may be empty, is the type of the
object.
-/

namespace Arbor
namespace Path

/-- The parts of a text between slashes, at least one. -/
def parts : List Char → List (List Char)
  | [] => [[]]
  | c :: rest =>
    if c = '/' then [] :: parts rest
    else
      match parts rest with
      | [] => [[c]]
      | p :: ps => (c :: p) :: ps

/-- The non-empty parts. -/
def components (path : String) : List String :=
  ((parts path.toList).filter fun p => !p.isEmpty).map String.ofList

/-- The last part. -/
def typeName (path : String) : String := String.ofList ((parts path.toList).getLastD [])

end Path
end Arbor
