/-!
# Walks over graphs of names

A graph is given by the successors of each name. Both walks go depth first, visit successors in
their order and enter no name twice; their fuel bounds the length of a path.

* `postorder` — the names reachable from one name, each after its successors;
* `findCycle` — the names reachable from one name, or the first cycle that the walk closes, from
  its repeated name back to it.
-/

namespace FieldQuery.Walk

/-- Adds to an order the names reachable from `name` that are not yet in it, each after its
successors. -/
def postorder (next : String → List String) : Nat → List String → String → List String
  | 0, order, _ => order
  | fuel + 1, order, name =>
    if order.contains name then order
    else (next name).foldl (postorder next fuel) order ++ [name]

/-- Adds to the names that have been left the ones reachable from `name`, while `path` has been
entered but not left. A name met again on the path closes a cycle. -/
def findCycle (next : String → List String) :
    Nat → List String → List String → String → Except (List String) (List String)
  | 0, _, done, _ => .ok done
  | fuel + 1, path, done, name =>
    if done.contains name then .ok done
    else if path.contains name then .error (path.dropWhile (· != name) ++ [name])
    else match (next name).foldlM (findCycle next fuel (path ++ [name])) done with
      | .error chain => .error chain
      | .ok done => .ok (name :: done)

end FieldQuery.Walk
