import FieldQuery.Document.Toml
import FieldQuery.Document.Yaml

/-!
# Configuration texts

A configuration text may be JSON, TOML or YAML. It is read in the first of these formats in which
it makes sense to its reader: a text that is well-formed JSON but says the wrong thing may still
say the right thing as YAML.

* `Document.decode?` — what a text says.
-/

namespace FieldQuery.Document

/-- What a text says to `f` in the first format in which it says something. -/
def decode? {α : Type} (f : Document → Option α) (text : String) : Option α :=
  match (Json.read text).bind fun j => f (ofJson j) with
  | some a => some a
  | none =>
    match (Toml.read text).bind f with
    | some a => some a
    | none => (Yaml.read text).bind f

end FieldQuery.Document
