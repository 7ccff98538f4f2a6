import FieldQuery.Catalog.Field
import FieldQuery.Data.Assoc
import FieldQuery.Settings.Basic
import FieldQuery.Text.Percent

/-!
# Request parameters

* `Params` — parameters in the order of a request, each name once;
* `Params.parseQuery`, `Params.queryText` — the form of a query string;
* `Params.filters` — the parameters that name filters: all but the reserved ones;
* `Options` — what the reserved parameters say. Nothing is refused here: a value that makes no
  sense counts as absent.

Principal results: a parameter that has been set is found, and setting one leaves the others.
-/

namespace FieldQuery

open Text

/-- Parameters of a request. -/
structure Params where
  pairs : List (String × String) := []
  deriving DecidableEq, Repr, Inhabited

namespace Params

/-- Sets a parameter. -/
def insert (k v : String) (p : Params) : Params := ⟨Assoc.set k v p.pairs⟩

/-- Parameters set one after the other. -/
def ofPairs (pairs : List (String × String)) : Params :=
  pairs.foldl (fun p (k, v) => p.insert k v) {}

/-- The value of a parameter. -/
def get? (p : Params) (k : String) : Option String := List.lookup k p.pairs

/-- Whether there are no parameters. -/
def isEmpty (p : Params) : Bool := p.pairs.isEmpty

/-- The parameters that name filters. -/
def filters (p : Params) : List (String × String) :=
  p.pairs.filter fun pair => !reservedNames.contains pair.1

/-- A name or a value of a query string; a plus is a blank. What cannot be decoded stands for
itself. -/
def decodePart (cs : List Char) : String :=
  let spaced := cs.map fun c => if c = '+' then ' ' else c
  String.ofList ((Percent.decode spaced).getD spaced)

/-- One parameter of a query string; without an equals sign its value is empty. -/
def parsePart (cs : List Char) : String × String :=
  match cutAt '=' cs with
  | some (k, v) => (decodePart k, decodePart v)
  | none => (decodePart cs, "")

/-- The parameters of a query string, leading question marks left out. -/
def parseQuery (query : String) : Params :=
  let body := query.toList.dropWhile (· == '?')
  ofPairs (((pieces '&' body).filter (!·.isEmpty)).map parsePart)

/-- A parameter in a query string. -/
def partText (pair : String × String) : List Char :=
  Percent.encode pair.1.toList ++ '=' :: Percent.encode pair.2.toList

/-- The query string of the parameters, some of them replaced or added. -/
def queryText (p : Params) (overrides : List (String × String)) : String :=
  let pairs := overrides.foldl (fun ps (k, v) => Assoc.set k v ps) p.pairs
  String.ofList (joinPieces ['&'] (pairs.map partText))

theorem get?_insert (k v : String) (p : Params) : (p.insert k v).get? k = some v := by
  simp [insert, get?]

theorem get?_insert_ne {j k : String} (h : j ≠ k) (v : String) (p : Params) :
    (p.insert k v).get? j = p.get? j := by
  simp [insert, get?, Assoc.lookup_set_ne h]

end Params

/-- What the reserved parameters of a request say. -/
structure Options where
  page : Nat := 1
  perPage : Nat := 1
  sortBy : Option String := none
  direction : Direction := .ascending
  /-- The requested fields, if the request says which. -/
  fields : Option (List String) := none
  search : Option String := none
  deriving DecidableEq, Repr

namespace Options

/-- A text without the blanks around it, if anything is left. -/
def visible? (s : String) : Option String :=
  let t := trimmed s
  if t = "" then none else some t

/-- A number of at most 64 bits between blanks. -/
def number? (s : String) : Option Nat := readCount (trim s.toList)

/-- The options of a request. The size of a page lies between one and the largest allowed. -/
def ofParams (p : Params) (pages : PageSettings) : Options where
  page := (((p.get? "page").bind number?).filter (0 < ·)).getD 1
  perPage :=
    let wished := ((p.get? "per_page").bind number?).getD pages.defaultPerPage
    max 1 (min wished (max 1 pages.maxPerPage))
  sortBy := (p.get? "sort_by").bind visible?
  direction := ((p.get? "sort_direction").bind Direction.read?).getD .ascending
  fields := (p.get? "fields").map fun s => (splitAt ',' s).filterMap visible?
  search := (p.get? "search").bind visible?

/-- How many rows stand before the page, at most as many as a 64-bit word holds. -/
def offset (o : Options) : Nat := min ((o.page - 1) * o.perPage) wordMax

end Options

end FieldQuery
