import FieldQuery.Cache.Memory
import FieldQuery.Catalog.Spec
import FieldQuery.Command.Arguments
import FieldQuery.Listing.Execute
import FieldQuery.Settings.Reader

/-!
# Running a command

* `CommandLine.perform` — what the program writes and with which code it ends, given the files that
  the command line names and the variables of the environment.

A file that cannot be read, settings or a catalog that are refused and a dataset that is none end
the program with code 1 and without output; a request that fails writes its error response and
ends with code 1 too; a command line that makes no sense ends with code 2.
-/

namespace FieldQuery

/-- What the program writes, and the code with which it ends. -/
structure Output where
  exit : Nat
  stdout : String := ""
  deriving DecidableEq, Repr

namespace Command

/-- The end of a program that could not do what it was asked. -/
def failed : Output := { exit := 1 }

/-- A value as the program writes it: fields in the order of their names, and a new line. -/
def shown (pretty : Bool) (j : Json) : String :=
  (if pretty then j.normal.pretty else j.normal.compact) ++ "\n"

/-- The settings in force: those of the file if there is one, under those of the environment. -/
def settings (file env : String → Option String) (config : Option String) : Option Settings :=
  let base : Option Settings := match config with
    | none => some {}
    | some path => (file path).bind fun content => (Settings.read content).toOption
  base.bind fun s => (s.overlay env).check.toOption

/-- The catalog in a file. -/
def loadCatalog (file : String → Option String) (path : String) : Option Catalog := do
  let spec ← CatalogSpec.read? (← file path)
  (spec.build .builtin).toOption

/-- The store of the dataset in a file. -/
def loadStore (file : String → Option String) (path : String) : Option Store := do
  let dataset ← Json.parse (← file path)
  (Store.ofJson dataset).toOption

/-- Answers one request. -/
def answer (s : Settings) (c : Catalog) (store : Store) (entity query : String) (pretty : Bool) :
    Output :=
  let listing := Listing.ofSettings c s .sha256 (some MemoryCache.cache) Store.backend
  let state : ListingState MemoryCache Store :=
    ⟨{ cache := .empty s.cache.maxEntries }, store⟩
  match (listing.execute true entity (.parseQuery query) state).1 with
  | .ok r => { exit := 0, stdout := shown pretty r.toJson }
  | .error e => { exit := 1, stdout := shown pretty e.response.toJson }

/-- A number of things, for a report. -/
def amount (n : Nat) (name : String) : String := String.ofList (Text.natNumeral n) ++ " " ++ name

/-- The report on a catalog. -/
def report (c : Catalog) : String :=
  ", ".intercalate [amount c.fields.length "fields",
    amount c.virtualFields.length "virtual fields", amount c.aliases.length "aliases"] ++ "\n"

/-- Runs a command under settings. -/
def run (file : String → Option String) (s : Settings) : Command → Output
  | .config => { exit := 0, stdout := s.toJson.pretty ++ "\n" }
  | .check catalog =>
    match loadCatalog file catalog with
    | some c => { exit := 0, stdout := report c }
    | none => failed
  | .query catalog data entity params strict pretty =>
    let s := { s with filter := { s.filter with strict := s.filter.strict || strict } }
    match loadCatalog file catalog, loadStore file data with
    | some c, some store => answer s c store entity params pretty
    | _, _ => failed

end Command

/-- How the program is used. -/
def usage : String :=
  "\n".intercalate [
    "Filter, sort and paginate entities with persisted and virtual fields",
    "",
    "Usage: sieve [OPTIONS] <COMMAND>",
    "",
    "Commands:",
    "  query   Run one query and print the JSON response",
    "  check   Validate a catalog definition file",
    "  config  Print the effective configuration",
    ""]

/-- Does what a command line asks for. -/
def CommandLine.perform (file env : String → Option String) : CommandLine → Output
  | .help => { exit := 0, stdout := usage }
  | .version => { exit := 0, stdout := "sieve 0.1.0\n" }
  | .unusable => { exit := 2 }
  | .run i =>
    match Command.settings file env i.config with
    | some s => Command.run file s i.command
    | none => Command.failed

end FieldQuery
