/-!
# Command lines

* `Command` — what the program is asked to do;
* `Invocation` — a command with the options that every command takes;
* `CommandLine.read` — reads the arguments of a command line. An option that takes a value takes
  the next argument, or what follows an equals sign; after `--` everything is a value of its own.

No option may be given twice. But those that every command takes may be given once before and once
after the command's name, and then the later one counts.
-/

namespace FieldQuery

/-- What the program is asked to do. -/
inductive Command where
  /-- Answer one request. -/
  | query (catalog data entity query : String) (strict pretty : Bool)
  /-- Check a catalog. -/
  | check (catalog : String)
  /-- Show the settings in force. -/
  | config
  deriving DecidableEq, Repr

/-- A command with the options that every command takes. -/
structure Invocation where
  command : Command
  /-- The file with the settings. -/
  config : Option String := none
  deriving DecidableEq, Repr

/-- What a command line asks for. -/
inductive CommandLine where
  | run (i : Invocation)
  | help
  | version
  | unusable
  deriving DecidableEq, Repr

namespace CommandLine

/-- The names of the commands. -/
inductive Verb where
  | query
  | check
  | config
  deriving DecidableEq, Repr

/-- The options that take a value. -/
inductive Valued where
  | config
  | catalog
  | data
  | entity
  deriving DecidableEq, Repr

/-- The options that take none. -/
inductive Switch where
  | verbose
  | strict
  | pretty
  | help
  | version
  deriving DecidableEq, Repr

/-- An option. -/
inductive Flag where
  | valued (v : Valued)
  | switch (s : Switch)
  deriving DecidableEq, Repr

/-- What has been read so far. -/
structure Parse where
  verb : Option Verb := none
  /-- The values of options before the command's name, when that has been read. -/
  outer : List (Valued × String) := []
  values : List (Valued × String) := []
  switches : List Switch := []
  positional : List String := []
  deriving Repr

/-- The command of a name. -/
def verb? (s : String) : Option Verb :=
  if s = "query" then some .query
  else if s = "check" then some .check
  else if s = "config" then some .config
  else none

/-- Whether an option makes sense after what has been read. -/
def allowed (verb : Option Verb) : Flag → Bool
  | .valued .config => true
  | .switch .verbose => true
  | .switch .help => true
  | .switch .version => verb.isNone
  | .valued .catalog => verb == some .query || verb == some .check
  | .valued .data => verb == some .query
  | .valued .entity => verb == some .query
  | .switch .strict => verb == some .query
  | .switch .pretty => verb == some .query

/-- The option of a long name. -/
def longFlag? (name : String) : Option Flag :=
  List.lookup name [
    ("config", .valued .config), ("catalog", .valued .catalog), ("data", .valued .data),
    ("entity", .valued .entity), ("verbose", .switch .verbose), ("strict", .switch .strict),
    ("pretty", .switch .pretty), ("help", .switch .help), ("version", .switch .version)]

/-- The option of a letter. -/
def shortFlag? (c : Char) : Option Flag :=
  List.lookup c [
    ('c', .valued .config), ('e', .valued .entity), ('v', .switch .verbose),
    ('h', .switch .help), ('V', .switch .version)]

/-- How reading goes on. -/
inductive Reading where
  | ok (p : Parse)
  | finished (r : CommandLine)

/-- Whether an argument may stand as a value. -/
def isValue (s : String) : Bool := s = "-" || !s.startsWith "-"

/-- Takes a value over; a second one for the same option is refused. -/
def give (v : Valued) (s : String) (p : Parse) : Reading :=
  if (p.values.map (·.1)).contains v then .finished .unusable
  else .ok { p with values := p.values ++ [(v, s)] }

/-- Takes a switch over. -/
def turnOn (s : Switch) (p : Parse) : Reading :=
  if s = .help then .finished .help
  else if s = .version then .finished .version
  else if p.switches.contains s then .finished .unusable
  else .ok { p with switches := s :: p.switches }

/-- Takes a value of its own over: the name of the command first, then the query. -/
def place (s : String) (p : Parse) : Reading :=
  match p.verb with
  | none =>
    match verb? s with
    | some v => .ok { verb := some v, outer := p.values }
    | none => .finished .unusable
  | some .query =>
    if p.positional = [] then .ok { p with positional := [s] } else .finished .unusable
  | some _ => .finished .unusable

/-- Reads a row of letters after one dash: switches, and at last maybe an option whose value is
the rest or the next argument. Yields the arguments that are left. -/
def letters : List Char → List String → Parse → Reading × List String
  | [], rest, p => (.ok p, rest)
  | c :: cs, rest, p =>
    match shortFlag? c with
    | none => (.finished .unusable, rest)
    | some flag =>
      if !allowed p.verb flag then (.finished .unusable, rest)
      else match flag with
        | .switch s =>
          match turnOn s p with
          | .ok p => letters cs rest p
          | r => (r, rest)
        | .valued v =>
          match cs with
          | '=' :: value => (give v (String.ofList value) p, rest)
          | [] =>
            match rest with
            | value :: rest =>
              if isValue value then (give v value p, rest) else (.finished .unusable, rest)
            | [] => (.finished .unusable, [])
          | value => (give v (String.ofList value) p, rest)

/-- Reads an option with a long name, maybe with a value after an equals sign. -/
def long (cs : List Char) (rest : List String) (p : Parse) : Reading × List String :=
  let name := cs.takeWhile (· != '=')
  let value : Option String :=
    if name.length < cs.length then some (String.ofList (cs.drop (name.length + 1))) else none
  match longFlag? (String.ofList name) with
  | none => (.finished .unusable, rest)
  | some flag =>
    if !allowed p.verb flag then (.finished .unusable, rest)
    else match flag, value with
      | .switch s, none => (turnOn s p, rest)
      | .switch _, some _ => (.finished .unusable, rest)
      | .valued v, some s => (give v s p, rest)
      | .valued v, none =>
        match rest with
        | s :: rest => if isValue s then (give v s p, rest) else (.finished .unusable, rest)
        | [] => (.finished .unusable, [])

/-- Places all arguments as values of their own. -/
def placeAll : List String → Parse → Reading
  | [], p => .ok p
  | s :: rest, p =>
    match place s p with
    | .ok p => placeAll rest p
    | r => r

/-- What a request for help comes to: it may name one command. -/
def helpOn : List String → CommandLine
  | [] => .help
  | [name] => if name = "help" ∨ (verb? name).isSome then .help else .unusable
  | _ => .unusable

/-- Reads one argument after the other; there are no more than `fuel`. -/
def readFrom : Nat → List String → Parse → Reading
  | 0, _, p => .ok p
  | _ + 1, [], p => .ok p
  | fuel + 1, s :: rest, p =>
    if s = "--" then
      if p.verb = none ∧ rest ≠ [] then .finished .unusable else placeAll rest p
    else if s = "help" ∧ p.verb = none then .finished (helpOn rest)
    else
      let (r, rest) := match s.toList with
        | '-' :: '-' :: cs => long cs rest p
        | '-' :: c :: cs => letters (c :: cs) rest p
        | _ => (place s p, rest)
      match r with
      | .ok p => readFrom fuel rest p
      | r => r

/-- The command of what has been read, if everything that it needs is there. -/
def command? (p : Parse) : Option Command :=
  let value (v : Valued) : Option String := List.lookup v p.values
  match p.verb with
  | none => none
  | some .config => some .config
  | some .check => (value .catalog).map .check
  | some .query => do
    return .query (← value .catalog) (← value .data) (← value .entity)
      (p.positional.head?.getD "") (p.switches.contains .strict) (p.switches.contains .pretty)

/-- What a command line asks for. -/
def read (args : List String) : CommandLine :=
  match readFrom args.length args {} with
  | .finished r => r
  | .ok p =>
    match command? p with
    | some c => .run ⟨c, (List.lookup .config p.values).or (List.lookup .config p.outer)⟩
    | none => .unusable

end CommandLine

/-- The files that a command line names. -/
def CommandLine.paths : CommandLine → List String
  | .run i =>
    i.config.toList ++ match i.command with
      | .query catalog data _ _ _ _ => [catalog, data]
      | .check catalog => [catalog]
      | .config => []
  | .help => []
  | .version => []
  | .unusable => []

end FieldQuery
