import FilterQuery.Session

/-!
The command line: one input of the filter box, and what the box would show for it.
-/

set_option autoImplicit false

namespace FilterQuery.CommandLine

structure Options where
  query : Option Text
  /-- Where the cursor stands; without it, behind the query. -/
  cursor : Option Nat
  services : Option Text
  config : Option Text
  /-- The suggestion to apply. -/
  apply : Option Nat
  fromDump : Bool

inductive Usage where
  | help
  | refused
deriving DecidableEq

structure Outcome where
  exitCode : Nat
  output : Text
  /-- The message of the failure that ended the program. -/
  error : Option Text
deriving DecidableEq

namespace Options

def empty : Options := ⟨none, none, none, none, none, false⟩

/-- Digits, at least one, behind at most one plus, that write a 64-bit number. -/
def number? (text : Text) : Option Nat :=
  let digits := match text with
    | '+' :: digits => digits
    | digits => digits
  if digits.isEmpty || digits.any (fun digit => !Json.Numeral.isDigit digit) then none
  else
    let number := Json.Numeral.value digits
    if number < Json.unsignedLimit then some number else none

def path? (text : Text) : Option Text := if text.isEmpty then none else some text

def once {Value : Type} (old : Option Value) (read : Text → Option Value) (text : Text) :
    Except Usage (Option Value) :=
  match old, read text with
  | none, some value => .ok (some value)
  | _, _ => .error .refused

def set (options : Options) (name value : Text) : Except Usage Options :=
  if name = "cursor".toList then do
    .ok { options with cursor := ← once options.cursor number? value }
  else if name = "services".toList then do
    .ok { options with services := ← once options.services path? value }
  else if name = "config".toList then do
    .ok { options with config := ← once options.config path? value }
  else if name = "apply".toList then do
    .ok { options with apply := ← once options.apply number? value }
  else .error .refused

def takesValue (name : Text) : Bool :=
  ["cursor".toList, "services".toList, "config".toList, "apply".toList].contains name

/-- An argument that is no option: the query, which is given once. -/
def setQuery (options : Options) (query : Text) : Except Usage Options := do
  .ok { options with query := ← once options.query some query }

/-- A single minus is a value like any other text. -/
def isValue (argument : Text) : Bool := argument = ['-'] || argument.head? ≠ some '-'

/-- Reads the arguments in their order. Behind `--` none of them is an option. -/
def parse (options : Options) : List Text → Except Usage Options
  | [] => .ok options
  | argument :: rest =>
      if isValue argument then do parse (← options.setQuery argument) rest
      else if argument = "--".toList then rest.foldlM setQuery options
      else
        match argument with
        | '-' :: '-' :: long =>
            let name := long.takeWhile (· != '=')
            match long.dropWhile (· != '=') with
            | _ :: value => do parse (← options.set name value) rest
            | [] =>
                if name = "help".toList then .error .help
                else if name = "from-dump".toList then
                  if options.fromDump then .error .refused
                  else parse { options with fromDump := true } rest
                else if takesValue name then
                  match rest with
                  | value :: rest =>
                      if isValue value then do parse (← options.set name value) rest
                      else .error .refused
                  | [] => .error .refused
                else .error .refused
        | '-' :: 'h' :: _ => .error .help
        | _ => .error .refused

end Options

def usage : Text := (String.intercalate "\n" [
  "Runs one input of the filter box and prints what the box would show.",
  "",
  "Usage: [OPTIONS] <QUERY>",
  "",
  "Options:",
  "  --cursor <CURSOR>      Cursor position in characters, by default the end of the query",
  "  --services <SERVICES>  JSON file with podNames, serviceNames and namespaces",
  "  --config <CONFIG>      JSON file with the settings",
  "  --apply <APPLY>        Apply a suggestion, counted from 0, and print the resulting query",
  "  --from-dump            Treat the tables as loaded from a dump",
  "  -h, --help             Print help",
  ""]).toList

def line (text : Text) : Text := text ++ ['\n']

def showSuggestions (index : Nat) : List Text → Text
  | [] => []
  | suggestion :: rest =>
      line ("suggestion ".toList ++ Text.ofNat index ++ ": ".toList ++ suggestion) ++
        showSuggestions (index + 1) rest

def showPrinted (printed : Printed) : Text :=
  line ("query: ".toList ++ printed.text) ++
    match printed.cursor with
    | some cursor => line ("cursor: ".toList ++ Text.ofNat cursor)
    | none => []

def showCompiled (compiled : Compiled) : Text :=
  (match compiled.diagnostic with
    | some message => line ("diagnostic: ".toList ++ message)
    | none => []) ++
  match compiled.tree with
  | some tree => line (tree.toJson.writeIndented 0)
  | none => []

def applied (pass : Pass) (candidates : List Text) (index : Nat) : Except Failure Text :=
  match candidates[index]? with
  | none => .error (.noSuggestion index candidates.length)
  | some suggestion =>
      match pass.applySuggestion suggestion with
      | some (.ok printed) => .ok (showPrinted printed)
      | some (.error failure) => .error failure
      | none => .ok []

/-- Shows one input. Suggestions that come later are waited for. -/
def showInput (session : Session) (query : Text) (options : Options) : Outcome :=
  let (session, pass, atOnce) := session.input query (some (options.cursor.getD query.length))
  let shown := showCompiled pass.compiled
  match pass.target with
  | none => ⟨0, shown, none⟩
  | some _ =>
      let candidates := match atOnce ++ session.settle.2 with
        | delivery :: _ => delivery.candidates
        | [] => []
      let shown := shown ++ showSuggestions 0 candidates
      match options.apply with
      | none => ⟨0, shown, none⟩
      | some index =>
          match applied pass candidates index with
          | .ok text => ⟨0, shown ++ text, none⟩
          | .error failure => ⟨1, shown, some failure.message⟩

/-- The session that the options describe. The settings are read before the catalog. -/
def session (options : Options) (files : Text → Option Text) : Except Failure Session := do
  let settings ← match options.config with
    | some path => Settings.load path (files path)
    | none => .ok Settings.standard
  let catalog ← match options.services with
    | some path => Catalog.load path (files path)
    | none => .ok Catalog.empty
  let settings := { settings with loadedFromDump := settings.loadedFromDump || options.fromDump }
  .ok (Session.start settings Registry.standard catalog)

def paths (arguments : List Text) : List Text :=
  match Options.empty.parse arguments with
  | .ok options => options.config.toList ++ options.services.toList
  | .error _ => []

def run (arguments : List Text) (files : Text → Option Text) : Outcome :=
  match Options.empty.parse arguments with
  | .error .help => ⟨0, usage, none⟩
  | .error .refused => ⟨2, [], none⟩
  | .ok options =>
      match options.query with
      | none => ⟨2, [], none⟩
      | some query =>
          match session options files with
          | .error failure => ⟨1, [], some failure.message⟩
          | .ok session => showInput session query options

end FilterQuery.CommandLine
