import FilterQuery.Draft
import FilterQuery.Settings
import FilterQuery.Tree.Wire
import FilterQuery.Validation

/-!
The filter box of one table. Every input begins a pass, and the passes are numbered from one.
Suggestions reach the user only while the pass that asked for them is the newest one.
-/

set_option autoImplicit false

namespace FilterQuery

/-- What an input was understood as. The tree that a syntax error leaves stands here and no longer
in the error. -/
structure Compiled where
  tree : Option Tree
  syntaxError : Option SyntaxError
  validationError : Option ValidationError
deriving DecidableEq

namespace Compiled

def isValid (compiled : Compiled) : Bool :=
  compiled.tree.isSome && compiled.syntaxError.isNone && compiled.validationError.isNone

/-- The message to show, that of a syntax error first. -/
def diagnostic (compiled : Compiled) : Option Text :=
  match compiled.syntaxError, compiled.validationError with
  | some error, _ => some error.message
  | none, some error => some error.message
  | none, none => none

end Compiled

structure Pass where
  version : Nat
  compiled : Compiled
  /-- The word that suggestions were requested for. -/
  target : Option Target

structure Delivery where
  version : Nat
  candidates : List Text
deriving DecidableEq

structure Job where
  version : Nat
  source : Source
  typed : Text

/-- A request that is answered from outside, once. -/
structure Request where
  version : Nat
  typed : Text
  answered : Bool
deriving DecidableEq

structure Session where
  settings : Settings
  registry : Registry
  catalog : Catalog
  /-- The number of the newest pass. -/
  version : Nat
  jobs : List Job
  /-- All requests from outside, also those that were answered. -/
  requests : List Request

namespace Session

def start (settings : Settings) (registry : Registry) (catalog : Catalog) : Session :=
  ⟨settings, registry, catalog, 0, [], []⟩

def vocabulary (session : Session) : Vocabulary := ⟨session.registry, session.settings.comparators⟩

/-- On data from a dump the fallback query stands for the empty input. -/
def effectiveInput (session : Session) (input : Text) (cursor : Option Nat) : Text × Option Nat :=
  if input.isEmpty && session.settings.loadedFromDump then (session.settings.fallbackQuery, none)
  else (input, cursor)

def compile (session : Session) (input : Text) (cursor : Option Nat) : Compiled :=
  let (input, cursor) := session.effectiveInput input cursor
  let (tree, syntaxError) := match Tree.ofText input cursor with
    | .ok tree => (some tree, none)
    | .error error => (error.understood, some { error with understood := none })
  let validationError := match tree.map (Tree.validate session.vocabulary) with
    | some (.error error) => some error
    | _ => none
  ⟨tree, syntaxError, validationError⟩

def isStale (session : Session) (version : Nat) : Bool := session.version != version

/-- Suggestions for a pass that is not the newest one are dropped. -/
def deliver (session : Session) (version : Nat) (candidates : List Text) : List Delivery :=
  if session.isStale version then [] else [⟨version, candidates⟩]

def input (session : Session) (text : Text) (cursor : Option Nat) :
    Session × Pass × List Delivery :=
  let session := { session with version := session.version + 1 }
  let version := session.version
  let compiled := session.compile text cursor
  match compiled.tree.bind (session.registry.request session.catalog) with
  | none => (session, ⟨version, compiled, none⟩, [])
  | some (target, answer) =>
      let pass : Pass := ⟨version, compiled, some target⟩
      match answer with
      | .ready candidates => (session, pass, session.deliver version candidates)
      | .deferred source typed =>
          ({ session with jobs := session.jobs ++ [⟨version, source, typed⟩] }, pass, [])
      | .external typed =>
          ({ session with requests := session.requests ++ [⟨version, typed, false⟩] }, pass, [])

/-- Lets the sources answer all jobs, from the catalog as it is now. -/
def settle (session : Session) : Session × List Delivery :=
  ({ session with jobs := [] },
    session.jobs.flatMap fun job =>
      session.deliver job.version (job.source.candidates session.catalog job.typed))

/-- Answers a request from outside. There is no answer if the request is unknown or answered;
otherwise the text that was typed comes with what reaches the user. -/
def answer (session : Session) (index : Nat) (candidates : List Text) :
    Session × Option (Text × List Delivery) :=
  match session.requests[index]? with
  | none => (session, none)
  | some request =>
      if request.answered then (session, none)
      else
        ({ session with
            requests := session.requests.set index { request with answered := true } },
          some (request.typed, session.deliver request.version candidates))

/-- The query as the service takes it. -/
def submit (session : Session) (input : Text) : Except Failure Text :=
  let compiled := session.compile input none
  match compiled.syntaxError with
  | some error => .error (.invalidFilter error.message)
  | none =>
      match compiled.validationError with
      | some error => .error (.invalidFilter error.message)
      | none =>
          match compiled.tree with
          | some tree => .ok tree.write
          | none => .error .noConditions

def replaceCatalog (session : Session) (catalog : Catalog) : Session := { session with catalog }

end Session

def Pass.applySuggestion (pass : Pass) (suggestion : Text) : Option (Except Failure Printed) :=
  pass.target.map fun target =>
    match pass.compiled.tree with
    | some tree => tree.applySuggestion target suggestion
    | none => .error .nothingToEdit

end FilterQuery
