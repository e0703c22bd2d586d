import FilterQuery.Session

/-!
What happens to a session over time. Inputs, late answers and everything else come one after
another in any order. The history keeps what the caller of each operation got back and which
suggestions reached the user.
-/

set_option autoImplicit false

namespace FilterQuery

namespace Session

def answerJob (session : Session) (index : Nat) : Session × List Delivery :=
  match session.jobs[index]? with
  | none => (session, [])
  | some job =>
      ({ session with jobs := session.jobs.eraseIdx index },
        session.deliver job.version (job.source.candidates session.catalog job.typed))

/-- Letting all jobs answer is letting one of them answer after another, the oldest first. -/
theorem settle_eq_answer_job (session : Session) (job : Job) (rest : List Job)
    (jobs : session.jobs = job :: rest) :
    session.settle = ((session.answerJob 0).1.settle.1,
      (session.answerJob 0).2 ++ (session.answerJob 0).1.settle.2) := by
  obtain ⟨settings, registry, catalog, version, _, requests⟩ := session
  obtain rfl := jobs
  rfl

end Session

inductive Event where
  | input (text : Text) (cursor : Option Nat)
  | compile (text : Text) (cursor : Option Nat)
  | submit (text : Text)
  /-- Takes a suggestion for the target of an earlier pass. -/
  | applySuggestion (pass : Nat) (suggestion : Text)
  | replaceCatalog (catalog : Catalog)
  /-- The source of a job answers. -/
  | answerJob (index : Nat)
  /-- A request is answered from outside. -/
  | answer (index : Nat) (candidates : List Text)

def Event.isInput : Event → Bool
  | .input _ _ => true
  | _ => false

inductive Reply where
  | pass (pass : Pass)
  | compiled (compiled : Compiled)
  | submitted (result : Except Failure Text)
  /-- Nothing if there is no such pass or it has no target. -/
  | applied (result : Option (Except Failure Printed))
  /-- The text that was typed, if a request was answered. -/
  | answered (typed : Option Text)
  | done

def Reply.pass? : Reply → Option Pass
  | .pass begun => some begun
  | _ => none

/-- What an event does to a session, with the reply and what reaches the user. -/
def Session.react (session : Session) (passes : List Pass) :
    Event → Session × Reply × List Delivery
  | .input text cursor =>
      let (session, pass, deliveries) := session.input text cursor
      (session, .pass pass, deliveries)
  | .compile text cursor => (session, .compiled (session.compile text cursor), [])
  | .submit text => (session, .submitted (session.submit text), [])
  | .applySuggestion index suggestion =>
      (session, .applied (passes[index]?.bind fun pass => pass.applySuggestion suggestion), [])
  | .replaceCatalog catalog => (session.replaceCatalog catalog, .done, [])
  | .answerJob index =>
      let (session, deliveries) := session.answerJob index
      (session, .done, deliveries)
  | .answer index candidates =>
      match session.answer index candidates with
      | (session, none) => (session, .answered none, [])
      | (session, some (typed, deliveries)) => (session, .answered (some typed), deliveries)

structure History where
  session : Session
  replies : List Reply
  deliveries : List Delivery

namespace History

def start (settings : Settings) (registry : Registry) (catalog : Catalog) : History :=
  ⟨.start settings registry catalog, [], []⟩

def passes (history : History) : List Pass := history.replies.filterMap Reply.pass?

def record (history : History) (outcome : Session × Reply × List Delivery) : History :=
  ⟨outcome.1, history.replies ++ [outcome.2.1], history.deliveries ++ outcome.2.2⟩

def step (history : History) (event : Event) : History :=
  history.record (history.session.react history.passes event)

def run (history : History) (events : List Event) : History := events.foldl step history

end History

end FilterQuery
