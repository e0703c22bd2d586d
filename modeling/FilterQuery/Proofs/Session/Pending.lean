import FilterQuery.Session.History
import Mathlib

/-!
The requests of a session that are not answered yet. An event begins a pass, which may add its
request to them, or it takes one of them out together with its answer, or it leaves them alone.
-/

set_option autoImplicit false

namespace FilterQuery

def Answer.typed? : Answer → Option Text
  | .ready _ => none
  | .deferred _ typed | .external typed => some typed

theorem Source.typed_advise (source : Source) (catalog : Catalog) (typed : Text) :
    ∀ later ∈ (source.advise catalog typed).typed?, later = typed := by
  cases source <;> simp [advise, Answer.typed?, eq_comm]

theorem Registry.typed_request (registry : Registry) (catalog : Catalog) (tree : Tree)
    (target : Target) (answer : Answer)
    (asked : registry.request catalog tree = some (target, answer)) :
    ∀ typed ∈ answer.typed?, typed = target.typed := by
  rw [request] at asked
  split at asked
  · cases asked
  · split at asked
    · cases asked
      intro typed absent
      cases absent
    · obtain ⟨source, _, same⟩ := Option.map_eq_some_iff.mp asked
      cases same
      exact source.typed_advise catalog _

namespace Session

/-- The requests without an answer: the pass that made each of them and what was typed. -/
def pending (session : Session) : List (Nat × Text) :=
  session.jobs.map (fun job => (job.version, job.typed)) ++
    (session.requests.filter fun request => !request.answered).map
      fun request => (request.version, request.typed)

/-- The candidates that an event brings, with the pass that asked for them: those of a source that
answers at once, those of a job, or those from outside. -/
def offer? (session : Session) : Event → Option Delivery
  | .input text cursor =>
      match (session.compile text cursor).tree.bind (session.registry.request session.catalog) with
      | some (_, .ready candidates) => some ⟨session.version + 1, candidates⟩
      | _ => none
  | .answerJob index =>
      session.jobs[index]?.map fun job =>
        ⟨job.version, job.source.candidates session.catalog job.typed⟩
  | .answer index candidates =>
      (session.requests[index]?.filter fun request => !request.answered).map fun request =>
        ⟨request.version, candidates⟩
  | _ => none

/-- All that an event can do to the passes, the pending requests and the deliveries. -/
inductive Turn (session : Session) : Event → Session × Reply × List Delivery → Prop
  | quiet (event : Event) (next : Session) (reply : Reply) : event.isInput = false →
      reply.pass? = none → session.offer? event = none → next.version = session.version →
        next.pending = session.pending → Turn session event (next, reply, [])
  /-- A pass begins that makes no request or is answered at once. -/
  | begins (text : Text) (cursor : Option Nat) (next : Session) (pass : Pass)
      (offer : Option Delivery) : pass.version = session.version + 1 →
      session.offer? (.input text cursor) = offer →
        (∀ delivery ∈ offer, delivery.version = session.version + 1) →
          next.version = session.version + 1 → next.pending = session.pending →
            Turn session (.input text cursor) (next, .pass pass, offer.toList)
  /-- A pass begins whose request is answered later. -/
  | asks (text : Text) (cursor : Option Nat) (next : Session) (pass : Pass) (target : Target) :
      pass.version = session.version + 1 → session.offer? (.input text cursor) = none →
        pass.target = some target → next.version = session.version + 1 →
          next.pending.Perm ((session.version + 1, target.typed) :: session.pending) →
            Turn session (.input text cursor) (next, .pass pass, [])
  /-- A pending request is answered. -/
  | late (event : Event) (next : Session) (reply : Reply) (offer : Delivery) (typed : Text) :
      event.isInput = false → reply.pass? = none → session.offer? event = some offer →
        next.version = session.version →
          session.pending.Perm ((offer.version, typed) :: next.pending) →
            Turn session event (next, reply, session.deliver offer.version offer.candidates)

theorem pending_add_job (session : Session) (job : Job) :
    pending { session with jobs := session.jobs ++ [job] } |>.Perm
      ((job.version, job.typed) :: session.pending) := by
  simp only [pending, List.map_append, List.map_singleton, List.append_assoc]
  exact List.perm_middle

theorem pending_add_request (session : Session) (version : Nat) (typed : Text) :
    pending { session with requests := session.requests ++ [⟨version, typed, false⟩] } |>.Perm
      ((version, typed) :: session.pending) := by
  simp only [pending, List.filter_append, List.map_append, ← List.append_assoc]
  exact List.perm_append_singleton _ _

theorem pending_answer_job (session : Session) (index : Nat) (job : Job)
    (here : session.jobs[index]? = some job) :
    session.pending.Perm ((job.version, job.typed) ::
      pending { session with jobs := session.jobs.eraseIdx index }) := by
  obtain ⟨bound, rfl⟩ := List.getElem?_eq_some_iff.mp here
  have taken := (List.getElem_cons_eraseIdx_perm bound).map fun job => (job.version, job.typed)
  exact (taken.append_right _).symm

theorem unanswered_set (requests : List Request) (index : Nat) (request : Request)
    (here : requests[index]? = some request) (unanswered : request.answered = false) :
    (requests.filter fun request => !request.answered).Perm
      (request :: (requests.set index { request with answered := true }).filter
        fun request => !request.answered) := by
  induction requests generalizing index with
  | nil => cases here
  | cons first rest induction =>
      cases index with
      | zero =>
          obtain rfl := Option.some.inj here
          simp [unanswered]
      | succ index =>
          have later := induction index here
          rw [List.set_cons_succ, List.filter_cons, List.filter_cons]
          split
          · exact (later.cons first).trans (List.Perm.swap _ _ _)
          · exact later

theorem pending_answer (session : Session) (index : Nat) (request : Request)
    (here : session.requests[index]? = some request) (unanswered : request.answered = false) :
    session.pending.Perm ((request.version, request.typed) :: pending { session with
      requests := session.requests.set index { request with answered := true } }) := by
  have taken := (unanswered_set session.requests index request here unanswered).map
    fun request => (request.version, request.typed)
  rw [List.map_cons] at taken
  exact (taken.append_left _).trans List.perm_middle

theorem input_turns (session : Session) (text : Text) (cursor : Option Nat) :
    session.Turn (.input text cursor) ((session.input text cursor).1,
      .pass (session.input text cursor).2.1, (session.input text cursor).2.2) := by
  have offered : session.offer? (.input text cursor) =
      match (session.compile text cursor).tree.bind (session.registry.request session.catalog) with
      | some (_, .ready candidates) => some ⟨session.version + 1, candidates⟩
      | _ => none := rfl
  -- Compiling does not depend on the number of the newest pass.
  have compiled : compile { session with version := session.version + 1 } text cursor =
      session.compile text cursor := rfl
  unfold input
  dsimp only
  rw [compiled]
  cases asked : (session.compile text cursor).tree.bind
      (session.registry.request session.catalog) with
  | none =>
      rw [asked] at offered
      exact .begins text cursor _ _ none rfl offered (fun _ absent => by cases absent) rfl rfl
  | some request =>
      obtain ⟨target, answer⟩ := request
      obtain ⟨tree, _, request⟩ := Option.bind_eq_some_iff.mp asked
      have typed := session.registry.typed_request session.catalog tree target answer request
      rw [asked] at offered
      cases answer with
      | ready candidates =>
          have fresh : deliver { session with version := session.version + 1 }
              (session.version + 1) candidates = [⟨session.version + 1, candidates⟩] := by
            simp [deliver, isStale]
          dsimp only
          rw [fresh]
          exact .begins text cursor _ _ (some ⟨session.version + 1, candidates⟩) rfl offered
            (fun delivery same => by cases same; rfl) rfl rfl
      | deferred source asking =>
          obtain rfl := typed asking rfl
          exact .asks text cursor _ _ target rfl offered rfl rfl
            (pending_add_job { session with version := session.version + 1 } _)
      | external asking =>
          obtain rfl := typed asking rfl
          exact .asks text cursor _ _ target rfl offered rfl rfl
            (pending_add_request { session with version := session.version + 1 } _ _)

theorem react_turns (session : Session) (passes : List Pass) (event : Event) :
    session.Turn event (session.react passes event) := by
  cases event with
  | input text cursor => exact session.input_turns text cursor
  | compile text cursor => exact .quiet _ _ _ rfl rfl rfl rfl rfl
  | submit text => exact .quiet _ _ _ rfl rfl rfl rfl rfl
  | applySuggestion index suggestion => exact .quiet _ _ _ rfl rfl rfl rfl rfl
  | replaceCatalog catalog => exact .quiet _ _ _ rfl rfl rfl rfl rfl
  | answerJob index =>
      rw [react, answerJob]
      cases here : session.jobs[index]? with
      | none => exact .quiet _ _ _ rfl rfl (by rw [offer?, here]; rfl) rfl rfl
      | some job =>
          refine .late _ _ .done ⟨job.version, job.source.candidates session.catalog job.typed⟩
            job.typed rfl rfl ?_ rfl (session.pending_answer_job index job here)
          rw [offer?, here]
          rfl
  | answer index candidates =>
      rw [react, answer]
      cases here : session.requests[index]? with
      | none => exact .quiet _ _ _ rfl rfl (by rw [offer?, here]; rfl) rfl rfl
      | some request =>
          dsimp only
          cases unanswered : request.answered with
          | true =>
              refine .quiet _ _ _ rfl rfl ?_ rfl rfl
              rw [offer?, here, Option.filter_some, unanswered]
              rfl
          | false =>
              refine .late _ _ _ ⟨request.version, candidates⟩ request.typed rfl rfl ?_ rfl
                (session.pending_answer index request here unanswered)
              rw [offer?, here, Option.filter_some, unanswered]
              rfl

end Session

end FilterQuery
