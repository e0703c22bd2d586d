import FilterQuery.Proofs.Session.Pending
import Mathlib

/-!
The last write wins. Whatever happens to a session, the passes are numbered in the order of their
inputs, only the newest one is fresh, and candidates reach the user exactly while the pass that
asked for them is fresh. So each pass is delivered to at most once, and never behind a later one.
-/

set_option autoImplicit false

namespace FilterQuery

namespace History

/-- The passes whose requests are pending or were delivered. -/
def claimed (history : History) : List Nat :=
  history.session.pending.map Prod.fst ++ history.deliveries.map Delivery.version

/-- What holds of a session and its past at any time. -/
structure Consistent (history : History) : Prop where
  numbered : history.passes.map Pass.version = List.range' 1 history.passes.length
  newest : history.session.version = history.passes.length
  /-- No pass has two requests, and none has a request left once it was delivered to. -/
  once : history.claimed.Nodup
  begun : ∀ version ∈ history.claimed, version ≤ history.session.version
  asked : ∀ request ∈ history.session.pending, ∃ pass ∈ history.passes,
    pass.version = request.1 ∧ pass.target.map Target.typed = some request.2
  ordered : (history.deliveries.map Delivery.version).Pairwise (· < ·)

@[simp] theorem passes_record (history : History) (outcome : Session × Reply × List Delivery) :
    (history.record outcome).passes = history.passes ++ outcome.2.1.pass?.toList := by
  rw [passes, record, List.filterMap_append]
  cases outcome.2.1 <;> rfl

theorem consistent_start (settings : Settings) (registry : Registry) (catalog : Catalog) :
    (start settings registry catalog).Consistent :=
  ⟨rfl, rfl, List.nodup_nil, List.forall_mem_nil _, List.forall_mem_nil _, List.Pairwise.nil⟩

theorem claimed_record (history : History) (outcome : Session × Reply × List Delivery) :
    (history.record outcome).claimed = outcome.1.pending.map Prod.fst ++
      (history.deliveries.map Delivery.version ++ outcome.2.2.map Delivery.version) := by
  rw [claimed, record, List.map_append]

theorem subperm_claimed (pending deliveries added : List Nat) (version : Nat)
    (single : added.Sublist [version]) :
    (pending ++ (deliveries ++ added)).Subperm (version :: (pending ++ deliveries)) := by
  rw [← List.append_assoc]
  exact ((single.append_left _).subperm).trans (List.perm_append_singleton _ _).subperm

theorem claims_of_subperm (claims fewer : List Nat) (newest : Nat)
    (taken : fewer.Subperm claims) (once : claims.Nodup)
    (begun : ∀ version ∈ claims, version ≤ newest) :
    fewer.Nodup ∧ ∀ version ∈ fewer, version ≤ newest := by
  obtain ⟨part, same, inside⟩ := taken
  exact ⟨same.nodup_iff.mp (once.sublist inside),
    fun version member => begun version (inside.subset (same.mem_iff.mpr member))⟩

theorem ordered_append (deliveries added : List Nat) (version : Nat)
    (single : added.Sublist [version]) (ordered : deliveries.Pairwise (· < ·))
    (behind : ∀ earlier ∈ deliveries, version ∈ added → earlier < version) :
    (deliveries ++ added).Pairwise (· < ·) := by
  rcases List.sublist_singleton.mp single with rfl | rfl
  · rwa [List.append_nil]
  · rw [List.pairwise_append]
    refine ⟨ordered, List.pairwise_singleton _ _, ?_⟩
    intro earlier member later here
    rw [List.mem_singleton.mp here]
    exact behind earlier member (List.mem_singleton_self _)

theorem consistent_stay (history : History) (consistent : history.Consistent) (next : Session)
    (reply : Reply) (deliveries : List Delivery) (silent : reply.pass? = none)
    (version : next.version = history.session.version)
    (kept : ∀ request ∈ next.pending, request ∈ history.session.pending)
    (taken : (history.record (next, reply, deliveries)).claimed.Subperm history.claimed)
    (ordered : (history.deliveries.map Delivery.version ++
      deliveries.map Delivery.version).Pairwise (· < ·)) :
    (history.record (next, reply, deliveries)).Consistent := by
  have passes : (history.record (next, reply, deliveries)).passes = history.passes := by
    rw [passes_record, silent, Option.toList_none, List.append_nil]
  have claims := claims_of_subperm _ _ _ taken consistent.once consistent.begun
  refine ⟨?_, ?_, claims.1, ?_, ?_, ?_⟩
  · rw [passes]
    exact consistent.numbered
  · rw [passes]
    exact version.trans consistent.newest
  · exact fun claim member => (claims.2 claim member).trans version.ge
  · rw [passes]
    exact fun request member => consistent.asked request (kept request member)
  · rwa [record, List.map_append]

theorem consistent_begin (history : History) (consistent : history.Consistent) (next : Session)
    (pass : Pass) (deliveries : List Delivery) (number : pass.version = history.session.version + 1)
    (version : next.version = history.session.version + 1)
    (asked : ∀ request ∈ next.pending, request ∈ history.session.pending ∨
      pass.version = request.1 ∧ pass.target.map Target.typed = some request.2)
    (taken : (history.record (next, .pass pass, deliveries)).claimed.Subperm
      ((history.session.version + 1) :: history.claimed))
    (single : (deliveries.map Delivery.version).Sublist [history.session.version + 1]) :
    (history.record (next, .pass pass, deliveries)).Consistent := by
  have passes : (history.record (next, .pass pass, deliveries)).passes =
      history.passes ++ [pass] := history.passes_record _
  have older : ∀ claim ∈ history.claimed, claim < history.session.version + 1 :=
    fun claim member => Nat.lt_succ_of_le (consistent.begun claim member)
  have fresh : ((history.session.version + 1) :: history.claimed).Nodup :=
    List.nodup_cons.mpr ⟨fun member => Nat.lt_irrefl _ (older _ member), consistent.once⟩
  have claims := claims_of_subperm _ _ (history.session.version + 1) taken fresh (by
    intro claim member
    rcases List.mem_cons.mp member with rfl | earlier
    · exact Nat.le_refl _
    · exact (older claim earlier).le)
  refine ⟨?_, ?_, claims.1, ?_, ?_, ?_⟩
  · rw [passes, List.map_append, consistent.numbered, List.map_singleton, number,
      consistent.newest, List.length_append, List.length_singleton, List.range'_concat,
      Nat.one_mul, Nat.add_comm 1]
  · rw [passes, List.length_append, List.length_singleton, ← consistent.newest]
    exact version
  · exact fun claim member => (claims.2 claim member).trans version.ge
  · rw [passes]
    intro request member
    rcases asked request member with earlier | here
    · obtain ⟨asking, listed, same⟩ := consistent.asked request earlier
      exact ⟨asking, List.mem_append_left _ listed, same⟩
    · exact ⟨pass, List.mem_append_right _ (List.mem_singleton_self pass), here⟩
  · rw [record, List.map_append]
    apply ordered_append _ _ _ single consistent.ordered
    exact fun earlier member _ => older earlier (List.mem_append_right _ member)

theorem deliver_sublist (session : Session) (version : Nat) (candidates : List Text) :
    ((session.deliver version candidates).map Delivery.version).Sublist [version] := by
  rw [Session.deliver]
  split <;> simp

/-- Only the newest pass is delivered to. -/
theorem newest_of_deliver (session : Session) (version : Nat) (candidates : List Text)
    (delivered : version ∈ (session.deliver version candidates).map Delivery.version) :
    version = session.version := by
  rw [Session.deliver] at delivered
  split at delivered
  · cases delivered
  · next fresh =>
      simp only [Session.isStale, bne_iff_ne, ne_eq, not_not] at fresh
      exact fresh.symm

theorem consistent_record (history : History) (consistent : history.Consistent) (event : Event)
    (outcome : Session × Reply × List Delivery) (turn : history.session.Turn event outcome) :
    (history.record outcome).Consistent := by
  cases turn with
  | quiet _ next reply _ silent _ version pending =>
      apply history.consistent_stay consistent next reply [] silent version
      · intro request member
        rwa [pending] at member
      · rw [claimed_record, pending, List.map_nil, List.append_nil]
        exact List.Subperm.refl _
      · rw [List.map_nil, List.append_nil]
        exact consistent.ordered
  | begins text cursor next pass offer number _ fresh version pending =>
      have single : (offer.toList.map Delivery.version).Sublist [history.session.version + 1] := by
        cases offer with
        | none => exact List.nil_sublist _
        | some delivery => rw [Option.toList_some, List.map_singleton, fresh delivery rfl]
      apply history.consistent_begin consistent next pass _ number version _ _ single
      · intro request member
        rw [pending] at member
        exact Or.inl member
      · rw [claimed_record, pending]
        exact subperm_claimed _ _ _ _ single
  | asks text cursor next pass target number _ given version pending =>
      apply history.consistent_begin consistent next pass [] number version _ _ (List.nil_sublist _)
      · intro request member
        rcases List.mem_cons.mp (pending.mem_iff.mp member) with rfl | earlier
        · exact Or.inr ⟨number, by rw [given]; rfl⟩
        · exact Or.inl earlier
      · rw [claimed_record, List.map_nil, List.append_nil]
        exact ((pending.map Prod.fst).append_right _).subperm
  | late _ next reply offer typed _ silent _ version pending =>
      have single := deliver_sublist history.session offer.version offer.candidates
      have claimed := (pending.map Prod.fst).append_right
        (history.deliveries.map Delivery.version)
      have once : offer.version ∉ history.deliveries.map Delivery.version := by
        have distinct := claimed.nodup_iff.mp consistent.once
        exact fun member => (List.nodup_cons.mp distinct).1 (List.mem_append_right _ member)
      apply history.consistent_stay consistent next reply _ silent version
      · exact fun request member => pending.mem_iff.mpr (List.mem_cons_of_mem _ member)
      · rw [claimed_record]
        exact (subperm_claimed _ _ _ _ single).trans claimed.symm.subperm
      · apply ordered_append _ _ _ single consistent.ordered
        intro earlier member delivered
        have bounded := consistent.begun earlier (List.mem_append_right _ member)
        have newest := newest_of_deliver _ _ _ delivered
        have different : earlier ≠ offer.version := fun same => once (same ▸ member)
        omega

theorem consistent_run (history : History) (consistent : history.Consistent)
    (events : List Event) : (history.run events).Consistent := by
  induction events generalizing history with
  | nil => exact consistent
  | cons event rest induction =>
      apply induction (history.step event)
      exact history.consistent_record consistent event _ (history.session.react_turns _ event)

@[simp] theorem length_passes_step (history : History) (event : Event) :
    (history.step event).passes.length = history.passes.length + event.isInput.toNat := by
  rw [step, passes_record, List.length_append]
  have turn := history.session.react_turns history.passes event
  generalize history.session.react history.passes event = outcome at turn
  cases turn with
  | quiet _ _ _ other silent | late _ _ _ _ _ other silent => rw [silent, other]; rfl
  | begins | asks => rfl

@[simp] theorem length_passes_run (history : History) (events : List Event) :
    (history.run events).passes.length =
      history.passes.length + events.countP Event.isInput := by
  induction events generalizing history with
  | nil => rfl
  | cons event rest induction =>
      have first := history.length_passes_step event
      have later := induction (history.step event)
      change ((history.step event).run rest).passes.length = _
      rw [later, first, List.countP_cons]
      cases event.isInput <;> simp
      omega

theorem version_step (history : History) (event : Event) (other : event.isInput = false) :
    (history.step event).session.version = history.session.version := by
  have turn := history.session.react_turns history.passes event
  rw [step, record]
  generalize history.session.react history.passes event = outcome at turn
  cases turn with
  | quiet _ _ _ _ _ _ version | late _ _ _ _ _ _ _ _ version => exact version
  | begins | asks => cases other

/-- What an event offers is delivered exactly if its pass is fresh behind the event. -/
theorem deliveries_step (history : History) (event : Event) :
    (history.step event).deliveries = history.deliveries ++ ((history.session.offer? event).filter
      fun offer => !(history.step event).session.isStale offer.version).toList := by
  have turn := history.session.react_turns history.passes event
  rw [step, record]
  generalize history.session.react history.passes event = outcome at turn
  cases turn with
  | quiet _ _ _ _ _ nothing | asks _ _ _ _ _ _ nothing => rw [nothing]; rfl
  | begins _ _ next pass offer _ offered fresh version =>
      rw [offered]
      cases offer with
      | none => rfl
      | some delivery =>
          have newest := fresh delivery rfl
          rw [← version] at newest
          simp [Option.filter_some, Session.isStale, newest]
  | late _ next reply offer typed _ _ offered version =>
      rw [offered, Option.filter_some, Session.deliver, Session.isStale, Session.isStale, version]
      cases history.session.version != offer.version <;> rfl

theorem stale_iff (history : History) (consistent : history.Consistent) (index : Nat)
    (pass : Pass) (here : history.passes[index]? = some pass) :
    history.session.isStale pass.version = true ↔ index + 1 < history.passes.length := by
  obtain ⟨bound, rfl⟩ := List.getElem?_eq_some_iff.mp here
  have numbers := congrArg (fun versions => versions[index]?) consistent.numbered
  have number : history.passes[index].version = index + 1 := by
    simpa [bound, Nat.add_comm] using numbers
  rw [Session.isStale, bne_iff_ne, consistent.newest, number]
  omega

theorem count_fresh (history : History) (consistent : history.Consistent)
    (begun : history.passes ≠ []) :
    history.passes.countP (fun pass => !history.session.isStale pass.version) = 1 := by
  have some : 0 < history.passes.length := List.length_pos_iff.mpr begun
  calc
    history.passes.countP (fun pass => !history.session.isStale pass.version) =
        (history.passes.map Pass.version).count history.passes.length := by
      rw [List.count, List.countP_map, ← consistent.newest]
      apply List.countP_congr
      intro pass _
      simp only [Session.isStale, Bool.not_eq_true', bne_eq_false_iff_eq, Function.comp, beq_iff_eq]
      exact eq_comm
    _ = 1 := by
      rw [consistent.numbered]
      exact List.count_eq_one_of_mem List.nodup_range' (List.mem_range'_1.mpr (by omega))

/-- Whatever happens, the passes are numbered as their inputs, and a pass is stale exactly if a
later one began, so that one pass is fresh as soon as there is any. Each pending request was made by
a pass. The candidates that an event brings are delivered exactly if their pass is fresh; no pass is
delivered to twice, and no pass behind a later one. -/
theorem last_write_wins (settings : Settings) (registry : Registry) (catalog : Catalog)
    (events : List Event) (history : History)
    (reached : (start settings registry catalog).run events = history) :
    history.passes.map Pass.version = List.range' 1 (events.countP Event.isInput) ∧
      (∀ index pass, history.passes[index]? = some pass →
        (history.session.isStale pass.version = true ↔ index + 1 < history.passes.length)) ∧
      (history.passes ≠ [] →
        history.passes.countP (fun pass => !history.session.isStale pass.version) = 1) ∧
      (∀ event, event.isInput = false → ∀ version,
        (history.step event).session.isStale version = history.session.isStale version) ∧
      (∀ request ∈ history.session.pending, ∃ pass ∈ history.passes,
        pass.version = request.1 ∧ pass.target.map Target.typed = some request.2) ∧
      (∀ event, (history.step event).deliveries = history.deliveries ++
        ((history.session.offer? event).filter fun offer =>
          !(history.step event).session.isStale offer.version).toList) ∧
      (history.deliveries.map Delivery.version).Pairwise (· < ·) ∧
      ∀ index request candidates, history.session.requests[index]? = some request →
        request.answered = false → request.version = history.passes.length →
          (history.step (.answer index candidates)).deliveries =
            history.deliveries ++ [⟨request.version, candidates⟩] := by
  have consistent : history.Consistent :=
    reached ▸ consistent_run _ (consistent_start settings registry catalog) events
  have count : history.passes.length = events.countP Event.isInput := by
    rw [← reached, length_passes_run]
    exact Nat.zero_add _
  refine ⟨?_, history.stale_iff consistent, history.count_fresh consistent, ?_, consistent.asked,
    history.deliveries_step, consistent.ordered, ?_⟩
  · rw [consistent.numbered, count]
  · intro event other version
    rw [Session.isStale, history.version_step event other, Session.isStale]
  · intro index request candidates here unanswered newest
    have offered : history.session.offer? (.answer index candidates) =
        some ⟨request.version, candidates⟩ := by
      rw [Session.offer?, here, Option.filter_some, unanswered]
      rfl
    have version := history.version_step (.answer index candidates) rfl
    rw [deliveries_step, offered, Option.filter_some, Session.isStale, version, consistent.newest,
      newest]
    simp

def overtakenEvents : List Event :=
  [.input "namespace = pr".toList (some 14), .input "namespace = de".toList (some 14),
    .answer 0 ["prod".toList]]

/-- Two values are asked for, and the first of them is answered when its pass is stale. -/
def overtaken : History :=
  let registry := Registry.empty.add "namespace".toList (.external fun typed => [typed])
  (start .standard registry .empty).run overtakenEvents

theorem last_write_wins_overtaken :
    overtaken.session.requests =
        [⟨1, "pr".toList, true⟩, ⟨2, "de".toList, false⟩] ∧
      overtaken.passes.map Pass.version = [1, 2] ∧ overtaken.deliveries = [] ∧
      (overtaken.step (.answer 1 ["dev".toList])).deliveries = [⟨2, ["dev".toList]⟩] := by
  obtain ⟨numbered, _, _, _, _, _, _, answered⟩ :=
    last_write_wins _ _ _ overtakenEvents overtaken rfl
  have requests : overtaken.session.requests =
      [⟨1, "pr".toList, true⟩, ⟨2, "de".toList, false⟩] := by decide +kernel
  have pending : overtaken.session.requests[1]? = some ⟨2, "de".toList, false⟩ := by
    rw [requests]
    rfl
  have dropped : overtaken.deliveries = [] := by decide +kernel
  have newest : 2 = overtaken.passes.length := by decide +kernel
  have delivered := answered 1 _ ["dev".toList] pending rfl newest
  rw [dropped] at delivered
  exact ⟨requests, numbered, dropped, delivered⟩

end History

end FilterQuery
