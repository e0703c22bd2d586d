import FilterQuery.Json.Record
import Mathlib

/-!
How deep a value is nested bounds how deep the fields of a record in it are nested.
-/

set_option autoImplicit false

namespace FilterQuery.Json

theorem depth_all_le_iff (items : List Json) (limit : Nat) :
    depthAll items ≤ limit ↔ ∀ item ∈ items, item.depth ≤ limit := by
  induction items with
  | nil => exact ⟨fun _ => List.forall_mem_nil _, fun _ => Nat.zero_le limit⟩
  | cons item rest induction => rw [depthAll, Nat.max_le, induction, List.forall_mem_cons]

theorem depth_members_le_iff (members : List (Text × Json)) (limit : Nat) :
    depthMembers members ≤ limit ↔ ∀ member ∈ members, member.2.depth ≤ limit := by
  induction members with
  | nil => exact ⟨fun _ => List.forall_mem_nil _, fun _ => Nat.zero_le limit⟩
  | cons member rest induction => rw [depthMembers, Nat.max_le, induction, List.forall_mem_cons]

theorem depth_of_item (items : List Json) (item : Json) (listed : item ∈ items) :
    item.depth < (array items).depth := by
  rw [depth]
  exact Nat.lt_succ_of_le ((depth_all_le_iff items _).mp (Nat.le_refl _) item listed)

theorem depth_of_member (members : List (Text × Json)) (key : Text) (value : Json)
    (listed : (key, value) ∈ members) : value.depth < (object members).depth := by
  rw [depth]
  exact Nat.lt_succ_of_le ((depth_members_le_iff members _).mp (Nat.le_refl _) _ listed)

theorem depth_of_field (names : List Text) (least : Nat) (json : Json)
    (values : List (Option Json)) (reads : json.fields names least = some values) (value : Json)
    (listed : some value ∈ values) : value.depth < json.depth := by
  unfold fields at reads
  split at reads
  · next members =>
      split at reads
      · cases reads
      · obtain rfl := Option.some.inj reads
        obtain ⟨name, _, found⟩ := List.mem_map.mp listed
        obtain ⟨⟨key, value⟩, here, rfl⟩ := Option.map_eq_some_iff.mp found
        exact depth_of_member members key value (List.mem_of_find?_eq_some here)
  · next items =>
      split at reads
      · obtain rfl := Option.some.inj reads
        rcases List.mem_append.mp listed with given | absent
        · obtain ⟨item, member, same⟩ := List.mem_map.mp given
          obtain rfl := Option.some.inj same
          exact depth_of_item items item member
        · cases (List.mem_replicate.mp absent).2
      · cases reads
  · cases reads

/-- Every member of a list that was read is read from some item. -/
theorem item_of_read {Value : Type} (read : Json → Option Value) (items : List Json)
    (values : List Value) (reads : items.mapM read = some values) :
    ∀ value ∈ values, ∃ item ∈ items, read item = some value := by
  induction items generalizing values with
  | nil =>
      obtain rfl := Option.some.inj reads
      exact List.forall_mem_nil _
  | cons item items induction =>
      rw [List.mapM_cons, Option.bind_eq_bind, Option.bind_eq_some_iff] at reads
      obtain ⟨first, here, reads⟩ := reads
      rw [Option.bind_eq_bind, Option.bind_eq_some_iff] at reads
      obtain ⟨rest, later, same⟩ := reads
      obtain rfl := Option.some.inj same
      rw [List.forall_mem_cons]
      refine ⟨⟨item, List.mem_cons_self, here⟩, ?_⟩
      intro value member
      obtain ⟨other, listed, read⟩ := induction rest later value member
      exact ⟨other, List.mem_cons_of_mem item listed, read⟩

theorem read_map {Value : Type} (read : Json → Option Value) (write : Value → Json)
    (values : List Value) (each : ∀ value ∈ values, read (write value) = some value) :
    (values.map write).mapM read = some values := by
  induction values with
  | nil => rfl
  | cons value rest induction =>
      rw [List.map_cons, List.mapM_cons, each value (by simp),
        induction fun other member => each other (List.mem_cons_of_mem value member)]
      rfl

end FilterQuery.Json
