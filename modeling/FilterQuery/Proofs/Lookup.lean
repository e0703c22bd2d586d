import FilterQuery.Catalog
import FilterQuery.Proofs.Lowercase

/-!
What a lookup finds. The names are compared in lowercase, each of them as a whole, so a name that
contains what was typed can be missed: a capital sigma ends a word in the one text and not in the
other. The lookup misses no such name exactly if every capital sigma that was typed is settled, and
typing on only narrows it exactly if what was typed does not end in a final sigma.
-/

set_option autoImplicit false

namespace FilterQuery.Catalog

theorem mem_lookup_iff (catalog : Catalog) (kind : Kind) (typed name : Text) :
    name ∈ catalog.lookup kind typed ↔
      name ∈ catalog.list kind ∧ typed.lower <:+: name.lower := by
  rw [lookup, List.mem_filter, Text.occurs_in_iff]

/-- Equal names are found together or not at all. -/
theorem count_lookup (catalog : Catalog) (kind : Kind) (typed name : Text) :
    (catalog.lookup kind typed).count name = 0 ∨
      (catalog.lookup kind typed).count name = (catalog.list kind).count name := by
  cases found : Text.occursIn typed.lower name.lower with
  | true => exact Or.inr (List.count_filter found)
  | false =>
      left
      rw [List.count_eq_zero, lookup, List.mem_filter, found]
      exact fun member => Bool.false_ne_true member.2

theorem lookup_sublist_of_infix (catalog : Catalog) (kind : Kind) (typed longer : Text)
    (part : typed.lower <:+: longer.lower) :
    (catalog.lookup kind longer).Sublist (catalog.lookup kind typed) := by
  apply List.monotone_filter_right
  intro name found
  rw [Text.occurs_in_iff] at found ⊢
  exact part.trans found

/-- The catalog that knows a single name of each kind. -/
def knowing (name : Text) : Catalog := ⟨[name], [name], [name]⟩

theorem mem_lookup_knowing_iff (kind : Kind) (typed name : Text) :
    name ∈ (knowing name).lookup kind typed ↔ typed.lower <:+: name.lower := by
  have listed : name ∈ (knowing name).list kind := by
    cases kind <;> exact List.mem_singleton_self name
  rw [mem_lookup_iff, and_iff_right listed]

theorem literal_found_iff (kind : Kind) (typed : Text) :
    (∀ catalog : Catalog, ∀ name ∈ catalog.list kind, typed <:+: name →
      name ∈ catalog.lookup kind typed) ↔ typed.SigmasSettled := by
  rw [← Text.lower_infix_iff]
  constructor
  · intro found whole part
    have listed : whole ∈ (knowing whole).list kind := by
      cases kind <;> exact List.mem_singleton_self whole
    exact (mem_lookup_knowing_iff kind typed whole).mp (found _ whole listed part)
  · intro kept catalog name listed part
    exact (catalog.mem_lookup_iff kind typed name).mpr ⟨listed, kept name part⟩

theorem narrowing_iff (kind : Kind) (typed : Text) :
    (∀ (catalog : Catalog) (more : Text),
      (catalog.lookup kind (typed ++ more)).Sublist (catalog.lookup kind typed)) ↔
        ¬ typed.EndsInFinalSigma := by
  rw [← Text.lower_infix_append_iff]
  constructor
  · intro narrows more
    have itself := (mem_lookup_knowing_iff kind (typed ++ more) (typed ++ more)).mpr
      (List.infix_refl _)
    exact (mem_lookup_knowing_iff kind typed (typed ++ more)).mp ((narrows _ more).subset itself)
  · intro kept catalog more
    exact lookup_sublist_of_infix catalog kind typed (typed ++ more) (kept more)

theorem lookup_without_sigma (catalog : Catalog) (kind : Kind) (typed : Text)
    (plain : 'Σ' ∉ typed) :
    (∀ name ∈ catalog.list kind, typed <:+: name → name ∈ catalog.lookup kind typed) ∧
      ∀ more, (catalog.lookup kind (typed ++ more)).Sublist (catalog.lookup kind typed) := by
  obtain ⟨settled, inner⟩ := typed.settled_without_sigma plain
  exact ⟨(literal_found_iff kind typed).mpr settled catalog,
    (narrowing_iff kind typed).mpr inner catalog⟩

/-- A lookup keeps the order of the catalog and does not tell equal names apart. It misses no name
with what was typed exactly if the capital sigmas that were typed are settled, and more typing only
narrows it exactly if what was typed does not end in a final sigma. -/
theorem lookup_literal_and_narrowing (kind : Kind) (typed : Text) :
    (∀ catalog : Catalog,
      (catalog.lookup kind typed).Sublist (catalog.list kind) ∧
        ∀ name, (catalog.lookup kind typed).count name = 0 ∨
          (catalog.lookup kind typed).count name = (catalog.list kind).count name) ∧
    ((∀ catalog : Catalog, ∀ name ∈ catalog.list kind, typed <:+: name →
      name ∈ catalog.lookup kind typed) ↔ typed.SigmasSettled) ∧
    ((∀ (catalog : Catalog) (more : Text),
      (catalog.lookup kind (typed ++ more)).Sublist (catalog.lookup kind typed)) ↔
        ¬ typed.EndsInFinalSigma) :=
  ⟨fun catalog => ⟨List.filter_sublist, catalog.count_lookup kind typed⟩,
    literal_found_iff kind typed, narrowing_iff kind typed⟩

/-- The sigma at the end of the first name is final, the one that is typed alone is not. A letter
typed behind a final sigma brings back the second name. -/
theorem sigma_hides_and_widens :
    let catalog : Catalog := ⟨["ΑΣ".toList, "ΑΣΑ".toList], [], []⟩
    ("Σ".toList <:+: "ΑΣ".toList ∧ "ΑΣ".toList ∈ catalog.list .podNames ∧
      catalog.lookup .podNames "Σ".toList = ["ΑΣΑ".toList]) ∧
    catalog.lookup .podNames "ΑΣ".toList = ["ΑΣ".toList] ∧
    catalog.lookup .podNames ("ΑΣ".toList ++ "Α".toList) = ["ΑΣΑ".toList] := by
  decide +kernel

end FilterQuery.Catalog
