import FilterQuery.Proofs.Tree.Texts

/-!
Having the same shape is equality of the trees without cursors and quotes, and the text in which a
tree is written depends on nothing else. Groups are compared place by place, so a child without a
counterpart makes a difference.
-/

set_option autoImplicit false

namespace FilterQuery.Tree

@[simp] theorem unquoted_unmarked (tree : Tree) : tree.unmarked.unquoted = tree.bare := by
  rw [unquoted, unmarked, map_words_map_words]
  rfl

theorem same_shapes_iff_forall₂ (lefts rights : List Tree) :
    sameShapes lefts rights = true ↔
      List.Forall₂ (fun left right => left.sameShape right = true) lefts rights := by
  induction lefts generalizing rights with
  | nil => cases rights <;> simp [sameShapes]
  | cons left lefts induction =>
      cases rights with
      | nil => simp [sameShapes]
      | cons right rights =>
          rw [sameShapes, Bool.and_eq_true, induction, List.forall₂_cons]

theorem same_shape_group_iff (operation other : Operation) (children others : List Tree) :
    (group operation children).sameShape (group other others) = true ↔
      operation = other ∧ children.length = others.length ∧
        ∀ pair ∈ children.zip others, pair.1.sameShape pair.2 = true := by
  rw [sameShape, Bool.and_eq_true, decide_eq_true_iff, same_shapes_iff_forall₂,
    List.forall₂_iff_zip, Prod.forall]

theorem same_shape_equivalence :
    Equivalence fun left right : Tree => left.sameShape right = true where
  refl tree := (same_shape_iff tree tree).mpr rfl
  symm {left right} same :=
    (same_shape_iff right left).mpr ((same_shape_iff left right).mp same).symm
  trans {first second third} before after := (same_shape_iff first third).mpr
    (((same_shape_iff first second).mp before).trans ((same_shape_iff second third).mp after))

@[simp] theorem text_print_bare (tree : Tree) : tree.bare.print.text = tree.print.text :=
  text_print_map_words Word.bare (fun _ => rfl) tree

/-- Trees have the same shape exactly if they are equal once cursors are removed and quotes are
cleared, whatever their shapes are; and then they are written in the same text. -/
theorem same_shape_exact :
    (∀ left right : Tree,
      left.sameShape right = true ↔ left.unmarked.unquoted = right.unmarked.unquoted) ∧
    Equivalence (fun left right : Tree => left.sameShape right = true) ∧
    (∀ (operation other : Operation) (children others : List Tree),
      (group operation children).sameShape (group other others) = true ↔
        operation = other ∧ children.length = others.length ∧
          ∀ pair ∈ children.zip others, pair.1.sameShape pair.2 = true) ∧
    ∀ left right : Tree, left.sameShape right = true → left.print.text = right.print.text := by
  refine ⟨?_, same_shape_equivalence, same_shape_group_iff, ?_⟩
  · intro left right
    rw [unquoted_unmarked, unquoted_unmarked]
    exact same_shape_iff left right
  · intro left right same
    rw [← text_print_bare left, ← text_print_bare right, (same_shape_iff left right).mp same]

def lopsidedTree (field first second : Word) : Tree :=
  .group .and [.group .not [], .condition ⟨field, none, [first]⟩,
    .group .or [.condition ⟨.plain "not".toList, some "x y".toList, [first, second]⟩]]

theorem same_shape_exact_odd :
    (lopsidedTree (.plain "a".toList) (.quote "\"".toList) (.plain [])).sameShape
        (lopsidedTree (.quote "a".toList) ((Word.plain "\"".toList).withCursor 9)
          ((Word.quote []).withCursor 0)) = true ∧
      (lopsidedTree (.plain "a".toList) (.quote "\"".toList) (.plain [])).print.text =
        (lopsidedTree (.quote "a".toList) ((Word.plain "\"".toList).withCursor 9)
          ((Word.quote []).withCursor 0)).print.text ∧
      (group .and [.group .not []]).sameShape (group .and [.group .not [], .group .not []]) =
        false := by
  obtain ⟨_, _, _, written⟩ := same_shape_exact
  have same : (lopsidedTree (.plain "a".toList) (.quote "\"".toList) (.plain [])).sameShape
      (lopsidedTree (.quote "a".toList) ((Word.plain "\"".toList).withCursor 9)
        ((Word.quote []).withCursor 0)) = true := by decide
  exact ⟨same, written _ _ same, by decide⟩

end FilterQuery.Tree
