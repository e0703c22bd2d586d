import FilterQuery.Comparator
import Mathlib

/-!
Cutting leaves no empty piece, leaves a sign whole and leaves a text without signs whole.
-/

set_option autoImplicit false

namespace FilterQuery.Comparator

theorem sign_nonempty (sign : Text) (listed : sign ∈ signs) : sign ≠ [] := by
  rintro rfl
  revert listed
  decide

theorem prepend_pieces_nonempty (sign : Text) (char : Char) (pieces : List Text)
    (nonempty : ∀ piece ∈ pieces, piece ≠ []) :
    ∀ piece ∈ prepend sign char pieces, piece ≠ [] := by
  cases pieces with
  | nil => simp [prepend]
  | cons first rest =>
      intro piece member
      rw [prepend] at member
      split at member
      · rcases List.mem_cons.mp member with rfl | later
        · simp
        · exact nonempty piece later
      · rcases List.mem_cons.mp member with rfl | later
        · simp
        · exact nonempty piece (List.mem_cons_of_mem first later)

theorem cut_out_pieces_nonempty (sign : Text) (written : sign ≠ []) (skipped : Nat) (text : Text) :
    ∀ piece ∈ cutOut sign skipped text, piece ≠ [] := by
  induction text generalizing skipped with
  | nil => simp [cutOut]
  | cons char rest induction =>
      cases skipped with
      | succ skipped => exact induction skipped
      | zero =>
          rw [cutOut]
          split
          · intro piece member
            rcases List.mem_cons.mp member with rfl | later
            · exact written
            · exact induction _ piece later
          · exact prepend_pieces_nonempty sign char _ (induction 0)

theorem cut_pieces_nonempty (pieces : List Text) (sign : Text) (listed : sign ∈ signs)
    (nonempty : ∀ piece ∈ pieces, piece ≠ []) :
    ∀ piece ∈ cutPieces pieces sign, piece ≠ [] := by
  intro piece member
  obtain ⟨whole, contained, part⟩ := List.mem_flatMap.mp member
  split at part
  · rw [List.mem_singleton.mp part]
    exact nonempty whole contained
  · exact cut_out_pieces_nonempty sign (sign_nonempty sign listed) 0 whole piece part

theorem cut_signs_nonempty (text : Text) (written : text ≠ []) :
    ∀ piece ∈ cutSigns text, piece ≠ [] := by
  have passes : ∀ (later : List Text) (pieces : List Text), (∀ sign ∈ later, sign ∈ signs) →
      (∀ piece ∈ pieces, piece ≠ []) → ∀ piece ∈ later.foldl cutPieces pieces, piece ≠ [] := by
    intro later
    induction later with
    | nil => intro pieces _ nonempty; exact nonempty
    | cons sign later induction =>
        intro pieces listed nonempty
        apply induction
        · intro other member
          exact listed other (List.mem_cons_of_mem sign member)
        · exact cut_pieces_nonempty pieces sign (listed sign (by simp)) nonempty
  exact passes signs [text] (fun _ member => member) (by simpa using written)

theorem cut_out_absent (sign text : Text) (written : text ≠ []) (absent : ¬ sign <:+: text) :
    cutOut sign 0 text = [text] := by
  induction text with
  | nil => contradiction
  | cons char rest induction =>
      rw [List.infix_cons_iff, not_or] at absent
      have start : sign.isPrefixOf (char :: rest) = false := by
        rw [Bool.eq_false_iff, ne_eq, List.isPrefixOf_iff_prefix]
        exact absent.1
      rw [cutOut, start, if_neg Bool.false_ne_true]
      cases rest with
      | nil => rfl
      | cons next later =>
          rw [induction (by simp) absent.2, prepend, if_neg]
          rintro rfl
          exact absent.2 (List.infix_refl _)

theorem cut_signs_whole (text : Text) (written : text ≠ [])
    (whole : text ∈ signs ∨ ∀ sign ∈ signs, ¬ sign <:+: text) : cutSigns text = [text] := by
  have pass : ∀ sign ∈ signs, cutPieces [text] sign = [text] := by
    intro sign listed
    rw [cutPieces, List.flatMap_singleton]
    split
    · rfl
    · next plain =>
        rcases whole with itself | absent
        · exact absurd (List.contains_iff_mem.mpr itself) plain
        · exact cut_out_absent sign text written (absent sign listed)
  have passes : ∀ later : List Text, (∀ sign ∈ later, sign ∈ signs) →
      later.foldl cutPieces [text] = [text] := by
    intro later
    induction later with
    | nil => intro _; rfl
    | cons sign later induction =>
        intro listed
        rw [List.foldl_cons, pass sign (listed sign (by simp))]
        exact induction fun other member => listed other (List.mem_cons_of_mem sign member)
  exact passes signs fun _ member => member

theorem cut_out_clears (sign : Text) (written : sign ≠ []) (skipped : Nat) (text : Text) :
    ∀ piece ∈ cutOut sign skipped text, piece = sign ∨ ¬ sign <:+: piece := by
  induction text generalizing skipped with
  | nil => exact List.forall_mem_nil _
  | cons char rest induction =>
      cases skipped with
      | succ skipped => exact induction skipped
      | zero =>
          rw [cutOut]
          split
          · exact List.forall_mem_cons.mpr ⟨.inl rfl, induction _⟩
          · next elsewhere =>
              -- The sign does not begin here, so one more character in front makes no new one.
              have longer : ∀ piece, piece <+: rest → ¬ sign <:+: piece →
                  ¬ sign <:+: char :: piece := by
                intro piece front absent occurs
                rcases List.infix_cons_iff.mp occurs with begins | later
                · apply elsewhere
                  rw [List.isPrefixOf_iff_prefix]
                  exact begins.trans (List.cons_prefix_cons.mpr ⟨rfl, front⟩)
                · exact absent later
              have alone : ¬ sign <:+: [char] := by
                apply longer [] List.nil_prefix
                intro occurs
                exact written (List.infix_nil.mp occurs)
              have whole := flatten_cut_out sign written 0 rest
              have clear := induction 0
              cases pieces : cutOut sign 0 rest with
              | nil => exact List.forall_mem_singleton.mpr (.inr alone)
              | cons first later =>
                  rw [pieces] at whole clear
                  obtain ⟨here, behind⟩ := List.forall_mem_cons.mp clear
                  rw [prepend]
                  split
                  · exact List.forall_mem_cons.mpr ⟨.inr alone, clear⟩
                  · next different =>
                      have front : first <+: rest := ⟨later.flatten, whole⟩
                      exact List.forall_mem_cons.mpr
                        ⟨.inr (longer first front (here.resolve_left different)), behind⟩

/-- Each pass keeps what the passes before it have cleared. -/
theorem cut_pieces_clears (cleared pieces : List Text) (sign : Text) (listed : sign ∈ signs)
    (clear : ∀ piece ∈ pieces, piece ∈ signs ∨ ∀ other ∈ cleared, ¬ other <:+: piece) :
    ∀ piece ∈ cutPieces pieces sign,
      piece ∈ signs ∨ ∀ other ∈ cleared ++ [sign], ¬ other <:+: piece := by
  have written := sign_nonempty sign listed
  intro piece member
  obtain ⟨whole, contained, part⟩ := List.mem_flatMap.mp member
  split at part
  · next known =>
      rw [List.mem_singleton.mp part]
      exact .inl (List.contains_iff_mem.mp known)
  · next unknown =>
      have earlier := (clear whole contained).resolve_left fun itself =>
        unknown (List.contains_iff_mem.mpr itself)
      have within : piece <:+: whole := by
        have inside := List.infix_of_mem_flatten part
        rwa [flatten_cut_out sign written, List.drop_zero] at inside
      rcases cut_out_clears sign written 0 whole piece part with rfl | absent
      · exact .inl listed
      · refine .inr (List.forall_mem_append.mpr ⟨?_, List.forall_mem_singleton.mpr absent⟩)
        intro other done occurs
        exact earlier other done (occurs.trans within)

/-- Each piece of a text divided at its signs is a sign or holds none. -/
theorem cut_signs_clears (text : Text) :
    ∀ piece ∈ cutSigns text, piece ∈ signs ∨ ∀ sign ∈ signs, ¬ sign <:+: piece := by
  have passes : ∀ (later cleared pieces : List Text), (∀ sign ∈ later, sign ∈ signs) →
      (∀ piece ∈ pieces, piece ∈ signs ∨ ∀ other ∈ cleared, ¬ other <:+: piece) →
        ∀ piece ∈ later.foldl cutPieces pieces,
          piece ∈ signs ∨ ∀ other ∈ cleared ++ later, ¬ other <:+: piece := by
    intro later
    induction later with
    | nil =>
        intro cleared pieces _ clear
        rw [List.append_nil]
        exact clear
    | cons sign later induction =>
        intro cleared pieces listed clear
        obtain ⟨here, behind⟩ := List.forall_mem_cons.mp listed
        have next := induction (cleared ++ [sign]) (cutPieces pieces sign) behind
          (cut_pieces_clears cleared pieces sign here clear)
        rwa [List.append_assoc, List.singleton_append] at next
  exact passes signs [] [text] (fun _ member => member) fun _ _ => .inr (List.forall_mem_nil _)

theorem contains_sign_iff (text : Text) :
    containsSign text = true ↔ ∃ sign ∈ signs, sign <:+: text := by
  simp only [containsSign, List.any_eq_true, Text.occurs_in_iff]

end FilterQuery.Comparator
