import FilterQuery.Text.Lowercase
import Mathlib.Data.List.Basic

/-!
The lowercase of a part of a text. Only a capital sigma looks at its neighbours, and of these only
at the nearest one on each side that is not passed over. So a part keeps its own lowercase unless a
capital sigma misses such a neighbour inside of the part.
-/

set_option autoImplicit false

namespace FilterQuery.Text

/-- Whether a capital sigma between these characters is the end of a word. -/
def endsWord (before after : Text) : Bool := nearestIsCased before && !nearestIsCased after

/-- The lowercase of the characters between `before`, of which the nearest is first, and `after`. -/
def lowerBetween (before : Text) : Text → Text → Text
  | [], _ => []
  | char :: rest, after =>
      (if char = 'Σ' then if endsWord before (rest ++ after) then ['ς'] else ['σ']
      else lowerChar char) ++ lowerBetween (char :: before) rest after

theorem lower_behind_append (before text after : Text) :
    lowerBehind before (text ++ after) =
      lowerBetween before text after ++ lowerBehind (text.reverse ++ before) after := by
  induction text generalizing before with
  | nil => rfl
  | cons char rest induction =>
      rw [List.cons_append, lowerBehind, induction, lowerBetween, List.reverse_cons,
        List.append_assoc, List.append_assoc, List.singleton_append]
      rfl

theorem lower_between_append (before text rest after : Text) :
    lowerBetween before (text ++ rest) after =
      lowerBetween before text (rest ++ after) ++
        lowerBetween (text.reverse ++ before) rest after := by
  induction text generalizing before with
  | nil => rfl
  | cons char text induction =>
      rw [List.cons_append, lowerBetween, induction, lowerBetween, List.reverse_cons,
        List.append_assoc, List.append_assoc, List.append_assoc, List.singleton_append]

theorem lower_append (text after : Text) :
    (text ++ after).lower = lowerBetween [] text after ++ lowerBehind text.reverse after := by
  rw [lower, lower_behind_append, List.append_nil]

theorem lower_behind_eq (before text : Text) :
    lowerBehind before text = lowerBetween before text [] := by
  have whole := lower_behind_append before text []
  rwa [List.append_nil, lowerBehind, List.append_nil] at whole

theorem lower_eq (text : Text) : text.lower = lowerBetween [] text [] := lower_behind_eq [] text

/-- The lowercase depends on what is around the text only through its capital sigmas. -/
theorem lower_between_congr (text before after otherBefore otherAfter : Text)
    (same : ∀ front back, text = front ++ 'Σ' :: back →
      endsWord (front.reverse ++ before) (back ++ after) =
        endsWord (front.reverse ++ otherBefore) (back ++ otherAfter)) :
    lowerBetween before text after = lowerBetween otherBefore text otherAfter := by
  induction text generalizing before otherBefore with
  | nil => rfl
  | cons char rest induction =>
      have later : lowerBetween (char :: before) rest after =
          lowerBetween (char :: otherBefore) rest otherAfter := by
        apply induction
        rintro front back rfl
        have inside := same (char :: front) back rfl
        rwa [List.reverse_cons, List.append_assoc, List.append_assoc, List.singleton_append,
          List.singleton_append] at inside
      rw [lowerBetween, lowerBetween, later]
      by_cases sigma : char = 'Σ'
      · subst sigma
        have here : endsWord before (rest ++ after) = endsWord otherBefore (rest ++ otherAfter) :=
          same [] rest rfl
        rw [here]
      · rw [if_neg sigma, if_neg sigma]

/-- A part keeps its own lowercase inside of a longer text if each capital sigma of it ends a word
there exactly if it does so in the part alone. -/
theorem lower_infix (left text right : Text)
    (same : ∀ front back, text = front ++ 'Σ' :: back →
      endsWord (front.reverse ++ left.reverse) (back ++ right) = endsWord front.reverse back) :
    lower text <:+: lower (left ++ text ++ right) := by
  have kept : lowerBetween left.reverse text right = lower text := by
    rw [lower_eq]
    apply lower_between_congr
    intro front back divided
    rw [same front back divided, List.append_nil, List.append_nil]
  rw [List.append_assoc, lower_append, lower_behind_append, kept, ← List.append_assoc]
  exact ⟨_, _, rfl⟩

def nearest (neighbours : Text) : Option Char := neighbours.find? fun char => !isCaseIgnorable char

theorem nearest_is_cased_eq (neighbours : Text) :
    nearestIsCased neighbours = (nearest neighbours).any isCased := by
  induction neighbours with
  | nil => rfl
  | cons char rest induction =>
      rw [nearestIsCased, nearest, List.dropWhile_cons, List.find?_cons]
      cases isCaseIgnorable char with
      | true => exact induction
      | false => rfl

theorem nearest_is_cased_append_of_none (near far : Text) (absent : nearest near = none) :
    nearestIsCased (near ++ far) = nearestIsCased far := by
  rw [nearest] at absent
  rw [nearest_is_cased_eq, nearest_is_cased_eq, nearest, nearest, List.find?_append, absent,
    Option.none_or]

theorem nearest_is_cased_append_of_some (near far : Text) (present : nearest near ≠ none) :
    nearestIsCased (near ++ far) = nearestIsCased near := by
  obtain ⟨char, found⟩ := Option.ne_none_iff_exists'.mp present
  rw [nearest] at found
  rw [nearest_is_cased_eq, nearest_is_cased_eq, nearest, nearest, List.find?_append, found,
    Option.some_or]

theorem not_nearest_is_cased_of_none (neighbours : Text) (absent : nearest neighbours = none) :
    nearestIsCased neighbours = false := by
  rw [nearest_is_cased_eq, absent]
  rfl

theorem sigma_not_ignorable : isCaseIgnorable 'Σ' = false := by decide +kernel

theorem nearest_of_sigma_mem (neighbours : Text) (member : 'Σ' ∈ neighbours) :
    nearest neighbours ≠ none := by
  rw [nearest, ne_eq, List.find?_eq_none]
  intro absent
  have passed := absent 'Σ' member
  rw [sigma_not_ignorable] at passed
  exact passed rfl

/-- Whether a capital sigma between these characters has the same lowercase in every longer text. -/
def Settled (before after : Text) : Prop :=
  (nearest before ≠ none ∧ (nearest after ≠ none ∨ nearestIsCased before = false)) ∨
    nearestIsCased after = true

theorem ends_word_append (before after more others : Text) (settled : Settled before after) :
    endsWord (before ++ more) (after ++ others) = endsWord before after := by
  rcases settled with ⟨behind, ahead | uncased⟩ | cased
  · rw [endsWord, endsWord, nearest_is_cased_append_of_some before more behind,
      nearest_is_cased_append_of_some after others ahead]
  · rw [endsWord, endsWord, nearest_is_cased_append_of_some before more behind, uncased,
      Bool.false_and, Bool.false_and]
  · have ahead : nearest after ≠ none := by
      intro absent
      rw [not_nearest_is_cased_of_none after absent] at cased
      cases cased
    rw [endsWord, endsWord, nearest_is_cased_append_of_some after others ahead, cased,
      Bool.not_true, Bool.and_false, Bool.and_false]

theorem cases_of_not_settled (before after : Text) (unsettled : ¬ Settled before after) :
    (nearest before = none ∧ nearestIsCased after = false) ∨
      (nearestIsCased before = true ∧ nearest after = none) := by
  rw [Settled, not_or, not_and_or, not_not, not_or, not_not] at unsettled
  obtain ⟨absent | ⟨absent, cased⟩, uncased⟩ := unsettled
  · exact Or.inl ⟨absent, Bool.eq_false_iff.mpr uncased⟩
  · exact Or.inr ⟨eq_true_of_ne_false cased, absent⟩

/-- Whether every capital sigma has the same lowercase in every longer text. -/
def SigmasSettled (text : Text) : Prop :=
  ∀ front back, text = front ++ 'Σ' :: back → Settled front.reverse back

/-- Whether a capital sigma ends a word and could be followed by more of that word. -/
def EndsInFinalSigma (text : Text) : Prop :=
  ∃ front back, text = front ++ 'Σ' :: back ∧ nearestIsCased front.reverse = true ∧
    nearest back = none

theorem settled_without_sigma (text : Text) (plain : 'Σ' ∉ text) :
    SigmasSettled text ∧ ¬ EndsInFinalSigma text := by
  have undivided : ∀ front back, text ≠ front ++ 'Σ' :: back := by
    rintro front back rfl
    exact plain (List.mem_append_right front List.mem_cons_self)
  exact ⟨fun front back divided => absurd divided (undivided front back),
    fun ⟨front, back, divided, _⟩ => undivided front back divided⟩

theorem lower_around_sigma (before front back after : Text) :
    lowerBetween before (front ++ 'Σ' :: back) after =
      lowerBetween before front ('Σ' :: back ++ after) ++
        ((if endsWord (front.reverse ++ before) (back ++ after) then 'ς' else 'σ') ::
          lowerBetween ('Σ' :: (front.reverse ++ before)) back after) := by
  rw [lower_between_append, lowerBetween, if_pos rfl]
  split <;> rfl

theorem lower_before_sigma (before text after more : Text) (sigma : 'Σ' ∈ after) :
    lowerBetween before text (after ++ more) = lowerBetween before text after := by
  apply lower_between_congr
  intro front back _
  have present := nearest_of_sigma_mem (back ++ after) (List.mem_append_right back sigma)
  rw [endsWord, endsWord, ← List.append_assoc,
    nearest_is_cased_append_of_some (back ++ after) more present]

theorem lower_after_sigma (before text after more : Text) (sigma : 'Σ' ∈ before) :
    lowerBetween (before ++ more) text after = lowerBetween before text after := by
  apply lower_between_congr
  intro front back _
  have present := nearest_of_sigma_mem (front.reverse ++ before)
    (List.mem_append_right front.reverse sigma)
  rw [endsWord, endsWord, ← List.append_assoc,
    nearest_is_cased_append_of_some (front.reverse ++ before) more present]

theorem lower_without_sigma (before text after otherBefore otherAfter : Text)
    (absent : 'Σ' ∉ text) :
    lowerBetween before text after = lowerBetween otherBefore text otherAfter := by
  apply lower_between_congr
  rintro front back rfl
  exact absurd (List.mem_append_right front List.mem_cons_self) absent

/-- If a capital sigma ends a word in one place and not in another, and all else is the same, one
place has more of each small sigma than the other. -/
theorem count_sigmas (front back before after otherBefore otherAfter : Text)
    (final : endsWord (front.reverse ++ before) (back ++ after) = true)
    (inner : endsWord (front.reverse ++ otherBefore) (back ++ otherAfter) = false)
    (fronts : lowerBetween before front ('Σ' :: back ++ after) =
      lowerBetween otherBefore front ('Σ' :: back ++ otherAfter))
    (backs : lowerBetween ('Σ' :: (front.reverse ++ before)) back after =
      lowerBetween ('Σ' :: (front.reverse ++ otherBefore)) back otherAfter) :
    (lowerBetween before (front ++ 'Σ' :: back) after).count 'σ' <
        (lowerBetween otherBefore (front ++ 'Σ' :: back) otherAfter).count 'σ' ∧
      (lowerBetween otherBefore (front ++ 'Σ' :: back) otherAfter).count 'ς' <
        (lowerBetween before (front ++ 'Σ' :: back) after).count 'ς' := by
  rw [lower_around_sigma, lower_around_sigma, if_pos final, inner, fronts, backs]
  simp only [List.count_append, List.count_cons]
  constructor <;> simp

theorem letter_is_cased : nearestIsCased ['A'] = true := by decide +kernel

theorem lower_letter (before after : Text) : lowerBetween before ['A'] after = ['a'] := by
  have small : lowerChar 'A' = ['a'] := by decide +kernel
  rw [lowerBetween, if_neg (by decide), small]
  rfl

theorem lower_behind_letter (front back : Text) (absent : nearest front.reverse = none)
    (uncased : nearestIsCased back = false) :
    ¬ lower (front ++ 'Σ' :: back) <:+: lower (['A'] ++ (front ++ 'Σ' :: back)) := by
  have plain : 'Σ' ∉ front := fun member =>
    nearest_of_sigma_mem front.reverse (List.mem_reverse.mpr member) absent
  have fewer := (count_sigmas front back ['A'] [] [] []
    (by rw [endsWord, nearest_is_cased_append_of_none _ _ absent, letter_is_cased,
      List.append_nil, uncased, Bool.not_false, Bool.and_true])
    (by rw [endsWord, List.append_nil, not_nearest_is_cased_of_none _ absent, Bool.false_and])
    (lower_without_sigma _ front _ _ _ plain)
    (by rw [List.append_nil]; exact lower_after_sigma _ back [] ['A'] List.mem_cons_self)).1
  intro part
  have bound := part.sublist.count_le 'σ'
  rw [lower_append ['A'], lower_letter, lower_behind_eq, lower_eq, List.count_append,
    List.reverse_singleton, List.count_singleton, if_neg (by decide), Nat.zero_add] at bound
  exact Nat.not_le_of_lt fewer bound

theorem lower_in_front_of_letter (front back : Text)
    (cased : nearestIsCased front.reverse = true) (absent : nearest back = none) :
    ¬ lower (front ++ 'Σ' :: back) <:+: lower (front ++ 'Σ' :: back ++ ['A']) := by
  have plain : 'Σ' ∉ back := fun member => nearest_of_sigma_mem back member absent
  have fewer := (count_sigmas front back [] [] [] ['A']
    (by rw [endsWord, List.append_nil, List.append_nil, cased,
      not_nearest_is_cased_of_none back absent]; rfl)
    (by rw [endsWord, nearest_is_cased_append_of_none _ _ absent, letter_is_cased, Bool.not_true,
      Bool.and_false])
    (by rw [List.append_nil, lower_before_sigma _ front _ ['A'] List.mem_cons_self])
    (lower_without_sigma _ back _ _ _ plain)).2
  intro part
  have bound := part.sublist.count_le 'ς'
  rw [lower_append _ ['A'], lower_behind_eq, lower_letter, lower_eq, List.count_append,
    List.count_singleton, if_neg (by decide), Nat.add_zero] at bound
  exact Nat.not_le_of_lt fewer bound

/-- Lowercase commutes with taking this part of any text exactly if its capital sigmas are
settled. -/
theorem lower_infix_iff (text : Text) :
    (∀ whole, text <:+: whole → lower text <:+: lower whole) ↔ SigmasSettled text := by
  constructor
  · rintro kept front back rfl
    by_contra unsettled
    rcases cases_of_not_settled front.reverse back unsettled with
      ⟨absent, uncased⟩ | ⟨cased, absent⟩
    · exact lower_behind_letter front back absent uncased
        (kept _ (List.suffix_append ['A'] _).isInfix)
    · exact lower_in_front_of_letter front back cased absent
        (kept _ (List.prefix_append _ ['A']).isInfix)
  · rintro settled whole ⟨left, right, rfl⟩
    apply lower_infix
    intro front back divided
    exact ends_word_append front.reverse back left.reverse right (settled front back divided)

/-- Lowercase commutes with typing on exactly if the text does not end in a final sigma. -/
theorem lower_infix_append_iff (text : Text) :
    (∀ more, lower text <:+: lower (text ++ more)) ↔ ¬ EndsInFinalSigma text := by
  constructor
  · rintro kept ⟨front, back, rfl, cased, absent⟩
    exact lower_in_front_of_letter front back cased absent (kept ['A'])
  · intro inner more
    apply lower_infix [] text more
    intro front back divided
    rw [List.reverse_nil, List.append_nil, endsWord, endsWord]
    cases cased : nearestIsCased front.reverse with
    | false => rw [Bool.false_and, Bool.false_and]
    | true =>
        have ahead : nearest back ≠ none := fun absent =>
          inner ⟨front, back, divided, cased, absent⟩
        rw [nearest_is_cased_append_of_some back more ahead]

end FilterQuery.Text
