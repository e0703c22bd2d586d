import FilterQuery.Proofs.Backslash
import FilterQuery.Proofs.Division
import FilterQuery.Proofs.Separation

/-!
Writing the words of an input again. In an input without quotes and backslashes every word is read
as itself between any blanks, so that the words stay the same when only the blanks between them
change.
-/

set_option autoImplicit false

namespace FilterQuery.Word

/-- Texts one after another with at least one blank between neighbours. -/
inductive Respaced : List Text → Text → Prop
  | nil : Respaced [] []
  | last (text : Text) : Respaced [text] text
  | cons (text blanks : Text) (rest : List Text) (written : Text) : rest ≠ [] → blanks ≠ [] →
      (∀ char ∈ blanks, isBlank char = true) → Respaced rest written →
        Respaced (text :: rest) (text ++ (blanks ++ written))

/-- A text without quotes and backslashes. -/
def Unquoted (text : Text) : Prop := '"' ∉ text ∧ '\\' ∉ text

/-- A word that is read wherever its text stands alone. -/
structure Settled (word : Word) : Prop where
  unquoted : Unquoted word.text
  alone : scan word.text none = [word]

theorem behind_unquoted (text : Text) (unquoted : Unquoted text) :
    Mode.start.behind text = .start := by
  obtain ⟨quote, backslash⟩ := unquoted
  induction text with
  | nil => rfl
  | cons char rest induction =>
      rw [List.mem_cons, not_or] at quote backslash
      have stays : Mode.start.after char = .start := by
        simp [Mode.after, Mode.start, Ne.symm quote.1, Ne.symm backslash.1]
      change (Mode.start.after char).behind rest = .start
      rw [stays]
      exact induction quote.2 backslash.2

theorem scan_behind_blanks (blanks rest : Text) (blank : ∀ char ∈ blanks, isBlank char = true) :
    scan (blanks ++ rest) none = scan rest none := by
  induction blanks with
  | nil => rfl
  | cons char blanks induction =>
      obtain ⟨here, later⟩ := List.forall_mem_cons.mp blank
      have divided := scan_divided none [] (blanks ++ rest) char [] (.blank here) rfl
      exact divided.trans (induction later)

theorem scan_around_blanks (front blanks back : Text) (unquoted : Unquoted front)
    (written : blanks ≠ []) (blank : ∀ char ∈ blanks, isBlank char = true) :
    scan (front ++ (blanks ++ back)) none = scan front none ++ scan back none := by
  obtain ⟨char, more, rfl⟩ := List.exists_cons_of_ne_nil written
  obtain ⟨here, later⟩ := List.forall_mem_cons.mp blank
  have divided := scan_divided none front (more ++ back) char [] (.blank here)
    (behind_unquoted front unquoted)
  rw [List.cons_append, divided, ← scan_behind_blanks more back later]
  rfl

theorem scan_respaced (words : List Word) (settled : ∀ word ∈ words, word.Settled)
    (written : Text) (respaced : Respaced (words.map text) written) :
    scan written none = words := by
  generalize same : words.map text = texts at respaced
  induction respaced generalizing words with
  | nil =>
      rw [List.map_eq_nil_iff.mp same]
      rfl
  | last text =>
      obtain ⟨word, rfl, rfl⟩ := List.map_eq_singleton_iff.mp same
      exact (settled word (List.mem_singleton_self word)).alone
  | cons text blanks texts behind _ nonempty blank _ induction =>
      obtain ⟨word, rest, rfl, rfl, rfl⟩ := List.map_eq_cons_iff.mp same
      obtain ⟨here, later⟩ := List.forall_mem_cons.mp settled
      rw [scan_around_blanks word.text blanks behind here.unquoted nonempty blank, here.alone,
        induction rest later rfl]
      rfl

theorem scan_ordinary (text : Text) (ordinary : ∀ char ∈ text, isOrdinary char = true) :
    scan text none = (Comparator.cutSigns text).map plain := by
  have kept := readings_ordinary (markCursor none text) [] (by
    intro marked member
    apply ordinary
    rw [← text_mark_cursor none text]
    exact List.mem_map_of_mem member)
  rw [List.append_nil] at kept
  change wordsOf (readings .start (markCursor none text)) = _
  rw [kept]
  change wordsOf (keep (markCursor none text) ++ .boundary false :: []) = _
  rw [words_of_keep, Span.words_without_cursor]
  exact List.append_nil _

theorem unquoted_ordinary (text : Text) (ordinary : ∀ char ∈ text, isOrdinary char = true) :
    Unquoted text :=
  ⟨fun member => absurd (ordinary _ member) (by decide),
    fun member => absurd (ordinary _ member) (by decide)⟩

theorem settled_ordinary (text : Text) (ordinary : ∀ char ∈ text, isOrdinary char = true) :
    ∀ word ∈ scan text none, word.Settled := by
  rw [scan_ordinary text ordinary, List.forall_mem_map]
  intro piece member
  have inside : ∀ char ∈ piece, isOrdinary char = true := by
    have part := List.infix_of_mem_flatten member
    rw [Comparator.flatten_cut_signs] at part
    exact fun char here => ordinary char (part.subset here)
  refine ⟨unquoted_ordinary piece inside, ?_⟩
  change scan piece none = _
  rw [scan_ordinary piece inside, Comparator.cut_signs_of_piece text piece member]
  rfl

theorem settled_punctuation (char : Char) (punctuation : isPunctuation char = true) :
    (plain [char]).Settled := by
  rcases punctuation_cases char punctuation with rfl | rfl | rfl <;>
    exact ⟨⟨by decide, by decide⟩, rfl⟩

theorem separates_of_not_ordinary (char : Char) (special : isOrdinary char ≠ true)
    (quote : '"' ≠ char) (backslash : '\\' ≠ char) :
    ∃ between, Separates char between ∧ ∀ word ∈ between, word.Settled := by
  by_cases blank : isBlank char = true
  · exact ⟨[], .blank blank, List.forall_mem_nil _⟩
  · have punctuation : isPunctuation char = true := by
      by_contra absent
      exact special (by simp [isOrdinary, Ne.symm quote, Ne.symm backslash, blank, absent])
    exact ⟨[plain [char]], .punctuation punctuation,
      List.forall_mem_singleton.mpr (settled_punctuation char punctuation)⟩

theorem settled_scan (front rest : Text) (ordinary : ∀ char ∈ front, isOrdinary char = true)
    (unquoted : Unquoted rest) : ∀ word ∈ scan (front ++ rest) none, word.Settled := by
  -- An ordinary character joins the part in front, and a separator ends that part.
  induction rest generalizing front with
  | nil =>
      rw [List.append_nil]
      exact settled_ordinary front ordinary
  | cons char rest induction =>
      obtain ⟨quote, backslash⟩ := unquoted
      rw [List.mem_cons, not_or] at quote backslash
      have behind : Unquoted rest := ⟨quote.2, backslash.2⟩
      by_cases here : isOrdinary char = true
      · have longer := induction (front ++ [char])
          (List.forall_mem_append.mpr ⟨ordinary, List.forall_mem_singleton.mpr here⟩) behind
        rwa [List.append_assoc] at longer
      · obtain ⟨between, separates, inside⟩ :=
          separates_of_not_ordinary char here quote.1 backslash.1
        have outside := behind_unquoted front (unquoted_ordinary front ordinary)
        rw [scan_divided none front rest char between separates outside, List.forall_mem_append,
          List.forall_mem_append]
        exact ⟨settled_ordinary front ordinary, inside,
          induction [] (List.forall_mem_nil _) behind⟩

/-- The words of an input without quotes and backslashes are read again from their texts, whatever
blanks are written between these. -/
theorem rescan_words (input written : Text) (quote : '"' ∉ input) (backslash : '\\' ∉ input)
    (respaced : Respaced ((scan input none).map text) written) :
    scan written none = scan input none :=
  scan_respaced _ (settled_scan [] input (List.forall_mem_nil _) ⟨quote, backslash⟩) written
    respaced

/-- Written apart `!` and `=` stay two words, and written together they stay one. -/
theorem rescan_words_near_signs :
    '"' ∉ "a! =b!=(".toList ∧ '\\' ∉ "a! =b!=(".toList ∧
      Respaced ((scan "a! =b!=(".toList none).map text) "a!\t=  b != \r\n(".toList ∧
      scan "a!\t=  b != \r\n(".toList none = scan "a! =b!=(".toList none ∧
      scan "a! =b!=(".toList none =
        [plain "a!".toList, plain "=".toList, plain "b".toList, plain "!=".toList,
          plain ['(']] := by
  have words : scan "a! =b!=(".toList none =
    [plain "a!".toList, plain "=".toList, plain "b".toList, plain "!=".toList, plain ['(']] := by
      decide
  have respaced : Respaced ((scan "a! =b!=(".toList none).map text)
      "a!\t=  b != \r\n(".toList := by
    rw [words]
    exact .cons _ "\t".toList _ _ (by decide) (by decide) (List.all_eq_true.mp rfl)
      (.cons _ "  ".toList _ _ (by decide) (by decide) (List.all_eq_true.mp rfl)
        (.cons _ " ".toList _ _ (by decide) (by decide) (List.all_eq_true.mp rfl)
          (.cons _ " \r\n".toList _ _ (by decide) (by decide) (List.all_eq_true.mp rfl) (.last _))))
  have quote : '"' ∉ "a! =b!=(".toList := by decide
  have backslash : '\\' ∉ "a! =b!=(".toList := by decide
  exact ⟨quote, backslash, respaced, rescan_words _ _ quote backslash respaced, words⟩

end FilterQuery.Word
