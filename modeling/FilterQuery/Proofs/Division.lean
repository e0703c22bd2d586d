import FilterQuery.Proofs.Comparator

/-!
The signs are cut out of a text one after another. The pieces are those of a single scan from left
to right that takes a sign wherever one begins, because a text can be divided in only one way so
that no sign is left inside a piece or across the border of two.
-/

set_option autoImplicit false

namespace FilterQuery.Comparator

/-- The sign at the beginning of a text. A sign of two characters goes before one of one. -/
def leading : Text → Option Text
  | '<' :: '=' :: _ => some "<=".toList
  | '!' :: '=' :: _ => some "!=".toList
  | '>' :: '=' :: _ => some ">=".toList
  | '=' :: _ => some "=".toList
  | '>' :: _ => some ">".toList
  | '<' :: _ => some "<".toList
  | _ => none

def pending (plain : Text) : List Text := if plain = [] then [] else [plain]

/-- Divides a text in one scan, after passing over the first `skipped` characters. Where a sign
begins it is taken, and every other character extends the current piece. -/
def munch : (skipped : Nat) → (plain : Text) → Text → List Text
  | _, plain, [] => pending plain
  | skipped + 1, plain, _ :: rest => munch skipped plain rest
  | 0, plain, char :: rest =>
      match leading (char :: rest) with
      | some sign => pending plain ++ sign :: munch (sign.length - 1) [] rest
      | none => munch 0 (plain ++ [char]) rest

/-- A sign that goes on behind the border of two pieces is a character and `=`. -/
def Joins (piece next : Text) : Prop :=
  ∃ char, piece.getLast? = some char ∧ next.head? = some '=' ∧ [char, '='] ∈ signs

/-- One of two neighbours is a sign, and no sign stands across their border. -/
structure Apart (piece next : Text) : Prop where
  beside : piece ∈ signs ∨ next ∈ signs
  border : ¬ Joins piece next

/-- A text divided at its signs. -/
structure Divided (text : Text) (pieces : List Text) : Prop where
  whole : pieces.flatten = text
  written : ∀ piece ∈ pieces, piece ≠ []
  clear : ∀ piece ∈ pieces, piece ∈ signs ∨ ∀ sign ∈ signs, ¬ sign <:+: piece
  apart : pieces.IsChain Apart

theorem signs_ordered : signs.Pairwise fun earlier later => ¬ earlier <:+: later := by
  simp [signs, List.infix_cons_iff]

theorem sign_eq_of_last :
    ∀ sign ∈ signs, ∀ char ∈ sign.getLast?, [char, '='] ∈ signs → sign = [char] := by
  simp [signs]

theorem sign_eq_of_head : ∀ sign ∈ signs, sign.head? = some '=' → sign = ['='] := by
  simp [signs]

theorem sign_parts (front back : Text) (listed : front ++ back ∈ signs) (written : front ≠ [])
    (goesOn : back ≠ []) : ∃ char, front = [char] ∧ back = ['='] := by
  obtain ⟨char, others, rfl⟩ := List.exists_cons_of_ne_nil written
  obtain ⟨next, more, rfl⟩ := List.exists_cons_of_ne_nil goesOn
  cases others with
  | nil =>
      have last : next = '=' ∧ more = [] := by
        simp [signs] at listed
        tauto
      exact ⟨char, rfl, by rw [last.1, last.2]⟩
  | cons second others => simp [signs] at listed

theorem prefix_of_leading (text sign : Text) (begins : leading text = some sign) :
    sign ∈ signs ∧ sign <+: text := by
  rw [leading.eq_def] at begins
  split at begins
  case h_7 => cases begins
  all_goals
    obtain rfl := Option.some.inj begins
    exact ⟨by decide, _, rfl⟩

theorem leading_sign (sign rest : Text) (listed : sign ∈ signs) (border : ¬ Joins sign rest) :
    leading (sign ++ rest) = some sign := by
  simp only [signs, List.mem_cons, List.not_mem_nil, or_false] at listed
  rcases listed with rfl | rfl | rfl | rfl | single
  any_goals rfl
  -- Only `>` and `<` are also the beginning of another sign.
  cases rest with
  | nil => rcases single with rfl | rfl <;> rfl
  | cons char more =>
      have different : char ≠ '=' := by
        rintro rfl
        rcases single with rfl | rfl <;> exact border ⟨_, rfl, rfl, by decide⟩
      rcases single with rfl | rfl <;> simp [leading, different]

theorem munch_skipped (skipped : Nat) (plain text : Text) :
    munch skipped plain text = munch 0 plain (text.drop skipped) := by
  induction text generalizing skipped with
  | nil => cases skipped <;> rfl
  | cons char rest induction =>
      cases skipped with
      | zero => rfl
      | succ skipped => exact induction skipped

theorem munch_sign (sign rest : Text) (begins : leading (sign ++ rest) = some sign)
    (written : sign ≠ []) : munch 0 [] (sign ++ rest) = sign :: munch 0 [] rest := by
  obtain ⟨char, others, rfl⟩ := List.exists_cons_of_ne_nil written
  rw [List.cons_append] at begins ⊢
  rw [munch, begins]
  simp [munch_skipped _ [], pending]

theorem munch_plain (plain piece rest : Text)
    (absent : ∀ front back, piece = front ++ back → back ≠ [] → leading (back ++ rest) = none) :
    munch 0 plain (piece ++ rest) = munch 0 (plain ++ piece) rest := by
  induction piece generalizing plain with
  | nil => rw [List.nil_append, List.append_nil]
  | cons char piece induction =>
      have here := absent [] (char :: piece) rfl (List.cons_ne_nil _ _)
      rw [List.cons_append] at here ⊢
      rw [munch, here]
      have later := induction (plain ++ [char]) fun front back whole =>
        absent (char :: front) back (congrArg (List.cons char) whole)
      rw [List.append_assoc] at later
      exact later

theorem leading_in_piece (front back rest : Text) (written : back ≠ [])
    (clear : ∀ sign ∈ signs, ¬ sign <:+: front ++ back)
    (border : ¬ Joins (front ++ back) rest) : leading (back ++ rest) = none := by
  rw [Option.eq_none_iff_forall_ne_some]
  intro sign begins
  obtain ⟨listed, behind, whole⟩ := prefix_of_leading _ sign begins
  have inside : ¬ sign <+: back := fun part =>
    clear sign listed (part.isInfix.trans (List.suffix_append front back).isInfix)
  rcases List.append_eq_append_iff.mp whole with ⟨more, rfl, _⟩ | ⟨more, rfl, rfl⟩
  · exact inside (List.prefix_append sign more)
  · have goesOn : more ≠ [] := by
      rintro rfl
      exact inside (by rw [List.append_nil])
    obtain ⟨char, rfl, rfl⟩ := sign_parts back more listed written goesOn
    exact border ⟨char, List.getLast?_concat, rfl, listed⟩

theorem munch_before_sign (plain text sign : Text) (begins : leading text = some sign) :
    munch 0 plain text = pending plain ++ munch 0 [] text := by
  cases text with
  | nil => cases begins
  | cons char rest =>
      rw [munch, munch, begins]
      rfl

theorem border_flatten (piece : Text) (rest : List Text) (written : ∀ next ∈ rest, next ≠ [])
    (apart : (piece :: rest).IsChain Apart) : ¬ Joins piece rest.flatten := by
  rintro ⟨char, last, first, longer⟩
  cases rest with
  | nil => cases first
  | cons next rest =>
      rw [List.flatten_cons, List.head?_append_of_ne_nil next (written next (by simp))] at first
      exact (List.isChain_cons_cons.mp apart).1.border ⟨char, last, first, longer⟩

/-- A text is divided in only one way. -/
theorem munch_of_divided (text : Text) (pieces : List Text) (divided : Divided text pieces) :
    munch 0 [] text = pieces := by
  obtain ⟨rfl, written, clear, apart⟩ := divided
  induction pieces with
  | nil => rfl
  | cons piece rest induction =>
      obtain ⟨here, writtenRest⟩ := List.forall_mem_cons.mp written
      obtain ⟨clearHere, clearRest⟩ := List.forall_mem_cons.mp clear
      have border := border_flatten piece rest writtenRest apart
      have later := induction writtenRest clearRest apart.tail
      rw [List.flatten_cons]
      by_cases listed : piece ∈ signs
      · rw [munch_sign piece _ (leading_sign piece _ listed border) here, later]
      · have plain := clearHere.resolve_left listed
        have read := munch_plain [] piece rest.flatten fun front back whole goesOn =>
          leading_in_piece front back _ goesOn (whole ▸ plain) (whole ▸ border)
        rw [read, List.nil_append]
        -- The piece is read to its end, and there the next one begins, which is a sign.
        cases rest with
        | nil => exact if_neg here
        | cons next rest =>
            have sign := (List.isChain_cons_cons.mp apart).1.beside.resolve_left listed
            have begins : leading (next :: rest).flatten = some next :=
              leading_sign next _ sign (border_flatten next rest
                (fun other member => writtenRest other (List.mem_cons_of_mem next member))
                  apart.tail)
            rw [munch_before_sign piece _ next begins, later, pending, if_neg here]
            rfl

theorem cut_out_beside (sign : Text) (skipped : Nat) (text : Text) :
    (cutOut sign skipped text).IsChain fun piece next => piece = sign ∨ next = sign := by
  induction text generalizing skipped with
  | nil => cases skipped <;> exact .nil
  | cons char rest induction =>
      cases skipped with
      | succ skipped => exact induction skipped
      | zero =>
          rw [cutOut]
          split
          · exact (induction _).cons fun _ _ => .inl rfl
          · have behind := induction 0
            -- The character goes to the piece behind it, unless that piece is the sign.
            generalize cutOut sign 0 rest = pieces at behind
            cases pieces with
            | nil => exact .singleton [char]
            | cons first more =>
                rw [prepend]
                split
                · next same => exact behind.cons_cons (.inr same)
                · next different =>
                    exact behind.imp_head fun beside => .inr (beside.resolve_left different)

theorem not_joins_of_beside (sign piece next text : Text) (listed : sign ∈ signs)
    (shielded : ∀ longer ∈ signs, longer ≠ sign → sign <:+: longer → ¬ longer <:+: text)
    (beside : piece = sign ∨ next = sign) (part : piece ++ next <:+: text) :
    ¬ Joins piece next := by
  rintro ⟨char, last, first, longer⟩
  obtain ⟨front, rfl⟩ := List.getLast?_eq_some_iff.mp last
  obtain ⟨more, rfl⟩ := List.head?_eq_some_iff.mp first
  have whole : [char, '='] <:+: text := by
    refine List.IsInfix.trans ⟨front, more, ?_⟩ part
    simp
  have held : sign = [char] ∨ sign = ['='] := by
    rcases beside with rfl | rfl
    · exact .inl (sign_eq_of_last _ listed char last longer)
    · exact .inr (sign_eq_of_head _ listed first)
  rcases held with rfl | rfl
  · exact shielded _ longer (by simp) ⟨[], ['='], rfl⟩ whole
  · exact shielded _ longer (by simp) ⟨[char], [], rfl⟩ whole

theorem cut_out_apart (sign text : Text) (listed : sign ∈ signs)
    (shielded : ∀ longer ∈ signs, longer ≠ sign → sign <:+: longer → ¬ longer <:+: text) :
    (cutOut sign 0 text).IsChain Apart := by
  have whole : (cutOut sign 0 text).flatten <:+: text := by
    rw [flatten_cut_out sign (sign_nonempty sign listed)]
    exact List.infix_refl text
  have beside := cut_out_beside sign 0 text
  generalize cutOut sign 0 text = pieces at whole beside
  induction pieces with
  | nil => exact .nil
  | cons piece rest induction =>
      rw [List.flatten_cons] at whole
      have later := induction
        (List.IsInfix.trans (List.suffix_append piece rest.flatten).isInfix whole) beside.tail
      cases rest with
      | nil => exact .singleton piece
      | cons next rest =>
          have here := (List.isChain_cons_cons.mp beside).1
          refine later.cons_cons ⟨here.imp ?_ ?_, not_joins_of_beside sign piece next text listed
            shielded here (List.IsInfix.trans ⟨[], rest.flatten, by simp⟩ whole)⟩
          · rintro rfl
            exact listed
          · rintro rfl
            exact listed

def cutPiece (sign piece : Text) : List Text :=
  if signs.contains piece then [piece] else cutOut sign 0 piece

theorem cut_pieces_eq (pieces : List Text) (sign : Text) :
    cutPieces pieces sign = (pieces.map (cutPiece sign)).flatten := rfl

section OnePiece

variable (sign piece : Text) (listed : sign ∈ signs)

theorem cut_piece_of_sign (whole : piece ∈ signs) : cutPiece sign piece = [piece] :=
  if_pos (List.contains_iff_mem.mpr whole)

theorem cut_piece_of_plain (plain : piece ∉ signs) : cutPiece sign piece = cutOut sign 0 piece :=
  if_neg fun whole => plain (List.contains_iff_mem.mp whole)

include listed

theorem flatten_cut_piece : (cutPiece sign piece).flatten = piece := by
  have whole := flatten_cut_pieces [piece] sign (sign_nonempty sign listed)
  rwa [cut_pieces_eq, List.map_singleton, List.flatten_singleton, List.flatten_singleton] at whole

theorem cut_piece_nonempty : ∀ part ∈ cutPiece sign piece, part ≠ [] := by
  by_cases whole : piece ∈ signs
  · rw [cut_piece_of_sign sign piece whole]
    exact List.forall_mem_singleton.mpr (sign_nonempty piece whole)
  · rw [cut_piece_of_plain sign piece whole]
    exact cut_out_pieces_nonempty sign (sign_nonempty sign listed) 0 piece

theorem first_of_cut_piece (first : Text) (begins : first ∈ (cutPiece sign piece).head?) :
    first.head? = piece.head? ∧ (piece ∈ signs → first ∈ signs) := by
  constructor
  · obtain ⟨more, parts⟩ := List.head?_eq_some_iff.mp begins
    have whole := flatten_cut_piece sign piece listed
    have written := cut_piece_nonempty sign piece listed first (by simp [parts])
    rw [← whole, parts, List.flatten_cons, List.head?_append_of_ne_nil first written]
  · intro whole
    rw [cut_piece_of_sign sign piece whole] at begins
    exact Option.some.inj begins ▸ whole

theorem last_of_cut_piece (last : Text) (ends : last ∈ (cutPiece sign piece).getLast?) :
    last.getLast? = piece.getLast? ∧ (piece ∈ signs → last ∈ signs) := by
  constructor
  · obtain ⟨front, parts⟩ := List.getLast?_eq_some_iff.mp ends
    have whole := flatten_cut_piece sign piece listed
    have written := cut_piece_nonempty sign piece listed last (by simp [parts])
    rw [← whole, parts, List.flatten_append, List.flatten_singleton,
      List.getLast?_append_of_ne_nil _ written]
  · intro whole
    rw [cut_piece_of_sign sign piece whole] at ends
    exact Option.some.inj ends ▸ whole

end OnePiece

theorem cut_pieces_apart (sign : Text) (listed : sign ∈ signs) (pieces : List Text)
    (written : ∀ piece ∈ pieces, piece ≠ [])
    (shielded : ∀ piece ∈ pieces, piece ∉ signs →
      ∀ longer ∈ signs, longer ≠ sign → sign <:+: longer → ¬ longer <:+: piece)
    (apart : pieces.IsChain Apart) : (cutPieces pieces sign).IsChain Apart := by
  rw [cut_pieces_eq, List.isChain_flatten, List.forall_mem_map, List.isChain_map]
  · constructor
    · intro piece member
      by_cases whole : piece ∈ signs
      · rw [cut_piece_of_sign sign piece whole]
        exact .singleton piece
      · rw [cut_piece_of_plain sign piece whole]
        exact cut_out_apart sign piece listed (shielded piece member whole)
    · refine apart.imp fun piece next between last ends first begins => ?_
      obtain ⟨sameEnd, endSign⟩ := last_of_cut_piece sign piece listed last ends
      obtain ⟨sameStart, startSign⟩ := first_of_cut_piece sign next listed first begins
      refine ⟨between.beside.imp endSign startSign, ?_⟩
      rw [Joins, sameEnd, sameStart]
      exact between.border
  · intro empty
    obtain ⟨piece, member, nothing⟩ := List.mem_map.mp empty
    have whole := flatten_cut_piece sign piece listed
    rw [nothing] at whole
    exact written piece member whole.symm

/-- A longer sign that holds the one being cut out was cut out before. -/
theorem mem_cleared (cleared later : List Text) (sign longer : Text)
    (order : signs = cleared ++ sign :: later) (listed : longer ∈ signs) (different : longer ≠ sign)
    (held : sign <:+: longer) : longer ∈ cleared := by
  have ordered := signs_ordered
  rw [order, List.pairwise_append, List.pairwise_cons] at ordered
  rw [order, List.mem_append, List.mem_cons] at listed
  rcases listed with before | same | after
  · exact before
  · exact absurd same different
  · exact absurd held (ordered.2.1.1 longer after)

/-- Each pass keeps apart what the passes before it have divided. -/
theorem passes_apart (later cleared pieces : List Text) (order : signs = cleared ++ later)
    (written : ∀ piece ∈ pieces, piece ≠ [])
    (clear : ∀ piece ∈ pieces, piece ∈ signs ∨ ∀ other ∈ cleared, ¬ other <:+: piece)
    (apart : pieces.IsChain Apart) :
    (later.foldl cutPieces pieces).IsChain Apart := by
  -- By induction on the signs that are still to be cut out, with those before them as `cleared`.
  induction later generalizing cleared pieces with
  | nil => exact apart
  | cons sign later induction =>
      have listed : sign ∈ signs := by simp [order]
      apply induction (cleared ++ [sign])
      · rw [order, List.append_assoc, List.singleton_append]
      · exact cut_pieces_nonempty pieces sign listed written
      · exact cut_pieces_clears cleared pieces sign listed clear
      · refine cut_pieces_apart sign listed pieces written ?_ apart
        intro piece member plain longer known different held
        exact (clear piece member).resolve_left plain longer
          (mem_cleared cleared later sign longer order known different held)

theorem divided_cut_signs (text : Text) : Divided text (cutSigns text) := by
  by_cases written : text = []
  · subst written
    exact ⟨rfl, List.forall_mem_nil _, List.forall_mem_nil _, .nil⟩
  · have apart := passes_apart signs [] [text] rfl (List.forall_mem_singleton.mpr written)
      (fun _ _ => .inr (List.forall_mem_nil _)) (.singleton text)
    exact ⟨flatten_cut_signs text, cut_signs_nonempty text written, cut_signs_clears text, apart⟩

theorem contains_sign_iff_piece (text : Text) :
    containsSign text = true ↔ ∃ piece ∈ cutSigns text, piece ∈ signs := by
  obtain ⟨whole, _, clear, apart⟩ := divided_cut_signs text
  rw [contains_sign_iff]
  constructor
  · rintro ⟨sign, listed, occurs⟩
    by_contra none
    have plain : ∀ piece ∈ cutSigns text, piece ∉ signs := fun piece member known =>
      none ⟨piece, member, known⟩
    -- Without a sign among them there are no two neighbours.
    generalize cutSigns text = pieces at whole clear apart plain
    match pieces with
    | [] =>
        rw [← whole] at occurs
        exact sign_nonempty sign listed (List.infix_nil.mp occurs)
    | [piece] =>
        obtain rfl : piece = text := by simpa using whole
        exact (clear piece (by simp)).resolve_left (plain piece (by simp)) sign listed occurs
    | first :: next :: _ =>
        have beside := (List.isChain_cons_cons.mp apart).1.beside
        exact beside.elim (plain first (by simp)) (plain next (by simp))
  · rintro ⟨piece, member, known⟩
    have inside := List.infix_of_mem_flatten member
    rw [whole] at inside
    exact ⟨piece, known, inside⟩

theorem cut_signs_of_piece (text piece : Text) (member : piece ∈ cutSigns text) :
    cutSigns piece = [piece] := by
  have divided := divided_cut_signs text
  exact cut_signs_whole piece (divided.written piece member) (divided.clear piece member)

/-- Cutting out the six signs one after another divides a text as one scan does that takes a sign
wherever one begins. The pieces are the whole text, none of them is empty, each is a sign or holds
none, and none is divided further; a text holds a sign exactly if one of its pieces is a sign. -/
theorem cut_signs_as_one_scan (text : Text) :
    cutSigns text = munch 0 [] text ∧
      (cutSigns text).flatten = text ∧
      (∀ piece ∈ cutSigns text, piece ≠ []) ∧
      (∀ piece ∈ cutSigns text, piece ∈ signs ∨ ∀ sign ∈ signs, ¬ sign <:+: piece) ∧
      (∀ piece ∈ cutSigns text, cutSigns piece = [piece]) ∧
      (containsSign text = true ↔ ∃ piece ∈ cutSigns text, piece ∈ signs) := by
  have divided := divided_cut_signs text
  exact ⟨(munch_of_divided text _ divided).symm, divided.whole, divided.written, divided.clear,
    cut_signs_of_piece text, contains_sign_iff_piece text⟩

theorem cut_signs_as_one_scan_crowded :
    cutSigns "=<=!==a!<!=b>".toList =
        ["=", "<=", "!=", "=", "a!", "<", "!=", "b", ">"].map String.toList ∧
      munch 0 [] "=<=!==a!<!=b>".toList = cutSigns "=<=!==a!<!=b>".toList ∧
      "a!".toList ∈ cutSigns "=<=!==a!<!=b>".toList ∧ cutSigns "a!".toList = ["a!".toList] ∧
      containsSign "=<=!==a!<!=b>".toList = true := by
  obtain ⟨scanned, _, _, _, again, holds⟩ := cut_signs_as_one_scan "=<=!==a!<!=b>".toList
  have pieces : cutSigns "=<=!==a!<!=b>".toList =
    ["=", "<=", "!=", "=", "a!", "<", "!=", "b", ">"].map String.toList := by decide
  have member : "a!".toList ∈ cutSigns "=<=!==a!<!=b>".toList := by
    rw [pieces]
    decide
  have sign : "<=".toList ∈ cutSigns "=<=!==a!<!=b>".toList := by
    rw [pieces]
    decide
  exact ⟨pieces, scanned.symm, member, again _ member, holds.mpr ⟨_, sign, by decide⟩⟩

end FilterQuery.Comparator
