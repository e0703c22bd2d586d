import FilterQuery.Json.Reader
import FilterQuery.Proofs.Json.Numeral

/-!
What is written as JSON is read as the same value. The reader takes one character at a time, so this
is shown for a value with anything behind it, inside any arrays and objects that are still open.
-/

set_option autoImplicit false

namespace FilterQuery.Json

/-- Values that are written with all that they are: every number among them is a 64-bit integer, and
every part has a meaning. -/
inductive Exact : Json → Prop
  | null : Exact .null
  | bool (value : Bool) : Exact (.bool value)
  | integer (number : Int) : -(signedLimit : Int) ≤ number → number < unsignedLimit →
      Exact (.integer number)
  | string (text : Text) : Exact (.string text)
  | array (items : List Json) : (∀ item ∈ items, Exact item) → Exact (.array items)
  | object (members : List (Text × Json)) : (∀ member ∈ members, Exact member.2) →
      Exact (.object members)

@[simp] theorem write_all_eq_map (items : List Json) : writeAll items = items.map write := by
  induction items with
  | nil => rfl
  | cons item rest induction => rw [writeAll, induction, List.map_cons]

def writeMember (member : Text × Json) : Text := writeText member.1 ++ ':' :: member.2.write

@[simp] theorem write_members_eq_map (members : List (Text × Json)) :
    writeMembers members = members.map writeMember := by
  induction members with
  | nil => rfl
  | cons member rest induction =>
      rw [writeMembers, induction, List.map_cons]
      rfl

theorem join_commas (first : Text) (rest : List Text) :
    Text.join [','] (first :: rest) = first ++ rest.flatMap fun text => ',' :: text := by
  induction rest generalizing first with
  | nil => exact (List.append_nil first).symm
  | cons second rest induction =>
      rw [Text.join, induction, List.flatMap_cons, List.append_assoc]
      · rfl
      · exact List.cons_ne_nil _ _

/-- A character is no half of a surrogate pair. -/
theorem join_surrogates_cons (char : Char) (units : List Nat) :
    joinSurrogates (char.toNat :: units) = (joinSurrogates units).map (char :: ·) := by
  have outside : char.toNat < 0xD800 ∨ 0xE000 ≤ char.toNat := char.valid.imp id And.left
  have high : isHighSurrogate char.toNat = false := by
    rw [Bool.eq_false_iff, ne_eq, isHighSurrogate, Bool.and_eq_true, decide_eq_true_iff,
      decide_eq_true_iff]
    omega
  have low : isLowSurrogate char.toNat = false := by
    rw [Bool.eq_false_iff, ne_eq, isLowSurrogate, Bool.and_eq_true, decide_eq_true_iff,
      decide_eq_true_iff]
    omega
  cases units with
  | nil =>
      change (if isHighSurrogate char.toNat || isLowSurrogate char.toNat then none else _) = _
      rw [high, low, Char.ofNat_toNat]
      rfl
  | cons next units =>
      rw [joinSurrogates, high, low, Char.ofNat_toNat]
      rfl

theorem join_surrogates_units (text : Text) : joinSurrogates (text.map Char.toNat) = some text := by
  induction text with
  | nil => rfl
  | cons char rest induction =>
      rw [List.map_cons, join_surrogates_cons, induction, Option.map_some]

namespace Reader

def run (reader : Reader) (text : Text) : Option Json := text.foldlM read reader >>= finish

theorem run_cons (reader : Reader) (char : Char) (rest : Text) :
    reader.run (char :: rest) = reader.read char >>= fun next => next.run rest := by
  rw [run, List.foldlM_cons]
  cases reader.read char <;> rfl

theorem run_of_read (reader next : Reader) (char : Char) (rest : Text)
    (reads : reader.read char = some next) : reader.run (char :: rest) = next.run rest := by
  rw [run_cons, reads]
  rfl

theorem read_digit (opened : List Opened) (isKey : Bool) (units : List Nat) (digits value : Nat)
    (char : Char) :
    read ⟨opened, .text isKey units (.code digits value)⟩ char =
      (hexDigit char).bind fun digit =>
        if digits = 3 then some ⟨opened, .text isKey ((16 * value + digit) :: units) .outside⟩
        else some ⟨opened, .text isKey units (.code (digits + 1) (16 * value + digit))⟩ := rfl

theorem read_plain (opened : List Opened) (isKey : Bool) (units : List Nat) (char : Char)
    (quote : char ≠ '"') (backslash : char ≠ '\\') (large : ¬ char.toNat < 0x20) :
    read ⟨opened, .text isKey units .outside⟩ char =
      some ⟨opened, .text isKey (char.toNat :: units) .outside⟩ := by
  change (if char = '"' then _ else if char = '\\' then _ else if char.toNat < 0x20 then _
    else _) = _
  rw [if_neg quote, if_neg backslash, if_neg large]

theorem read_numeral (opened : List Opened) (characters : Text) (char : Char) :
    read ⟨opened, .numeral characters⟩ char =
      if Numeral.isPart char then some ⟨opened, .numeral (char :: characters)⟩
      else (Numeral.read characters.reverse).bind fun value =>
        (complete opened value).readBehind char := rfl

theorem hex_digit_of_small : ∀ digit < 16, hexDigit (Nat.digitChar digit) = some digit := by
  decide

theorem run_control (opened : List Opened) (isKey : Bool) (units : List Nat) (code : Nat)
    (small : code < 0x20) (rest : Text) :
    run ⟨opened, .text isKey units (.code 2 0)⟩
        (Nat.digitChar (code / 16) :: Nat.digitChar (code % 16) :: rest) =
      run ⟨opened, .text isKey (code :: units) .outside⟩ rest := by
  have first : read ⟨opened, .text isKey units (.code 2 0)⟩ (Nat.digitChar (code / 16)) =
      some ⟨opened, .text isKey units (.code 3 (code / 16))⟩ := by
    rw [read_digit, hex_digit_of_small _ (by omega)]
    simp
  have second : read ⟨opened, .text isKey units (.code 3 (code / 16))⟩
      (Nat.digitChar (code % 16)) = some ⟨opened, .text isKey (code :: units) .outside⟩ := by
    have whole : 16 * (code / 16) + code % 16 = code := Nat.div_add_mod code 16
    rw [read_digit, hex_digit_of_small _ (Nat.mod_lt _ (by decide)), Option.bind_some, if_pos rfl,
      whole]
  rw [run_of_read _ _ _ _ first, run_of_read _ _ _ _ second]

theorem run_escape_char (opened : List Opened) (isKey : Bool) (units : List Nat) (char : Char)
    (rest : Text) :
    run ⟨opened, .text isKey units .outside⟩ (escapeChar char ++ rest) =
      run ⟨opened, .text isKey (char.toNat :: units) .outside⟩ rest := by
  unfold escapeChar
  split
  · next same => subst same; rfl
  split
  · next same => subst same; rfl
  split
  · next same => subst same; rfl
  split
  · next same => subst same; rfl
  split
  · next same => subst same; rfl
  split
  · next same => subst same; rfl
  split
  · next same => subst same; rfl
  split
  · next small => exact run_control opened isKey units char.toNat small rest
  · next quote backslash _ _ _ _ _ large =>
      exact run_of_read _ _ _ _ (read_plain opened isKey units char quote backslash large)

theorem run_escaped (opened : List Opened) (isKey : Bool) (units : List Nat) (text rest : Text) :
    run ⟨opened, .text isKey units .outside⟩ (text.flatMap escapeChar ++ rest) =
      run ⟨opened, .text isKey ((text.map Char.toNat).reverse ++ units) .outside⟩ rest := by
  induction text generalizing units with
  | nil => rfl
  | cons char text induction =>
      rw [List.flatMap_cons, List.append_assoc, run_escape_char, induction, List.map_cons,
        List.reverse_cons, List.append_assoc]
      rfl

theorem run_quoted (opened : List Opened) (isKey : Bool) (text rest : Text) (next : Reader)
    (completes : completeText opened isKey (text.map Char.toNat).reverse = some next) :
    run ⟨opened, .text isKey [] .outside⟩ (text.flatMap escapeChar ++ ('"' :: rest)) =
      next.run rest := by
  rw [run_escaped, List.append_nil]
  exact run_of_read _ _ _ _ completes

/-- Nothing follows that would go on with a number. -/
def Ends (rest : Text) : Prop := ∀ next ∈ rest.head?, Numeral.isPart next = false

/-- Where a value may stand, the text is read as the value, whatever ends it. -/
def Reads (text : Text) (value : Json) : Prop :=
  ∀ opened rest, Ends rest →
    run ⟨opened, .value⟩ (text ++ rest) = run (complete opened value) rest

theorem reads_text (text : Text) : Reads (writeText text) (.string text) := by
  intro opened rest _
  have whole : writeText text ++ rest = '"' :: (text.flatMap escapeChar ++ ('"' :: rest)) := by
    simp [writeText]
  have begins : read ⟨opened, .value⟩ '"' = some ⟨opened, .text false [] .outside⟩ := rfl
  rw [whole, run_of_read _ _ _ _ begins]
  apply run_quoted
  unfold completeText
  rw [List.reverse_reverse, join_surrogates_units]
  rfl

theorem run_key (outer : List Opened) (members : List (Text × Json)) (before key rest : Text) :
    run ⟨.object members true before :: outer, .key⟩ (writeText key ++ (':' :: rest)) =
      run ⟨.object members true key :: outer, .value⟩ rest := by
  have whole : writeText key ++ (':' :: rest) =
      '"' :: (key.flatMap escapeChar ++ ('"' :: ':' :: rest)) := by
    simp [writeText]
  have begins : read ⟨.object members true before :: outer, .key⟩ '"' =
      some ⟨.object members true before :: outer, .text true [] .outside⟩ := rfl
  have named : completeText (.object members true before :: outer) true
      (key.map Char.toNat).reverse = some ⟨.object members true key :: outer, .colon⟩ := by
    rw [completeText, List.reverse_reverse, join_surrogates_units]
    rfl
  rw [whole, run_of_read _ _ _ _ begins, run_quoted _ _ _ _ _ named]
  exact run_of_read _ _ _ _ rfl

theorem read_complete (opened : List Opened) (value : Json) (char : Char) :
    (complete opened value).read char = (complete opened value).readBehind char := by
  match opened with
  | [] => rfl
  | .array items :: outer => rfl
  | .object members readable key :: outer => rfl

theorem finish_numeral (opened : List Opened) (characters : Text) (value : Json)
    (reads : Numeral.read characters.reverse = some value) :
    finish ⟨opened, .numeral characters⟩ = finish (complete opened value) := by
  match opened with
  | [] => exact reads
  | .array items :: outer => rfl
  | .object members readable key :: outer => rfl

theorem run_numeral (opened : List Opened) (characters text rest : Text) (value : Json)
    (parts : ∀ char ∈ text, Numeral.isPart char = true) (ends : Ends rest)
    (reads : Numeral.read (characters.reverse ++ text) = some value) :
    run ⟨opened, .numeral characters⟩ (text ++ rest) = run (complete opened value) rest := by
  -- A number has no end of its own, so it is complete only when something else follows it.
  induction text generalizing characters with
  | cons char text induction =>
      have next : read ⟨opened, .numeral characters⟩ char =
          some ⟨opened, .numeral (char :: characters)⟩ := by
        rw [read_numeral, if_pos (parts char (by simp))]
      rw [List.cons_append, run_of_read _ _ _ _ next]
      apply induction
      · exact fun other member => parts other (List.mem_cons_of_mem char member)
      · rw [List.reverse_cons, List.append_assoc]
        exact reads
  | nil =>
      rw [List.append_nil] at reads
      cases rest with
      | nil => exact finish_numeral opened characters value reads
      | cons char rest =>
          have behind : read ⟨opened, .numeral characters⟩ char =
              (complete opened value).read char := by
            rw [read_numeral, ends char rfl, if_neg Bool.false_ne_true, reads, read_complete,
              Option.bind_some]
          rw [List.nil_append, run_cons, run_cons, behind]

theorem begins_number_ne (char other : Char) (begins : char = '-' ∨ Numeral.isDigit char = true)
    (sign : other ≠ '-') (digit : Numeral.isDigit other = false) : char ≠ other := by
  rintro rfl
  rcases begins with same | written
  · exact sign same
  · exact Bool.false_ne_true (digit.symm.trans written)

theorem begins_number_not_blank (char : Char)
    (begins : char = '-' ∨ Numeral.isDigit char = true) : isBlank char = false := by
  have other := begins_number_ne char
  unfold isBlank
  rw [decide_eq_false_iff_not]
  simp only [List.mem_cons, List.not_mem_nil, or_false, not_or]
  exact ⟨other ' ' begins (by decide) rfl, other '\t' begins (by decide) rfl,
    other '\n' begins (by decide) rfl, other '\r' begins (by decide) rfl⟩

theorem read_value_numeral (opened : List Opened) (char : Char)
    (begins : char = '-' ∨ Numeral.isDigit char = true) :
    read ⟨opened, .value⟩ char = some ⟨opened, .numeral [char]⟩ := by
  have other := fun different => begins_number_ne char different begins
  have part : (char = '-' || Numeral.isDigit char) = true := by
    rw [Bool.or_eq_true, decide_eq_true_iff]
    exact begins
  change (if isBlank char then _ else readValue opened char) = _
  rw [begins_number_not_blank char begins, if_neg Bool.false_ne_true, readValue,
    if_neg (other '"' (by decide) rfl), if_neg (other '[' (by decide) rfl),
    if_neg (other '\x7b' (by decide) rfl), if_neg (other 't' (by decide) rfl),
    if_neg (other 'f' (by decide) rfl), if_neg (other 'n' (by decide) rfl), if_pos part]

theorem reads_integer (number : Int) (lower : -(signedLimit : Int) ≤ number)
    (upper : number < unsignedLimit) : Reads (writeInteger number) (.integer number) := by
  intro opened rest ends
  obtain ⟨first, digits, same, begins, written⟩ := Numeral.write_integer_cons number
  rw [same, List.cons_append, run_of_read _ _ _ _ (read_value_numeral opened first begins)]
  apply run_numeral opened [first] digits rest _ _ ends
  · rw [List.reverse_singleton, List.singleton_append, ← same]
    exact Numeral.read_write_integer number lower upper
  · intro char member
    unfold Numeral.isPart
    rw [written char member, Bool.true_or]

theorem reads_literal (first : Char) (remaining : Text) (value : Json)
    (begins : ∀ opened, read ⟨opened, .value⟩ first = some ⟨opened, .literal remaining value⟩)
    (continued : remaining ≠ []) : Reads (first :: remaining) value := by
  intro opened rest _
  rw [List.cons_append, run_of_read _ _ _ _ (begins opened)]
  clear begins
  induction remaining with
  | nil => contradiction
  | cons char remaining induction =>
      cases remaining with
      | nil =>
          apply run_of_read
          change (if char = char then _ else _) = _
          rw [if_pos rfl]
      | cons second remaining =>
          have next : read ⟨opened, .literal (char :: second :: remaining) value⟩ char =
              some ⟨opened, .literal (second :: remaining) value⟩ := by
            change (if char = char then _ else _) = _
            rw [if_pos rfl]
          rw [List.cons_append, run_of_read _ _ _ _ next]
          exact induction (List.cons_ne_nil second remaining)

theorem ends_of_separator (char : Char) (rest : Text) (separates : Numeral.isPart char = false) :
    Ends (char :: rest) := by
  intro next first
  obtain rfl := Option.some.inj first
  exact separates

theorem ends_of_commas (parts : List Text) (last : Char) (rest : Text)
    (separates : Numeral.isPart last = false) :
    Ends ((parts.flatMap fun text => ',' :: text) ++ last :: rest) := by
  cases parts with
  | nil => exact ends_of_separator last rest separates
  | cons part parts => exact ends_of_separator ',' _ rfl

theorem run_items (items : List Json) (each : ∀ item ∈ items, Reads item.write item)
    (outer : List Opened) (before : List Json) (value : Json) (rest : Text) :
    run (complete (.array before :: outer) value)
        (((items.map write).flatMap fun text => ',' :: text) ++ ']' :: rest) =
      run (complete outer (.array (before ++ value :: items))) rest := by
  induction items generalizing before value with
  | nil => exact run_of_read _ _ _ _ rfl
  | cons item items induction =>
      have comma : (complete (.array before :: outer) value).read ',' =
          some ⟨.array (before ++ [value]) :: outer, .value⟩ := rfl
      have later := induction (fun other member => each other (List.mem_cons_of_mem item member))
        (before ++ [value]) item
      rw [List.append_assoc, List.singleton_append] at later
      rw [List.map_cons, List.flatMap_cons, List.append_assoc, List.cons_append,
        run_of_read _ _ _ _ comma, each item (by simp) _ _ (ends_of_commas _ ']' rest rfl), later]

theorem run_members (members : List (Text × Json))
    (each : ∀ member ∈ members, Reads member.2.write member.2) (outer : List Opened)
    (before : List (Text × Json)) (key : Text) (value : Json) (rest : Text) :
    run (complete (.object before true key :: outer) value)
        (((members.map writeMember).flatMap fun text => ',' :: text) ++ '\x7d' :: rest) =
      run (complete outer (.object (before ++ (key, value) :: members))) rest := by
  induction members generalizing before key value with
  | nil => exact run_of_read _ _ _ _ rfl
  | cons member members induction =>
      have comma : (complete (.object before true key :: outer) value).read ',' =
          some ⟨.object (before ++ [(key, value)]) true [] :: outer, .key⟩ := rfl
      have later := induction (fun other listed => each other (List.mem_cons_of_mem member listed))
        (before ++ [(key, value)]) member.1 member.2
      rw [List.append_assoc, List.singleton_append] at later
      rw [List.map_cons, List.flatMap_cons, List.append_assoc, List.cons_append,
        run_of_read _ _ _ _ comma, writeMember, List.append_assoc, List.cons_append, run_key,
        each member (by simp) _ _ (ends_of_commas _ '\x7d' rest rfl), later]

/-- Nothing that is written looks like the end of an empty array. -/
theorem write_cons (json : Json) (exact : json.Exact) :
    ∃ char rest, json.write = char :: rest ∧ isBlank char = false ∧ char ≠ ']' := by
  cases exact with
  | null => exact ⟨'n', _, rfl, rfl, by decide⟩
  | bool value => cases value <;> exact ⟨_, _, rfl, rfl, by decide⟩
  | integer number =>
      obtain ⟨first, digits, same, begins, _⟩ := Numeral.write_integer_cons number
      exact ⟨first, digits, same, begins_number_not_blank first begins,
        begins_number_ne first ']' begins (by decide) rfl⟩
  | string text => exact ⟨'"', _, rfl, rfl, by decide⟩
  | array items => exact ⟨'[', _, rfl, rfl, by decide⟩
  | object members => exact ⟨'\x7b', _, rfl, rfl, by decide⟩

theorem run_first_item (opened : List Opened) (json : Json) (exact : json.Exact) (rest : Text) :
    run ⟨opened, .firstItem⟩ (json.write ++ rest) = run ⟨opened, .value⟩ (json.write ++ rest) := by
  obtain ⟨char, later, same, blank, bracket⟩ := write_cons json exact
  have first : read ⟨opened, .firstItem⟩ char = read ⟨opened, .value⟩ char := by
    change (if isBlank char then _ else if char = ']' then _ else _) = if isBlank char then _ else _
    rw [blank, if_neg Bool.false_ne_true, if_neg Bool.false_ne_true, if_neg bracket]
  rw [same, List.cons_append, run_cons, run_cons, first]

theorem reads_array (items : List Json) (exact : ∀ item ∈ items, item.Exact)
    (each : ∀ item ∈ items, Reads item.write item) :
    Reads (write (.array items)) (.array items) := by
  intro opened rest _
  have begins : read ⟨opened, .value⟩ '[' = some ⟨.array [] :: opened, .firstItem⟩ := rfl
  rw [write, write_all_eq_map]
  cases items with
  | nil =>
      exact (run_of_read _ _ '[' (']' :: rest) begins).trans (run_of_read _ _ ']' rest rfl)
  | cons first items =>
      have whole : '[' :: Text.join [','] ((first :: items).map write) ++ [']'] ++ rest =
          '[' :: (first.write ++ (((items.map write).flatMap fun text => ',' :: text) ++
            ']' :: rest)) := by
        rw [List.map_cons, join_commas]
        simp only [List.cons_append, List.append_assoc, List.nil_append]
      rw [whole, run_of_read _ _ _ _ begins, run_first_item _ first (exact first (by simp)),
        each first (by simp) _ _ (ends_of_commas _ ']' rest rfl)]
      exact run_items items (fun item member => each item (List.mem_cons_of_mem first member))
        opened [] first rest

theorem reads_object (members : List (Text × Json))
    (each : ∀ member ∈ members, Reads member.2.write member.2) :
    Reads (write (.object members)) (.object members) := by
  intro opened rest _
  have begins : read ⟨opened, .value⟩ '\x7b' = some ⟨.object [] true [] :: opened, .firstKey⟩ := rfl
  rw [write, write_members_eq_map]
  cases members with
  | nil =>
      exact (run_of_read _ _ '\x7b' ('\x7d' :: rest) begins).trans
        (run_of_read _ _ '\x7d' rest rfl)
  | cons first members =>
      have whole : '\x7b' :: Text.join [','] ((first :: members).map writeMember) ++ ['\x7d'] ++
          rest = '\x7b' :: (writeText first.1 ++ (':' :: (first.2.write ++
            (((members.map writeMember).flatMap fun text => ',' :: text) ++ '\x7d' :: rest)))) := by
        rw [List.map_cons, join_commas, writeMember]
        simp only [List.cons_append, List.append_assoc, List.nil_append]
      have key : ∀ text, run ⟨.object [] true [] :: opened, .firstKey⟩ (writeText first.1 ++ text) =
          run ⟨.object [] true [] :: opened, .key⟩ (writeText first.1 ++ text) := fun _ => rfl
      rw [whole, run_of_read _ _ _ _ begins, key, run_key,
        each first (by simp) _ _ (ends_of_commas _ '\x7d' rest rfl)]
      exact run_members members
        (fun member listed => each member (List.mem_cons_of_mem first listed)) opened [] first.1
          first.2 rest

theorem reads_write (json : Json) (exact : json.Exact) : Reads json.write json := by
  induction exact with
  | null => exact reads_literal 'n' "ull".toList .null (fun _ => rfl) (by decide)
  | bool value =>
      cases value with
      | true => exact reads_literal 't' "rue".toList (.bool true) (fun _ => rfl) (by decide)
      | false => exact reads_literal 'f' "alse".toList (.bool false) (fun _ => rfl) (by decide)
  | integer number lower upper => exact reads_integer number lower upper
  | string text => exact reads_text text
  | array items exact induction => exact reads_array items exact induction
  | object members exact induction => exact reads_object members induction

end Reader

/-- What is written is read back, whatever the value is made of. -/
theorem parse_write (json : Json) (exact : json.Exact) : parse json.write = some json := by
  have ends : Reader.Ends [] := by
    intro next absent
    cases absent
  have reads := Reader.reads_write json exact [] [] ends
  rw [List.append_nil] at reads
  exact reads

@[simp]
theorem readable_all_eq_all (items : List Json) : readableAll items = items.all readable := by
  induction items with
  | nil => rfl
  | cons item rest induction => rw [readableAll, induction, List.all_cons]

@[simp] theorem readable_members_eq_all (members : List (Text × Json)) :
    readableMembers members = members.all fun member => member.2.readable := by
  induction members with
  | nil => rfl
  | cons member rest induction => rw [readableMembers, induction, List.all_cons]

theorem readable_of_exact (json : Json) (exact : json.Exact) : json.readable = true := by
  induction exact with
  | null | bool | integer | string => rfl
  | array items _ induction =>
      rw [readable, readable_all_eq_all, List.all_eq_true]
      exact induction
  | object members _ induction =>
      rw [readable, readable_members_eq_all, List.all_eq_true]
      exact induction

end FilterQuery.Json
