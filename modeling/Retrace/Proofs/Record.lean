import Retrace.Proofs.Record.Quoted
import Retrace.Proofs.Record.Value
import Retrace.Record

/-!
# Diagnostic records are read back

A record is written field by field and read field by field: behind every value the reader finds the
comma or the brace that it stopped at. Quotation marks, backslashes and control characters in a text
are escaped, so a record never contains a line feed, and the lines of a file are the records that
were written. Whoever reads them back gets the diagnostics that were sent, without what is not sent.

## Main definitions

* `Record.Sendable`: a diagnostic whose numbers can be read back;
* `Record.sent`: what comes back of a diagnostic;
* `Record.Spaced`: a text that holds records, each on a line of its own, with blank lines anywhere.

## Main results

* `Record.fields?_write`: the fields of a record are read back in order;
* `Record.read?_write`: a record is read back;
* `Record.readLines?_of_spaced`: so are the lines of a text.
-/

namespace Retrace

/-- Nothing is trimmed between two characters that are no blanks. -/
theorem Text.trim_eq_self {first last : Char} (hfirst : isBlank first = false)
    (hlast : isBlank last = false) (middle : Text) :
    trim (first :: middle ++ [last]) = first :: middle ++ [last] := by
  have hdrop {c : Char} (hc : isBlank c = false) (rest : Text) :
      (c :: rest).dropWhile isBlank = c :: rest :=
    List.dropWhile_cons_of_neg (by rw [hc]; exact Bool.false_ne_true)
  rw [trim, List.cons_append, hdrop hfirst, ← List.cons_append, List.reverse_append,
    List.reverse_singleton, List.singleton_append, hdrop hlast, List.reverse_cons,
    List.reverse_reverse]

namespace Record

/-- The numbers of a diagnostic are small enough to be read back. -/
structure Sendable (diagnostic : Diagnostic) : Prop where
  /-- The line where the range begins. -/
  startLine_lt : diagnostic.range.start.line < numberLimit
  /-- The column where the range begins. -/
  startColumn_lt : diagnostic.range.start.column < numberLimit
  /-- The line where the range has ended. -/
  stopLine_lt : diagnostic.range.stop.line < numberLimit
  /-- The column where the range has ended. -/
  stopColumn_lt : diagnostic.range.stop.column < numberLimit

/-- What comes back of a diagnostic: neither severity nor origin is sent. -/
def sent (diagnostic : Diagnostic) : Diagnostic :=
  { diagnostic with severity := .recoverable, origin := none }

variable {diagnostic : Diagnostic}

/-! ## Fields -/

/-- There are no blanks to skip in front of anything else. -/
theorem skipBlanks_cons {c : Char} (h : ¬ c.isWhitespace) (rest : Text) :
    skipBlanks (c :: rest) = c :: rest := by
  refine List.dropWhile_cons_of_neg ?_
  intro hblank
  refine h ?_
  simp only [Bool.or_eq_true, decide_eq_true_eq] at hblank
  rcases hblank with ((rfl | rfl) | rfl) | rfl <;> rfl

/-- A text is read back as the value of a field that holds texts. -/
theorem value?_quote {field : Field} (hfield : field.isNumber = false) (text rest : Text) :
    value? field (quote text ++ rest) = some (.text text, rest) := by
  obtain ⟨quoted, hquoted, hread⟩ := unquote?_quote text rest
  rw [hquoted, value?, skipBlanks_cons (by decide)]
  simp only [hfield, Bool.false_eq_true, if_false, hread, Option.map_some]

/-- A number is read back as the value of a field that holds numbers. -/
theorem value?_toDigits {field : Field} (hfield : field.isNumber = true) {number : Nat}
    (h : number < numberLimit) {rest : Text} (hrest : EndsNumber rest) :
    value? field (Nat.toDigits 10 number ++ rest) = some (.number number, rest) := by
  have hblanks : skipBlanks (Nat.toDigits 10 number ++ rest) = Nat.toDigits 10 number ++ rest := by
    have hne : Nat.toDigits 10 number ≠ [] := Nat.toDigits_ne_nil
    obtain ⟨c, later, hdigits⟩ := List.exists_cons_of_ne_nil hne
    have hmem : c ∈ Nat.toDigits 10 number := by
      rw [hdigits]
      exact List.mem_cons_self
    have hdigit := Nat.isDigit_of_mem_toDigits (by decide) (by decide) hmem
    rw [hdigits, List.cons_append]
    refine skipBlanks_cons ?_ _
    intro hwhite
    simp only [Char.isWhitespace, Bool.or_eq_true, decide_eq_true_eq] at hwhite
    rcases hwhite with ((rfl | rfl) | rfl) | rfl <;> cases hdigit
  rw [value?, hblanks]
  simp only [hfield, if_true, natural?_toDigits h hrest, Option.map_some]

/-- The value of a field of a diagnostic is read back. -/
theorem value?_write (h : Sendable diagnostic) (field : Field) {rest : Text}
    (hrest : EndsNumber rest) :
    value? field (writeValue (valueOf diagnostic field) ++ rest) =
      some (valueOf diagnostic field, rest) := by
  cases field with
  | path => exact value?_quote rfl _ _
  | startLine => exact value?_toDigits rfl h.startLine_lt hrest
  | startColumn => exact value?_toDigits rfl h.startColumn_lt hrest
  | stopLine => exact value?_toDigits rfl h.stopLine_lt hrest
  | stopColumn => exact value?_toDigits rfl h.stopColumn_lt hrest
  | message => exact value?_quote rfl _ _
  | context => exact value?_quote rfl _ _

/-- A field is known by its name. -/
theorem ofName?_name (field : Field) : Field.ofName? field.name.toList = some field := by
  cases field <;> decide

/-- A field with its name is read back, unless it has been read before. -/
theorem field?_write (h : Sendable diagnostic) {field : Field} {values : Values}
    (hnew : values.lookup field = none) {rest : Text} (hrest : EndsNumber rest) :
    ∃ text, writeField diagnostic field ++ rest = '"' :: text ∧
      field? values ('"' :: text) = some ((field, valueOf diagnostic field) :: values, rest) := by
  obtain ⟨quoted, hquoted, hread⟩ := unquote?_quote field.name.toList
    (':' :: (writeValue (valueOf diagnostic field) ++ rest))
  refine ⟨quoted, ?_, ?_⟩
  · rw [writeField, List.append_assoc, List.cons_append, hquoted]
  · have hcolon := skipBlanks_cons (c := ':') (by decide)
      (writeValue (valueOf diagnostic field) ++ rest)
    simp only [field?, hread, Option.bind_eq_bind, Option.bind_some, hcolon, ofName?_name, hnew,
      Option.isSome_none, Bool.false_eq_true, if_false, value?_write h field hrest]
    rfl

/-- Numbers end at commas and at closing braces. -/
theorem endsNumber_cons {c : Char} (h : c = ',' ∨ c = '\x7d') (rest : Text) :
    EndsNumber (c :: rest) := by
  rintro d ⟨⟩
  rcases h with rfl | rfl <;> decide

/-- Fields are read back in order, up to the brace behind them. -/
theorem fields?_write (h : Sendable diagnostic) {fields : List Field} (hne : fields ≠ [])
    (hnodup : fields.Nodup) {values : Values} (hnew : ∀ field ∈ fields, values.lookup field = none)
    {bound : Nat} (hbound : fields.length ≤ bound) (rest : Text) :
    fields? bound values
        (List.intercalate [','] (fields.map (writeField diagnostic)) ++ '\x7d' :: rest) =
      some ((fields.map fun field => (field, valueOf diagnostic field)).reverse ++ values,
        rest) := by
  induction fields generalizing values bound with
  | nil => exact absurd rfl hne
  | cons field later ih =>
    obtain ⟨hfield, hlater⟩ := List.forall_mem_cons.1 hnew
    obtain ⟨bound, rfl⟩ : ∃ others, bound = others + 1 :=
      ⟨bound - 1, by simp only [List.length_cons] at hbound; omega⟩
    cases later with
    | nil =>
      obtain ⟨text, htext, hread⟩ := field?_write h hfield (endsNumber_cons (.inr rfl) rest)
      rw [List.map_singleton, List.intercalate_singleton, htext, fields?,
        skipBlanks_cons (by decide), hread]
      rfl
    | cons next others =>
      obtain ⟨text, htext, hread⟩ := field?_write h hfield (endsNumber_cons (.inl rfl)
        (List.intercalate [','] ((next :: others).map (writeField diagnostic)) ++ '\x7d' :: rest))
      obtain ⟨hother, hnodup⟩ := List.nodup_cons.1 hnodup
      -- What has been read is asked for by its name, and no name comes twice.
      have hnew' : ∀ other ∈ next :: others,
          List.lookup other ((field, valueOf diagnostic field) :: values) = none := by
        intro other hmem
        have hdiffers : (other == field) = false := by
          rw [beq_eq_false_iff_ne]
          rintro rfl
          exact hother hmem
        rw [List.lookup_cons, hdiffers]
        exact hlater other hmem
      rw [List.map_cons, List.map_cons, List.intercalate_cons_cons, List.append_assoc,
        List.append_assoc, ← List.map_cons, List.singleton_append, htext, fields?,
        skipBlanks_cons (by decide), hread]
      refine (ih (List.cons_ne_nil _ _) hnodup hnew' (Nat.le_of_succ_le_succ hbound)).trans ?_
      rw [List.map_cons (a := field), List.reverse_cons, List.append_assoc, List.singleton_append]

/-! ## Records -/

/-- All values of a record are read back. -/
theorem values?_write (h : Sendable diagnostic) :
    values? (write diagnostic) =
      some ((Field.all.map fun field => (field, valueOf diagnostic field)).reverse, []) := by
  obtain ⟨text, htext⟩ : ∃ text,
      List.intercalate [','] (Field.all.map (writeField diagnostic)) ++ ['\x7d'] =
        '"' :: 'p' :: 'a' :: 't' :: 'h' :: '"' :: text := ⟨_, rfl⟩
  have hall : Field.all ≠ [] ∧ Field.all.Nodup := by decide
  -- With the name of the first field alone, the text is longer than there are fields to read.
  have hread := fields?_write h hall.1 hall.2 (fun field _ => List.lookup_nil)
    (Nat.le_add_left 7 text.length) []
  rw [htext, List.append_nil] at hread
  rw [write, List.cons_append, htext]
  exact hread

/-- The diagnostic is put together from its values. -/
theorem diagnostic?_values (diagnostic : Diagnostic) :
    Values.diagnostic? (Field.all.map fun field => (field, valueOf diagnostic field)).reverse =
      some (sent diagnostic) := by
  have hstring (string : String) : String.ofList string.toList = string := String.ofList_toList
  calc
    _ = some { sent diagnostic with
          path := String.ofList diagnostic.path.toList
          message := String.ofList diagnostic.message.toList
          context := String.ofList diagnostic.context.toList } := rfl
    _ = some (sent diagnostic) := by
      rw [hstring, hstring, hstring]
      rfl

/-- A record is read back. -/
theorem read?_write (h : Sendable diagnostic) :
    read? (write diagnostic) = some (sent diagnostic) := by
  have htrim : Text.trim (write diagnostic) = write diagnostic :=
    Text.trim_eq_self (by decide) (by decide) _
  have hblanks : skipBlanks (write diagnostic) = write diagnostic :=
    skipBlanks_cons (by decide) _
  rw [read?, htrim, hblanks, values?_write h]
  exact diagnostic?_values diagnostic

/-- What stands in a list with separators stands in a separator or in one of the parts. -/
theorem mem_or_exists_mem_of_mem_intercalate {c : Char} {separator : Text} {parts : List Text}
    (h : c ∈ List.intercalate separator parts) : c ∈ separator ∨ ∃ part ∈ parts, c ∈ part := by
  induction parts with
  | nil => cases h
  | cons part later ih =>
    cases later with
    | nil =>
      rw [List.intercalate_singleton] at h
      exact Or.inr ⟨part, List.mem_cons_self, h⟩
    | cons next others =>
      rw [List.intercalate_cons_cons, List.mem_append, List.mem_append] at h
      rcases h with (hpart | hseparator) | hlater
      · exact Or.inr ⟨part, List.mem_cons_self, hpart⟩
      · exact Or.inl hseparator
      · refine (ih hlater).imp_right ?_
        rintro ⟨other, hother, hmem⟩
        exact ⟨other, List.mem_cons_of_mem _ hother, hmem⟩

/-- No control character stands in an item of a record: texts are escaped between quotes, and
numbers consist of digits. -/
theorem not_control_of_mem_writeField {c : Char} {field : Field}
    (h : c ∈ writeField diagnostic field) : ¬ c.toNat < 32 := by
  rw [writeField, List.mem_append, List.mem_cons] at h
  rcases h with hname | rfl | hvalue
  · exact not_control_of_mem_quote hname
  · decide
  · cases hof : valueOf diagnostic field with
    | text text =>
      rw [hof] at hvalue
      exact not_control_of_mem_quote hvalue
    | number number =>
      rw [hof] at hvalue
      have hdigit := Nat.isDigit_of_mem_toDigits (by decide) (by decide) hvalue
      have hle : '0'.toNat ≤ c.toNat := by
        simp only [Char.isDigit, Bool.and_eq_true, decide_eq_true_eq] at hdigit
        exact hdigit.1
      exact Nat.not_lt.2 (Nat.le_trans (by decide) hle)

/-- No control character stands in a record. -/
theorem not_control_of_mem_write {c : Char} (h : c ∈ write diagnostic) : ¬ c.toNat < 32 := by
  rw [write, List.cons_append, List.mem_cons, List.mem_append, List.mem_singleton] at h
  rcases h with rfl | h | rfl
  · decide
  · rcases mem_or_exists_mem_of_mem_intercalate h with hcomma | ⟨part, hpart, hmem⟩
    · rw [List.mem_singleton.1 hcomma]
      decide
    · obtain ⟨field, -, rfl⟩ := List.mem_map.1 hpart
      exact not_control_of_mem_writeField hmem
  · decide

theorem lineFeed_not_mem_write (diagnostic : Diagnostic) : '\n' ∉ write diagnostic :=
  fun h => not_control_of_mem_write h (by decide)

/-! ## Lines -/

/-- A text that holds records, each on a line of its own; between them and around them there may be
lines that hold nothing but blanks. -/
inductive Spaced : List Diagnostic → Text → Prop where
  /-- The last line holds no record. -/
  | last {line : Text} : Text.isBlankText line → '\n' ∉ line → Spaced [] line
  /-- A line without a record. -/
  | blank {diagnostics : List Diagnostic} {line text : Text} : Text.isBlankText line → '\n' ∉ line →
    Spaced diagnostics text → Spaced diagnostics (line ++ '\n' :: text)
  /-- A line with a record. -/
  | record {diagnostics : List Diagnostic} {text : Text} (diagnostic : Diagnostic) :
    Spaced diagnostics text → Spaced (diagnostic :: diagnostics) (write diagnostic ++ '\n' :: text)

/-- Diagnostics are written without blank lines, except for what follows the last line feed. -/
theorem spaced_writeLines (diagnostics : List Diagnostic) :
    Spaced diagnostics (writeLines diagnostics) := by
  induction diagnostics with
  | nil => exact .last rfl List.not_mem_nil
  | cons diagnostic later ih =>
    rw [writeLines, List.flatMap_cons, List.append_assoc, List.singleton_append]
    exact .record diagnostic ih

/-- Each line of the text is a record, and nothing follows the last line feed. -/
theorem splitOn_writeLines (diagnostics : List Diagnostic) :
    (writeLines diagnostics).splitOn '\n' = diagnostics.map write ++ [[]] := by
  induction diagnostics with
  | nil => rfl
  | cons diagnostic later ih =>
    rw [writeLines, List.flatMap_cons, List.append_assoc, List.singleton_append,
      List.splitOn_append_cons_self_of_not_mem (lineFeed_not_mem_write diagnostic)]
    exact congrArg (write diagnostic :: ·) ih

/-- A record is read from a line of its own. -/
theorem readLines?_of_spaced {diagnostics : List Diagnostic} {text : Text}
    (h : Spaced diagnostics text) (hsendable : ∀ diagnostic ∈ diagnostics, Sendable diagnostic) :
    readLines? text = some (diagnostics.map sent) := by
  induction h with
  | @last line hblank hline =>
    rw [readLines?, List.splitOn_eq_singleton hline,
      List.filter_cons_of_neg (by simpa using hblank)]
    rfl
  | @blank diagnostics line text hblank hline _ ih =>
    rw [readLines?, List.splitOn_append_cons_self_of_not_mem hline,
      List.filter_cons_of_neg (by simpa using hblank)]
    exact ih hsendable
  | @record diagnostics text diagnostic _ ih =>
    obtain ⟨hfirst, hlater⟩ := List.forall_mem_cons.1 hsendable
    have hread : List.mapM read? ((text.splitOn '\n').filter fun line => !Text.isBlankText line) =
        some (diagnostics.map sent) := ih hlater
    rw [readLines?, List.splitOn_append_cons_self_of_not_mem (lineFeed_not_mem_write diagnostic),
      List.filter_cons_of_pos rfl, List.mapM_cons, read?_write hfirst, hread]
    rfl

/-- Diagnostics with numbers of at most sixty-four bits that are written as records and read back
come back in order, without severity and origin and otherwise as they were, also if blank lines are
put between the records. Each record takes one line and holds no control character. -/
theorem readLines?_writeLines {diagnostics : List Diagnostic}
    (h : ∀ diagnostic ∈ diagnostics, Sendable diagnostic) :
    readLines? (writeLines diagnostics) = some (diagnostics.map sent) ∧
    (∀ text, Spaced diagnostics text → readLines? text = some (diagnostics.map sent)) ∧
    (writeLines diagnostics).splitOn '\n' = diagnostics.map write ++ [[]] ∧
    ∀ diagnostic ∈ diagnostics, ∀ c ∈ write diagnostic, ¬ c.toNat < 32 :=
  ⟨readLines?_of_spaced (spaced_writeLines diagnostics) h,
    fun _ hspaced => readLines?_of_spaced hspaced h, splitOn_writeLines diagnostics,
    fun _ _ _ => not_control_of_mem_write⟩

/-- A diagnostic with everything in its texts that is escaped, with line separators that are not,
and with the largest number there is. -/
def awkward : Diagnostic where
  path := "/nta/declaration"
  range := ⟨⟨0, 1⟩, ⟨1, 18446744073709551615⟩⟩
  message := "\"\\\x08\x0c\n\r\t\x00\x1f\x7f"
  context := "\u0085\u2028\u2029\u00e9😀"
  severity := .unrecoverable
  origin := some ⟨"array_init", "expand", 3⟩

/-- It comes back as it was, also from between blank lines. -/
theorem readLines?_writeLines_awkward :
    (∀ diagnostic ∈ [awkward], Sendable diagnostic) ∧
      readLines? (writeLines [awkward]) =
        some [{ awkward with severity := .recoverable, origin := none }] ∧
      readLines? ('\n' :: ' ' :: '\t' :: '\n' :: (write awkward ++ ['\n', '\u2028', '\r', '\n'])) =
        some [{ awkward with severity := .recoverable, origin := none }] ∧
      (writeLines [awkward]).splitOn '\n' = [write awkward, []] := by
  have hsendable : ∀ diagnostic ∈ [awkward], Sendable diagnostic := by
    intro diagnostic hmem
    obtain rfl := List.mem_singleton.1 hmem
    exact ⟨by decide, by decide, by decide, by decide⟩
  have hspaced : Spaced [awkward]
      ('\n' :: ' ' :: '\t' :: '\n' :: (write awkward ++ ['\n', '\u2028', '\r', '\n'])) :=
    @Spaced.blank _ [] _ rfl (by decide) (@Spaced.blank _ [' ', '\t'] _ rfl (by decide)
      (.record awkward (@Spaced.blank _ ['\u2028', '\r'] [] rfl (by decide)
        (.last rfl (by decide)))))
  obtain ⟨hread, hblank, hlines, -⟩ := readLines?_writeLines hsendable
  exact ⟨hsendable, hread, hblank _ hspaced, hlines⟩

end Record

end Retrace
