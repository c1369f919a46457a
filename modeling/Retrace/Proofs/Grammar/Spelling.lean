import Retrace.Grammar.Description

/-!
# Splitting a spelled text

A text spells words of a grammar description if it consists of them, in order, with blanks and
comments between them (`Description.Spells`). Quoted texts are spelled with escapes, and a name ends
where no character follows that could continue it. Splitting such a text gives back the words
(`Description.map_lexeme_lex`).

## Main definitions

* `Description.Gap`: blanks and comments;
* `Lexeme.IsWord`, `Lexeme.spelled`: the words of rules, and how they are spelled;
* `Description.Spells`: a text consists of words;
* `Description.spellOut`: the words with a blank behind each of them.
-/

namespace Retrace.Description

/-! ## Escapes -/

/-- Protect backslashes and quotation marks by backslashes. -/
def escape : Text → Text
  | [] => []
  | c :: rest => if c = '\\' ∨ c = '"' then '\\' :: c :: escape rest else c :: escape rest

/-- The end of a quoted text is the first quotation mark that is not escaped. -/
theorem extent?_escape (text rest : Text) (passed : Nat) :
    extent? '"' passed (escape text ++ '"' :: rest) = some (passed + (escape text).length) := by
  induction text generalizing passed with
  | nil => simp [escape, extent?]
  | cons c text ih =>
    rw [escape]
    split
    · rw [List.cons_append, List.cons_append, extent?, ih, List.length_cons, List.length_cons]
      exact congrArg some (by omega)
    · rename_i hplain
      obtain ⟨hbackslash, hquote⟩ := not_or.1 hplain
      rw [List.cons_append, extent?, if_neg hquote, ih, List.length_cons]
      · exact congrArg some (by omega)
      · -- The character is not taken for a backslash that protects the next one.
        exact fun _ _ hc _ => hbackslash hc

/-- Resolving the escapes of an escaped text gives back the text. -/
theorem unescape_escape (text : Text) : unescape (escape text) = text := by
  induction text with
  | nil => rfl
  | cons c text ih =>
    rw [escape]
    split
    · rename_i hspecial
      -- Neither of the two stands for another character behind a backslash.
      rcases hspecial with rfl | rfl <;> simp [unescape, ih]
    · rename_i hplain
      obtain ⟨hbackslash, -⟩ := not_or.1 hplain
      simp [unescape, hbackslash, ih]

/-! ## Words and gaps -/

/-- Blanks and comments, all of which are closed by the end of their line. -/
inductive Gap : Text → Prop
  | nil : Gap []
  | blank {c : Char} {gap : Text} : isSeparator c = true → Gap gap → Gap (c :: gap)
  | comment {comment gap : Text} : '\n' ∉ comment → Gap gap →
      Gap ('/' :: '/' :: (comment ++ '\n' :: gap))

/-- A text is a name. -/
def IsName : Text → Prop
  | [] => False
  | c :: rest => startsName c = true ∧ ∀ d ∈ rest, continuesName d = true

instance : (text : Text) → Decidable (IsName text)
  | [] => instDecidableFalse
  | c :: rest =>
    decidable_of_iff (startsName c = true ∧ rest.all continuesName = true) (by
      rw [List.all_eq_true]
      rfl)

/-- A character is a word of its own wherever it stands. -/
def IsMark (c : Char) : Prop :=
  isSeparator c = false ∧ startsName c = false ∧ c ≠ '"' ∧ c ≠ '/'

instance (c : Char) : Decidable (IsMark c) :=
  inferInstanceAs (Decidable (isSeparator c = false ∧ startsName c = false ∧ c ≠ '"' ∧ c ≠ '/'))

namespace Lexeme

/-- The word is one that rules are written with. -/
def IsWord : Lexeme → Prop
  | .name chars => IsName chars
  | .literal _ => True
  | .mark c => IsMark c
  | _ => False

/-- How such a word is spelled. -/
def spelled : Lexeme → Text
  | .name chars => chars
  | .literal text => '"' :: (escape text ++ ['"'])
  | .mark c => [c]
  | _ => []

/-- The word ends where `rest` begins; only a name could go on. -/
def EndsBefore : Lexeme → (rest : Text) → Prop
  | .name _, c :: _ => continuesName c = false
  | _, _ => True

end Lexeme

/-- A text consists of words, with blanks and comments between them. -/
inductive Spells : List Lexeme → Text → Prop
  | nil {gap : Text} : Gap gap → Spells [] gap
  | cons {gap rest : Text} {word : Lexeme} {words : List Lexeme} : Gap gap → word.IsWord →
      word.EndsBefore rest → Spells words rest →
      Spells (word :: words) (gap ++ (word.spelled ++ rest))

/-! ## Splitting -/

/-- Blanks and comments are passed over. -/
theorem lexFrom_gap {gap : Text} (h : Gap gap) (rest : Text) {bound : Nat}
    (hbound : (gap ++ rest).length ≤ bound) (offset : Nat) :
    ∃ bound' offset', rest.length ≤ bound' ∧
      lexFrom bound offset (gap ++ rest) = lexFrom bound' offset' rest := by
  -- Every step passes over one character at least, so the bound never runs out before the text.
  induction h generalizing bound offset with
  | nil => exact ⟨bound, offset, hbound, rfl⟩
  | @blank c gap hc _ ih =>
    obtain ⟨bound, rfl⟩ : ∃ less, bound = less + 1 :=
      Nat.exists_eq_add_one.2 (Nat.lt_of_lt_of_le (by simp) hbound)
    obtain ⟨bound', offset', hbound', heq⟩ :=
      ih (Nat.le_of_succ_le_succ hbound) (offset + c.utf8Size)
    refine ⟨bound', offset', hbound', ?_⟩
    rw [List.cons_append, lexFrom, if_pos hc, heq]
  | @comment comment gap hcomment _ ih =>
    obtain ⟨bound, rfl⟩ : ∃ less, bound = less + 2 :=
      Nat.exists_eq_add_of_le' (Nat.le_trans (by simp) hbound)
    have hlength : (gap ++ rest).length ≤ bound := by
      simp only [List.cons_append, List.append_assoc, List.length_cons,
        List.length_append] at hbound ⊢
      omega
    -- The comment goes on to the end of the line, which is a blank.
    have hline : ('/' :: (comment ++ '\n' :: (gap ++ rest))).takeWhile (· ≠ '\n') =
        '/' :: comment := by
      have hall : ∀ c ∈ comment, decide (c ≠ '\n') = true :=
        fun c hc => decide_eq_true fun heq => hcomment (heq ▸ hc)
      rw [List.takeWhile_cons_of_pos (by decide), List.takeWhile_append_of_pos hall,
        List.takeWhile_cons_of_neg (by decide), List.append_nil]
    obtain ⟨bound', offset', hbound', heq⟩ := ih hlength
      (offset + Text.size ('/' :: '/' :: comment) + '\n'.utf8Size)
    refine ⟨bound', offset', hbound', ?_⟩
    rw [List.cons_append, List.cons_append, List.append_assoc, List.cons_append, lexFrom,
      if_neg (by decide), if_pos ⟨rfl, rfl⟩]
    dsimp only
    rw [hline, List.length_cons, List.drop_succ_cons, List.drop_left, lexFrom, if_pos (by decide),
      heq]

/-- No blank is the first character of a name. -/
theorem isSeparator_eq_false_of_startsName {c : Char} (h : startsName c = true) :
    isSeparator c = false := by
  simp only [isSeparator, Bool.or_eq_false_iff, decide_eq_false_iff_not]
  refine ⟨⟨⟨?_, ?_⟩, ?_⟩, ?_⟩ <;> rintro rfl <;> exact absurd h (by decide)

/-- A word is split off if its first character opens neither a blank nor a comment and `word` finds
all of it there. -/
theorem lexFrom_of_word {word : Lexeme} {c : Char} {later rest : Text}
    (hspelled : word.spelled = c :: later) (hc : isSeparator c = false) (hslash : c ≠ '/')
    (hfound : Description.word c (later ++ rest) = (word, later.length)) {bound : Nat}
    (hbound : (word.spelled ++ rest).length ≤ bound) (offset : Nat) :
    ∃ span bound' offset', rest.length ≤ bound' ∧
      lexFrom bound offset (word.spelled ++ rest) =
        ⟨word, span⟩ :: lexFrom bound' offset' rest := by
  rw [hspelled, List.cons_append] at hbound ⊢
  obtain ⟨bound, rfl⟩ : ∃ less, bound = less + 1 :=
    Nat.exists_eq_add_one.2 (Nat.lt_of_lt_of_le (by simp) hbound)
  rw [List.length_cons, List.length_append] at hbound
  rw [lexFrom, if_neg (by simp [hc]), if_neg (fun h => hslash h.1), hfound]
  dsimp only
  rw [List.drop_left]
  exact ⟨_, bound, _, by omega, rfl⟩

/-- A word is split off. -/
theorem lexFrom_word {word : Lexeme} (hword : word.IsWord) {rest : Text}
    (hends : word.EndsBefore rest) {bound : Nat}
    (hbound : (word.spelled ++ rest).length ≤ bound) (offset : Nat) :
    ∃ span bound' offset', rest.length ≤ bound' ∧
      lexFrom bound offset (word.spelled ++ rest) =
        ⟨word, span⟩ :: lexFrom bound' offset' rest := by
  cases word with
  | name chars =>
    cases chars with
    | nil => exact hword.elim
    | cons c later =>
      obtain ⟨hstarts, hcontinues⟩ := hword
      -- A name goes on as long as characters continue it, and what follows it does not.
      have hname : (later ++ rest).takeWhile continuesName = later := by
        rw [List.takeWhile_append_of_pos hcontinues]
        cases rest with
        | nil => simp
        | cons d rest =>
          have hd : continuesName d = false := hends
          simp [hd]
      refine lexFrom_of_word rfl (isSeparator_eq_false_of_startsName hstarts) ?_ ?_ hbound offset
      · rintro rfl
        exact absurd hstarts (by decide)
      · rw [Description.word, if_pos hstarts]
        dsimp only
        rw [hname]
  | literal text =>
    -- Quotation marks in the text are escaped, so the literal ends at the closing one.
    refine lexFrom_of_word rfl (by decide) (by decide) ?_ hbound offset
    rw [Description.word, if_neg (by decide), if_pos rfl, List.append_assoc, List.singleton_append,
      extent?_escape, Nat.zero_add]
    dsimp only
    rw [List.take_left, unescape_escape, List.length_append]
    rfl
  | mark c =>
    obtain ⟨hseparator, hstarts, hquote, hslash⟩ := hword
    have hspelled : (Lexeme.mark c).spelled = [c] := rfl
    refine lexFrom_of_word hspelled hseparator hslash ?_ hbound offset
    rw [Description.word, if_neg (by simp [hstarts]), if_neg hquote, if_neg hslash]
    rfl
  | pattern => exact hword.elim
  | openPattern => exact hword.elim
  | stop => exact hword.elim

/-- Splitting a text that spells words gives these words, and the end. -/
theorem map_lexeme_lexFrom {words : List Lexeme} {text : Text} (h : Spells words text) {bound : Nat}
    (hbound : text.length ≤ bound) (offset : Nat) :
    (lexFrom bound offset text).map Placed.lexeme = words ++ [.stop] := by
  induction h generalizing bound offset with
  | @nil gap hgap =>
    obtain ⟨bound', offset', -, heq⟩ := lexFrom_gap hgap [] (by simpa using hbound) offset
    rw [List.append_nil] at heq
    rw [heq, lexFrom]
    rfl
  | cons hgap hword hends _ ih =>
    obtain ⟨bound', offset', hbound', heq⟩ := lexFrom_gap hgap _ hbound offset
    obtain ⟨span, bound'', offset'', hbound'', heq'⟩ := lexFrom_word hword hends hbound' offset'
    rw [heq, heq', List.map_cons, ih hbound'']
    rfl

theorem map_lexeme_lex {words : List Lexeme} {text : Text} (h : Spells words text) :
    (lex text).map Placed.lexeme = words ++ [.stop] :=
  map_lexeme_lexFrom h (Nat.le_refl _) 0

/-! ## Every word can be spelled -/

/-- The words with a blank behind each of them. -/
def spellOut (words : List Lexeme) : Text :=
  words.flatMap fun word => word.spelled ++ [' ']

/-- One more blank ahead changes nothing. -/
theorem Spells.blank {words : List Lexeme} {text : Text} {c : Char} (h : Spells words text)
    (hc : isSeparator c = true) : Spells words (c :: text) := by
  cases h with
  | nil hgap => exact .nil (.blank hc hgap)
  | cons hgap hword hends hrest => exact .cons (.blank hc hgap) hword hends hrest

theorem spells_spellOut {words : List Lexeme} (h : ∀ word ∈ words, word.IsWord) :
    Spells words (spellOut words) := by
  induction words with
  | nil => exact .nil .nil
  | cons word words ih =>
    obtain ⟨hword, hwords⟩ := List.forall_mem_cons.1 h
    have hends : word.EndsBefore (' ' :: spellOut words) := by
      -- A blank continues no name.
      cases word <;> trivial
    have hspells := Spells.cons .nil hword hends ((ih hwords).blank (by decide))
    simpa [spellOut] using hspells

end Retrace.Description
