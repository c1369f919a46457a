import Retrace.Proofs.Except
import Retrace.Proofs.Markup.Reference
import Retrace.Proofs.Text.Digits

/-!
# Which raw texts can be decoded

In a raw text every ampersand has to begin a reference. If it does, the text that the raw one stands
for is determined piece by piece, and `decode` gives it; otherwise `decode` blames the first
ampersand that begins none. What a reference looks like is said without the reader: a name between
the ampersand and the semicolon is one of five, or it is a number sign with the number of a
character behind it, in decimal or, behind an `x`, in hexadecimal digits. The reader accepts a plus
sign in front of the digits as well, and that is all that it accepts besides.

## Main definitions

* `Refers`: what stands between the ampersand and the semicolon of a reference;
* `Completes`: what follows an ampersand makes it the beginning of a reference;
* `Resolves`: a raw text and the text that it stands for;
* `Blames`: what is reported about an ampersand that begins no reference.

## Main results

* `referenced?_eq_some_iff`: the names that stand for a character are those of references;
* `exists_resolves_iff`: a raw text stands for a text if every ampersand begins a reference;
* `decode_iff`: what is decoded, as what, and what is blamed otherwise;
* `decode_signed`: a number with a plus sign is decoded, though it is no reference in the markup.
-/

namespace Retrace.Markup

open Text (IsNumeral optionalPlus)

variable {signs signs' : List Text} {name raw front behind rest decoded text : Text} {c : Char}

/-! ## References -/

/-- Nothing at all. -/
def noSign : List Text :=
  [[]]

/-- What stands between the ampersand and the semicolon of a reference, and the character that the
reference stands for. One of `signs` stands in front of the digits of a number. -/
inductive Refers (signs : List Text) : (name : Text) → (c : Char) → Prop where
  /-- A character that has a reference by name. -/
  | named {name : String} {c : Char} : (name, c) ∈ namedReferences → Refers signs name.toList c
  /-- A character by its number in decimal digits. -/
  | decimal {sign digits : Text} {c : Char} : sign ∈ signs → IsNumeral 10 digits c.toNat →
    Refers signs ('#' :: (sign ++ digits)) c
  /-- A character by its number in hexadecimal digits. -/
  | hexadecimal {mark : Char} {sign digits : Text} {c : Char} : mark ∈ ['x', 'X'] →
    sign ∈ signs → IsNumeral 16 digits c.toNat → Refers signs ('#' :: mark :: (sign ++ digits)) c

/-- What follows an ampersand makes it the beginning of a reference. -/
def Completes (signs : List Text) (behind : Text) : Prop :=
  ∃ name rest c, behind = name ++ ';' :: rest ∧ Refers signs name c

/-- More signs make more references. -/
theorem Refers.mono (hsigns : signs ⊆ signs') (h : Refers signs name c) :
    Refers signs' name c := by
  cases h with
  | named hmem => exact .named hmem
  | decimal hsign hdigits => exact .decimal (hsigns hsign) hdigits
  | hexadecimal hmark hsign hdigits => exact .hexadecimal hmark (hsigns hsign) hdigits

/-- A character that stands in no name, in no sign and in no digit stands in no reference. -/
theorem Refers.not_mem_of {d : Char} (h : Refers optionalPlus name c)
    (hnames : ∀ entry ∈ namedReferences, d ∉ entry.1.toList) (hmarks : d ∉ ['#', 'x', 'X'])
    (hsigns : ∀ sign ∈ optionalPlus, d ∉ sign)
    (hdigits : ∀ value < 16, d ≠ value.digitChar ∧ d ≠ value.digitChar.toUpper) : d ∉ name := by
  have hnumber : d ≠ '#' := (ne_of_mem_of_not_mem List.mem_cons_self hmarks).symm
  cases h with
  | @named name c hmem => exact hnames (name, c) hmem
  | decimal hsign hnumeral =>
    refine List.not_mem_cons_of_ne_of_not_mem hnumber (List.not_mem_append (hsigns _ hsign) ?_)
    exact hnumeral.not_mem fun value hlt => hdigits value (by omega)
  | hexadecimal hmark hsign hnumeral =>
    have hne := ne_of_mem_of_not_mem (List.mem_cons_of_mem '#' hmark) hmarks
    refine List.not_mem_cons_of_ne_of_not_mem hnumber
      (List.not_mem_cons_of_ne_of_not_mem hne.symm ?_)
    exact List.not_mem_append (hsigns _ hsign) (hnumeral.not_mem hdigits)

/-- A reference begins with its only ampersand and ends with its only semicolon. -/
theorem Refers.not_mem (h : Refers optionalPlus name c) : '&' ∉ name ∧ ';' ∉ name :=
  ⟨h.not_mem_of (by decide) (by decide) (by decide) (by decide),
    h.not_mem_of (by decide) (by decide) (by decide) (by decide)⟩

/-- The number of a character is below the limit of numbers, so it is read. -/
theorem bind_scalar?_eq_some_iff {base : Nat} (hbase : base ≤ 16) :
    (Text.numeral? base referenceLimit text).bind Text.scalar? = some c ↔
      ∃ sign ∈ optionalPlus, ∃ digits, text = sign ++ digits ∧ IsNumeral base digits c.toNat := by
  have hlimit : c.toNat < referenceLimit := c.val.toNat_lt
  simp only [Option.bind_eq_some_iff, Text.numeral?_eq_some_iff hbase, Text.scalar?_eq_some_iff,
    exists_eq_right', hlimit, true_and]

/-- Digits behind an `x` are hexadecimal ones, all others are decimal ones. -/
theorem numbered?_eq_some_iff : numbered? text = some c ↔ Refers optionalPlus ('#' :: text) c := by
  have hbase : 10 ≤ 16 := by decide
  have hnames : ∀ entry ∈ namedReferences, entry.1.toList.head? ≠ some '#' := by decide
  constructor
  · intro h
    unfold numbered? at h
    dsimp only at h
    split at h
    · obtain ⟨sign, hsign, digits, rfl, hdigits⟩ := (bind_scalar?_eq_some_iff le_rfl).1 h
      exact .hexadecimal (by decide) hsign hdigits
    · obtain ⟨sign, hsign, digits, rfl, hdigits⟩ := (bind_scalar?_eq_some_iff le_rfl).1 h
      exact .hexadecimal (by decide) hsign hdigits
    · obtain ⟨sign, hsign, digits, rfl, hdigits⟩ := (bind_scalar?_eq_some_iff hbase).1 h
      exact .decimal hsign hdigits
  · intro h
    generalize hwhole : '#' :: text = whole at h
    cases h with
    | @named name c hmem =>
      exact absurd (by rw [← hwhole]; rfl) (hnames (name, c) hmem)
    | @decimal sign digits c hsign hdigits =>
      obtain rfl := (List.cons.inj hwhole).2
      -- A decimal number begins with no `x`, so its digits are read as decimal ones.
      have hsigns : ∀ sign ∈ optionalPlus, 'x' ∉ sign ∧ 'X' ∉ sign := by decide
      have hlower : 'x' ∉ sign ++ digits :=
        List.not_mem_append (hsigns sign hsign).1 (hdigits.not_mem (by decide))
      have hupper : 'X' ∉ sign ++ digits :=
        List.not_mem_append (hsigns sign hsign).2 (hdigits.not_mem (by decide))
      have hread := (bind_scalar?_eq_some_iff hbase).2 ⟨sign, hsign, digits, rfl, hdigits⟩
      unfold numbered?
      dsimp only
      split
      · rename_i heq
        exact absurd List.mem_cons_self (heq ▸ hlower)
      · rename_i heq
        exact absurd List.mem_cons_self (heq ▸ hupper)
      · exact hread
    | @hexadecimal mark sign digits c hmark hsign hdigits =>
      obtain rfl := (List.cons.inj hwhole).2
      have hread := (bind_scalar?_eq_some_iff le_rfl).2 ⟨sign, hsign, digits, rfl, hdigits⟩
      obtain rfl | rfl : mark = 'x' ∨ mark = 'X' := by simpa using hmark
      · exact hread
      · exact hread

/-- The names that stand for a character are those of references, with a plus sign or without. -/
theorem referenced?_eq_some_iff : referenced? name = some c ↔ Refers optionalPlus name c := by
  constructor
  · intro h
    unfold referenced? at h
    split at h
    · rename_i entry found hfind
      obtain rfl := Option.some.inj h
      obtain rfl : entry.toList = name := by simpa using List.find?_some hfind
      exact .named (List.mem_of_find?_eq_some hfind)
    · split at h
      · exact numbered?_eq_some_iff.1 h
      · cases h
  · intro h
    have hnamed : ∀ entry ∈ namedReferences, referenced? entry.1.toList = some entry.2 := by decide
    -- No name of a reference begins with the mark of a number, so numbers are not found among them.
    have hnone (text : Text) :
        namedReferences.find? (fun entry => entry.1.toList = '#' :: text) = none := by
      have hnames : ∀ entry ∈ namedReferences, entry.1.toList.head? ≠ some '#' := by decide
      refine List.find?_eq_none.2 fun entry hentry heq => hnames entry hentry ?_
      rw [of_decide_eq_true heq]
      rfl
    cases h with
    | @named name c hmem => exact hnamed (name, c) hmem
    | decimal hsign hdigits =>
      rw [referenced?, hnone]
      exact numbered?_eq_some_iff.2 (.decimal hsign hdigits)
    | hexadecimal hmark hsign hdigits =>
      rw [referenced?, hnone]
      exact numbered?_eq_some_iff.2 (.hexadecimal hmark hsign hdigits)

/-! ## Texts with references -/

/-- A raw text stands for a text: every reference for its character, everything else for itself. -/
inductive Resolves (signs : List Text) : (raw text : Text) → Prop where
  /-- Nothing is left. -/
  | nil : Resolves signs [] []
  /-- A character that begins no reference is kept. -/
  | plain {c : Char} {raw text : Text} : c ≠ '&' → Resolves signs raw text →
    Resolves signs (c :: raw) (c :: text)
  /-- A reference is replaced by its character. -/
  | reference {name raw text : Text} {c : Char} : Refers signs name c → Resolves signs raw text →
    Resolves signs ('&' :: (name ++ ';' :: raw)) (c :: text)

/-- A reference goes on in the same way whatever follows. -/
theorem Completes.append (h : Completes signs behind) (later : Text) :
    Completes signs (behind ++ later) := by
  obtain ⟨name, rest, c, rfl, hname⟩ := h
  exact ⟨name, rest ++ later, c, by rw [List.append_assoc, List.cons_append], hname⟩

/-- In a raw text that stands for a text every ampersand begins a reference. -/
theorem Resolves.completes (h : Resolves optionalPlus raw text)
    (hraw : raw = front ++ '&' :: behind) : Completes optionalPlus behind := by
  induction h generalizing front with
  | nil => simp at hraw
  | plain hc _ ih =>
    cases front with
    | nil => exact absurd (List.cons.inj hraw).1 hc
    | cons d front => exact ih (List.cons.inj hraw).2
  | @reference name raw text c hname _ ih =>
    cases front with
    | nil => exact ⟨name, raw, c, (List.cons.inj hraw).2.symm, hname⟩
    | cons d front =>
      -- Another ampersand can only stand behind the semicolon.
      rcases List.append_eq_append_iff.1 (List.cons.inj hraw).2 with
        ⟨later, rfl, hlater⟩ | ⟨later, rfl, hlater⟩
      · cases later with
        | nil => exact absurd (List.cons.inj hlater).1 (by decide)
        | cons d later => exact ih (List.cons.inj hlater).2
      · cases later with
        | nil => exact absurd (List.cons.inj hlater).1 (by decide)
        | cons d later =>
          obtain rfl := (List.cons.inj hlater).1
          exact absurd (by simp) hname.not_mem.1

/-- A raw text stands for a text, or there is a first ampersand that begins no reference. -/
theorem exists_resolves_or (signs : List Text) (raw : Text) :
    (∃ text, Resolves signs raw text) ∨ ∃ front text behind,
      raw = front ++ '&' :: behind ∧ Resolves signs front text ∧ ¬ Completes signs behind := by
  -- A reference takes several characters at once, so the induction is on the length.
  induction hlength : raw.length using Nat.strongRecOn generalizing raw with
  | ind length ih =>
    subst hlength
    cases raw with
    | nil => exact Or.inl ⟨[], .nil⟩
    | cons d later =>
      by_cases hd : d = '&'
      · subst hd
        by_cases hcompletes : Completes signs later
        · obtain ⟨name, rest, c, rfl, hname⟩ := hcompletes
          have hlt : rest.length < ('&' :: (name ++ ';' :: rest)).length := by
            simp only [List.length_cons, List.length_append]
            omega
          rcases ih _ hlt rest rfl with ⟨text, htext⟩ | ⟨front, text, behind, rfl, htext, hstuck⟩
          · exact Or.inl ⟨c :: text, .reference hname htext⟩
          · refine Or.inr ⟨'&' :: (name ++ ';' :: front), c :: text, behind, ?_,
              .reference hname htext, hstuck⟩
            simp only [List.cons_append, List.append_assoc]
        · exact Or.inr ⟨[], [], later, rfl, .nil, hcompletes⟩
      · rcases ih _ (Nat.lt_succ_self _) later rfl with
          ⟨text, htext⟩ | ⟨front, text, behind, rfl, htext, hstuck⟩
        · exact Or.inl ⟨d :: text, .plain hd htext⟩
        · exact Or.inr ⟨d :: front, d :: text, behind, rfl, .plain hd htext, hstuck⟩

/-- A raw text stands for a text exactly if every ampersand begins a reference. -/
theorem exists_resolves_iff : (∃ text, Resolves optionalPlus raw text) ↔
    ∀ front behind, raw = front ++ '&' :: behind → Completes optionalPlus behind := by
  constructor
  · rintro ⟨text, h⟩ front behind hraw
    exact h.completes hraw
  · intro h
    rcases exists_resolves_or optionalPlus raw with hresolves | ⟨front, _, behind, hraw, -, hstuck⟩
    · exact hresolves
    · exact absurd (h front behind hraw) hstuck

/-! ## Decoding -/

/-- What is reported about an ampersand at `offset` that begins no reference. -/
inductive Blames (offset : Nat) : (behind : Text) → ReferenceError → Span → Prop where
  /-- There is no semicolon, so everything is blamed. -/
  | unterminated {behind : Text} : ';' ∉ behind →
    Blames offset behind .unterminated ⟨offset, offset + 1 + Text.size behind⟩
  /-- What stands in front of the first semicolon refers to nothing. -/
  | unknown {name rest : Text} : ';' ∉ name →
    Blames offset (name ++ ';' :: rest) (.unknown name) ⟨offset, offset + Text.size name + 2⟩

/-- What stands for a text is decoded as this text, whatever follows it. -/
theorem decodeInto_append (h : Resolves optionalPlus front text) (offset : Nat)
    (decoded rest : Text) {bound : Nat} (hbound : (front ++ rest).length < bound) :
    ∃ bound', rest.length < bound' ∧ decodeInto bound offset decoded (front ++ rest) =
      decodeInto bound' (offset + Text.size front) (text.reverse ++ decoded) rest := by
  -- A reference takes one from the bound, any other character none.
  induction h generalizing bound offset decoded with
  | nil => exact ⟨bound, hbound, rfl⟩
  | @plain c raw text hc _ ih =>
    rw [List.cons_append, List.length_cons] at hbound
    obtain ⟨bound, rfl⟩ := Nat.exists_eq_succ_of_ne_zero (Nat.ne_zero_of_lt hbound)
    obtain ⟨bound', hbound', heq⟩ :=
      ih (offset + c.utf8Size) (c :: decoded) (Nat.lt_of_succ_lt hbound)
    refine ⟨bound', hbound', ?_⟩
    rw [List.cons_append, decodeInto_cons hc, heq, Text.size_cons, List.reverse_cons,
      List.append_assoc, Nat.add_assoc, List.singleton_append]
  | @reference name raw text c hname _ ih =>
    rw [List.cons_append, List.append_assoc, List.cons_append] at hbound ⊢
    simp only [List.length_cons, List.length_append] at hbound
    obtain ⟨bound, rfl⟩ := Nat.exists_eq_succ_of_ne_zero (Nat.ne_zero_of_lt hbound)
    have hlt : (raw ++ rest).length < bound := by
      rw [List.length_append]
      omega
    obtain ⟨bound', hbound', heq⟩ := ih (offset + Text.size name + 2) (c :: decoded) hlt
    have hbefore : Text.IsBefore [';'] name := Text.isBefore_singleton.2 hname.not_mem.2
    have hsize : offset + Text.size ('&' :: (name ++ ';' :: raw)) =
        offset + Text.size name + 2 + Text.size raw := by
      simp only [Text.size_cons, Text.size_append, show Char.utf8Size '&' = 1 from rfl,
        show Char.utf8Size ';' = 1 from rfl]
      omega
    refine ⟨bound', hbound', ?_⟩
    rw [decodeInto_reference hbefore (referenced?_eq_some_iff.2 hname), heq, hsize,
      List.reverse_cons, List.append_assoc, List.singleton_append]

/-- An ampersand that begins no reference is blamed. -/
theorem exists_blames_of_decodeInto (h : ¬ Completes optionalPlus behind) (bound offset : Nat) :
    ∃ fault span, decodeInto (bound + 1) offset decoded ('&' :: behind) = .error (fault, span) ∧
      Blames offset behind fault span := by
  have htake : ('&' :: behind).takeWhile (· ≠ '&') = [] := rfl
  have hdrop : ('&' :: behind).dropWhile (· ≠ '&') = '&' :: behind := rfl
  have hsize : offset + Text.size ('&' :: behind) = offset + 1 + Text.size behind := by
    rw [Text.size_cons, Nat.add_assoc]
    rfl
  rw [decodeInto, htake, hdrop, hsize]
  dsimp only
  cases hcut : Text.cut? [';'] behind with
  | none =>
    refine ⟨_, _, rfl, .unterminated fun hmem => ?_⟩
    -- Behind the characters in front of it, the first semicolon would have been found.
    obtain ⟨name, rest, rfl, hname⟩ := List.eq_append_cons_of_mem hmem
    have hfound : Text.cut? [';'] (name ++ ';' :: rest) = some (name, rest) :=
      Text.cut?_eq_some.2 ⟨Text.isBefore_singleton.2 hname, rfl⟩
    rw [hcut] at hfound
    cases hfound
  | some found =>
    obtain ⟨name, rest⟩ := found
    obtain ⟨hbefore, rfl⟩ := Text.cut?_eq_some.1 hcut
    dsimp only
    cases hname : referenced? name with
    | none => exact ⟨_, _, rfl, .unknown (Text.isBefore_singleton.1 hbefore)⟩
    | some c => exact absurd ⟨name, rest, c, rfl, referenced?_eq_some_iff.1 hname⟩ h

/-- What stands for a text is decoded as this text. -/
theorem Resolves.decode_eq (h : Resolves optionalPlus raw text) (offset : Nat) :
    decode offset raw = .ok text := by
  have hlt : (raw ++ []).length < raw.length + 1 := by
    rw [List.append_nil]
    exact Nat.lt_succ_self _
  obtain ⟨bound, hbound, heq⟩ := decodeInto_append h offset [] [] hlt
  obtain ⟨bound, rfl⟩ := Nat.exists_eq_succ_of_ne_zero (Nat.ne_zero_of_lt hbound)
  rw [List.append_nil, List.append_nil] at heq
  rw [decode, heq]
  show Except.ok ([] ++ text.reverse).reverse = _
  rw [List.nil_append, List.reverse_reverse]

/-- If an ampersand begins no reference and all ahead of it do, it is blamed. -/
theorem exists_blames_of_resolves (h : Resolves optionalPlus front text)
    (hstuck : ¬ Completes optionalPlus behind) (offset : Nat) :
    ∃ fault span, decode offset (front ++ '&' :: behind) = .error (fault, span) ∧
      Blames (offset + Text.size front) behind fault span := by
  obtain ⟨bound, hbound, heq⟩ := decodeInto_append h offset [] _
    (Nat.lt_succ_self (front ++ '&' :: behind).length)
  obtain ⟨bound, rfl⟩ := Nat.exists_eq_succ_of_ne_zero (Nat.ne_zero_of_lt hbound)
  rw [decode, heq]
  exact exists_blames_of_decodeInto hstuck bound _

/-- A raw text is decoded exactly if every ampersand in it begins a reference, where a plus sign may
stand in front of the digits of a number. What is decoded is the raw text with each reference
replaced by its character and everything else kept. Otherwise the first ampersand that begins no
reference is blamed, with everything up to the next semicolon. -/
theorem decode_iff (offset : Nat) (raw : Text) :
    ((∃ text, decode offset raw = .ok text) ↔
      ∀ front behind, raw = front ++ '&' :: behind → Completes optionalPlus behind) ∧
    (∀ text, decode offset raw = .ok text ↔ Resolves optionalPlus raw text) ∧
    ∀ fault span, decode offset raw = .error (fault, span) →
      ∃ front behind, raw = front ++ '&' :: behind ∧
        (∀ earlier later, front = earlier ++ '&' :: later →
          Completes optionalPlus (later ++ '&' :: behind)) ∧
        ¬ Completes optionalPlus behind ∧ span.start = offset + Text.size front ∧
        Blames (offset + Text.size front) behind fault span := by
  have hresolves (text : Text) : decode offset raw = .ok text ↔ Resolves optionalPlus raw text := by
    refine ⟨fun hok => ?_, fun h => h.decode_eq offset⟩
    rcases exists_resolves_or optionalPlus raw with
      ⟨text', h⟩ | ⟨front, text', behind, rfl, h, hstuck⟩
    · obtain rfl := Except.ok.inj ((h.decode_eq offset).symm.trans hok)
      exact h
    · obtain ⟨fault, span, herror, -⟩ := exists_blames_of_resolves h hstuck offset
      rw [hok] at herror
      cases herror
  refine ⟨?_, hresolves, fun fault span herror => ?_⟩
  · simp only [hresolves]
    exact exists_resolves_iff
  · rcases exists_resolves_or optionalPlus raw with
      ⟨text, h⟩ | ⟨front, text, behind, rfl, h, hstuck⟩
    · rw [h.decode_eq] at herror
      cases herror
    · obtain ⟨fault', span', herror', hblames⟩ := exists_blames_of_resolves h hstuck offset
      obtain ⟨rfl, rfl⟩ := Prod.mk.inj (Except.error.inj (herror'.symm.trans herror))
      refine ⟨front, behind, rfl, fun earlier later hfront => ?_, hstuck, ?_, hblames⟩
      · exact (h.completes hfront).append _
      · cases hblames <;> rfl

/-- A plus sign in front of the digits makes no reference of the markup, but it is decoded. -/
theorem decode_signed :
    (∃ text, decode 0 "&#+65;".toList = .ok text) ∧
      ¬ ∀ front behind, "&#+65;".toList = front ++ '&' :: behind → Completes noSign behind := by
  refine ⟨⟨['A'], by rw [← Except.toOption_eq_some]; decide⟩, fun h => ?_⟩
  obtain ⟨name, rest, c, hbehind, hname⟩ := h [] "#+65;".toList rfl
  have hsigned : Refers optionalPlus name c := hname.mono (by decide)
  obtain ⟨rfl, -⟩ : "#+65".toList = name ∧ [] = rest :=
    Text.append_cons_inj (by decide) hsigned.not_mem.2 hbehind
  generalize hwhole : "#+65".toList = whole at hname
  cases hname with
  | @named name c hmem =>
    have hnames : ∀ entry ∈ namedReferences, "#+65".toList ≠ entry.1.toList := by decide
    exact hnames (name, c) hmem hwhole
  | @decimal sign digits c hsign hdigits =>
    obtain rfl : sign = [] := by simpa [noSign] using hsign
    obtain rfl : "+65".toList = digits := (List.cons.inj hwhole).2
    exact hdigits.not_mem (by decide) (List.mem_cons_self : '+' ∈ "+65".toList)
  | @hexadecimal mark sign digits c hmark hsign hdigits =>
    obtain ⟨rfl, -⟩ := List.cons.inj (List.cons.inj hwhole).2
    exact absurd hmark (by decide)

end Retrace.Markup
