import Retrace.Markup.Token

/-!
# Runs of characters

Texts are read in two ways: up to the first character outside some class, or up to the first
occurrence of some needle. Either way, what has been read is read again in front of another text, as
long as that text does not prolong it.

## Main definitions

* `Text.Stops`: a text does not go on with a character of a class;
* `Text.IsBefore`: a text in front of a needle in which the needle does not begin earlier.

## Main results

* `Text.takeWhile_append`, `Text.dropWhile_append`: a run is read up to its end;
* `Text.cut?_eq_some`: a text is cut around a needle exactly at its first occurrence.
-/

namespace Retrace.Text

variable {p : Char → Bool} {run rest needle body passed text : Text} {c : Char}

/-! ## Runs of a class -/

/-- A text does not begin with a character of a class. -/
def Stops (p : Char → Bool) (rest : Text) : Prop :=
  ∀ c, rest.head? = some c → p c = false

theorem stops_nil (p : Char → Bool) : Stops p [] := by
  intro c h
  cases h

@[simp] theorem stops_cons : Stops p (c :: rest) ↔ p c = false := by
  simp [Stops]

/-- Whether a text goes on with a class is decided by its first character. -/
theorem Stops.congr {other : Text} (h : Stops p rest) (hhead : other.head? = rest.head?) :
    Stops p other := by
  intro c hc
  exact h c (hhead ▸ hc)

theorem stops_append (hrun : Stops p run) (hrest : Stops p rest) : Stops p (run ++ rest) := by
  cases run with
  | nil => exact hrest
  | cons c later => exact hrun

/-- Behind a run the text does not go on with its class. -/
theorem stops_dropWhile (p : Char → Bool) (text : Text) : Stops p (text.dropWhile p) := by
  intro c hc
  have h := List.head?_dropWhile_not p text
  rw [hc] at h
  simpa using h

/-- A run is read up to its end. -/
theorem takeWhile_append (hrun : run.all p = true) (hrest : Stops p rest) :
    (run ++ rest).takeWhile p = run := by
  rw [List.takeWhile_append_of_pos (List.all_eq_true.1 hrun)]
  cases rest with
  | nil => rw [List.takeWhile_nil, List.append_nil]
  | cons c later =>
    have hc : p c = false := stops_cons.1 hrest
    rw [List.takeWhile_cons, hc, if_neg Bool.false_ne_true, List.append_nil]

/-- What is left behind a run is the text behind it. -/
theorem dropWhile_append (hrun : run.all p = true) (hrest : Stops p rest) :
    (run ++ rest).dropWhile p = rest := by
  rw [List.dropWhile_append_of_pos (List.all_eq_true.1 hrun)]
  cases rest with
  | nil => rfl
  | cons c later =>
    have hc : p c = false := stops_cons.1 hrest
    rw [List.dropWhile_cons, hc, if_neg Bool.false_ne_true]

/-- Two texts are cut in the same way where a run of a class ends. -/
theorem run_append_inj {run' rest' : Text} (hrun : run.all p = true) (hrun' : run'.all p = true)
    (hrest : Stops p rest) (hrest' : Stops p rest') (h : run ++ rest = run' ++ rest') :
    run = run' ∧ rest = rest' := by
  obtain rfl : run = run' := by
    rw [← takeWhile_append hrun hrest, h, takeWhile_append hrun' hrest']
  exact ⟨rfl, List.append_cancel_left h⟩

/-- Two texts are cut in the same way where a run of a class begins that goes up to the end. -/
theorem append_run_inj {run' rest' : Text} (hrun : run.all p = true) (hrun' : run'.all p = true)
    (hrest : Stops p rest.reverse) (hrest' : Stops p rest'.reverse)
    (h : rest ++ run = rest' ++ run') :
    rest = rest' ∧ run = run' := by
  have hreverse : run.reverse ++ rest.reverse = run'.reverse ++ rest'.reverse := by
    rw [← List.reverse_append, h, List.reverse_append]
  have hinj := run_append_inj (by rwa [List.all_reverse]) (by rwa [List.all_reverse]) hrest hrest'
    hreverse
  exact ⟨List.reverse_inj.1 hinj.2, List.reverse_inj.1 hinj.1⟩

/-- Two texts are cut at the first occurrence of a character in the same way. -/
theorem append_cons_inj {front other back : Text} (hfront : c ∉ front) (hother : c ∉ other)
    (h : front ++ c :: back = other ++ c :: rest) : front = other ∧ back = rest := by
  induction front generalizing other with
  | nil =>
    cases other with
    | nil => exact ⟨rfl, (List.cons.inj h).2⟩
    | cons d other => exact absurd (List.mem_cons.2 (Or.inl (List.cons.inj h).1)) hother
  | cons d front ih =>
    cases other with
    | nil => exact absurd (List.mem_cons.2 (Or.inl (List.cons.inj h).1.symm)) hfront
    | cons e other =>
      obtain ⟨hhead, htail⟩ := List.cons.inj h
      obtain ⟨rfl, hback⟩ := ih (mt (List.mem_cons_of_mem _) hfront)
        (mt (List.mem_cons_of_mem _) hother) htail
      exact ⟨by rw [hhead], hback⟩

/-! ## Cutting around a needle -/

/-- The needle does not begin before the end of `body` when it follows it. -/
def IsBefore (needle : Text) : (body : Text) → Prop
  | [] => True
  | c :: rest => needle.isPrefixOf (c :: rest ++ needle) = false ∧ IsBefore needle rest

instance decidableIsBefore (needle : Text) : (body : Text) → Decidable (IsBefore needle body)
  | [] => isTrue trivial
  | c :: rest =>
    have := decidableIsBefore needle rest
    inferInstanceAs (Decidable (needle.isPrefixOf (c :: rest ++ needle) = false ∧ _))

/-- A text is in front of the first place of a character if it does not contain the character. -/
theorem isBefore_singleton : IsBefore [c] body ↔ c ∉ body := by
  induction body with
  | nil => exact ⟨fun _ => List.not_mem_nil, fun _ => trivial⟩
  | cons d later ih =>
    have hhead : [c].isPrefixOf (d :: later ++ [c]) = (c == d) := Bool.and_true _
    rw [IsBefore, hhead, ih, List.mem_cons, not_or, beq_eq_false_iff_ne]

/-- Whether the needle begins where a text begins is seen from as many characters as it has. -/
theorem isPrefixOf_append (h : needle.length ≤ text.length) :
    needle.isPrefixOf (text ++ rest) = needle.isPrefixOf text := by
  rw [Bool.eq_iff_iff, List.isPrefixOf_iff_prefix, List.isPrefixOf_iff_prefix]
  constructor
  · intro hprefix
    exact List.prefix_of_prefix_length_le hprefix (List.prefix_append text rest) h
  · intro hprefix
    exact hprefix.trans (List.prefix_append text rest)

/-- The needle is found where it is expected, whatever follows it. -/
theorem cutInto_append (h : IsBefore needle body) :
    cutInto needle passed (body ++ (needle ++ rest)) = some (passed.reverse ++ body, rest) := by
  induction body generalizing passed with
  | nil =>
    rw [List.nil_append, List.append_nil]
    cases hall : needle ++ rest with
    | nil =>
      obtain ⟨rfl, rfl⟩ := List.append_eq_nil_iff.1 hall
      rfl
    | cons c later =>
      have hprefix : needle.isPrefixOf (c :: later) = true := by
        rw [← hall, List.isPrefixOf_iff_prefix]
        exact List.prefix_append needle rest
      rw [cutInto, if_pos hprefix, ← hall, List.drop_left]
  | cons c later ih =>
    -- That the needle does not begin here is seen before its end, so the rest is irrelevant.
    have hprefix : needle.isPrefixOf (c :: (later ++ (needle ++ rest))) = false := by
      rw [← h.1, ← List.append_assoc, ← List.cons_append, ← List.cons_append]
      refine isPrefixOf_append ?_
      simp only [List.length_append]
      exact Nat.le_add_left ..
    rw [List.cons_append, cutInto, hprefix, if_neg Bool.false_ne_true, ih h.2, List.reverse_cons,
      List.append_assoc, List.singleton_append]

/-- A text that is cut consists of the two parts with the needle between them. -/
theorem exists_of_cutInto {found : Text × Text} (h : cutInto needle passed text = some found) :
    ∃ body, IsBefore needle body ∧ found.1 = passed.reverse ++ body ∧
      text = body ++ (needle ++ found.2) := by
  induction text generalizing passed with
  | nil =>
    unfold cutInto at h
    split at h
    · rename_i hneedle
      obtain rfl := List.isEmpty_iff.1 hneedle
      obtain rfl := Option.some.inj h
      exact ⟨[], trivial, (List.append_nil _).symm, rfl⟩
    · cases h
  | cons c rest ih =>
    unfold cutInto at h
    split at h
    · rename_i hprefix
      obtain rfl := Option.some.inj h
      obtain ⟨later, hlater⟩ := List.isPrefixOf_iff_prefix.1 hprefix
      refine ⟨[], trivial, (List.append_nil _).symm, ?_⟩
      rw [← hlater, List.drop_left, List.nil_append]
    · rename_i hprefix
      obtain ⟨body, hbody, hfound, hrest⟩ := ih h
      rw [List.reverse_cons, List.append_assoc, List.singleton_append] at hfound
      refine ⟨c :: body, ⟨?_, hbody⟩, hfound, by rw [hrest, List.cons_append]⟩
      -- Seen from the needle that was found, an earlier one would have been found before it.
      have hlength : needle.length ≤ (c :: body ++ needle).length := by
        rw [List.length_append]
        exact Nat.le_add_left ..
      have happend : needle.isPrefixOf (c :: body ++ needle ++ found.2) =
          needle.isPrefixOf (c :: body ++ needle) := isPrefixOf_append hlength
      rw [List.append_assoc, List.cons_append, ← hrest] at happend
      rw [← happend]
      exact Bool.eq_false_iff.2 hprefix

/-- A text is cut around a needle exactly at its first occurrence. -/
theorem cut?_eq_some :
    cut? needle text = some (body, rest) ↔
      IsBefore needle body ∧ text = body ++ (needle ++ rest) := by
  constructor
  · intro h
    obtain ⟨body', hbefore, hbody, htext⟩ := exists_of_cutInto h
    obtain rfl : body = body' := hbody
    exact ⟨hbefore, htext⟩
  · rintro ⟨hbefore, rfl⟩
    exact cutInto_append hbefore

end Retrace.Text
