import MessageCodec.Proofs.Identifier

/-!
# Identifiers settle

Reducing a text leaves letters and digits with single underscores between them. To keep such a text off digits and
reserved words takes an underscore at one of its ends, and reducing it again takes that underscore away. Hence an
identifier that was made of a text is made of itself.
-/

namespace MessageCodec

/-! ### Reduced texts -/

namespace Naming

variable {cs : List Char}

/-- No two underscores stand side by side. -/
def Single (cs : List Char) : Prop := cs.IsChain fun c d => ¬ (c = '_' ∧ d = '_')

/-- Letters and digits with single underscores between them. -/
structure Reduced (cs : List Char) : Prop where
  plain : ∀ c ∈ cs, isPlain c = true
  single : Single cs
  head : cs.head? ≠ some '_'
  last : cs.getLast? ≠ some '_'

private theorem head?_collapse (cs : List Char) : (collapse cs).head? = cs.head? := by
  induction cs using collapse.induct with
  | case1 => rfl
  | case2 c => rfl
  | case3 c d rest hboth ih =>
    rw [Bool.and_eq_true, decide_eq_true_eq, decide_eq_true_eq] at hboth
    rw [collapse, if_pos (by simpa using hboth), ih, hboth.1, hboth.2]
    rfl
  | case4 c d rest hboth ih =>
    rw [collapse, if_neg hboth]
    rfl

theorem single_collapse (cs : List Char) : Single (collapse cs) := by
  induction cs using collapse.induct with
  | case1 => exact .nil
  | case2 c => exact .singleton c
  | case3 c d rest hboth ih =>
    rw [collapse, if_pos hboth]
    exact ih
  | case4 c d rest hboth ih =>
    rw [collapse, if_neg hboth, Single, List.isChain_cons]
    refine ⟨?_, ih⟩
    intro e he
    rw [head?_collapse] at he
    obtain rfl := Option.some.inj he
    simpa using hboth

theorem collapse_of_single (h : Single cs) : collapse cs = cs := by
  induction cs using collapse.induct with
  | case1 => rfl
  | case2 c => rfl
  | case3 c d rest hboth ih =>
    rw [Bool.and_eq_true, decide_eq_true_eq, decide_eq_true_eq] at hboth
    exact absurd hboth (List.isChain_cons_cons.1 h).1
  | case4 c d rest hboth ih =>
    rw [collapse, if_neg hboth, ih (List.isChain_cons_cons.1 h).2]

/-- What is left out of a row of underscores is an underscore that stays. -/
theorem mem_collapse {c : Char} : c ∈ collapse cs ↔ c ∈ cs := by
  refine ⟨mem_of_mem_collapse, ?_⟩
  intro h
  induction cs using collapse.induct with
  | case1 => exact h
  | case2 d => exact h
  | case3 d e rest hboth ih =>
    rw [collapse, if_pos hboth]
    rw [Bool.and_eq_true, decide_eq_true_eq, decide_eq_true_eq] at hboth
    apply ih
    rcases List.mem_cons.1 h with rfl | h
    · rw [hboth.1, hboth.2]
      exact List.mem_cons_self
    · exact h
  | case4 d e rest hboth ih =>
    rw [collapse, if_neg hboth]
    rcases List.mem_cons.1 h with rfl | h
    · exact List.mem_cons_self
    · exact List.mem_cons_of_mem _ (ih h)

theorem reduced_reduced (cs : List Char) : Reduced (reduced cs) where
  plain := fun _ => isPlain_of_mem_reduced
  single := List.IsChain.infix (single_collapse (plain cs)) (Text.isInfix_trimWhile _ _)
  head := by
    intro h
    exact absurd (Text.eq_false_of_head?_trimWhile h) (by decide)
  last := by
    intro h
    exact absurd (Text.eq_false_of_getLast?_trimWhile h) (by decide)

/-- Nothing is left of a text just where it has no letters and digits. -/
theorem reduced_eq_nil_iff : reduced cs = [] ↔ ∀ c ∈ cs, c.isAlphanum = false := by
  have hchar : ∀ c : Char, ((if isPlain c = true then c else '_') == '_') = true ↔ c.isAlphanum = false := by
    intro c
    by_cases hunderscore : c = '_'
    · rw [hunderscore]
      decide
    · have hplain : isPlain c = c.isAlphanum := by
        rw [isPlain, decide_eq_false hunderscore, Bool.or_false]
      rw [hplain, beq_iff_eq]
      cases c.isAlphanum with
      | true => simp [hunderscore]
      | false => simp
  rw [reduced, Text.trimWhile_eq_nil_iff]
  constructor
  · intro h c hc
    exact (hchar c).1 (h _ (mem_collapse.2 (List.mem_map_of_mem hc)))
  · intro h d hd
    obtain ⟨c, hc, rfl⟩ := List.mem_map.1 (mem_collapse.1 hd)
    exact (hchar c).2 (h c hc)

/-- What may be put at an end of a text: nothing, or one underscore. -/
def Mark (ds : List Char) : Prop := ds = [] ∨ ds = ['_']

theorem Mark.eq {ds : List Char} (h : Mark ds) : ∀ c ∈ ds, c = '_' := by
  intro c hc
  rcases h with rfl | rfl
  · cases hc
  · exact List.mem_singleton.1 hc

theorem Mark.single {ds : List Char} (h : Mark ds) : Single ds := by
  rcases h with rfl | rfl
  · exact .nil
  · exact .singleton _

private theorem exists_guarded (cs : List Char) :
    ∃ before after, guarded cs = before ++ (cs ++ after) ∧ Mark before ∧ Mark after := by
  obtain ⟨opened, hopened, hguarded⟩ := guarded_eq cs
  obtain ⟨before, hbefore, rfl⟩ : ∃ before, Mark before ∧ opened = before ++ cs := by
    rcases hopened with rfl | ⟨rfl, -⟩
    · exact ⟨['_'], .inr rfl, rfl⟩
    · exact ⟨[], .inl rfl, rfl⟩
  rcases hguarded with ⟨heq, -⟩ | heq
  · refine ⟨before, [], ?_, hbefore, .inl rfl⟩
    rw [heq, List.append_nil]
  · refine ⟨before, ['_'], ?_, hbefore, .inr rfl⟩
    rw [heq, List.append_assoc]

/-- The underscores that were put at the ends of a reduced text are taken away again. -/
theorem reduced_guarded (h : Reduced cs) (hne : cs ≠ []) : reduced (guarded cs) = cs := by
  have hplain : plain (guarded cs) = guarded cs := plain_of_isPlain (word_guarded h.plain hne).plain
  obtain ⟨before, after, heq, hbefore, hafter⟩ := exists_guarded cs
  -- as the text has no underscores at its ends, the new ones stand alone
  have hsingle : Single (guarded cs) := by
    rw [heq, Single, List.isChain_append, List.isChain_append]
    refine ⟨hbefore.single, ⟨h.single, hafter.single, ?_⟩, ?_⟩
    · intro c hc d _ hboth
      exact h.last (hboth.1 ▸ hc)
    · intro c _ d hd hboth
      rw [List.head?_append_of_ne_nil _ hne] at hd
      exact h.head (hboth.2 ▸ hd)
  rw [reduced, hplain, collapse_of_single hsingle, heq]
  apply Text.trimWhile_padded
  · intro c hc
    rw [hbefore.eq c hc, beq_self_eq_true]
  · intro c hc
    rw [hafter.eq c hc, beq_self_eq_true]
  · intro c hc
    rw [beq_eq_false_iff_ne]
    rintro rfl
    exact h.head hc
  · intro c hc
    rw [beq_eq_false_iff_ne]
    rintro rfl
    exact h.last hc
  · exact hne

/-! ### Identifiers -/

theorem guarded_of_word (h : Word cs) (hkeyword : isKeyword (String.ofList cs) = false) : guarded cs = cs := by
  obtain ⟨c, hhead, hdigit⟩ := h.opens
  obtain ⟨rest, rfl⟩ := List.head?_eq_some_iff.1 hhead
  have hopen : Text.isDigit c = false := by
    rw [Text.isDigit, if_pos (lt_of_isPlain (h.plain c List.mem_cons_self)), hdigit]
  simp only [guarded, hopen, hkeyword, Bool.false_eq_true, if_false]

private theorem identifierOr_of_reduced {s : String} (h : reduced s.toList ≠ []) (fallback : String) :
    identifierOr s fallback = .ok (String.ofList (guarded (reduced s.toList))) := by
  have hsome : (reduced s.toList).isEmpty = false := by
    rwa [List.isEmpty_eq_false_iff]
  rw [identifierOr, hsome, Bool.false_and, if_neg Bool.false_ne_true, identifier, hsome]
  rfl

private theorem identifierOr_of_empty {s fallback : String} (h : reduced s.toList = []) (hfallback : fallback ≠ "") :
    identifierOr s fallback = .ok (String.ofList (guarded fallback.toList)) := by
  rw [identifierOr, if_neg (by simpa using fun _ => hfallback), identifier, h]
  rfl

/-- Any text makes an identifier that can be used: a word that is not reserved. A text without letters and digits
makes the fallback. Any other makes an identifier that makes itself, whatever the fallback is by then. -/
theorem identifier_settles (s : String) {fallback : String} (hfallback : Word fallback.toList)
    (hkeyword : isKeyword fallback = false) :
    ∃ name, identifierOr s fallback = .ok name ∧ Word name.toList ∧ isKeyword name = false ∧
      ((∃ c ∈ s.toList, c.isAlphanum = true) → ∀ other, identifierOr name other = .ok name) ∧
      ((∀ c ∈ s.toList, c.isAlphanum = false) → name = fallback) := by
  by_cases hnil : reduced s.toList = []
  · have hnone := reduced_eq_nil_iff.1 hnil
    have hne : fallback ≠ "" := by
      rintro rfl
      obtain ⟨c, hc, -⟩ := hfallback.opens
      cases hc
    refine ⟨fallback, ?_, hfallback, hkeyword, ?_, fun _ => rfl⟩
    · rw [identifierOr_of_empty hnil hne, guarded_of_word hfallback (by rwa [String.ofList_toList]),
        String.ofList_toList]
    · rintro ⟨c, hc, halphanum⟩
      rw [hnone c hc] at halphanum
      cases halphanum
  · have hreduced := reduced_reduced s.toList
    have hagain : reduced (String.ofList (guarded (reduced s.toList))).toList = reduced s.toList := by
      rw [String.toList_ofList, reduced_guarded hreduced hnil]
    refine ⟨_, identifierOr_of_reduced hnil fallback, ?_, isKeyword_guarded _, ?_, ?_⟩
    · rw [String.toList_ofList]
      exact word_guarded hreduced.plain hnil
    · intro _ other
      rw [identifierOr_of_reduced (by rwa [hagain]), hagain]
    · intro hnone
      exact absurd (reduced_eq_nil_iff.2 hnone) hnil

theorem identifier_settles_keyword :
    Word "Value".toList ∧ isKeyword "Value" = false ∧ identifierOr "--class__" "Value" = .ok "class_" ∧
      Word "class_".toList ∧ isKeyword "class_" = false ∧ ∀ other, identifierOr "class_" other = .ok "class_" := by
  have hfallback : Word "Value".toList := ⟨List.all_eq_true.1 rfl, 'V', rfl, rfl⟩
  have hkeyword : isKeyword "Value" = false := by decide
  obtain ⟨name, hname, hword, hfree, hagain, -⟩ := identifier_settles "--class__" hfallback hkeyword
  have hclass : identifierOr "--class__" "Value" = .ok "class_" := eq_ok_of_toOption (by decide)
  obtain rfl := Except.ok.inj (hname.symm.trans hclass)
  exact ⟨hfallback, hkeyword, hclass, hword, hfree, hagain ⟨'c', by decide, rfl⟩⟩

end Naming

end MessageCodec
