import MessageCodec.Naming.Resolver
import MessageCodec.Proofs.Lines

/-!
# Names that are fit for use

A word is made of plain characters and does not open with a digit. Any text reduced to an identifier is a word,
is no reserved word, and has at most one underscore at its end; so are the symbols made from it, as long as the
collision suffix does not get in the way. A word is a component of a path as it stands.
-/

namespace MessageCodec

namespace Naming

/-! ### Words -/

/-- Plain characters of which the first is no digit. -/
structure Word (cs : List Char) : Prop where
  plain : ∀ c ∈ cs, isPlain c = true
  opens : ∃ c, cs.head? = some c ∧ c.isDigit = false

variable {cs ds : List Char} {s : String}

theorem lt_of_isPlain {c : Char} (h : isPlain c = true) : c.toNat < 0x80 := by
  have hclass : (c.isUpper || c.isLower || c.isDigit || decide (c = '_')) = true := h
  have hbelow (last : Char) (hle : c.val ≤ last.val) (hlast : last.toNat < 0x80) : c.toNat < 0x80 :=
    (UInt32.le_iff_toNat_le.1 hle).trans_lt hlast
  simp only [Bool.or_eq_true, decide_eq_true_eq] at hclass
  rcases hclass with ((hupper | hlower) | hdigit) | rfl
  · exact hbelow 'Z' (of_decide_eq_true hupper).2 (by decide)
  · exact hbelow 'z' (of_decide_eq_true (Bool.and_eq_true_iff.1 hlower).2) (by decide)
  · exact hbelow '9' (of_decide_eq_true (Bool.and_eq_true_iff.1 hdigit).2) (by decide)
  · decide

theorem plain_of_isPlain (h : ∀ c ∈ cs, isPlain c = true) : plain cs = cs := by
  rw [plain]
  calc cs.map (fun c => if isPlain c = true then c else '_')
      = cs.map id := List.map_congr_left fun c hc => if_pos (h c hc)
    _ = cs := List.map_id _

theorem isIdentifierContinue_of_isPlain {c : Char} (h : isPlain c = true) : Text.isIdentifierContinue c = true := by
  rw [Text.isIdentifierContinue, if_pos (lt_of_isPlain h)]
  exact h

theorem isIdentifierStart_of_isPlain {c : Char} (h : isPlain c = true) :
    Text.isIdentifierStart c = !c.isDigit := by
  have hall : ∀ n < 0x80, isPlain (Char.ofNat n) = true →
      Text.isIdentifierStart (Char.ofNat n) = !(Char.ofNat n).isDigit := by
    decide
  have hc := hall c.toNat (lt_of_isPlain h)
  rw [Char.ofNat_toNat] at hc
  exact hc h

theorem Word.append (h : Word cs) (hds : ∀ d ∈ ds, isPlain d = true) : Word (cs ++ ds) := by
  obtain ⟨c, hhead, hdigit⟩ := h.opens
  refine ⟨?_, c, ?_, hdigit⟩
  · rw [List.forall_mem_append]
    exact ⟨h.plain, hds⟩
  · rw [List.head?_append, hhead]
    rfl

theorem Word.isIdentifier (h : Word s.toList) : Text.isIdentifier s = true := by
  obtain ⟨c, hhead, hdigit⟩ := h.opens
  have hplain := h.plain
  rw [Text.isIdentifier]
  cases hs : s.toList with
  | nil =>
    rw [hs] at hhead
    cases hhead
  | cons d rest =>
    rw [hs] at hhead hplain
    obtain rfl := Option.some.inj hhead
    rw [List.forall_mem_cons] at hplain
    rw [Bool.and_eq_true, List.all_eq_true, isIdentifierStart_of_isPlain hplain.1, hdigit]
    exact ⟨rfl, fun e he => isIdentifierContinue_of_isPlain (hplain.2 e he)⟩

theorem word_of_isIdentifier (h : Text.isIdentifier s = true) (hplain : ∀ c ∈ s.toList, isPlain c = true) :
    Word s.toList := by
  refine ⟨hplain, ?_⟩
  rw [Text.isIdentifier] at h
  cases hs : s.toList with
  | nil =>
    rw [hs] at h
    cases h
  | cons c rest =>
    rw [hs] at h hplain
    rw [Bool.and_eq_true, isIdentifierStart_of_isPlain (hplain c List.mem_cons_self), Bool.not_eq_true'] at h
    exact ⟨c, rfl, h.1⟩

/-! ### Identifiers -/

/-- An end that is no row of underscores. -/
def Ends (cs : List Char) : Prop := ∃ front c, c ≠ '_' ∧ (cs = front ++ [c] ∨ cs = front ++ [c, '_'])

theorem Ends.append (h : Ends cs) (ds : List Char) : Ends (ds ++ cs) := by
  obtain ⟨front, c, hc, rfl | rfl⟩ := h
  · exact ⟨ds ++ front, c, hc, .inl (List.append_assoc ..).symm⟩
  · exact ⟨ds ++ front, c, hc, .inr (List.append_assoc ..).symm⟩

theorem exists_last_reduced (h : reduced cs ≠ []) : ∃ front c, c ≠ '_' ∧ reduced cs = front ++ [c] := by
  rcases List.eq_nil_or_concat (reduced cs) with hnil | ⟨front, c, heq⟩
  · exact absurd hnil h
  rw [List.concat_eq_append] at heq
  have hlast : (reduced cs).getLast? = some c := by
    rw [heq, List.getLast?_concat]
  refine ⟨front, c, ?_, heq⟩
  simpa using Text.eq_false_of_getLast?_trimWhile hlast

private theorem keywords_end : ∀ word ∈ keywords, word.toList.getLast? ≠ some '_' := by
  decide

theorem guarded_eq (cs : List Char) : ∃ opened : List Char,
    (opened = '_' :: cs ∨ opened = cs ∧ ∀ c ∈ cs.head?, Text.isDigit c = false) ∧
    (guarded cs = opened ∧ isKeyword (String.ofList opened) = false ∨ guarded cs = opened ++ ['_']) := by
  unfold guarded
  extract_lets opened
  refine ⟨opened, ?_, ?_⟩
  · unfold opened
    split
    · exact .inr ⟨rfl, by simp⟩
    · rename_i c rest
      split
      · exact .inl rfl
      · rename_i hdigit
        refine .inr ⟨rfl, ?_⟩
        intro d hd
        rw [← Option.some.inj hd]
        exact Bool.eq_false_of_not_eq_true hdigit
  · split
    · exact .inr rfl
    · rename_i hkeyword
      exact .inl ⟨rfl, Bool.eq_false_of_not_eq_true hkeyword⟩

theorem isKeyword_guarded (cs : List Char) : isKeyword (String.ofList (guarded cs)) = false := by
  obtain ⟨opened, -, ⟨heq, hkeyword⟩ | heq⟩ := guarded_eq cs
  · rw [heq, hkeyword]
  · rw [heq, ← Bool.not_eq_true, isKeyword, List.contains_iff_mem]
    intro hmem
    apply keywords_end _ hmem
    rw [String.toList_ofList, List.getLast?_append]
    rfl

theorem word_guarded (hcs : ∀ c ∈ cs, isPlain c = true) (hne : cs ≠ []) : Word (guarded cs) := by
  obtain ⟨opened, hopened, hguarded⟩ := guarded_eq cs
  have hword : Word opened := by
    rcases hopened with rfl | ⟨rfl, hdigit⟩
    · refine ⟨?_, '_', rfl, rfl⟩
      rw [List.forall_mem_cons]
      exact ⟨rfl, hcs⟩
    · obtain ⟨c, rest, rfl⟩ := List.exists_cons_of_ne_nil hne
      have hc := hdigit c rfl
      rw [Text.isDigit, if_pos (lt_of_isPlain (hcs c List.mem_cons_self))] at hc
      exact ⟨hcs, c, rfl, hc⟩
  rcases hguarded with ⟨heq, -⟩ | heq
  · rw [heq]
    exact hword
  · rw [heq]
    apply hword.append
    intro d hd
    rw [List.mem_singleton.1 hd]
    rfl

theorem ends_guarded (h : ∃ front c, c ≠ '_' ∧ cs = front ++ [c]) : Ends (guarded cs) := by
  obtain ⟨opened, hopened, hguarded⟩ := guarded_eq cs
  have hends : ∃ front c, c ≠ '_' ∧ opened = front ++ [c] := by
    obtain ⟨front, c, hc, rfl⟩ := h
    rcases hopened with rfl | ⟨rfl, -⟩
    · exact ⟨'_' :: front, c, hc, rfl⟩
    · exact ⟨front, c, hc, rfl⟩
  obtain ⟨front, c, hc, rfl⟩ := hends
  rcases hguarded with ⟨heq, -⟩ | heq
  · exact ⟨front, c, hc, .inl heq⟩
  · refine ⟨front, c, hc, .inr ?_⟩
    rw [heq, List.append_assoc]
    rfl

/-- A name that can be given to a module of its own: a word that is neither reserved nor the name of the module of
a whole package. -/
structure Usable (s : String) : Prop where
  word : Word s.toList
  not_keyword : isKeyword s = false
  not_package : s ≠ "__init__"

theorem ne_package_of_ends (h : Ends s.toList) : s ≠ "__init__" := by
  rintro rfl
  have hpackage : "__init__".toList = ['_', '_', 'i', 'n', 'i', 't'] ++ ['_', '_'] := rfl
  obtain ⟨front, c, hc, heq | heq⟩ := h
  · rw [heq] at hpackage
    have hlast := (List.append_inj' (hpackage.trans (List.append_cons ..)) rfl).2
    exact hc (List.head_eq_of_cons_eq hlast)
  · rw [heq] at hpackage
    have hlast := (List.append_inj' hpackage rfl).2
    exact hc (List.head_eq_of_cons_eq hlast)

/-- What is made of any text with a fallback that is fit for use. -/
theorem usable_identifier_of {fallback : String} (hfallback : ∀ c ∈ fallback.toList, isPlain c = true)
    (hfallbackLast : ∃ front c, c ≠ '_' ∧ fallback.toList = front ++ [c]) (s : String) :
    Usable (identifier s fallback) ∧ Ends (identifier s fallback).toList := by
  have hbody : ∃ body : List Char, identifier s fallback = String.ofList (guarded body) ∧
      (∀ c ∈ body, isPlain c = true) ∧ ∃ front c, c ≠ '_' ∧ body = front ++ [c] := by
    rw [identifier]
    split
    · exact ⟨_, rfl, hfallback, hfallbackLast⟩
    · rename_i hne
      rw [List.isEmpty_iff] at hne
      exact ⟨_, rfl, fun c => isPlain_of_mem_reduced, exists_last_reduced hne⟩
  obtain ⟨body, heq, hplain, hlast⟩ := hbody
  have hne : body ≠ [] := by
    obtain ⟨front, c, -, rfl⟩ := hlast
    simp
  have hends : Ends (identifier s fallback).toList := by
    rw [heq, String.toList_ofList]
    exact ends_guarded hlast
  refine ⟨⟨?_, ?_, ne_package_of_ends hends⟩, hends⟩
  · rw [heq, String.toList_ofList]
    exact word_guarded hplain hne
  · rw [heq]
    exact isKeyword_guarded body

theorem usable_identifier (s : String) : Usable (identifier s "Message") ∧ Ends (identifier s "Message").toList :=
  usable_identifier_of (List.all_eq_true.1 rfl) ⟨"Messag".toList, 'e', by decide, rfl⟩ s

/-! ### Candidates -/

/-- A collision suffix that can stand before any identifier. -/
structure Suffix (collision : String) : Prop where
  word : Word collision.toList
  not_keyword : ∀ keyword ∈ keywords, ¬ collision.toList <+: keyword.toList

theorem suffix_standard : Suffix "Proto" := by
  refine ⟨⟨List.all_eq_true.1 rfl, 'P', rfl, rfl⟩, by decide⟩

theorem Suffix.isKeyword {collision : String} (h : Suffix collision) (s : String) : isKeyword (collision ++ s) = false := by
  rw [← Bool.not_eq_true, Naming.isKeyword, List.contains_iff_mem]
  intro hmem
  apply h.not_keyword _ hmem
  rw [String.toList_append]
  exact List.prefix_append _ _

theorem isPlain_of_isDigit {c : Char} (h : Numeral.isDigit c = true) : isPlain c = true := by
  rw [isPlain, Char.isAlphanum, show c.isDigit = true from h, Bool.or_true, Bool.true_or]

private theorem ends_ofNat (n : Nat) : Ends (Numeral.ofNat n) := by
  rcases List.eq_nil_or_concat (Numeral.ofNat n) with hnil | ⟨front, c, heq⟩
  · exact absurd hnil (Numeral.ofNat_ne_nil n)
  rw [List.concat_eq_append] at heq
  refine ⟨front, c, ?_, .inl heq⟩
  rintro rfl
  have hdigit := Numeral.digits_ofNat n '_' (by rw [heq]; simp)
  cases hdigit

theorem usable_candidate {collision : String} (hcollision : Suffix collision) (s : String) (k : Nat) :
    Usable (Resolver.candidate collision "" (identifier s "Message") k) := by
  obtain ⟨husable, hends⟩ := usable_identifier s
  match k with
  | 0 =>
    rw [Resolver.candidate, String.empty_append]
    exact husable
  | 1 =>
    rw [Resolver.candidate, String.empty_append]
    refine ⟨?_, hcollision.isKeyword _, ne_package_of_ends ?_⟩
    · rw [String.toList_append]
      exact hcollision.word.append husable.word.plain
    · rw [String.toList_append]
      exact hends.append _
  | k + 2 =>
    rw [Resolver.candidate, String.empty_append, String.append_assoc]
    refine ⟨?_, hcollision.isKeyword _, ne_package_of_ends ?_⟩
    · rw [String.toList_append, String.toList_append, String.toList_ofList]
      apply hcollision.word.append
      rw [List.forall_mem_append]
      exact ⟨husable.word.plain, fun d hd => isPlain_of_isDigit (Numeral.digits_ofNat _ d hd)⟩
    · rw [String.toList_append, String.toList_append, String.toList_ofList]
      exact ((ends_ofNat _).append _).append _

theorem Word.not_mem (h : Word cs) {c : Char} (hc : isPlain c = false) : c ∉ cs := by
  intro hmem
  rw [h.plain c hmem] at hc
  cases hc

theorem component_word (h : Word s.toList) (extension : String) : component s extension = s ++ extension := by
  have hplain : plain s.toList = s.toList := plain_of_isPlain h.plain
  obtain ⟨c, hhead, hdigit⟩ := h.opens
  obtain ⟨rest, hs⟩ := List.head?_eq_some_iff.1 hhead
  have hstem : String.ofList (c :: rest) = s := by
    rw [← hs, String.ofList_toList]
  rw [component, hplain, hs]
  simp [hdigit, hstem]

end Naming

end MessageCodec
