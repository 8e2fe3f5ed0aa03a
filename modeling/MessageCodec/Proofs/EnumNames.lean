import MessageCodec.Proofs.EnumTable

/-!
# Names and numbers of an enum lead back to each other

A number is read as its first name and a name is looked up in any letter case, so the two tables of an
enum are inverse up to aliases. `SameLetters` says when two texts differ in letter case only. It does
not mention the capital forms that the table is kept under: for ASCII texts the two are shown to agree.
-/

namespace MessageCodec

namespace Text

/-- An identifier of ASCII letters, digits and underscores. -/
structure IsAsciiIdentifier (s : String) : Prop where
  identifier : isIdentifier s = true
  ascii : ∀ c ∈ s.toList, c.toNat < 0x80

private theorem isAsciiIdentifier_iff (s : String) :
    IsAsciiIdentifier s ↔ (isIdentifier s && s.toList.all fun c => c.toNat < 0x80) = true := by
  simp only [Bool.and_eq_true, List.all_eq_true, decide_eq_true_eq]
  exact ⟨fun h => ⟨h.identifier, h.ascii⟩, fun h => ⟨h.1, h.2⟩⟩

instance (s : String) : Decidable (IsAsciiIdentifier s) := decidable_of_iff' _ (isAsciiIdentifier_iff s)

/-- Two texts that differ in the case of ASCII letters only. -/
def SameLetters (s t : String) : Prop := s.toList.map Char.toUpper = t.toList.map Char.toUpper

instance (s t : String) : Decidable (SameLetters s t) := inferInstanceAs (Decidable (_ = _))

theorem ascii_toUpper {c : Char} (hc : c.toNat < 0x80) : c.toUpper.toNat < 0x80 ∧
    isIdentifierStart c.toUpper = isIdentifierStart c ∧ isIdentifierContinue c.toUpper = isIdentifierContinue c := by
  apply ascii_forall c hc
  decide

theorem toUpper_of_not_ascii {c : Char} (h : ¬ c.toNat < 0x80) : c.toUpper = c := by
  apply dif_neg
  rintro ⟨-, hz⟩
  have hle : c.toNat ≤ 'z'.toNat := hz
  have hz' : 'z'.toNat = 122 := rfl
  omega

theorem toNat_toUpper_lt_iff (c : Char) : c.toUpper.toNat < 0x80 ↔ c.toNat < 0x80 := by
  by_cases h : c.toNat < 0x80
  · exact iff_of_true (ascii_toUpper h).1 h
  · rw [toUpper_of_not_ascii h]

theorem isIdentifierStart_toUpper (c : Char) : isIdentifierStart c.toUpper = isIdentifierStart c := by
  by_cases h : c.toNat < 0x80
  · exact (ascii_toUpper h).2.1
  · rw [toUpper_of_not_ascii h]

private theorem isIdentifierContinue_toUpper (c : Char) : isIdentifierContinue c.toUpper = isIdentifierContinue c := by
  by_cases h : c.toNat < 0x80
  · exact (ascii_toUpper h).2.2
  · rw [toUpper_of_not_ascii h]

private theorem all_continue_map_toUpper (cs : List Char) :
    (cs.map Char.toUpper).all isIdentifierContinue = cs.all isIdentifierContinue := by
  rw [List.all_map]
  congr 1
  funext c
  exact isIdentifierContinue_toUpper c

private theorem isIdentifier_of_sameLetters {s t : String} (h : SameLetters s t) (hs : isIdentifier s = true) :
    isIdentifier t = true := by
  rw [SameLetters] at h
  rw [isIdentifier] at hs ⊢
  cases hcs : s.toList with
  | nil => rw [hcs] at hs; cases hs
  | cons c cs =>
    cases hds : t.toList with
    | nil => rw [hcs, hds] at h; cases h
    | cons d ds =>
      rw [hcs, hds, List.map_cons, List.map_cons, List.cons.injEq] at h
      rw [hcs] at hs
      dsimp only at hs ⊢
      rw [← isIdentifierStart_toUpper, ← all_continue_map_toUpper, ← h.1, ← h.2, isIdentifierStart_toUpper,
        all_continue_map_toUpper]
      exact hs

theorem IsAsciiIdentifier.of_sameLetters {s t : String} (h : SameLetters s t) (hs : IsAsciiIdentifier s) :
    IsAsciiIdentifier t := by
  refine ⟨isIdentifier_of_sameLetters h hs.identifier, fun c hc => ?_⟩
  have hmem : c.toUpper ∈ s.toList.map Char.toUpper := h ▸ List.mem_map_of_mem hc
  obtain ⟨d, hd, heq⟩ := List.mem_map.1 hmem
  rw [← toNat_toUpper_lt_iff, ← heq, toNat_toUpper_lt_iff]
  exact hs.ascii d hd

private theorem upper_of_ascii {cs : List Char} (h : ∀ c ∈ cs, c.toNat < 0x80) : upper cs = cs.map Char.toUpper := by
  rw [upper, List.map_eq_flatMap]
  apply List.flatMap_congr
  intro c hc
  exact if_pos (h c hc)

/-- Capital forms of ASCII texts agree where the letters do. -/
theorem upperText_eq_iff {s t : String} (hs : ∀ c ∈ s.toList, c.toNat < 0x80) (ht : ∀ c ∈ t.toList, c.toNat < 0x80) :
    upperText s = upperText t ↔ SameLetters s t := by
  rw [upperText, upperText, String.ofList_inj, upper_of_ascii hs, upper_of_ascii ht, SameLetters]

end Text

namespace EnumTable

theorem build_of_range {e : Schema.Enum} (h : ∀ v ∈ e.values, IsInt32 v.2) : build e = .ok (ofEnum e) := by
  rw [build, if_pos]
  rw [List.all_eq_true]
  intro v hv
  obtain ⟨hlow, hhigh⟩ := h v hv
  rw [IntegerText.write?_of_lt (by omega)]
  rfl

theorem wellFormed_of_ascii {e : Schema.Enum} (hnames : ∀ v ∈ e.values, Text.IsAsciiIdentifier v.1)
    (hrange : ∀ v ∈ e.values, IsInt32 v.2) (hdistinct : e.values.Pairwise fun v w => ¬ Text.SameLetters v.1 w.1) :
    e.WellFormed := by
  refine ⟨fun v hv => (hnames v hv).identifier, ?_, hrange⟩
  rw [List.Nodup, List.pairwise_map]
  refine hdistinct.imp_of_mem ?_
  intro v w hv hw hne heq
  exact hne ((Text.upperText_eq_iff (hnames v hv).ascii (hnames w hw).ascii).1 heq)

theorem defaultName_ofEnum (e : Schema.Enum) :
    (ofEnum e).defaultName = (e.values.find? fun v => v.2 == 0).map Prod.fst := by
  rw [← get?_byNumber, defaultName, Numeral.ofInt_eq_zero_iff.2 rfl]

/-- The tables of an enum lead back to each other, up to aliases. -/
structure Inverse (values : List (String × Int)) (t : EnumTable) : Prop where
  /-- The name of a declared number stands for the number. -/
  number_name : ∀ v ∈ values, (Value.ofEnumNumber t.byNumber t.defaultName v.2).toEnumNumber t.byName = .ok v.2
  /-- The name of a number is the first one declared for it. -/
  first_name : ∀ before name n after, values = before ++ (name, n) :: after → (∀ v ∈ before, v.2 ≠ n) →
    Value.ofEnumNumber t.byNumber t.defaultName n = .text name
  /-- A declared name stands for its number in any letter case and with blanks around it. -/
  name_number : ∀ v ∈ values, ∀ name before after, Text.SameLetters v.1 name →
    (∀ c ∈ before, Text.isBlank c = true) → (∀ c ∈ after, Text.isBlank c = true) →
    (Value.text (String.ofList (before ++ (name.toList ++ after)))).toEnumNumber t.byName = .ok v.2
  /-- What is read for a number that is not declared stands for zero if zero is declared. -/
  undeclared : ∀ n, IsInt32 n → n ∉ values.map Prod.snd →
    (Value.ofEnumNumber t.byNumber t.defaultName n).toEnumNumber t.byName =
      .ok (if 0 ∈ values.map Prod.snd then 0 else n)

theorem find?_number_isSome_iff {values : List (String × Int)} {n : Int} :
    (values.find? fun v => v.2 == n).isSome = true ↔ n ∈ values.map Prod.snd := by
  simp only [List.find?_isSome, beq_iff_eq, List.mem_map]

private theorem find?_number_eq_none_iff {values : List (String × Int)} {n : Int} :
    (values.find? fun v => v.2 == n) = none ↔ n ∉ values.map Prod.snd := by
  rw [← find?_number_isSome_iff, Option.not_isSome_iff_eq_none]

private theorem inverse_ofEnum {e : Schema.Enum} (hnames : ∀ v ∈ e.values, Text.IsAsciiIdentifier v.1)
    (he : e.WellFormed) :
    Inverse e.values (ofEnum e) := by
  obtain ⟨-, hsound⟩ := ofEnum_sound he
  refine ⟨fun v hv => ?_, ?_, ?_, ?_⟩
  · obtain ⟨w, hfind⟩ := Option.isSome_iff_exists.1 (find?_number_isSome_iff.2 (List.mem_map_of_mem hv))
    have hget := get?_byNumber e v.2
    rw [hfind] at hget
    rw [Codec.ElementType.ofEnumNumber_of_get? hget]
    exact (hsound _ _ hget).2
  · intro before name n after hvalues hnew
    apply Codec.ElementType.ofEnumNumber_of_get?
    rw [get?_byNumber, hvalues, List.find?_append, List.find?_eq_none.2 (by simpa using hnew)]
    simp
  · intro v hv name before after hletters hbefore hafter
    have hname := (hnames v hv).of_sameLetters hletters
    rw [toEnumNumber_padded _ hbefore hafter hname.identifier,
      ← (Text.upperText_eq_iff (hnames v hv).ascii hname.ascii).2 hletters,
      show (ofEnum e).byName = numbers e.values from rfl, get?_numbers_of_mem he.distinct hv]
    rfl
  · intro n hn hnew
    have hget := get?_byNumber e n
    rw [find?_number_eq_none_iff.2 hnew] at hget
    rw [Codec.ElementType.ofEnumNumber_of_none hget]
    cases hzero : e.values.find? fun v => v.2 == 0 with
    | none =>
      rw [defaultName_ofEnum, hzero, if_neg (find?_number_eq_none_iff.1 hzero)]
      exact Value.toInt32_int hn
    | some v =>
      have hmem : 0 ∈ e.values.map Prod.snd := find?_number_isSome_iff.1 (by rw [hzero]; rfl)
      have hgetZero := get?_byNumber e 0
      rw [hzero] at hgetZero
      rw [defaultName_ofEnum, hzero, if_pos hmem]
      exact (hsound 0 v.1 hgetZero).2

/-- Where two names may have the same letters, the name of a zero in front still stands for zero. -/
theorem toEnumNumber_zero_first {e : Schema.Enum} {name : String} {rest : List (String × Int)}
    (hvalues : e.values = (name, 0) :: rest) (hname : Text.isIdentifier name = true) :
    (ofEnum e).defaultName = some name ∧ (Value.text name).toEnumNumber (ofEnum e).byName = .ok 0 := by
  constructor
  · rw [defaultName_ofEnum, hvalues]
    rfl
  · rw [toEnumNumber_identifier _ hname, show (ofEnum e).byName = numbers e.values from rfl, get?_numbers, hvalues,
      List.find?_cons_of_pos (by simp)]
    rfl

theorem tables_inverse {e : Schema.Enum} (hnames : ∀ v ∈ e.values, Text.IsAsciiIdentifier v.1)
    (hrange : ∀ v ∈ e.values, IsInt32 v.2) :
    ∃ t, build e = .ok t ∧
      ((e.values.Pairwise fun v w => ¬ Text.SameLetters v.1 w.1) → Inverse e.values t) ∧
      ∀ name rest, e.values = (name, 0) :: rest →
        t.defaultName = some name ∧ (Value.text name).toEnumNumber t.byName = .ok 0 := by
  refine ⟨ofEnum e, build_of_range hrange, fun hdistinct => ?_, fun name rest hvalues => ?_⟩
  · exact inverse_ofEnum hnames (wellFormed_of_ascii hnames hrange hdistinct)
  · refine toEnumNumber_zero_first hvalues (hnames (name, 0) ?_).identifier
    rw [hvalues]
    exact List.mem_cons_self

end EnumTable

namespace Sample

/-- An enum with an alias, a negative number and a zero that does not come first. -/
def shade : Schema.Enum where
  name := "Shade"
  fullName := "Shade"
  values := [("RED", 1), ("Crimson", 1), ("none_", 0), ("DARK", -5)]

theorem tables_inverse_shade : (∀ v ∈ shade.values, Text.IsAsciiIdentifier v.1) ∧ (∀ v ∈ shade.values, IsInt32 v.2) ∧
    (shade.values.Pairwise fun v w => ¬ Text.SameLetters v.1 w.1) ∧
    ∃ t, EnumTable.build shade = .ok t ∧ Value.ofEnumNumber t.byNumber t.defaultName 1 = .text "RED" ∧
      (Value.ofEnumNumber t.byNumber t.defaultName (-5)).toEnumNumber t.byName = .ok (-5) ∧
      (Value.text (String.ofList (['\t'] ++ ("cRIMSON".toList ++ [' '])))).toEnumNumber t.byName = .ok 1 ∧
      (Value.ofEnumNumber t.byNumber t.defaultName 7).toEnumNumber t.byName = .ok 0 := by
  have hnames : ∀ v ∈ shade.values, Text.IsAsciiIdentifier v.1 := by decide
  have hrange : ∀ v ∈ shade.values, IsInt32 v.2 := by simp [shade, IsInt32]
  have hdistinct : shade.values.Pairwise fun v w => ¬ Text.SameLetters v.1 w.1 := by decide
  obtain ⟨t, hbuild, hinverse, -⟩ := EnumTable.tables_inverse hnames hrange
  have h := hinverse hdistinct
  refine ⟨hnames, hrange, hdistinct, t, hbuild, ?_, ?_, ?_, ?_⟩
  · exact h.first_name [] "RED" 1 _ rfl (by simp)
  · exact h.number_name ("DARK", -5) (by simp [shade])
  · exact h.name_number ("Crimson", 1) (by simp [shade]) "cRIMSON" _ _ (by decide)
      (List.forall_mem_singleton.2 rfl) (List.forall_mem_singleton.2 rfl)
  · exact h.undeclared 7 (by simp [IsInt32]) (by simp [shade])

end Sample

end MessageCodec
