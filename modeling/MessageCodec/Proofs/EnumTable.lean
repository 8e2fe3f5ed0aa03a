import MessageCodec.Plan.EnumTable
import MessageCodec.Proofs.Element
import MessageCodec.Text.Identifier

/-!
# Tables of an enum agree

Where the names of an enum are identifiers that differ in more than case, the table of names and the
table of numbers lead back to each other: the name of a number is looked up under the same number.
-/

namespace MessageCodec

namespace Text

def Ranges.disjoint (a b : Ranges) : Bool := a.all fun r => b.all fun s => r.2 < s.1 || s.2 < r.1

theorem Ranges.not_contains_of_disjoint {a b : Ranges} (h : a.disjoint b = true) {c : Char}
    (hc : a.contains c = true) : b.contains c = false := by
  rw [Ranges.contains, List.any_eq_true] at hc
  obtain ⟨r, hr, hin⟩ := hc
  rw [Ranges.disjoint, List.all_eq_true] at h
  have hall := h r hr
  rw [List.all_eq_true] at hall
  rw [Ranges.contains, List.any_eq_false]
  intro s hs hin'
  have hapart := hall s hs
  simp only [Bool.and_eq_true, Bool.or_eq_true, decide_eq_true_eq] at hin hin' hapart
  omega

theorem blankRanges_disjoint_continue : blankRanges.disjoint identifierContinueRanges = true := by
  decide +kernel

theorem blankRanges_disjoint_start : blankRanges.disjoint identifierStartRanges = true := by
  decide +kernel

/-- A property of the ASCII characters, by going through them. -/
theorem ascii_forall {P : Char → Prop} (c : Char) (hc : c.toNat < 0x80) (h : ∀ n < 0x80, P (Char.ofNat n)) : P c := by
  have hn := h c.toNat hc
  rwa [Char.ofNat_toNat] at hn

theorem ascii_blank_sign {c : Char} (hc : c.toNat < 0x80) : (isIdentifierContinue c = true → isBlank c = false) ∧
    (isIdentifierStart c = true → isIdentifierContinue c = true ∧ Numeral.isDigit c = false ∧ c ≠ '-' ∧ c ≠ '+') := by
  apply ascii_forall c hc
  decide

theorem isBlank_of_isIdentifierContinue {c : Char} (h : isIdentifierContinue c = true) : isBlank c = false := by
  by_cases hascii : c.toNat < 0x80
  · exact (ascii_blank_sign hascii).1 h
  · rw [isIdentifierContinue, if_neg hascii] at h
    by_contra hblank
    rw [Bool.not_eq_false] at hblank
    rw [Ranges.not_contains_of_disjoint blankRanges_disjoint_continue hblank] at h
    simp at h

private theorem isBlank_of_isIdentifierStart {c : Char} (h : isIdentifierStart c = true) : isBlank c = false := by
  by_cases hascii : c.toNat < 0x80
  · exact isBlank_of_isIdentifierContinue ((ascii_blank_sign hascii).2 h).1
  · rw [isIdentifierStart, if_neg hascii] at h
    by_contra hblank
    rw [Bool.not_eq_false] at hblank
    rw [Ranges.not_contains_of_disjoint blankRanges_disjoint_start hblank] at h
    simp at h

/-- An identifier does not open like a number. -/
theorem not_digit_of_isIdentifierStart {c : Char} (h : isIdentifierStart c = true) :
    Numeral.isDigit c = false ∧ c ≠ '-' ∧ c ≠ '+' := by
  by_cases hascii : c.toNat < 0x80
  · exact ((ascii_blank_sign hascii).2 h).2
  · refine ⟨?_, ?_, ?_⟩
    · by_contra hdigit
      rw [Bool.not_eq_false, Numeral.isDigit_iff] at hdigit
      omega
    · rintro rfl
      exact hascii (by decide)
    · rintro rfl
      exact hascii (by decide)

theorem isBlank_of_mem_identifier {s : String} (h : isIdentifier s = true) : ∀ c ∈ s.toList, isBlank c = false := by
  intro c hc
  rw [isIdentifier] at h
  split at h
  · simp at h
  · rename_i first rest hlist
    rw [Bool.and_eq_true, List.all_eq_true] at h
    rw [hlist, List.mem_cons] at hc
    rcases hc with rfl | hc
    · exact isBlank_of_isIdentifierStart h.1
    · exact isBlank_of_isIdentifierContinue (h.2 c hc)

theorem ne_nil_of_isIdentifier {s : String} (h : isIdentifier s = true) : s.toList ≠ [] := by
  intro hnil
  rw [isIdentifier, hnil] at h
  cases h

theorem signed?_of_isIdentifier {s : String} (h : isIdentifier s = true) : Numeral.signed? s.toList = none := by
  rw [isIdentifier] at h
  split at h
  · simp at h
  · rename_i first rest hlist
    rw [Bool.and_eq_true] at h
    obtain ⟨hdigit, hminus, hplus⟩ := not_digit_of_isIdentifierStart h.1
    rw [hlist, Numeral.signed?]
    · simp [hdigit]
    · exact fun _ heq => hminus (List.cons.inj heq).1
    · exact fun _ heq => hplus (List.cons.inj heq).1

end Text

namespace EnumTable

private theorem mem_foldl_putNew {α : Type} (f : α → String × Int) {values : List α} {t : Table Int}
    {entry : String × Int} (h : entry ∈ values.foldl (fun (t : Table Int) v => t.putNew (f v).1 (f v).2) t) :
    entry ∈ t ∨ ∃ v ∈ values, f v = entry := by
  induction values generalizing t with
  | nil => exact .inl h
  | cons v values ih =>
    rw [List.foldl_cons, Table.putNew] at h
    rcases ih h with hmem | ⟨w, hw, hf⟩
    · split at hmem
      · exact .inl hmem
      · rcases List.mem_append.1 hmem with hmem | hmem
        · exact .inl hmem
        · exact .inr ⟨v, List.mem_cons_self, (List.mem_singleton.1 hmem).symm⟩
    · exact .inr ⟨w, List.mem_cons_of_mem _ hw, hf⟩

/-- A number that a name stands for is the number of a value. -/
theorem exists_of_mem_numbers {values : List (String × Int)} {entry : String × Int} (h : entry ∈ numbers values) :
    ∃ v ∈ values, v.2 = entry.2 := by
  rw [numbers, List.mem_mergeSort] at h
  rcases mem_foldl_putNew (fun v : String × Int => (Text.upperText v.1, v.2)) h with hmem | ⟨v, hv, rfl⟩
  · cases hmem
  · exact ⟨v, hv, rfl⟩

theorem nodup_foldl_putNew {α : Type} (f : α → String × Int) (values : List α) {t : Table Int}
    (h : (t.map Prod.fst).Nodup) :
    ((values.foldl (fun (t : Table Int) v => t.putNew (f v).1 (f v).2) t).map Prod.fst).Nodup := by
  induction values generalizing t with
  | nil => exact h
  | cons v values ih => exact ih (Table.nodup_putNew h _ _)

private theorem get?_foldl_putNew {α : Type} (f : α → String × Int) (values : List α) (t : Table Int) (key : String) :
    (values.foldl (fun (t : Table Int) v => t.putNew (f v).1 (f v).2) t).get? key =
      (t.get? key).or ((values.find? fun v => (f v).1 == key).map fun v => (f v).2) := by
  induction values generalizing t with
  | nil => exact (Option.or_none).symm
  | cons v values ih =>
    rw [List.foldl_cons, ih, Table.get?_putNew, Option.or_assoc, List.find?_cons]
    by_cases h : (f v).1 = key
    · rw [if_pos h, beq_iff_eq.2 h]
      rfl
    · rw [if_neg h, beq_false_of_ne h, Option.none_or]

theorem nodup_numbers (values : List (String × Int)) : ((numbers values).map Prod.fst).Nodup := by
  have hnodup := nodup_foldl_putNew (fun v : String × Int => (Text.upperText v.1, v.2)) values
    (t := []) List.nodup_nil
  exact ((List.mergeSort_perm _ _).map Prod.fst).nodup_iff.2 hnodup

/-- Of the names that agree in upper case the first one counts. -/
theorem get?_numbers (values : List (String × Int)) (key : String) :
    (numbers values).get? key = (values.find? fun v => Text.upperText v.1 == key).map Prod.snd := by
  have hnodup := nodup_foldl_putNew (fun v : String × Int => (Text.upperText v.1, v.2)) values
    (t := []) List.nodup_nil
  rw [numbers, Table.get?_of_perm (List.mergeSort_perm _ _) hnodup]
  exact get?_foldl_putNew (fun v : String × Int => (Text.upperText v.1, v.2)) values [] key

/-- A name is looked up in upper case under its own number. -/
theorem get?_numbers_of_mem {values : List (String × Int)} (h : (values.map fun v => Text.upperText v.1).Nodup)
    {name : String} {n : Int} (hmem : (name, n) ∈ values) :
    (numbers values).get? (Text.upperText name) = some n := by
  obtain ⟨before, after, rfl⟩ := List.append_of_mem hmem
  rw [List.map_append, List.map_cons, List.nodup_append] at h
  have hnew : before.find? (fun v => Text.upperText v.1 == Text.upperText name) = none := by
    rw [List.find?_eq_none]
    intro v hv
    rw [beq_iff_eq]
    exact h.2.2 _ (List.mem_map.2 ⟨v, hv, rfl⟩) _ List.mem_cons_self
  rw [get?_numbers, List.find?_append, hnew, Option.none_or, List.find?_cons_of_pos (by simp)]
  rfl

/-- A name is looked up without the blanks around it. -/
theorem toEnumNumber_padded (byName : Table Int) {before after : List Char} {s : String}
    (hbefore : ∀ c ∈ before, Text.isBlank c = true) (hafter : ∀ c ∈ after, Text.isBlank c = true)
    (hs : Text.isIdentifier s = true) :
    (Value.text (String.ofList (before ++ (s.toList ++ after)))).toEnumNumber byName =
      .ok ((byName.get? (Text.upperText s)).getD 0) := by
  have htrim : Text.trim (before ++ (s.toList ++ after)) = s.toList :=
    Numeral.trim_padded hbefore hafter (Text.isBlank_of_mem_identifier hs) (Text.ne_nil_of_isIdentifier hs)
  rw [Value.toEnumNumber]
  simp only [String.toList_ofList, htrim, Text.signed?_of_isIdentifier hs, String.ofList_toList]
  rfl

theorem toEnumNumber_identifier (byName : Table Int) {s : String} (hs : Text.isIdentifier s = true) :
    (Value.text s).toEnumNumber byName = .ok ((byName.get? (Text.upperText s)).getD 0) := by
  have htext : s = String.ofList ([] ++ (s.toList ++ [])) := by
    rw [List.nil_append, List.append_nil, String.ofList_toList]
  conv_lhs => rw [htext]
  exact toEnumNumber_padded byName (by simp) (by simp) hs

/-- The pairs of a table of names: for every number among the values the first name it has. -/
structure Names (values : List (String × Int)) (t : List (Int × String)) : Prop where
  mem_iff : ∀ n name, (n, name) ∈ t ↔ values.find? (fun v => v.2 == n) = some (name, n)
  nodup : (t.map Prod.fst).Nodup

private theorem Names.any_iff {values : List (String × Int)} {t : List (Int × String)} (h : Names values t) (n : Int) :
    (t.any fun e => e.1 == n) = true ↔ (values.find? fun v => v.2 == n).isSome = true := by
  rw [List.any_eq_true, Option.isSome_iff_exists]
  constructor
  · rintro ⟨⟨m, name⟩, hmem, hm⟩
    rw [beq_iff_eq] at hm
    subst hm
    exact ⟨_, (h.mem_iff _ _).1 hmem⟩
  · rintro ⟨⟨name, m⟩, hfind⟩
    have hm := List.find?_some hfind
    rw [beq_iff_eq] at hm
    dsimp only at hm
    subst hm
    exact ⟨(m, name), (h.mem_iff _ _).2 hfind, by simp⟩

/-- One more value adds its name if its number is new. -/
theorem Names.step {values : List (String × Int)} {t : List (Int × String)} (h : Names values t) (v : String × Int) :
    Names (values ++ [v]) (if t.any fun e => e.1 == v.2 then t else t ++ [(v.2, v.1)]) := by
  have hany := h.any_iff v.2
  split
  · rename_i hold
    refine ⟨fun n name => ?_, h.nodup⟩
    rw [h.mem_iff, List.find?_append]
    cases hfind : values.find? fun v => v.2 == n with
    | some found => rfl
    | none =>
      have hne : (v.2 == n) = false := by
        rw [beq_eq_false_iff_ne]
        rintro rfl
        rw [hfind] at hany
        simp [hold] at hany
      simp [hne]
  · rename_i hnew
    rw [hany, Bool.not_eq_true, Option.isSome_eq_false_iff, Option.isNone_iff_eq_none] at hnew
    refine ⟨fun n name => ?_, ?_⟩
    · rw [List.mem_append, h.mem_iff, List.find?_append, List.mem_singleton]
      by_cases hn : v.2 = n
      · subst hn
        rw [hnew]
        simp [Prod.ext_iff, eq_comm]
      · have hne : (v.2 == n) = false := beq_eq_false_iff_ne.2 hn
        simp [hne, Ne.symm hn]
    · rw [List.map_append, List.nodup_append]
      refine ⟨h.nodup, by simp, ?_⟩
      rintro m hm m' hm' rfl
      obtain ⟨⟨_, name⟩, hmem, rfl⟩ := List.mem_map.1 hm
      rw [List.map_singleton, List.mem_singleton] at hm'
      dsimp only at hm' hmem
      rw [hm', h.mem_iff, hnew] at hmem
      simp at hmem

theorem names_spec (values : List (String × Int)) : Names values (names values) := by
  have hfold : ∀ (rest done : List (String × Int)) (t : List (Int × String)), Names done t →
      Names (done ++ rest) (rest.foldl (fun t v =>
        if t.any fun (e : Int × String) => e.1 == v.2 then t else t ++ [(v.2, v.1)]) t) := by
    intro rest
    induction rest with
    | nil => intro done t h; simpa using h
    | cons v rest ih =>
      intro done t h
      have hnext := ih _ _ (h.step v)
      rwa [List.append_assoc] at hnext
  have hall := hfold values [] [] ⟨by simp, by simp⟩
  have hperm := List.mergeSort_perm (values.foldl (fun t v =>
    if t.any fun (e : Int × String) => e.1 == v.2 then t else t ++ [(v.2, v.1)]) [])
    (fun a b : Int × String => decide (a.1 ≤ b.1))
  exact ⟨fun n name => hperm.mem_iff.trans (hall.mem_iff n name), (hperm.map Prod.fst).nodup_iff.2 hall.nodup⟩

theorem build_eq_ok_iff {e : Schema.Enum} {t : EnumTable} :
    build e = .ok t ↔ (∀ v ∈ e.values, (IntegerText.write? v.2).isSome = true) ∧ ofEnum e = t := by
  rw [build, ← List.all_eq_true]
  split
  · rename_i hall
    rw [Except.ok.injEq]
    exact ⟨fun h => ⟨hall, h⟩, fun h => h.2⟩
  · rename_i hall
    exact ⟨fun h => (by cases h), fun h => absurd h.1 hall⟩

theorem nodup_byNumber (e : Schema.Enum) : ((ofEnum e).byNumber.map Prod.fst).Nodup := by
  rw [ofEnum, List.map_map]
  refine List.Nodup.of_map (fun s : String => s.toList) ?_
  have hinj : Function.Injective Numeral.ofInt := fun _ _ h => Numeral.ofInt_injective h
  have hmap := (names_spec e.values).nodup.map hinj
  rw [List.map_map] at hmap ⊢
  refine (List.map_congr_left fun v _ => ?_) ▸ hmap
  exact (String.toList_ofList).symm

/-- A number has the first name that it is given. -/
theorem get?_byNumber (e : Schema.Enum) (n : Int) :
    (ofEnum e).byNumber.get? (String.ofList (Numeral.ofInt n)) =
      (e.values.find? fun v => v.2 == n).map Prod.fst := by
  have hspec := names_spec e.values
  apply Option.ext
  intro name
  rw [Option.map_eq_some_iff]
  constructor
  · intro hget
    obtain ⟨⟨m, name'⟩, hmem, heq⟩ := List.mem_map.1 (Table.mem_of_get? hget)
    obtain ⟨hm, rfl⟩ := Prod.mk.inj heq
    obtain rfl := Numeral.ofInt_injective (String.ofList_inj.1 hm)
    exact ⟨_, (hspec.mem_iff _ _).1 hmem, rfl⟩
  · rintro ⟨⟨name', m⟩, hfind, rfl⟩
    have hm := List.find?_some hfind
    rw [beq_iff_eq] at hm
    dsimp only at hm
    subst hm
    exact Table.get?_of_mem (nodup_byNumber e) (List.mem_map.2 ⟨_, (hspec.mem_iff _ _).2 hfind, rfl⟩)

end EnumTable

/-- The promises of an enum: names that are identifiers, distinct up to case, and numbers of 32 bits. -/
structure Schema.Enum.WellFormed (e : Schema.Enum) : Prop where
  names : ∀ v ∈ e.values, Text.isIdentifier v.1 = true
  distinct : (e.values.map fun v => Text.upperText v.1).Nodup
  range : ∀ v ∈ e.values, IsInt32 v.2

namespace EnumTable

/-- The tables of an enum agree. -/
theorem ofEnum_sound {e : Schema.Enum} (he : e.WellFormed) :
    (Codec.ElementType.enum (ofEnum e).byName (ofEnum e).byNumber (ofEnum e).defaultName).Sound := by
  refine ⟨?_, fun n name hget => ?_⟩
  · rw [defaultName, Numeral.ofInt_eq_zero_iff.2 rfl]
  · rw [get?_byNumber] at hget
    obtain ⟨⟨name', m⟩, hfind, rfl⟩ := Option.map_eq_some_iff.1 hget
    have hm := List.find?_some hfind
    rw [beq_iff_eq] at hm
    dsimp only at hm
    subst hm
    have hvalue := List.mem_of_find?_eq_some hfind
    refine ⟨he.range _ hvalue, ?_⟩
    rw [toEnumNumber_identifier _ (he.names _ hvalue), show (ofEnum e).byName = numbers e.values from rfl,
      get?_numbers_of_mem he.distinct hvalue]
    rfl

end EnumTable

end MessageCodec
