import MessageCodec.Proofs.Identifier
import MessageCodec.Proofs.Lookup
import MessageCodec.Proofs.Pieces
import MessageCodec.Source.Field

/-!
# Stems of constants

A field gets its plain stem, or the plain stem with its number behind it where the plain one is in use. Numbers
keep numbered stems apart from each other, and a plain stem is given out only while it is free; but nobody asks
whether a numbered stem is free. So two fields share a stem just where the numbered stem of the later one is the
plain stem of the earlier one. In a message without such a pair every field has constants of its own.
-/

namespace MessageCodec

namespace FieldPlan

def plainStem (f : FieldPlan) : String :=
  Naming.identifier (Text.upperText (Naming.snakeCase f.name)) "FIELD"

def numberedStem (f : FieldPlan) : String := f.plainStem ++ "_" ++ String.ofList (Numeral.ofInt f.number)

theorem stem_eq (used : List String) (f : FieldPlan) :
    f.stem used = if f.plainStem ∈ used then f.numberedStem else f.plainStem := by
  unfold stem
  simp only [List.contains_iff_mem]
  rfl

theorem usable_plainStem (f : FieldPlan) : Naming.Usable f.plainStem :=
  (Naming.usable_identifier_of (List.all_eq_true.1 rfl) ⟨"FIEL".toList, 'D', by decide, rfl⟩ _).1

theorem toList_numberedStem (f : FieldPlan) :
    f.numberedStem.toList = f.plainStem.toList ++ '_' :: Numeral.ofInt f.number := by
  rw [numberedStem, String.append_assoc, String.toList_append, String.toList_append, String.toList_ofList,
    String.toList_ofList, List.singleton_append]

private theorem keywords_no_underscore : ∀ word ∈ Naming.keywords, '_' ∉ word.toList := by
  decide

theorem isKeyword_numberedStem (f : FieldPlan) : Naming.isKeyword f.numberedStem = false := by
  rw [← Bool.not_eq_true, Naming.isKeyword, List.contains_iff_mem]
  intro hmem
  apply keywords_no_underscore _ hmem
  rw [toList_numberedStem]
  exact List.mem_append_right _ List.mem_cons_self

private theorem word_numberedStem {f : FieldPlan} (h : 0 ≤ f.number) : Naming.Word f.numberedStem.toList := by
  rw [toList_numberedStem, Numeral.ofInt_nonneg h]
  apply f.usable_plainStem.word.append
  rw [List.forall_mem_cons]
  exact ⟨rfl, fun c hc => Naming.isPlain_of_isDigit (Numeral.digits_ofNat _ c hc)⟩

theorem isIdentifier_numberedStem (f : FieldPlan) : Text.isIdentifier f.numberedStem = true ↔ 0 ≤ f.number := by
  constructor
  · intro hident
    by_contra hneg
    have hminus : '-' ∈ f.numberedStem.toList := by
      rw [toList_numberedStem, Numeral.ofInt, if_pos (by omega)]
      exact List.mem_append_right _ (List.mem_cons_of_mem _ List.mem_cons_self)
    rw [Text.isIdentifier] at hident
    cases hs : f.numberedStem.toList with
    | nil =>
      rw [hs] at hident
      cases hident
    | cons c rest =>
      rw [hs, Bool.and_eq_true, List.all_eq_true] at hident
      rw [hs, List.mem_cons] at hminus
      rcases hminus with rfl | hmem
      · exact absurd hident.1 (by decide)
      · exact absurd (hident.2 _ hmem) (by decide)
  · intro h
    exact (word_numberedStem h).isIdentifier

private theorem underscore_not_mem_ofInt (n : Int) : '_' ∉ Numeral.ofInt n := by
  have hdigits : ∀ m : Nat, '_' ∉ Numeral.ofNat m := fun m hmem => by cases Numeral.digits_ofNat m '_' hmem
  rw [Numeral.ofInt]
  split
  · rw [List.mem_cons, not_or]
    exact ⟨by decide, hdigits _⟩
  · exact hdigits _

/-- The number of a field is read off behind the last underscore. -/
theorem number_eq_of_numberedStem {f g : FieldPlan} (h : f.numberedStem = g.numberedStem) : f.number = g.number := by
  have hsplit : ∀ e : FieldPlan, Text.splitLast? '_' e.numberedStem =
      some (e.plainStem, String.ofList (Numeral.ofInt e.number)) := by
    intro e
    have hdigits : '_' ∉ (String.ofList (Numeral.ofInt e.number)).toList := by
      rw [String.toList_ofList]
      exact underscore_not_mem_ofInt e.number
    have hstem : e.numberedStem =
        e.plainStem ++ String.ofList ('_' :: (String.ofList (Numeral.ofInt e.number)).toList) := by
      apply String.toList_inj.1
      rw [toList_numberedStem, String.toList_append, String.toList_ofList, String.toList_ofList]
    rw [hstem, Text.splitLast?_append hdigits]
  have hsame := hsplit f
  rw [h, hsplit g, Option.some.injEq, Prod.mk.injEq] at hsame
  exact (Numeral.ofInt_injective (String.ofList_inj.1 hsame.2)).symm

theorem plainStem_ne_numberedStem {f g : FieldPlan} (h : f.plainStem = g.plainStem) :
    f.plainStem ≠ g.numberedStem := by
  intro heq
  have hlength := congrArg (List.length ∘ String.toList) heq
  rw [Function.comp_apply, Function.comp_apply, toList_numberedStem, h, List.length_append, List.length_cons] at hlength
  omega

end FieldPlan

/-! ### Stems in order of declaration -/

theorem map_fst_stemsFrom (used : List String) (fields : List FieldPlan) :
    (stemsFrom used fields).map Prod.fst = fields.map FieldPlan.number := by
  induction fields generalizing used with
  | nil => rfl
  | cons f fields ih => rw [stemsFrom, List.map_cons, ih, List.map_cons]

private theorem stemsFrom_append (used : List String) (before after : List FieldPlan) :
    stemsFrom used (before ++ after) =
      stemsFrom used before ++ stemsFrom (((stemsFrom used before).map Prod.snd).reverse ++ used) after := by
  induction before generalizing used with
  | nil => rfl
  | cons f before ih =>
    rw [List.cons_append, stemsFrom, stemsFrom, ih, List.cons_append, List.map_cons, List.reverse_cons,
      List.append_assoc]
    rfl

namespace MessagePlan

variable {m : MessagePlan} {f g : FieldPlan}

/-- With numbers of their own, fields have the stems that they are given in order of declaration. -/
theorem stemsFrom_fields (hnumbers : (m.fields.map FieldPlan.number).Nodup) :
    stemsFrom [] m.fields = m.fields.map fun f => (f.number, m.stemOf f.number) := by
  have hnodup : ((stemsFrom [] m.fields).map Prod.fst).Nodup := by rwa [map_fst_stemsFrom]
  have hfind : ∀ e ∈ stemsFrom [] m.fields, m.stemOf e.1 = e.2 := by
    intro e he
    have hfound : ((stemsFrom [] m.fields).reverse.find? fun d => d.1 == e.1) = some e := by
      apply find?_of_unique (List.mem_reverse.2 he) (beq_self_eq_true e.1)
      intro d hd hsame
      rw [beq_iff_eq] at hsame
      exact List.inj_on_of_nodup_map hnodup (List.mem_reverse.1 hd) he hsame
    rw [stemOf, hfound]
    rfl
  calc stemsFrom [] m.fields
      = (stemsFrom [] m.fields).map fun e => (e.1, m.stemOf e.1) := by
        conv_lhs => rw [← List.map_id (stemsFrom [] m.fields)]
        apply List.map_congr_left
        intro e he
        rw [hfind e he]
        rfl
    _ = ((stemsFrom [] m.fields).map Prod.fst).map fun n => (n, m.stemOf n) := by
        rw [List.map_map]
        rfl
    _ = m.fields.map fun f => (f.number, m.stemOf f.number) := by
        rw [map_fst_stemsFrom, List.map_map]
        rfl

/-- The stem of a field, told by the stems of the fields before it. -/
theorem stemOf_of_split (hnumbers : (m.fields.map FieldPlan.number).Nodup) {before after : List FieldPlan}
    (h : m.fields = before ++ f :: after) : m.stemOf f.number =
      if f.plainStem ∈ before.map fun e => m.stemOf e.number then f.numberedStem else f.plainStem := by
  have hstems := stemsFrom_fields hnumbers
  rw [h, stemsFrom_append, List.map_append, List.map_cons, stemsFrom] at hstems
  obtain ⟨hbefore, hrest⟩ := List.append_inj hstems (by
    rw [← List.length_map Prod.fst, map_fst_stemsFrom, List.length_map, List.length_map])
  have hstem := congrArg Prod.snd (List.head_eq_of_cons_eq hrest)
  dsimp only at hstem
  rw [← hstem, FieldPlan.stem_eq, hbefore, List.append_nil, List.map_map]
  simp only [List.mem_reverse]
  rfl

/-! ### Stems that clash -/

/-- The number that is to keep a field off the stems in use leads to the plain stem of an earlier one. -/
structure Clash (m : MessagePlan) (f g : FieldPlan) : Prop where
  order : ∃ before between after, m.fields = before ++ f :: (between ++ g :: after) ∧
    g.plainStem ∈ (before ++ f :: between).map fun e => m.stemOf e.number
  plain : m.stemOf f.number = f.plainStem
  numbered : f.plainStem = g.numberedStem

private theorem Clash.stemOf_eq (hnumbers : (m.fields.map FieldPlan.number).Nodup) (h : m.Clash f g) :
    m.stemOf f.number = m.stemOf g.number := by
  obtain ⟨before, between, after, hfields, hused⟩ := h.order
  have hlater : m.fields = (before ++ f :: between) ++ g :: after := by
    rw [hfields, List.append_assoc, List.cons_append]
  rw [h.plain, h.numbered, stemOf_of_split hnumbers hlater, if_pos hused]

private theorem clash_of_stemOf_eq (hnumbers : (m.fields.map FieldPlan.number).Nodup)
    {before between after : List FieldPlan}
    (h : m.fields = before ++ f :: (between ++ g :: after)) (hsame : m.stemOf f.number = m.stemOf g.number) :
    m.Clash f g := by
  have hlater : m.fields = (before ++ f :: between) ++ g :: after := by
    rw [h, List.append_assoc, List.cons_append]
  have hne : f.number ≠ g.number := by
    rw [h, List.map_append, List.map_cons, List.map_append, List.map_cons] at hnumbers
    intro heq
    apply (List.nodup_cons.1 hnumbers.of_append_right).1
    rw [heq]
    exact List.mem_append_right _ List.mem_cons_self
  have hstem := stemOf_of_split hnumbers hlater
  have hearlier := stemOf_of_split hnumbers h
  have hused : g.plainStem ∈ (before ++ f :: between).map fun e => m.stemOf e.number := by
    by_contra hfree
    -- a plain stem is given out only while it is free, and this one is that of `f`
    rw [if_neg hfree] at hstem
    apply hfree
    rw [← hstem, ← hsame]
    exact List.mem_map_of_mem (List.mem_append_right _ List.mem_cons_self)
  rw [if_pos hused] at hstem
  have hplain : m.stemOf f.number = f.plainStem := by
    rw [hearlier]
    apply if_neg
    intro hnumbered
    rw [if_pos hnumbered] at hearlier
    exact hne (FieldPlan.number_eq_of_numberedStem (hearlier.symm.trans (hsame.trans hstem)))
  exact ⟨⟨before, between, after, h, hused⟩, hplain, hplain.symm.trans (hsame.trans hstem)⟩

theorem stemOf_eq_iff_clash (hnumbers : (m.fields.map FieldPlan.number).Nodup) (hf : f ∈ m.fields)
    (hg : g ∈ m.fields) (hne : f ≠ g) :
    m.stemOf f.number = m.stemOf g.number ↔ m.Clash f g ∨ m.Clash g f := by
  constructor
  · intro hsame
    obtain ⟨before, after, hfields⟩ := List.append_of_mem hf
    rw [hfields, List.mem_append, List.mem_cons] at hg
    rcases hg with hbefore | heq | hafter
    · obtain ⟨first, between, rfl⟩ := List.append_of_mem hbefore
      rw [List.append_assoc, List.cons_append] at hfields
      exact .inr (clash_of_stemOf_eq hnumbers hfields hsame.symm)
    · exact absurd heq.symm hne
    · obtain ⟨between, last, rfl⟩ := List.append_of_mem hafter
      exact .inl (clash_of_stemOf_eq hnumbers hfields hsame)
  · rintro (hclash | hclash)
    · exact hclash.stemOf_eq hnumbers
    · exact (hclash.stemOf_eq hnumbers).symm

theorem stems_nodup_of_no_clash (hnumbers : (m.fields.map FieldPlan.number).Nodup)
    (h : ∀ f ∈ m.fields, ∀ g ∈ m.fields, ¬ m.Clash f g) :
    (m.fields.map fun f => m.stemOf f.number).Nodup := by
  apply List.Nodup.map_on _ hnumbers.of_map
  intro f hf g hg hsame
  by_contra hne
  rcases (stemOf_eq_iff_clash hnumbers hf hg hne).1 hsame with hclash | hclash
  · exact h f hf g hg hclash
  · exact h g hg f hf hclash

/-- A stem is no reserved word, and an identifier unless a negative number stands in it. -/
theorem isIdentifier_stemOf (hnumbers : (m.fields.map FieldPlan.number).Nodup) (hf : f ∈ m.fields) :
    Naming.isKeyword (m.stemOf f.number) = false ∧
      (Text.isIdentifier (m.stemOf f.number) = true ↔ m.stemOf f.number = f.plainStem ∨ 0 ≤ f.number) := by
  obtain ⟨before, after, hfields⟩ := List.append_of_mem hf
  have hstem := stemOf_of_split hnumbers hfields
  split at hstem
  · rw [hstem, FieldPlan.isIdentifier_numberedStem, or_iff_right (FieldPlan.plainStem_ne_numberedStem rfl).symm]
    exact ⟨f.isKeyword_numberedStem, Iff.rfl⟩
  · rw [hstem]
    exact ⟨f.usable_plainStem.not_keyword, iff_of_true f.usable_plainStem.word.isIdentifier (.inl rfl)⟩

end MessagePlan

/-! ### Constants -/

namespace Source.Emitter

theorem forall₂_constantLines {e : Emitter} {f : FieldPlan} {lines : List String} (h : e.constantLines f = .ok lines) :
    List.Forall₂ (fun name line => ∃ literal, line = name ++ " = " ++ literal) (e.constantNames f) lines := by
  obtain ⟨keys, -, h⟩ := bind_eq_ok.1 h
  obtain ⟨out, -, h⟩ := bind_eq_ok.1 h
  have hplain (front literal : String) : front ++ e.stem f ++ " = " ++ literal =
      front ++ e.stem f ++ "" ++ " = " ++ literal := by
    rw [String.append_empty]
  have haround (back behind literal : String) (hback : behind = back ++ " = ") :
      "_ENUM_" ++ e.stem f ++ behind ++ literal = "_ENUM_" ++ e.stem f ++ back ++ " = " ++ literal := by
    rw [hback, ← String.append_assoc]
  cases henum : f.enum with
  | none =>
    rw [henum] at h
    obtain rfl := Except.ok.inj h
    rw [constantNames, henum]
    exact .cons ⟨keys, hplain ..⟩ (.cons ⟨out, hplain ..⟩ .nil)
  | some t =>
    rw [henum] at h
    obtain ⟨byName, -, h⟩ := bind_eq_ok.1 h
    obtain ⟨byNumber, -, h⟩ := bind_eq_ok.1 h
    obtain ⟨zero, -, h⟩ := bind_eq_ok.1 h
    obtain rfl := Except.ok.inj h
    rw [constantNames, henum]
    exact .cons ⟨keys, hplain ..⟩ (.cons ⟨out, hplain ..⟩ (.cons ⟨byName, haround _ _ _ rfl⟩
      (.cons ⟨byNumber, haround _ _ _ rfl⟩ (.cons ⟨zero, haround _ _ _ rfl⟩ .nil))))

theorem affixes_front : ∀ a ∈ affixes, 1 < a.1.toList.length ∧
    ∀ b ∈ affixes, a.1.toList[1]? = b.1.toList[1]? → a.1 = b.1 := by
  decide

private theorem affixes_back : ∀ a ∈ affixes, ∀ b ∈ affixes, a.1 = b.1 →
    a.2 = b.2 ∨ a.2.toList ≠ [] ∧ b.2.toList ≠ [] ∧ a.2.toList.getLast? ≠ b.2.toList.getLast? := by
  decide

/-- The second character of the name of a constant does not depend on the stem. -/
theorem second_of_affixes {a : String × String} (ha : a ∈ affixes) (s : String) :
    (a.1 ++ s ++ a.2).toList[1]? = a.1.toList[1]? := by
  rw [String.append_assoc, String.toList_append, List.getElem?_append_left (affixes_front a ha).1]

/-- The name of a constant tells the stem. -/
theorem stem_eq_of_affixes {a b : String × String} (ha : a ∈ affixes) (hb : b ∈ affixes) {s t : String}
    (h : a.1 ++ s ++ a.2 = b.1 ++ t ++ b.2) : s = t := by
  have hfront : a.1 = b.1 := by
    apply (affixes_front a ha).2 b hb
    rw [← second_of_affixes ha s, h, second_of_affixes hb t]
  rw [hfront, String.append_assoc, String.append_assoc, String.append_right_inj] at h
  have hback : a.2 = b.2 := by
    rcases affixes_back a ha b hb hfront with heq | ⟨hleft, hright, hne⟩
    · exact heq
    · have hlast := congrArg (List.getLast? ∘ String.toList) h
      rw [Function.comp_apply, Function.comp_apply, String.toList_append, String.toList_append,
        List.getLast?_append_of_ne_nil _ hleft, List.getLast?_append_of_ne_nil _ hright] at hlast
      exact absurd hlast hne
  rw [hback, String.append_left_inj] at h
  exact h

theorem exists_affixes {e : Emitter} {f : FieldPlan} {name : String} (h : name ∈ e.constantNames f) :
    ∃ a ∈ affixes, name = a.1 ++ e.stem f ++ a.2 := by
  obtain ⟨a, ha, rfl⟩ := List.mem_map.1 h
  refine ⟨a, ?_, rfl⟩
  split at ha
  · exact ha
  · exact List.mem_of_mem_take ha

private theorem disjoint_constantNames {e : Emitter} {f g : FieldPlan} (h : e.stem f ≠ e.stem g) :
    (e.constantNames f).Disjoint (e.constantNames g) := by
  intro name hf hg
  obtain ⟨a, ha, hname⟩ := exists_affixes hf
  obtain ⟨b, hb, hname'⟩ := exists_affixes hg
  exact h (stem_eq_of_affixes ha hb (hname.symm.trans hname'))

/-- Two fields share a stem just where they clash. In a message without a clash every field has constants of its own,
and its statements use them. -/
theorem constants_apart_iff (e : Emitter) (hnumbers : (e.message.fields.map FieldPlan.number).Nodup) :
    (∀ f ∈ e.message.fields, Naming.isKeyword (e.stem f) = false ∧
      (Text.isIdentifier (e.stem f) = true ↔ e.stem f = f.plainStem ∨ 0 ≤ f.number)) ∧
    (∀ f ∈ e.message.fields, ∀ g ∈ e.message.fields, f ≠ g →
      (e.stem f = e.stem g ↔ e.message.Clash f g ∨ e.message.Clash g f)) ∧
    ((∀ f ∈ e.message.fields, ∀ g ∈ e.message.fields, ¬ e.message.Clash f g) →
      (e.message.fields.map e.stem).Nodup ∧
      (∀ f ∈ e.message.fields, ∀ lines, e.constantLines f = .ok lines →
        List.Forall₂ (fun name line => ∃ literal, line = name ++ " = " ++ literal) (e.constantNames f) lines ∧
        ∀ g ∈ e.message.fields, f ≠ g → (e.constantNames f).Disjoint (e.constantNames g)) ∧
      ∀ c, Codecs.codecOf e.settings e.message = .ok c → List.Forall₂ (fun f g => ∃ type,
        Codecs.fieldType [f] f = .ok type ∧ g = f.ready e.settings.decodeCase type) e.message.fields c.fields) := by
  refine ⟨fun f hf => MessagePlan.isIdentifier_stemOf hnumbers hf,
    fun f hf g hg hne => MessagePlan.stemOf_eq_iff_clash hnumbers hf hg hne, fun hclash => ?_⟩
  have hstems := MessagePlan.stems_nodup_of_no_clash hnumbers hclash
  refine ⟨hstems, fun f hf lines hlines => ⟨forall₂_constantLines hlines, fun g hg hne => ?_⟩,
    fun c hc => Codecs.forall₂_own hstems hc⟩
  apply disjoint_constantNames
  intro hsame
  exact hne (List.inj_on_of_nodup_map hstems hf hg hsame)

end Source.Emitter

/-! ### Samples -/

namespace Sample

/-- Two names that are one in snake case. -/
def account : MessagePlan where
  name := "Account"
  fullName := "Account"
  symbol := "Account"
  fields := [optionalWord "user_id" 1 none, optionalWord "userId" 2 none]

theorem constants_apart_account : (account.fields.map FieldPlan.number).Nodup ∧
    (account.fields.map fun f => f.plainStem) = ["USER_ID", "USER_ID"] ∧
    (account.fields.map fun f => account.stemOf f.number).Nodup := by
  have hnumbers : (account.fields.map FieldPlan.number).Nodup := by decide
  have hplain : (account.fields.map fun f => f.plainStem) = ["USER_ID", "USER_ID"] := by decide
  refine ⟨hnumbers, hplain, ((Source.Emitter.constants_apart_iff ⟨account, [], {}⟩ hnumbers).2.2 ?_).1⟩
  intro f hf g hg hclash
  have hstem : ∀ f ∈ account.fields, f.plainStem = "USER_ID" := by
    intro f hf
    have hmem := List.mem_map_of_mem (f := fun f => f.plainStem) hf
    rw [hplain, List.mem_pair, or_self] at hmem
    exact hmem
  exact FieldPlan.plainStem_ne_numberedStem ((hstem f hf).trans (hstem g hg).symm) hclash.numbered

def stutterList : FieldPlan :=
  { name := "a_2", number := 5, kind := .scalar, scalar := some ScalarType.fixed32.name, repeated := true }

/-- The number that keeps the last field off the second leads to the first. -/
def stutter : MessagePlan where
  name := "M"
  fullName := "M"
  symbol := "M"
  fields := [stutterList, optionalWord "a" 1 none, optionalWord "A" 2 none]

theorem stemOf_stutter : stutter.stemOf 5 = "A_2" ∧ stutter.stemOf 1 = "A" ∧ stutter.stemOf 2 = "A_2" := by
  have hnumbers : (stutter.fields.map FieldPlan.number).Nodup := by decide
  have hlist : stutterList.plainStem = "A_2" := by decide
  have hsmall : (optionalWord "a" 1 none).plainStem = "A" := by decide
  have hlarge : (optionalWord "A" 2 none).plainStem = "A" := by decide
  have hfirst : stutter.stemOf stutterList.number = "A_2" := by
    rw [MessagePlan.stemOf_of_split hnumbers (show stutter.fields = [] ++ stutterList :: _ from rfl), List.map_nil,
      if_neg List.not_mem_nil, hlist]
  have hsecond : stutter.stemOf (optionalWord "a" 1 none).number = "A" := by
    rw [MessagePlan.stemOf_of_split hnumbers (show stutter.fields = [stutterList] ++ _ :: _ from rfl),
      List.map_singleton, hfirst, hsmall]
    rfl
  have hthird : stutter.stemOf (optionalWord "A" 2 none).number = "A_2" := by
    rw [MessagePlan.stemOf_of_split hnumbers
        (show stutter.fields = [stutterList, optionalWord "a" 1 none] ++ _ :: _ from rfl), List.map_cons,
      List.map_singleton, hfirst, hsecond, hlarge, if_pos (by decide), FieldPlan.numberedStem, hlarge,
      show (optionalWord "A" 2 none).number = 2 from rfl, Numeral.ofInt_nonneg (by decide), Numeral.ofNat_of_lt (by decide)]
    rfl
  exact ⟨hfirst, hsecond, hthird⟩

/-- Names and numbers are distinct, and two stems are not. -/
theorem stutter_shares_stem : (stutter.fields.map FieldPlan.name).Nodup ∧
    (stutter.fields.map FieldPlan.number).Nodup ∧
    (stutter.fields.map fun f => stutter.stemOf f.number) = ["A_2", "A", "A_2"] := by
  obtain ⟨hfirst, hsecond, hthird⟩ := stemOf_stutter
  refine ⟨by decide, by decide, ?_⟩
  show [stutter.stemOf 5, stutter.stemOf 1, stutter.stemOf 2] = _
  rw [hfirst, hsecond, hthird]

end Sample

end MessageCodec
