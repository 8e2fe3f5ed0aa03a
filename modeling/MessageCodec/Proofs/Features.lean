import MessageCodec.Proofs.Dependencies
import MessageCodec.Proofs.EnumTable

/-!
# Where features come from

A field of the newest dialect takes a feature from the innermost scope that sets it: its own options, those
of its message, of the messages around it, or of its file. `Encloses` says which messages stand around
another without walking through a file, and `Sets` says which scope decides without searching the scopes;
planning is shown to agree with both. What else is in the files, and what the scopes further out say, has
no part in it.
-/

namespace MessageCodec

/-! ### Texts of values that are no words

The features of a field are words. A value of any other kind has a text that is neither of the two words
looked for, in any letter case: the text of a number has no letter `P`, and all others begin with a
character that neither word begins with. -/

namespace Text

def isNumberMark (c : Char) : Bool := Numeral.isDigit c || ['-', '+', '.', 'e', 'E'].contains c

def NumberMarks (cs : List Char) : Prop := ∀ c ∈ cs, isNumberMark c = true

namespace NumberMarks

theorem of_all {cs : List Char} (h : cs.all isNumberMark = true) : NumberMarks cs := List.all_eq_true.1 h

theorem append {cs ds : List Char} (hcs : NumberMarks cs) (hds : NumberMarks ds) : NumberMarks (cs ++ ds) := by
  intro c hc
  rcases List.mem_append.1 hc with hc | hc
  · exact hcs c hc
  · exact hds c hc

theorem sublist {cs ds : List Char} (h : NumberMarks ds) (hsub : cs.Sublist ds) : NumberMarks cs :=
  fun c hc => h c (hsub.subset hc)

theorem ofNat (n : Nat) : NumberMarks (Numeral.ofNat n) := by
  intro c hc
  rw [isNumberMark, Numeral.digits_ofNat n c hc, Bool.true_or]

theorem ofInt (n : Int) : NumberMarks (Numeral.ofInt n) := by
  rw [Numeral.ofInt]
  split
  · rw [← List.singleton_append]
    exact append (of_all rfl) (ofNat _)
  · exact ofNat _

theorem replicate (n : Nat) : NumberMarks (List.replicate n '0') := by
  intro c hc
  rw [List.eq_of_mem_replicate hc]
  decide

theorem sign (negative : Bool) : NumberMarks (if negative then ['-'] else []) := by
  cases negative <;> exact of_all rfl

theorem not_mem_upper {cs : List Char} (h : NumberMarks cs) : 'P' ∉ upper cs := by
  intro hmem
  obtain ⟨c, hc, hupper⟩ := List.mem_flatMap.1 hmem
  have hmark := h c hc
  have hascii : c.toNat < 0x80 := by
    rw [isNumberMark, Bool.or_eq_true, Numeral.isDigit_iff] at hmark
    rcases hmark with hdigit | hsign
    · omega
    · simp only [List.contains_iff_mem, List.mem_cons, List.not_mem_nil, or_false] at hsign
      rcases hsign with rfl | rfl | rfl | rfl | rfl <;> decide
  revert hmark hupper
  apply ascii_forall c hascii
  decide

end NumberMarks

end Text

open Text

namespace FloatNotation

private theorem marks_positional {digits : List Char} (h : NumberMarks digits) (place : Int) :
    NumberMarks (positional digits place) := by
  rw [positional]
  split
  · exact ((NumberMarks.of_all rfl).append (.replicate _)).append h
  · dsimp only
    split
    · exact (h.append (.replicate _)).append (.of_all rfl)
    · exact ((h.sublist (List.take_sublist ..)).append (.of_all rfl)).append (h.sublist (List.drop_sublist ..))

private theorem marks_scientific (format : FloatNotation) {digits : List Char} (h : NumberMarks digits) (place : Int) :
    NumberMarks (format.scientific digits place) := by
  have hpoint : NumberMarks (if digits.length ≤ 1 then [] else '.' :: digits.drop 1) := by
    split
    · exact .of_all rfl
    · have hrest := h.sublist (List.drop_sublist 1 digits)
      rw [← List.singleton_append]
      exact NumberMarks.append (.of_all rfl) hrest
  have hexponent : NumberMarks ['e', if place < 0 then '-' else '+'] := by
    split <;> exact .of_all rfl
  exact (((h.sublist (List.take_sublist ..)).append hpoint).append hexponent).append
    ((NumberMarks.replicate _).append (.ofNat _))

theorem not_mem_upper_write (format : FloatNotation) (x : Binary64) : 'P' ∉ upper (format.write x) := by
  rw [write]
  -- any digits will do, and these are long to work out
  generalize Shortest.shortest x = shortest
  obtain ⟨value, grid⟩ := shortest
  dsimp only
  split
  · decide
  split
  · cases x.isNegative <;> decide
  split
  · cases x.isNegative <;> decide
  have hdigits : NumberMarks ((Numeral.ofNat value).reverse.dropWhile (· == '0')).reverse := by
    apply (NumberMarks.ofNat value).sublist
    rw [← List.reverse_sublist, List.reverse_reverse]
    exact List.dropWhile_sublist _
  apply NumberMarks.not_mem_upper
  apply (NumberMarks.sign _).append
  split
  · exact marks_positional hdigits _
  · exact format.marks_scientific hdigits _

end FloatNotation

theorem Decimal.marks_write (negative : Bool) (coefficient : Nat) (exponent : Int) :
    NumberMarks (Decimal.finite negative coefficient exponent).write := by
  have hbody (digits : Numeral) (hdigits : NumberMarks digits) (place : Int) : NumberMarks
      (if place ≤ 0 then ['0', '.'] ++ List.replicate (-place).toNat '0' ++ digits
      else if (digits.length : Int) ≤ place then digits ++ List.replicate (place.toNat - digits.length) '0'
      else digits.take place.toNat ++ ['.'] ++ digits.drop place.toNat) := by
    split
    · exact (NumberMarks.append (.of_all rfl) (.replicate _)).append hdigits
    split
    · exact hdigits.append (.replicate _)
    · exact ((hdigits.sublist (List.take_sublist ..)).append (.of_all rfl)).append
        (hdigits.sublist (List.drop_sublist ..))
  have htail (left place : Int) : NumberMarks
      (if left = place then []
      else 'E' :: (if left < place then '-' else '+') :: Numeral.ofNat (left - place).natAbs) := by
    split
    · exact .of_all rfl
    have hsign : NumberMarks ['E', if left < place then '-' else '+'] := by
      split <;> exact .of_all rfl
    exact hsign.append (.ofNat _)
  exact ((NumberMarks.sign negative).append (hbody _ (.ofNat _) _)).append (htail _ _)

namespace Value

/-- The value is a word, in any letter case. -/
def Says (v : Value) (word : String) : Prop := ∃ s, v = .text s ∧ upperText s = word

def IsFeatureWord (word : String) : Prop := word = "PACKED" ∨ word = "IMPLICIT"

theorem IsFeatureWord.mem_upper {word s : String} (hword : IsFeatureWord word) (h : upperText s = word) :
    'P' ∈ upper s.toList := by
  rw [← String.toList_ofList (l := upper s.toList), ← upperText, h]
  rcases hword with rfl | rfl <;> decide

theorem IsFeatureWord.head? {word s : String} (hword : IsFeatureWord word) (h : upperText s = word) {c : Char}
    (hc : s.toList.head? = some c) (hascii : c.toNat < 0x80) : c.toUpper = 'P' ∨ c.toUpper = 'I' := by
  have hupper : (upper s.toList).head? = word.toList.head? := by
    rw [← h, upperText, String.toList_ofList]
  obtain ⟨rest, hs⟩ := List.head?_eq_some_iff.1 hc
  rw [hs, upper, List.flatMap_cons, upperChar, if_pos hascii, List.singleton_append, List.head?_cons] at hupper
  rcases hword with rfl | rfl
  · exact .inl (Option.some.inj hupper)
  · exact .inr (Option.some.inj hupper)

theorem head?_enclosed (opening closing : String) (items : List String) {c : Char}
    (h : opening.toList = [c]) : (enclosed opening closing items).toList.head? = some c := by
  rw [enclosed, String.toList_append, String.toList_append, h]
  rfl

private theorem head?_tupleText (items : List String) : (tupleText items).toList.head? = some '(' := by
  unfold tupleText
  split
  · rw [String.toList_append, String.toList_append]
    rfl
  · exact head?_enclosed _ _ _ rfl

private theorem literal_ne_word {v : Value} (hv : ∀ t, v ≠ .text t) {s word : String} (hword : IsFeatureWord word)
    (h : v.literal = .ok s) : upperText s ≠ word := by
  intro hupper
  have hfirst (c : Char) (hc : c.toNat < 0x80 ∧ c.toUpper ≠ 'P' ∧ c.toUpper ≠ 'I') : s.toList.head? ≠ some c := by
    intro hhead
    rcases hword.head? hupper hhead hc.1 with heq | heq
    · exact hc.2.1 heq
    · exact hc.2.2 heq
  -- numbers are told by their letters, and all else by the first character
  cases v <;> rw [literal] at h
  case text t => exact hv t rfl
  case null => exact hfirst 'N' (by decide) (Except.ok.inj h ▸ rfl)
  case bool b =>
    cases b with
    | true => exact hfirst 'T' (by decide) (Except.ok.inj h ▸ rfl)
    | false => exact hfirst 'F' (by decide) (Except.ok.inj h ▸ rfl)
  case int n =>
    cases hdigits : IntegerText.write? n with
    | none => rw [hdigits] at h; cases h
    | some digits =>
      rw [hdigits] at h
      obtain rfl := Except.ok.inj h
      have hletter := hword.mem_upper hupper
      rw [String.toList_ofList, IntegerText.write?_some hdigits] at hletter
      exact (NumberMarks.ofInt n).not_mem_upper hletter
  case float x =>
    obtain rfl := Except.ok.inj h
    have hletter := hword.mem_upper hupper
    rw [String.toList_ofList] at hletter
    exact FloatNotation.not_mem_upper_write _ x hletter
  case bytes bs =>
    apply hfirst 'b' (by decide)
    rw [← Except.ok.inj h, String.toList_ofList]
    rfl
  case list items =>
    obtain ⟨parts, -, hparts⟩ := bind_eq_ok.1 h
    exact hfirst '[' (by decide) (Except.ok.inj hparts ▸ head?_enclosed _ _ _ rfl)
  case tuple items =>
    obtain ⟨parts, -, hparts⟩ := bind_eq_ok.1 h
    exact hfirst '(' (by decide) (Except.ok.inj hparts ▸ head?_tupleText _)
  case mapping entries =>
    obtain ⟨parts, -, hparts⟩ := bind_eq_ok.1 h
    exact hfirst '\x7b' (by decide) (Except.ok.inj hparts ▸ head?_enclosed _ _ _ rfl)
  case object attributes => exact hfirst '<' (by decide) (Except.ok.inj h ▸ rfl)
  case stream items => exact hfirst '<' (by decide) (Except.ok.inj h ▸ rfl)
  case decimal d =>
    apply hfirst 'D' (by decide)
    rw [← Except.ok.inj h, String.toList_append, String.toList_append]
    rfl

private theorem write_ne_word (d : Decimal) {word : String} (hword : IsFeatureWord word) :
    upperText (String.ofList d.write) ≠ word := by
  intro hupper
  have hletter := hword.mem_upper hupper
  rw [String.toList_ofList] at hletter
  cases d with
  | finite negative coefficient exponent => exact (Decimal.marks_write negative coefficient exponent).not_mem_upper hletter
  | infinite negative =>
    revert hletter
    cases negative <;> decide
  | nan negative signaling payload =>
    have hhead : ∃ c ∈ ['-', 's', 'N'], (String.ofList (Decimal.nan negative signaling payload).write).toList.head? = some c := by
      rw [String.toList_ofList]
      cases negative with
      | true => exact ⟨'-', by decide, rfl⟩
      | false =>
        cases signaling with
        | true => exact ⟨'s', by decide, rfl⟩
        | false => exact ⟨'N', by decide, rfl⟩
    obtain ⟨c, hc, hhead⟩ := hhead
    simp only [List.mem_cons, List.not_mem_nil, or_false] at hc
    have := hword.head? hupper hhead
    rcases hc with rfl | rfl | rfl <;> revert this <;> decide

theorem says_of_plainText {v : Value} {s word : String} (hword : IsFeatureWord word) (h : v.plainText = .ok s)
    (hupper : upperText s = word) : v.Says word := by
  unfold plainText at h
  split at h
  · exact ⟨s, congrArg Value.text (Except.ok.inj h), hupper⟩
  · exact absurd (Except.ok.inj h ▸ hupper) (write_ne_word _ hword)
  · rename_i htext _
    exact absurd hupper (literal_ne_word htext hword h)

end Value

/-! ### The messages around a message -/

namespace Schema

/-- A message stands in a file, inside some messages, the innermost first. -/
inductive File.Encloses (file : File) : List Message → Message → Prop
  | top {m : Message} (h : m ∈ file.messages) : Encloses file [] m
  | inside {chain : List Message} {m n : Message} (h : Encloses file chain m) (hn : n ∈ m.nested) :
      Encloses file (m :: chain) n

mutual

theorem encloses_of_mem_placed {file : File} {around chain : List Message} {n : Message} : (m : Message) →
    file.Encloses around.reverse m → (n, chain) ∈ m.placed around → file.Encloses chain.reverse n
  | ⟨id, name, fullName, fields, nested, enums, oneofs, options, mapEntry⟩, hm, hn => by
    rw [Message.placed] at hn
    rcases List.mem_cons.1 hn with heq | hinside
    · obtain ⟨rfl, rfl⟩ := Prod.mk.inj heq
      exact hm
    · apply encloses_of_mem_placedIn nested _ hinside
      intro n' hn'
      rw [List.reverse_append]
      exact .inside hm hn'

theorem encloses_of_mem_placedIn {file : File} {around chain : List Message} {n : Message} : (ms : List Message) →
    (∀ m ∈ ms, file.Encloses around.reverse m) → (n, chain) ∈ placedIn around ms → file.Encloses chain.reverse n
  | [], _, hn => by
    rw [placedIn] at hn
    cases hn
  | m :: ms, hms, hn => by
    rw [placedIn] at hn
    rw [List.forall_mem_cons] at hms
    rcases List.mem_append.1 hn with hhead | htail
    · exact encloses_of_mem_placed m hms.1 hhead
    · exact encloses_of_mem_placedIn ms hms.2 htail

end

theorem mem_placed_self (around : List Message) (m : Message) : (m, around) ∈ m.placed around := by
  cases m
  rw [Message.placed]
  exact List.mem_cons_self

theorem mem_placedIn_of_mem {around ms : List Message} {m : Message} (hm : m ∈ ms) {p : Message × List Message}
    (hp : p ∈ m.placed around) : p ∈ placedIn around ms := by
  induction ms with
  | nil => cases hm
  | cons m' ms ih =>
    rw [placedIn]
    rcases List.mem_cons.1 hm with rfl | hm
    · exact List.mem_append_left _ hp
    · exact List.mem_append_right _ (ih hm)

mutual

theorem mem_placed_nested {around chain : List Message} {n k : Message} (hk : k ∈ n.nested) : (m : Message) →
    (n, chain) ∈ m.placed around → (k, chain ++ [n]) ∈ m.placed around
  | ⟨id, name, fullName, fields, nested, enums, oneofs, options, mapEntry⟩, hn => by
    rw [Message.placed] at hn ⊢
    apply List.mem_cons_of_mem
    rcases List.mem_cons.1 hn with heq | hinside
    · obtain ⟨rfl, rfl⟩ := Prod.mk.inj heq
      exact mem_placedIn_of_mem hk (mem_placed_self _ k)
    · exact mem_placedIn_nested hk nested hinside

theorem mem_placedIn_nested {around chain : List Message} {n k : Message} (hk : k ∈ n.nested) : (ms : List Message) →
    (n, chain) ∈ placedIn around ms → (k, chain ++ [n]) ∈ placedIn around ms
  | [], hn => by
    rw [placedIn] at hn
    cases hn
  | m :: ms, hn => by
    rw [placedIn] at hn ⊢
    rcases List.mem_append.1 hn with hhead | htail
    · exact List.mem_append_left _ (mem_placed_nested hk m hhead)
    · exact List.mem_append_right _ (mem_placedIn_nested hk ms htail)

end

private theorem mem_placed_of_encloses {file : File} {chain : List Message} {m : Message} (h : file.Encloses chain m) :
    (m, chain.reverse) ∈ file.placed := by
  induction h with
  | top hm => exact mem_placedIn_of_mem hm (mem_placed_self [] _)
  | inside _ hn ih =>
    rw [List.reverse_cons]
    exact mem_placedIn_nested hn _ ih

end Schema

open Schema Planning

namespace Plan

/-- A walk through a file comes to every message of it, and knows the messages around each. -/
theorem mem_placesOf_iff {file : File} {place : Place} :
    place ∈ placesOf file ↔ place.file = file ∧ file.Encloses place.around.reverse place.message := by
  constructor
  · intro h
    obtain ⟨p, hp, rfl⟩ := List.mem_map.1 h
    have htop : ∀ m ∈ file.messages, file.Encloses (List.reverse []) m := fun m hm => .top hm
    exact ⟨rfl, encloses_of_mem_placedIn file.messages htop hp⟩
  · intro ⟨hfile, h⟩
    have hplaced := mem_placed_of_encloses h
    rw [List.reverse_reverse] at hplaced
    refine List.mem_map.2 ⟨_, hplaced, ?_⟩
    rw [← hfile]

/-! ### The scope that decides -/

/-- Of some scopes, the first that sets a feature sets it to this value. -/
inductive Sets (name : String) : List Value → Value → Prop
  | here {options v : Value} (h : featureIn? name options = some v) (outer : List Value) :
      Sets name (options :: outer) v
  | outer {options v : Value} (hnot : featureIn? name options = none) {outer : List Value} (h : Sets name outer v) :
      Sets name (options :: outer) v

/-- No scope sets the feature, or the first that does sets it to null. -/
def Unset (name : String) (scopes : List Value) : Prop := ∀ v, Sets name scopes v → v.isNull = true

/-- The first scope that sets the feature sets it to a word, in any letter case. -/
def SetTo (name word : String) (scopes : List Value) : Prop := ∃ v, Sets name scopes v ∧ v.Says word

theorem findSome?_eq_some_iff_sets {name : String} {scopes : List Value} {v : Value} :
    scopes.findSome? (featureIn? name) = some v ↔ Sets name scopes v := by
  induction scopes with
  | nil =>
    constructor
    · intro h
      cases h
    · intro h
      cases h
  | cons options outer ih =>
    rw [List.findSome?_cons]
    cases hfeature : featureIn? name options with
    | none =>
      dsimp only
      rw [ih]
      constructor
      · exact .outer hfeature
      · intro h
        cases h with
        | here h => rw [hfeature] at h; cases h
        | outer _ h => exact h
    | some w =>
      dsimp only
      constructor
      · intro h
        exact .here (hfeature.trans h) outer
      · intro h
        cases h with
        | here h => exact hfeature.symm.trans h
        | outer h => rw [hfeature] at h; cases h

private theorem feature?_eq_some_iff {name : String} {scopes : List Value} {v : Value} :
    feature? name scopes = some v ↔ Sets name scopes v ∧ v.isNull = false := by
  rw [feature?, Option.filter_eq_some_iff, findSome?_eq_some_iff_sets, Bool.not_eq_true']

theorem feature?_eq_none_iff {name : String} {scopes : List Value} :
    feature? name scopes = none ↔ Unset name scopes := by
  rw [feature?, Option.filter_eq_none_iff]
  simp only [findSome?_eq_some_iff_sets, Bool.not_eq_true', Bool.not_eq_false]
  rfl

theorem setTo_iff {name word : String} {scopes : List Value} :
    SetTo name word scopes ↔ ∃ v, feature? name scopes = some v ∧ v.Says word := by
  apply exists_congr
  intro v
  rw [feature?_eq_some_iff, and_assoc, and_congr_right_iff]
  intro _
  constructor
  · rintro ⟨s, rfl, hs⟩
    exact ⟨rfl, s, rfl, hs⟩
  · exact And.right

theorem isSetting_eq_ok {v : Value} {word : String} (hword : Value.IsFeatureWord word) {b : Bool}
    (h : isSetting v word = .ok b) : b = true ↔ v.Says word := by
  obtain ⟨s, hs, hb⟩ := bind_eq_ok.1 h
  obtain rfl := Except.ok.inj hb
  rw [beq_iff_eq]
  constructor
  · exact Value.says_of_plainText hword hs
  · rintro ⟨t, rfl, ht⟩
    obtain rfl := Except.ok.inj hs
    exact ht

/-- Two lists of scopes that are the same, or are so up to a scope that sets the feature. -/
def Agree (name : String) (scopes scopes' : List Value) : Prop :=
  scopes = scopes' ∨ ∃ inner options outer outer', scopes = inner ++ options :: outer ∧
    scopes' = inner ++ options :: outer' ∧ featureIn? name options ≠ none

theorem Agree.feature?_eq {name : String} {scopes scopes' : List Value} (h : Agree name scopes scopes') :
    feature? name scopes = feature? name scopes' := by
  rcases h with rfl | ⟨inner, options, outer, outer', rfl, rfl, hsets⟩
  · rfl
  obtain ⟨v, hv⟩ := Option.ne_none_iff_exists'.1 hsets
  simp only [feature?, List.findSome?_append, List.findSome?_cons, hv]

/-! ### Packing and presence -/

/-- The options of the scopes of a field in the place where it stands, innermost first. -/
def scopesAt (place : Place) (f : Field) : List Value := scopes f place.message place.around place.file

variable {place : Place} {f : Field}

private theorem requested_iff {packable requested : Bool} {scopes : List Value}
    (h : (match feature? "repeated_field_encoding" scopes with
      | some v => if packable then isSetting v "PACKED" else .ok false
      | none => .ok packable : Except Error Bool) = .ok requested) :
    requested = true ↔ packable = true ∧
      (Unset "repeated_field_encoding" scopes ∨ SetTo "repeated_field_encoding" "PACKED" scopes) := by
  rw [← feature?_eq_none_iff, setTo_iff]
  cases hfeature : feature? "repeated_field_encoding" scopes with
  | none =>
    rw [hfeature] at h
    obtain rfl := Except.ok.inj h
    simp
  | some v =>
    rw [hfeature] at h
    cases packable with
    | false =>
      obtain rfl := Except.ok.inj h
      simp
    | true => simp [isSetting_eq_ok (.inl rfl) h]

theorem packed_iff {p q : Planner} {b : Bool} (h : Yields (Planner.packed place f) p b q)
    (hdialect : place.file.dialect = .editions) (hchoice : f.packed = none) :
    b = true ↔ f.cardinality = .repeated ∧ FieldPlan.packable f.kind f.scalar = true ∧
      (Unset "repeated_field_encoding" (scopesAt place f) ∨
        SetTo "repeated_field_encoding" "PACKED" (scopesAt place f)) := by
  rw [Planner.packed] at h
  split at h
  · rename_i hsingular
    rw [yields_pure] at h
    obtain ⟨rfl, -⟩ := h
    simp [hsingular]
  rename_i hrepeated
  rw [ne_eq, Decidable.not_not] at hrepeated
  rw [yields_bind] at h
  obtain ⟨requested, mid, hrequested, h⟩ := h
  rw [yields_lift, hchoice, hdialect, ← scopesAt] at hrequested
  rw [← requested_iff hrequested.1]
  split at h
  · rename_i hboth
    rw [Bool.and_eq_true, Bool.not_eq_true'] at hboth
    have hpackable := ((requested_iff hrequested.1).1 hboth.1).1
    rw [hboth.2] at hpackable
    cases hpackable
  · rw [yields_pure] at h
    simp [hrepeated, h.1]

theorem presence_iff {b : Bool} (h : Planner.presence place f = .ok b) (hdialect : place.file.dialect = .editions) :
    b = true ↔ f.cardinality ≠ .repeated ∧ (f.kind = .message ∨ f.oneof.isSome = true ∨ f.proto3Optional = true ∨
      ¬ SetTo "field_presence" "IMPLICIT" (scopesAt place f)) := by
  rw [Planner.presence] at h
  split at h
  · rename_i hrepeated
    obtain rfl := Except.ok.inj h
    simp [hrepeated]
  rename_i hsingular
  split at h
  · rename_i hexplicit
    obtain rfl := Except.ok.inj h
    simp only [Bool.or_eq_true, decide_eq_true_eq] at hexplicit
    tauto
  rename_i hopen
  simp only [Bool.or_eq_true, decide_eq_true_eq] at hopen
  have hword : b = true ↔ ¬ SetTo "field_presence" "IMPLICIT" (scopesAt place f) := by
    rw [hdialect, ← scopesAt] at h
    rw [setTo_iff]
    cases hfeature : feature? "field_presence" (scopesAt place f) with
    | none =>
      rw [hfeature] at h
      obtain rfl := Except.ok.inj h
      simp
    | some v =>
      rw [hfeature] at h
      dsimp only at h
      cases hsetting : isSetting v "IMPLICIT" with
      | error e => rw [hsetting] at h; cases h
      | ok implicit =>
        rw [hsetting] at h
        obtain rfl := Except.ok.inj h
        simp [← isSetting_eq_ok (.inr rfl) hsetting]
  tauto

/-! ### Planned fields -/

/-- A run plans a field of a message that it has collected, in the place where the message stands. -/
def Plans (targets others : List File) (place : Place) (f : Field) (g : FieldPlan) : Prop :=
  ∃ p plans after places, Yields (Planner.plan targets others) p plans after ∧ collect targets others = .ok places ∧
    place ∈ places ∧ ∃ m ∈ plans, m.fullName = place.message.fullName ∧
      (f, g) ∈ (supported (plans.map MessagePlan.fullName) place.message).zip m.fields

/-- A field of the newest dialect that does not itself ask for packing, in the place where it stands. -/
structure Open (place : Place) (f : Field) : Prop where
  dialect : place.file.dialect = .editions
  choice : f.packed = none

/-- Two fields that differ at most in their names, numbers, options, defaults and the types they refer to. -/
structure SameShape (f f' : Field) : Prop where
  cardinality : f.cardinality = f'.cardinality
  kind : f.kind = f'.kind
  scalar : f.scalar = f'.scalar
  oneof : f.oneof.isSome = f'.oneof.isSome
  optional : f.proto3Optional = f'.proto3Optional

/-- The plan of a field takes its features from the innermost scope that sets them. -/
structure Inherits (place : Place) (f : Field) (g : FieldPlan) : Prop where
  packed : g.packed = true ↔ f.cardinality = .repeated ∧ FieldPlan.packable f.kind f.scalar = true ∧
    (Unset "repeated_field_encoding" (scopesAt place f) ∨
      SetTo "repeated_field_encoding" "PACKED" (scopesAt place f))
  presence : g.presence = true ↔ f.cardinality ≠ .repeated ∧
    (f.kind = .message ∨ f.oneof.isSome = true ∨ f.proto3Optional = true ∨
      ¬ SetTo "field_presence" "IMPLICIT" (scopesAt place f))

theorem inherits_of_describes {unescape : Unescaping} {g : FieldPlan} (h : g.Describes unescape place f)
    (hf : Open place f) : Inherits place f g := by
  obtain ⟨before, after, hpacked⟩ := h.packed
  exact ⟨packed_iff hpacked hf.dialect hf.choice, presence_iff h.presence hf.dialect⟩

theorem Inherits.packed_eq {place' : Place} {f' : Field} {g g' : FieldPlan} (h : Inherits place f g)
    (h' : Inherits place' f' g') (hshape : SameShape f f')
    (hagree : Agree "repeated_field_encoding" (scopesAt place f) (scopesAt place' f')) : g.packed = g'.packed := by
  rw [Bool.eq_iff_iff, h.packed, h'.packed, setTo_iff, setTo_iff, ← feature?_eq_none_iff, ← feature?_eq_none_iff,
    hagree.feature?_eq, hshape.cardinality, hshape.kind, hshape.scalar]

theorem Inherits.presence_eq {place' : Place} {f' : Field} {g g' : FieldPlan} (h : Inherits place f g)
    (h' : Inherits place' f' g') (hshape : SameShape f f')
    (hagree : Agree "field_presence" (scopesAt place f) (scopesAt place' f')) : g.presence = g'.presence := by
  rw [Bool.eq_iff_iff, h.presence, h'.presence, setTo_iff, setTo_iff, hagree.feature?_eq, hshape.cardinality,
    hshape.kind, hshape.oneof, hshape.optional]

theorem exists_collected {targets others : List File} {places : List Place}
    (h : collect targets others = .ok places) {file : File} (hfile : file ∈ targets) {chain : List Message} {m : Message}
    (hm : file.Encloses chain m) :
    ∃ place ∈ places, place.file ∈ targets ∧ place.message.fullName = m.fullName := by
  obtain ⟨pulled, -, heq⟩ := bind_eq_ok.1 h
  have hplace : ⟨m, file, chain.reverse⟩ ∈ targets.flatMap placesOf := by
    refine List.mem_flatMap.2 ⟨file, hfile, mem_placesOf_iff.2 ⟨rfl, ?_⟩⟩
    rwa [List.reverse_reverse]
  obtain ⟨first, hfirst, hname⟩ := exists_mem_firstOfName hplace List.not_mem_nil
  obtain ⟨file', hfile', hfirst'⟩ := List.mem_flatMap.1 (mem_of_mem_firstOfName hfirst)
  refine ⟨first, ?_, ?_, hname⟩
  · rw [← Except.ok.inj heq]
    exact List.mem_append_left _ hfirst
  · rwa [(mem_placesOf_iff.1 hfirst').1]

/-- A message that is collected and the plan of its name: the plan is that of the message. -/
theorem describes_of_fullName {targets others : List File} {p after : Planner} {plans : List MessagePlan}
    (h : Yields (Planner.plan targets others) p plans after) {places : List Place}
    (hplaces : collect targets others = .ok places) (hplace : place ∈ places) {m : MessagePlan} (hm : m ∈ plans)
    (hname : m.fullName = place.message.fullName) :
    m.Describes after (plans.map MessagePlan.fullName) place := by
  obtain ⟨_, hcollect, hplans⟩ := Planner.plan_yields h
  obtain rfl := Except.ok.inj (hplaces.symm.trans hcollect)
  obtain ⟨place', hplace', hdescribes⟩ := exists_of_forall₂ hplans hm
  obtain rfl : place' = place := List.inj_on_of_nodup_map (collect_names hplaces) (mem_of_mem_chosen hplace').1 hplace
    (hdescribes.fullName.symm.trans hname)
  rwa [fullNames_of_describes hplans]

private theorem describes_of_plans {targets others : List File} {g : FieldPlan} (h : Plans targets others place f g) :
    ∃ unescape, g.Describes unescape place f := by
  obtain ⟨p, plans, after, places, hrun, hplaces, hplace, m, hm, hname, hfield⟩ := h
  exact ⟨after.unescape, (List.forall₂_iff_zip.1 (describes_of_fullName hrun hplaces hplace hm hname).fields).2 hfield⟩

/-- A run collects every message of the target files, at any depth, and knows the messages around it and
around each message that it pulls in from another file. In a file of the newest dialect, the plan of a field
that makes no choice of its own takes its features from the innermost scope that sets them, and from nothing
else: a plan for a field of the same shape, in any run over any files, is packed alike and has presence alike
as soon as the scopes of the two fields agree up to one that sets the feature. -/
theorem features_from_innermost_scope {targets others : List File} {p after : Planner} {plans : List MessagePlan}
    (h : Yields (Planner.plan targets others) p plans after) :
    ∃ places, collect targets others = .ok places ∧
      (∀ file ∈ targets, ∀ chain m, file.Encloses chain m →
        ∃ place ∈ places, place.file ∈ targets ∧ place.message.fullName = m.fullName) ∧
      ∀ place ∈ places, place.file ∈ targets ++ others ∧ place.file.Encloses place.around.reverse place.message ∧
        ∀ m ∈ plans, m.fullName = place.message.fullName →
          List.Forall₂ (fun f g => g.name = f.name ∧ g.number = f.number ∧ (Open place f → Inherits place f g ∧
              ∀ targets' others' place' f' g', Plans targets' others' place' f' g' → Open place' f' → SameShape f f' →
                (Agree "repeated_field_encoding" (scopesAt place f) (scopesAt place' f') → g.packed = g'.packed) ∧
                (Agree "field_presence" (scopesAt place f) (scopesAt place' f') → g.presence = g'.presence)))
            (supported (plans.map MessagePlan.fullName) place.message) m.fields := by
  obtain ⟨places, hplaces, -⟩ := Planner.plan_yields h
  refine ⟨places, hplaces, fun file hfile chain m hm => exists_collected hplaces hfile hm, ?_⟩
  intro place hplace
  obtain ⟨file, hfile, hmem⟩ := exists_file_of_mem_collect hplaces hplace
  obtain ⟨rfl, hencloses⟩ := mem_placesOf_iff.1 hmem
  refine ⟨hfile, hencloses, fun m hm hname => ?_⟩
  apply (describes_of_fullName h hplaces hplace hm hname).fields.imp
  intro f g hg
  refine ⟨hg.name, hg.number, fun hf => ?_⟩
  have hinherits := inherits_of_describes hg hf
  refine ⟨hinherits, fun targets' others' place' f' g' hplans hf' hshape => ?_⟩
  obtain ⟨_, hg'⟩ := describes_of_plans hplans
  have hinherits' := inherits_of_describes hg' hf'
  exact ⟨hinherits.packed_eq hinherits' hshape, hinherits.presence_eq hinherits' hshape⟩

end Plan

namespace Sample

/-- The office sets how repeated fields are written, its file sets presence, and the stamp inside it takes
both from them. -/
theorem features_from_innermost_scope_mail :
    (∃ after, Yields (Planner.plan [letterFile] [officeFile]) planner mailPlans after) ∧
      officeFile.Encloses officeFile.messages stamp ∧
      ∃ m ∈ mailPlans, m.fullName = stamp.fullName ∧
        List.Forall₂ (fun f g => Plan.Open ⟨stamp, officeFile, officeFile.messages⟩ f ∧
          Plan.Inherits ⟨stamp, officeFile, officeFile.messages⟩ f g) stamp.fields m.fields := by
  obtain ⟨after, hplans⟩ := plan_mail
  obtain ⟨places, hplaces, -, hall⟩ := Plan.features_from_innermost_scope hplans
  obtain rfl := Except.ok.inj (collect_mail.symm.trans hplaces)
  obtain ⟨-, hencloses, hm⟩ := hall ⟨stamp, officeFile, officeFile.messages⟩ (List.mem_cons_of_mem _ List.mem_cons_self)
  have hfields := hm _ (List.mem_cons_of_mem _ List.mem_cons_self) rfl
  have hsupported : Plan.supported (mailPlans.map MessagePlan.fullName) stamp = stamp.fields := rfl
  have hpacked : ∀ f ∈ stamp.fields, f.packed = none := by decide
  rw [hsupported] at hfields
  refine ⟨⟨after, hplans⟩, hencloses, _, List.mem_cons_of_mem _ List.mem_cons_self, rfl, ?_⟩
  rw [List.forall₂_iff_zip] at hfields ⊢
  refine ⟨hfields.1, fun hzip => ?_⟩
  have hf : Plan.Open ⟨stamp, officeFile, officeFile.messages⟩ _ := ⟨rfl, hpacked _ (List.of_mem_zip hzip).1⟩
  exact ⟨hf, ((hfields.2 hzip).2.2 hf).1⟩

end Sample

end MessageCodec
