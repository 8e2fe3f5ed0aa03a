import Mathlib.Data.Bool.AllAny
import MessageCodec.Proofs.Pieces
import MessageCodec.Proofs.Table
import MessageCodec.Proofs.Word
import MessageCodec.Settings

/-!
# Parameter strings

A list of settings may be written as a parameter string in many ways: with blanks around keys and values,
with either separator, and with blank entries in between. All of them are read as the same table, in which
the last value given under a key counts and keys differ by more than case. The settings of a run are looked
up in that table and nowhere else, so neither the way of writing nor the order of different keys matters.
-/

namespace MessageCodec

namespace Settings

/-! ### Settings and their texts -/

/-- A key and a value that can be written into a parameter string. -/
structure Setting where
  key : String
  value : String
  key_filled : Text.trim key.toList ≠ []
  key_clear : ∀ c ∈ Text.trim key.toList, c ≠ '=' ∧ c ≠ ',' ∧ c ≠ ';'
  value_clear : ∀ c ∈ value.toList, c ≠ ',' ∧ c ≠ ';'

def Setting.pair (s : Setting) : String × String := (Text.lowerText (Text.trimText s.key), Text.trimText s.value)

/-- Characters that trimming takes away. -/
def Blank (cs : List Char) : Prop := ∀ c ∈ cs, Text.isBlank c = true

/-- The text of an entry: blank, or a setting with blanks around its key and its value. -/
inductive EntryText : Option Setting → List Char → Prop
  | blank {pad : List Char} (h : Blank pad) : EntryText none pad
  | setting (s : Setting) {front back left right : List Char} (hfront : Blank front) (hback : Blank back)
      (hleft : Blank left) (hright : Blank right) :
      EntryText (some s) ((front ++ (s.key.toList ++ back)) ++ '=' :: (left ++ (s.value.toList ++ right)))

def isSeparator (c : Char) : Bool := c == ',' || c == ';'

/-- The texts of a list of settings: entries in order, divided by either separator, blank ones among them. -/
inductive Spells : List Setting → List Char → Prop
  | entry {e : Option Setting} {cs : List Char} (h : EntryText e cs) : Spells e.toList cs
  | more {e : Option Setting} {cs : List Char} {separator : Char} {settings : List Setting} {rest : List Char}
      (h : EntryText e cs) (hseparator : isSeparator separator = true) (hrest : Spells settings rest) :
      Spells (e.toList ++ settings) (cs ++ separator :: rest)

/-! ### Reading one entry -/

/-- What the text of an entry adds to a table. -/
def enter (table : Table String) (cs : List Char) : Table String :=
  let piece := String.ofList (Text.trim cs)
  if piece.isEmpty then table
  else
    match Text.splitFirst? '=' piece with
    | some (key, v) => Table.put table (Text.lowerText (Text.trimText key)) (Text.trimText v)
    | none => Table.put table (Text.lowerText piece) "true"

theorem entries_eq (parameter : String) :
    entries parameter = (Text.cutAt isSeparator parameter.toList).foldl enter [] := by
  rw [entries, List.foldl_map]
  rfl

theorem enter_blank {pad : List Char} (h : Blank pad) (table : Table String) : enter table pad = table := by
  have hpiece : Text.trim pad = [] := Text.trimWhile_eq_nil_iff.2 h
  rw [enter, hpiece]
  rfl

/-- A text that is divided somewhere is trimmed at its own two ends. -/
theorem trim_divided {front : List Char} (hfront : Text.trim front ≠ []) {d : Char} (hd : Text.isBlank d = false)
    (back : List Char) :
    Text.trim (front ++ d :: back) = front.dropWhile Text.isBlank ++ d :: back.rdropWhile Text.isBlank := by
  have hstays : front.dropWhile Text.isBlank ≠ [] := by
    intro hnil
    exact hfront (Text.trimWhile_eq_nil_iff.2 (List.dropWhile_eq_nil_iff.1 hnil))
  rw [Text.trim, Text.trimWhile_eq, List.dropWhile_append, if_neg (by simpa using hstays), List.rdropWhile,
    List.rdropWhile, List.reverse_append, List.reverse_cons, List.append_assoc, List.dropWhile_append]
  split
  · rename_i hback
    simp [hd, List.isEmpty_iff.1 hback]
  · simp

theorem trim_dropWhile (cs : List Char) : Text.trim (cs.dropWhile Text.isBlank) = Text.trim cs := by
  have haround : Text.trim (cs.takeWhile Text.isBlank ++ (cs.dropWhile Text.isBlank ++ [])) =
      Text.trim (cs.dropWhile Text.isBlank) :=
    Text.trimWhile_around (fun c hc => List.mem_takeWhile_imp hc) (List.forall_mem_nil _)
  rw [List.append_nil, List.takeWhile_append_dropWhile] at haround
  exact haround.symm

theorem trim_rdropWhile (cs : List Char) : Text.trim (cs.rdropWhile Text.isBlank) = Text.trim cs := by
  have haround : Text.trim ([] ++ (cs.rdropWhile Text.isBlank ++ cs.rtakeWhile Text.isBlank)) =
      Text.trim (cs.rdropWhile Text.isBlank) :=
    Text.trimWhile_around (List.forall_mem_nil _) fun c hc => List.mem_rtakeWhile_imp hc
  rw [List.nil_append, List.rdropWhile_append_rtakeWhile] at haround
  exact haround.symm

theorem clear_of_isBlank {c : Char} (h : Text.isBlank c = true) : isSeparator c = false ∧ c ≠ '=' := by
  have hother : ∀ d : Char, Text.isBlank d = false → c ≠ d := by
    intro d hd heq
    rw [heq, hd] at h
    cases h
  rw [isSeparator, Bool.or_eq_false_iff, beq_eq_false_iff_ne, beq_eq_false_iff_ne]
  exact ⟨⟨hother ',' (by decide), hother ';' (by decide)⟩, hother '=' (by decide)⟩

/-- Neither a divider nor a separator stands in the key of a setting or in the blanks around it. -/
theorem Setting.clear_front (s : Setting) {front back : List Char} (hfront : Blank front) (hback : Blank back) :
    ∀ c ∈ front ++ (s.key.toList ++ back), isSeparator c = false ∧ c ≠ '=' := by
  have hkey : ∀ c ∈ s.key.toList, isSeparator c = false ∧ c ≠ '=' := by
    intro c hc
    cases hblank : Text.isBlank c with
    | true => exact clear_of_isBlank hblank
    | false =>
      obtain ⟨hdivider, hcomma, hsemicolon⟩ := s.key_clear c (Text.mem_trimWhile_of_mem hc hblank)
      rw [isSeparator, Bool.or_eq_false_iff, beq_eq_false_iff_ne, beq_eq_false_iff_ne]
      exact ⟨⟨hcomma, hsemicolon⟩, hdivider⟩
  simp only [List.forall_mem_append]
  exact ⟨fun c hc => clear_of_isBlank (hfront c hc), hkey, fun c hc => clear_of_isBlank (hback c hc)⟩

/-- No entry has a separator inside. -/
theorem EntryText.clear {e : Option Setting} {cs : List Char} (h : EntryText e cs) :
    ∀ c ∈ cs, isSeparator c = false := by
  cases h with
  | blank h => exact fun c hc => (clear_of_isBlank (h c hc)).1
  | setting s hfront hback hleft hright =>
    have hvalue : ∀ c ∈ s.value.toList, isSeparator c = false := by
      intro c hc
      rw [isSeparator, Bool.or_eq_false_iff, beq_eq_false_iff_ne, beq_eq_false_iff_ne]
      exact s.value_clear c hc
    rw [List.forall_mem_append, List.forall_mem_cons]
    refine ⟨fun c hc => (s.clear_front hfront hback c hc).1, by decide, ?_⟩
    simp only [List.forall_mem_append]
    exact ⟨fun c hc => (clear_of_isBlank (hleft c hc)).1, hvalue, fun c hc => (clear_of_isBlank (hright c hc)).1⟩

/-- A setting puts its value under its key. -/
theorem enter_setting {s : Setting} {cs : List Char} (h : EntryText (some s) cs) (table : Table String) :
    enter table cs = table.put s.pair.1 s.pair.2 := by
  cases h with
  | @setting _ front back left right hfront hback hleft hright =>
    have hkey : Text.trim (front ++ (s.key.toList ++ back)) = Text.trim s.key.toList :=
      Text.trimWhile_around hfront hback
    have hvalue : Text.trim (left ++ (s.value.toList ++ right)) = Text.trim s.value.toList :=
      Text.trimWhile_around hleft hright
    have hdivider : '=' ∉ (front ++ (s.key.toList ++ back)).dropWhile Text.isBlank := by
      intro hmem
      exact (s.clear_front hfront hback _ ((List.dropWhile_suffix _).subset hmem)).2 rfl
    have hpiece := trim_divided (hkey ▸ s.key_filled) (by decide : Text.isBlank '=' = false)
      (left ++ (s.value.toList ++ right))
    rw [enter, hpiece, Text.splitFirst?_append hdivider]
    dsimp only
    rw [if_neg (by simp), Text.trimText, String.toList_ofList, trim_dropWhile, hkey, Text.trimText, String.toList_ofList,
      trim_rdropWhile, hvalue]
    rfl

/-! ### Reading a whole text -/

private theorem foldl_enter {settings : List Setting} {cs : List Char} (h : Spells settings cs) (table : Table String) :
    (Text.cutAt isSeparator cs).foldl enter table =
      (settings.map Setting.pair).foldl (fun t p => t.put p.1 p.2) table := by
  have hentry : ∀ {e : Option Setting} {cs : List Char}, EntryText e cs → ∀ table,
      enter table cs = (e.toList.map Setting.pair).foldl (fun t p => t.put p.1 p.2) table := by
    intro e cs he table
    cases e with
    | none =>
      cases he with
      | blank hblank => exact enter_blank hblank table
    | some s => exact enter_setting he table
  induction h generalizing table with
  | entry he =>
    rw [Text.cutAt_of_forall he.clear, List.foldl_cons, List.foldl_nil]
    exact hentry he table
  | more he hseparator _ ih =>
    rw [Text.cutAt_append_cons he.clear hseparator, List.foldl_cons, ih, hentry he, List.map_append, List.foldl_append]

theorem entries_of_spells {settings : List Setting} {text : String} (h : Spells settings text.toList) :
    entries text = Table.ofPairs (settings.map Setting.pair) := by
  rw [entries_eq, foldl_enter h]
  rfl

/-! ### From the table to the settings of a run -/

/-- Settings are looked up in the table, so tables with the same values under the same keys give the same. -/
theorem ofEntries_congr {t u : Table String} (h : ∀ key, t.get? key = u.get? key) (w : Workspace) :
    ofEntries w t = ofEntries w u := by
  have hgiven : given? t = given? u := by
    funext key
    rw [given?, given?, h]
  have hswitch : switch? t = switch? u := by
    funext key
    rw [switch?, switch?, h]
  simp only [ofEntries, decodeCaseOf, fileEntries, hgiven, hswitch]

private theorem ofParameter_congr {settings others : List Setting} {text text' : String}
    (h : Spells settings text.toList) (h' : Spells others text'.toList)
    (hsame : ∀ key, Table.get? (settings.map Setting.pair).reverse key = Table.get? (others.map Setting.pair).reverse key)
    (w : Workspace) : ofParameter w text = ofParameter w text' := by
  rw [ofParameter, ofParameter, entries_of_spells h, entries_of_spells h']
  apply ofEntries_congr
  intro key
  rw [Table.get?_ofPairs, Table.get?_ofPairs, hsame]

/-- A parameter string is read as the table of the settings it is made of: each key once, trimmed and in small
letters, with the trimmed value of its last setting. Two parameter strings that give the same values under the same
keys, and so two with the same settings in any order if the keys are different, lead to the same settings of a run
or to the same error. -/
theorem parameter_settles {settings : List Setting} {text : String} (h : Spells settings text.toList) :
    entries text = Table.ofPairs (settings.map Setting.pair) ∧
      ((entries text).map Prod.fst).Nodup ∧
      (∀ key, (entries text).get? key = Table.get? (settings.map Setting.pair).reverse key) ∧
      (∀ (others : List Setting) (text' : String), Spells others text'.toList →
        (∀ key, Table.get? (settings.map Setting.pair).reverse key =
          Table.get? (others.map Setting.pair).reverse key) →
        ∀ w, ofParameter w text = ofParameter w text') ∧
      ∀ (others : List Setting) (text' : String), Spells others text'.toList →
        ((settings.map Setting.pair).map Prod.fst).Nodup →
        (others.map Setting.pair).Perm (settings.map Setting.pair) → ∀ w, ofParameter w text = ofParameter w text' := by
  have hentries := entries_of_spells h
  refine ⟨hentries, hentries ▸ Table.nodup_ofPairs _, fun key => by rw [hentries, Table.get?_ofPairs], ?_, ?_⟩
  · intro others text' h' hsame
    exact ofParameter_congr h h' hsame
  · intro others text' h' hnodup hperm
    apply ofParameter_congr h h'
    intro key
    have hreversed : (settings.map Setting.pair).reverse.Perm (others.map Setting.pair).reverse :=
      (List.reverse_perm _).trans (hperm.symm.trans (List.reverse_perm _).symm)
    apply Table.get?_of_perm hreversed
    rw [List.map_reverse, List.nodup_reverse]
    exact (hperm.map Prod.fst).nodup_iff.2 hnodup

end Settings

namespace Sample

open Settings

/-- A setting whose texts are known, checked by evaluation. -/
def settingOf (key value : String) (hkey : Text.trim key.toList ≠ [])
    (hclear : (Text.trim key.toList).all (fun c => c ≠ '=' ∧ c ≠ ',' ∧ c ≠ ';') = true)
    (hvalue : value.toList.all (fun c => c ≠ ',' ∧ c ≠ ';') = true) : Setting :=
  ⟨key, value, hkey, List.all_iff_forall_prop.1 hclear, List.all_iff_forall_prop.1 hvalue⟩

def caseSetting : Setting := settingOf " Decode_Case" "camel" (by decide) (by decide) (by decide)

def fillSetting : Setting := settingOf "fill_defaults" "no" (by decide) (by decide) (by decide)

def namingSetting : Setting := settingOf "naming_config" "a=b.json" (by decide) (by decide) (by decide)

def wideText : String := " Decode_Case =camel ;,fill_defaults= no,naming_config=a=b.json"

def narrowText : String := "naming_config=a=b.json; Decode_Case=camel;fill_defaults=no; "

theorem blank_nil : Blank [] := List.forall_mem_nil _

theorem blank_space : Blank [' '] := List.forall_mem_singleton.2 (by decide)

private theorem spells_wideText : Spells [caseSetting, fillSetting, namingSetting] wideText.toList := by
  have hnaming := Spells.entry (.setting namingSetting blank_nil blank_nil blank_nil blank_nil)
  have hfill := Spells.more (.setting fillSetting blank_nil blank_nil blank_space blank_nil)
    (by decide : isSeparator ',' = true) hnaming
  have hempty := Spells.more (.blank blank_nil) (by decide : isSeparator ',' = true) hfill
  exact Spells.more (.setting caseSetting blank_nil blank_space blank_nil blank_space)
    (by decide : isSeparator ';' = true) hempty

private theorem spells_narrowText : Spells [namingSetting, caseSetting, fillSetting] narrowText.toList := by
  have hfill := Spells.more (.setting fillSetting blank_nil blank_nil blank_nil blank_nil)
    (by decide : isSeparator ';' = true) (.entry (.blank blank_space))
  have hcase := Spells.more (.setting caseSetting blank_nil blank_nil blank_nil blank_nil)
    (by decide : isSeparator ';' = true) hfill
  exact Spells.more (.setting namingSetting blank_nil blank_nil blank_nil blank_nil)
    (by decide : isSeparator ';' = true) hcase

theorem parameter_settles_wide :
    Spells [caseSetting, fillSetting, namingSetting] wideText.toList ∧
      Spells [namingSetting, caseSetting, fillSetting] narrowText.toList ∧
      (entries wideText).get? "decode_case" = some "camel" ∧
      ofParameter {} wideText = ofParameter {} narrowText := by
  have hsettles := parameter_settles spells_wideText
  have hcase : Table.get? ([caseSetting, fillSetting, namingSetting].map Setting.pair).reverse "decode_case" =
      some "camel" := by
    decide
  have hkeys : (([caseSetting, fillSetting, namingSetting].map Setting.pair).map Prod.fst).Nodup := by
    decide
  have hperm : ([namingSetting, caseSetting, fillSetting].map Setting.pair).Perm
      ([caseSetting, fillSetting, namingSetting].map Setting.pair) :=
    (List.perm_append_singleton namingSetting [caseSetting, fillSetting]).symm.map Setting.pair
  exact ⟨spells_wideText, spells_narrowText, (hsettles.2.2.1 "decode_case").trans hcase,
    hsettles.2.2.2.2 _ _ spells_narrowText hkeys hperm {}⟩

end Sample

end MessageCodec
