import MessageCodec.Proofs.Coerce
import MessageCodec.Source.Module

/-!
# Lines of source text

Generated code is put together line by line, and read as a text that is cut at its line breaks. The two
agree as long as no line has a break inside. Literals, numbers and stems never have one, whatever they
are made from; names of a schema that are written as they are might.
-/

namespace MessageCodec

/-! ### Texts without a break -/

def Text.isBreak (c : Char) : Bool := c == '\n' || c == '\r'

/-- Characters without a break, found by evaluation. -/
theorem Text.unbroken_of_any {cs : List Char} (h : cs.any isBreak = false) : ∀ c ∈ cs, isBreak c = false := by
  simpa using h

def OneLine (s : String) : Prop := ∀ c ∈ s.toList, Text.isBreak c = false

theorem oneLine_append {s t : String} : OneLine (s ++ t) ↔ OneLine s ∧ OneLine t := by
  simp only [OneLine, String.toList_append, List.forall_mem_append]

theorem oneLine_ofList {cs : List Char} : OneLine (String.ofList cs) ↔ ∀ c ∈ cs, Text.isBreak c = false := by
  rw [OneLine, String.toList_ofList]

/-- A literal is a list of characters, so that its breaks are counted by evaluation. -/
theorem oneLine_literal {cs : List Char} (h : cs.any Text.isBreak = false) : OneLine (String.ofList cs) :=
  oneLine_ofList.2 (Text.unbroken_of_any h)

def OneLines (ls : List String) : Prop := ∀ l ∈ ls, OneLine l

theorem oneLines_nil : OneLines [] := List.forall_mem_nil _

theorem oneLines_cons {l : String} {ls : List String} : OneLines (l :: ls) ↔ OneLine l ∧ OneLines ls :=
  List.forall_mem_cons

theorem oneLines_append {ls ls' : List String} : OneLines (ls ++ ls') ↔ OneLines ls ∧ OneLines ls' :=
  List.forall_mem_append

theorem oneLine_intercalate {s : String} (hs : OneLine s) {items : List String} (h : OneLines items) :
    OneLine (s.intercalate items) := by
  induction items with
  | nil => exact oneLine_literal rfl
  | cons t items ih =>
    obtain ⟨ht, hitems⟩ := oneLines_cons.1 h
    cases items with
    | nil => rwa [String.intercalate_singleton]
    | cons u items =>
      rw [String.intercalate_cons_cons]
      exact oneLine_append.2 ⟨oneLine_append.2 ⟨ht, hs⟩, ih hitems⟩

namespace Source

def linesOf (s : String) : List String := (s.toList.splitOnP Text.isBreak).map String.ofList

theorem linesOf_of_oneLine {s : String} (h : OneLine s) : linesOf s = [s] := by
  rw [linesOf, List.splitOnP_eq_singleton h, List.map_singleton, String.ofList_toList]

private theorem linesOf_append_break (s t : String) : linesOf (s ++ "\n" ++ t) = linesOf s ++ linesOf t := by
  have hlist : (s ++ "\n" ++ t).toList = s.toList ++ '\n' :: t.toList := by simp
  rw [linesOf, hlist, List.splitOnP_append_cons _ _ (by decide), List.map_append]
  rfl

theorem linesOf_unlines {ls : List String} (hne : ls ≠ []) : linesOf (unlines ls) = ls.flatMap linesOf := by
  induction ls with
  | nil => exact absurd rfl hne
  | cons l ls ih =>
    cases ls with
    | nil => simp [unlines]
    | cons l' ls =>
      have hrest := ih (by simp)
      rw [unlines] at hrest ⊢
      rw [String.intercalate_cons_cons, linesOf_append_break, hrest, ← List.flatMap_cons]

/-- Lines without breaks are read back as they are. -/
theorem linesOf_unlines_of_oneLine {ls : List String} (hne : ls ≠ []) (h : OneLines ls) :
    linesOf (unlines ls) = ls := by
  rw [linesOf_unlines hne]
  have hlines : ls.flatMap linesOf = ls.flatMap fun l => [l] :=
    List.flatMap_congr fun l hl => linesOf_of_oneLine (h l hl)
  rw [hlines, List.flatMap_singleton']

end Source

/-! ### Numbers -/

namespace Numeral

private theorem isBreak_of_isDigit {c : Char} (h : isDigit c = true) : Text.isBreak c = false := by
  rw [isDigit_iff] at h
  rw [Text.isBreak, Bool.or_eq_false_iff, beq_eq_false_iff_ne, beq_eq_false_iff_ne]
  constructor
  · rintro rfl
    exact absurd h (by decide)
  · rintro rfl
    exact absurd h (by decide)

theorem unbroken_ofNat (n : Nat) : ∀ c ∈ ofNat n, Text.isBreak c = false := fun c hc =>
  isBreak_of_isDigit (digits_ofNat n c hc)

theorem unbroken_ofInt (n : Int) : ∀ c ∈ ofInt n, Text.isBreak c = false := by
  rw [ofInt]
  split
  · rw [List.forall_mem_cons]
    exact ⟨by decide, unbroken_ofNat _⟩
  · exact unbroken_ofNat _

end Numeral

namespace FloatNotation

theorem unbroken_replicate (n : Nat) : ∀ c ∈ List.replicate n '0', Text.isBreak c = false := by
  intro c hc
  rw [List.eq_of_mem_replicate hc]
  decide

private theorem unbroken_positional {digits : List Char} (h : ∀ c ∈ digits, Text.isBreak c = false) (place : Int) :
    ∀ c ∈ positional digits place, Text.isBreak c = false := by
  have htake (n : Nat) : ∀ c ∈ digits.take n, Text.isBreak c = false := fun c hc => h c (List.mem_of_mem_take hc)
  have hdrop (n : Nat) : ∀ c ∈ digits.drop n, Text.isBreak c = false := fun c hc => h c (List.mem_of_mem_drop hc)
  rw [positional]
  split
  · simp only [List.forall_mem_append]
    exact ⟨⟨Text.unbroken_of_any rfl, unbroken_replicate _⟩, h⟩
  · dsimp only
    split
    · simp only [List.forall_mem_append]
      exact ⟨⟨h, unbroken_replicate _⟩, Text.unbroken_of_any rfl⟩
    · simp only [List.forall_mem_append]
      exact ⟨⟨htake _, Text.unbroken_of_any rfl⟩, hdrop _⟩

private theorem unbroken_scientific (format : FloatNotation) {digits : List Char}
    (h : ∀ c ∈ digits, Text.isBreak c = false) (place : Int) :
    ∀ c ∈ format.scientific digits place, Text.isBreak c = false := by
  have hpoint : ∀ c ∈ if digits.length ≤ 1 then [] else '.' :: digits.drop 1, Text.isBreak c = false := by
    split
    · simp
    · rw [List.forall_mem_cons]
      exact ⟨by decide, fun c hc => h c (List.mem_of_mem_drop hc)⟩
  have hsign : ∀ c ∈ ['e', if place < 0 then '-' else '+'], Text.isBreak c = false := by
    split <;> exact Text.unbroken_of_any rfl
  rw [scientific]
  simp only [List.forall_mem_append]
  exact ⟨⟨⟨fun c hc => h c (List.mem_of_mem_take hc), hpoint⟩, hsign⟩, unbroken_replicate _,
    Numeral.unbroken_ofNat _⟩

theorem unbroken_write (format : FloatNotation) (x : Binary64) :
    ∀ c ∈ format.write x, Text.isBreak c = false := by
  have hsign : ∀ c ∈ if x.isNegative then ['-'] else [], Text.isBreak c = false := by
    split <;> exact Text.unbroken_of_any rfl
  rw [write]
  generalize Shortest.shortest x = found
  obtain ⟨value, grid⟩ := found
  dsimp only
  split
  · exact Text.unbroken_of_any rfl
  split
  · rw [List.forall_mem_append]
    exact ⟨hsign, Text.unbroken_of_any rfl⟩
  split
  · rw [List.forall_mem_append]
    exact ⟨hsign, Text.unbroken_of_any rfl⟩
  · have hdigits : ∀ c ∈ ((Numeral.ofNat value).reverse.dropWhile (· == '0')).reverse,
        Text.isBreak c = false := by
      intro c hc
      rw [List.mem_reverse] at hc
      exact Numeral.unbroken_ofNat _ c (List.mem_reverse.1 ((List.dropWhile_suffix _).subset hc))
    rw [List.forall_mem_append]
    refine ⟨hsign, ?_⟩
    split
    · exact unbroken_positional hdigits _
    · exact unbroken_scientific format hdigits _

end FloatNotation

/-! ### Literals -/

namespace Text

theorem exists_of_mem_hexDigits {width n : Nat} {c : Char} (h : c ∈ hexDigits width n) :
    ∃ d < 16, hexDigit d = c := by
  induction width generalizing n with
  | zero => simp [hexDigits] at h
  | succ width ih =>
    rw [hexDigits, List.mem_append, List.mem_singleton] at h
    rcases h with h | h
    · exact ih h
    · exact ⟨n % 16, Nat.mod_lt _ (by decide), h.symm⟩

theorem printable_hexDigits (width n : Nat) : ∀ c ∈ hexDigits width n, isPrintable c = true := by
  have hall : ∀ d < 16, isPrintable (hexDigit d) = true := by decide
  intro c hc
  obtain ⟨d, hd, rfl⟩ := exists_of_mem_hexDigits hc
  exact hall d hd

theorem printable_quoteFor (cs : List Char) : isPrintable (quoteFor cs) = true := by
  rw [quoteFor]
  split <;> rfl

/-- No character of a literal is a control, a separator or a format character. -/
theorem printable_escapeChar {quote : Char} (hquote : isPrintable quote = true) (c : Char) :
    ∀ d ∈ escapeChar quote c, isPrintable d = true := by
  rw [escapeChar]
  split
  · rename_i h
    rw [Bool.or_eq_true, decide_eq_true_eq, decide_eq_true_eq] at h
    rw [List.forall_mem_cons, List.forall_mem_singleton]
    rcases h with rfl | rfl
    · exact ⟨rfl, hquote⟩
    · exact ⟨rfl, rfl⟩
  split
  · exact List.all_eq_true.1 rfl
  split
  · exact List.all_eq_true.1 rfl
  split
  · exact List.all_eq_true.1 rfl
  split
  · rename_i hprintable
    rw [List.forall_mem_singleton]
    exact hprintable
  · rw [escapeByNumber]
    split
    · simp only [List.forall_mem_cons]
      exact ⟨rfl, rfl, printable_hexDigits _ _⟩
    split
    · simp only [List.forall_mem_cons]
      exact ⟨rfl, rfl, printable_hexDigits _ _⟩
    · simp only [List.forall_mem_cons]
      exact ⟨rfl, rfl, printable_hexDigits _ _⟩

theorem printable_quotedText (s : String) : ∀ c ∈ (quotedText s).toList, isPrintable c = true := by
  have hquote := printable_quoteFor s.toList
  rw [quotedText, String.toList_ofList, quoted, List.forall_mem_cons, List.forall_mem_append,
    List.forall_mem_singleton]
  refine ⟨hquote, fun c hc => ?_, hquote⟩
  obtain ⟨d, -, hd⟩ := List.mem_flatMap.1 hc
  exact printable_escapeChar hquote d c hd

theorem printable_quotedBytes (bs : List UInt8) : ∀ c ∈ quotedBytes bs, isPrintable c = true := by
  have hquote := printable_quoteFor (bs.map fun b => Char.ofNat b.toNat)
  simp only [quotedBytes, List.forall_mem_cons, List.forall_mem_append]
  refine ⟨rfl, hquote, fun c hc => ?_, hquote, List.forall_mem_nil _⟩
  obtain ⟨b, -, hb⟩ := List.mem_flatMap.1 hc
  rw [escapeByte] at hb
  split at hb
  · exact printable_escapeChar hquote _ c hb
  · rcases List.mem_cons.1 hb with rfl | hb
    · rfl
    · rcases List.mem_cons.1 hb with rfl | hb
      · rfl
      · exact printable_hexDigits _ _ c hb

theorem isBreak_of_isPrintable {c : Char} (h : isPrintable c = true) : isBreak c = false := by
  rw [isBreak, Bool.or_eq_false_iff, beq_eq_false_iff_ne, beq_eq_false_iff_ne]
  constructor
  · intro heq
    rw [heq] at h
    cases h
  · intro heq
    rw [heq] at h
    cases h

theorem oneLine_quotedText (s : String) : OneLine (quotedText s) := fun c hc =>
  isBreak_of_isPrintable (printable_quotedText s c hc)

end Text

namespace Value

/-- A value that has a source literal: all the integers in it are within the digit limit. -/
inductive Printable : Value → Prop
  | null : Printable null
  | bool (b : Bool) : Printable (bool b)
  | int {n : Int} (h : (IntegerText.write? n).isSome) : Printable (int n)
  | float (x : Binary64) : Printable (float x)
  | text (s : String) : Printable (text s)
  | bytes (bs : List UInt8) : Printable (bytes bs)
  | list {items : List Value} (h : ∀ v ∈ items, Printable v) : Printable (list items)
  | tuple {items : List Value} (h : ∀ v ∈ items, Printable v) : Printable (tuple items)
  | mapping {entries : List (String × Value)} (h : ∀ e ∈ entries, Printable e.2) : Printable (mapping entries)
  | object (attributes : List (String × Value)) : Printable (object attributes)
  | stream (items : List Value) : Printable (stream items)

theorem oneLine_enclosed {opening closing : String} (hopening : OneLine opening) (hclosing : OneLine closing)
    {items : List String} (h : OneLines items) : OneLine (enclosed opening closing items) := by
  rw [enclosed, oneLine_append, oneLine_append]
  exact ⟨⟨hopening, oneLine_intercalate (oneLine_literal rfl) h⟩, hclosing⟩

theorem oneLine_tupleText {items : List String} (h : OneLines items) : OneLine (tupleText items) := by
  unfold tupleText
  split
  · rw [oneLine_append, oneLine_append]
    exact ⟨⟨oneLine_literal rfl, h _ List.mem_cons_self⟩, oneLine_literal rfl⟩
  · exact oneLine_enclosed (oneLine_literal rfl) (oneLine_literal rfl) h

theorem Printable.literal {v : Value} (h : v.Printable) : ∃ s, v.literal = .ok s ∧ OneLine s := by
  induction h with
  | null => exact ⟨_, by rw [Value.literal], oneLine_literal rfl⟩
  | bool b => exact ⟨_, by rw [Value.literal], by cases b <;> exact oneLine_literal rfl⟩
  | @int n h =>
    obtain ⟨digits, hdigits⟩ := Option.isSome_iff_exists.1 h
    refine ⟨String.ofList digits, by rw [Value.literal, hdigits], ?_⟩
    rw [oneLine_ofList, IntegerText.write?_some hdigits]
    exact Numeral.unbroken_ofInt n
  | float x => exact ⟨_, by rw [Value.literal], oneLine_ofList.2 (FloatNotation.unbroken_write _ x)⟩
  | text s => exact ⟨_, by rw [Value.literal], Text.oneLine_quotedText s⟩
  | bytes bs => exact ⟨_, by rw [Value.literal], oneLine_ofList.2 fun c hc => Text.isBreak_of_isPrintable (Text.printable_quotedBytes bs c hc)⟩
  | @list items _ ih =>
    obtain ⟨parts, hparts, hlines⟩ := exists_mapM (f := fun v : { v // v ∈ items } => v.1.literal)
      fun v (_ : v ∈ items.attach) => ih v.1 v.2
    exact ⟨_, by rw [Value.literal, hparts]; rfl, oneLine_enclosed (oneLine_literal rfl) (oneLine_literal rfl) hlines⟩
  | @tuple items _ ih =>
    obtain ⟨parts, hparts, hlines⟩ := exists_mapM (f := fun v : { v // v ∈ items } => v.1.literal)
      fun v (_ : v ∈ items.attach) => ih v.1 v.2
    exact ⟨_, by rw [Value.literal, hparts]; rfl, oneLine_tupleText hlines⟩
  | @mapping entries _ ih =>
    have hentry (e : { e // e ∈ entries }) : ∃ s, (do
        let v ← e.1.2.literal
        return Text.quotedText e.1.1 ++ ": " ++ v : Except Error String) = .ok s ∧ OneLine s := by
      obtain ⟨s, hs, hline⟩ := ih e.1 e.2
      refine ⟨_, by rw [hs]; rfl, ?_⟩
      rw [oneLine_append, oneLine_append]
      exact ⟨⟨Text.oneLine_quotedText _, oneLine_literal rfl⟩, hline⟩
    obtain ⟨parts, hparts, hlines⟩ := exists_mapM fun e (_ : e ∈ entries.attach) => hentry e
    exact ⟨_, by rw [Value.literal, hparts]; rfl, oneLine_enclosed (oneLine_literal rfl) (oneLine_literal rfl) hlines⟩
  | object attributes => exact ⟨_, by rw [Value.literal], oneLine_literal rfl⟩
  | stream items => exact ⟨_, by rw [Value.literal], oneLine_literal rfl⟩

theorem Printable.sourceLiteral {v : Value} (h : v.Printable) : ∃ s, v.sourceLiteral = .ok s ∧ OneLine s := by
  unfold Value.sourceLiteral
  split
  · split
    · exact h.literal
    split
    · exact ⟨_, rfl, oneLine_literal rfl⟩
    · refine ⟨_, rfl, ?_⟩
      split <;> exact oneLine_literal rfl
  · exact h.literal

end Value

/-! ### Stems -/

namespace Naming

theorem mem_of_mem_collapse {cs : List Char} {c : Char} (h : c ∈ collapse cs) : c ∈ cs := by
  induction cs using collapse.induct with
  | case1 => exact h
  | case2 d => exact h
  | case3 d e rest hboth ih =>
    rw [collapse, if_pos hboth] at h
    exact List.mem_cons_of_mem _ (ih h)
  | case4 d e rest hboth ih =>
    rw [collapse, if_neg hboth] at h
    rcases List.mem_cons.1 h with rfl | h
    · exact List.mem_cons_self
    · exact List.mem_cons_of_mem _ (ih h)

theorem isPlain_of_mem_plain {cs : List Char} {c : Char} (h : c ∈ plain cs) : isPlain c = true := by
  obtain ⟨d, -, rfl⟩ := List.mem_map.1 h
  split
  · assumption
  · decide

theorem isPlain_of_mem_reduced {cs : List Char} {c : Char} (h : c ∈ reduced cs) : isPlain c = true :=
  isPlain_of_mem_plain (mem_of_mem_collapse ((Text.isInfix_trimWhile _ _).subset h))

private theorem isBreak_of_isPlain {c : Char} (h : isPlain c = true) : Text.isBreak c = false := by
  rw [Text.isBreak, Bool.or_eq_false_iff, beq_eq_false_iff_ne, beq_eq_false_iff_ne]
  constructor
  · rintro rfl
    exact absurd h (by decide)
  · rintro rfl
    exact absurd h (by decide)

private theorem unbroken_reduced (cs : List Char) : ∀ c ∈ reduced cs, Text.isBreak c = false :=
  fun _ hc => isBreak_of_isPlain (isPlain_of_mem_reduced hc)

private theorem unbroken_guarded {cs : List Char} (h : ∀ c ∈ cs, Text.isBreak c = false) :
    ∀ c ∈ guarded cs, Text.isBreak c = false := by
  unfold guarded
  extract_lets opened
  have hopened : ∀ c ∈ opened, Text.isBreak c = false := by
    unfold opened
    split
    · exact h
    · split
      · rw [List.forall_mem_cons]
        exact ⟨by decide, h⟩
      · exact h
  split
  · rw [List.forall_mem_append]
    exact ⟨hopened, Text.unbroken_of_any rfl⟩
  · exact hopened

private theorem oneLine_identifier (s : String) {fallback : String} (h : OneLine fallback) :
    OneLine (identifier s fallback) := by
  rw [identifier, oneLine_ofList]
  apply unbroken_guarded
  split
  · exact h
  · exact unbroken_reduced _

end Naming

theorem oneLine_decimal (n : Int) : OneLine (Source.decimal n) := oneLine_ofList.2 (Numeral.unbroken_ofInt n)

private theorem oneLine_stem (used : List String) (f : FieldPlan) : OneLine (f.stem used) := by
  have hplain := Naming.oneLine_identifier (Text.upperText (Naming.snakeCase f.name)) (show OneLine "FIELD" from oneLine_literal rfl)
  rw [FieldPlan.stem]
  split
  · rw [oneLine_append, oneLine_append]
    exact ⟨⟨hplain, oneLine_literal rfl⟩, oneLine_decimal f.number⟩
  · exact hplain

private theorem oneLine_of_mem_stemsFrom {used : List String} {fields : List FieldPlan} {e : Int × String}
    (h : e ∈ stemsFrom used fields) : OneLine e.2 := by
  induction fields generalizing used with
  | nil => simp [stemsFrom] at h
  | cons f fields ih =>
    rcases List.mem_cons.1 h with rfl | h
    · exact oneLine_stem used f
    · exact ih h

theorem oneLine_stemOf (m : MessagePlan) (number : Int) : OneLine (m.stemOf number) := by
  rw [MessagePlan.stemOf]
  cases hfound : (stemsFrom [] m.fields).reverse.find? fun e => e.1 == number with
  | none => exact (oneLine_literal rfl : OneLine "FIELD")
  | some e => exact oneLine_of_mem_stemsFrom (List.mem_reverse.1 (List.mem_of_find?_eq_some hfound))

end MessageCodec
