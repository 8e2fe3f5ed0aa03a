import MessageCodec.Proofs.Emission
import MessageCodec.Proofs.Expression
import MessageCodec.Proofs.Table

/-!
# Literals are read back

Whatever its characters are, a text is written as a literal that is read as the same text: a character is
written in one of four ways, each of which is resolved to the character and none of which closes the literal.
So no name of a schema can end the literal that holds it, and a separator in a name is none of the table. The
tables that are defined for a field are read as the tables that were meant, in the same order.

Integers of more digits than can be written have no literal, nor has a table that holds one; the tables of an
enum hold none.
-/

namespace MessageCodec

/-! ### Characters by number -/

namespace Text

theorem length_hexDigits (width n : Nat) : (hexDigits width n).length = width := by
  induction width generalizing n with
  | zero => rfl
  | succ width ih => rw [hexDigits, List.length_append, ih, List.length_singleton]

end Text

namespace Escaped

open Text

theorem hexOf?_hexDigit {d : Nat} (h : d < 16) : hexOf? (hexDigit d).toNat = some d := by
  have hall : ∀ d < 16, hexOf? (hexDigit d).toNat = some d := by decide
  exact hall d h

/-- A number that a width holds is read from its digits. -/
theorem hexNumber_hexDigits {width n : Nat} (h : n < 16 ^ width) :
    hexNumber ((hexDigits width n).map Char.toNat) = n := by
  induction width generalizing n with
  | zero =>
    obtain rfl : n = 0 := by simpa using h
    rfl
  | succ width ih =>
    have hdigits := ih (n := n / 16) (by rw [pow_succ] at h; omega)
    rw [hexNumber] at hdigits ⊢
    rw [hexDigits, List.map_append, List.foldl_append, hdigits, List.map_singleton, List.foldl_cons, List.foldl_nil,
      hexOf?_hexDigit (Nat.mod_lt _ (by decide)), Option.getD_some]
    omega

theorem hexRun_hexDigits (width n : Nat) (rest : List Nat) :
    hexRun width ((hexDigits width n).map Char.toNat ++ rest) = (hexDigits width n).map Char.toNat := by
  have hlength : width = ((hexDigits width n).map Char.toNat).length := by
    rw [List.length_map, length_hexDigits]
  rw [hexRun]
  nth_rewrite 1 [hlength]
  rw [List.take_left, List.takeWhile_eq_self_iff]
  intro m hm
  obtain ⟨c, hc, rfl⟩ := List.mem_map.1 hm
  obtain ⟨d, hd, rfl⟩ := exists_of_mem_hexDigits hc
  rw [hexOf?_hexDigit hd]
  rfl

/-! ### Escapes that are resolved

The position only tells where an error is, so what follows is taken to be resolved at every position. -/

variable {rest numbers : List Nat}

theorem resolve_plain {c : Nat} (hc : c ≠ backslash) (h : ∀ position, resolve position rest = .ok numbers)
    (position : Nat) : resolve position (c :: rest) = .ok (c :: numbers) := by
  cases rest with
  | nil =>
    have hnil := h position
    rw [resolve] at hnil
    rw [resolve, if_neg hc, ← Except.ok.inj hnil]
  | cons d rest =>
    rw [resolve, if_pos hc, h]
    rfl

theorem resolve_letter {d : Nat} {text : List Nat} (hd : simple? d = some text)
    (h : ∀ position, resolve position rest = .ok numbers) (position : Nat) :
    resolve position (backslash :: d :: rest) = .ok (text ++ numbers) := by
  rw [resolve, if_neg (by simp), hd, h]
  rfl

theorem resolve_byte {n : Nat} (hn : n < 16 ^ 2) (h : ∀ position, resolve position rest = .ok numbers) (position : Nat) :
    resolve position (backslash :: 'x'.toNat :: ((hexDigits 2 n).map Char.toNat ++ rest)) =
      .ok (n :: numbers) := by
  have hletter : simple? 'x'.toNat = none := rfl
  have hoctal : isOctal 'x'.toNat = false := rfl
  have hlength : ((hexDigits 2 n).map Char.toNat).length = 2 := by rw [List.length_map, length_hexDigits]
  have hdrop : ((hexDigits 2 n).map Char.toNat ++ rest).drop 2 = rest := List.drop_left' hlength
  rw [resolve, if_neg (by simp), hletter]
  simp only [hoctal, hexRun_hexDigits, hlength, hexNumber_hexDigits hn, hdrop, h]
  rfl

theorem resolve_number {letter count : Nat} {name : String} (hletter : numbered? letter = some (count, name))
    {n : Nat} (hn : n < 16 ^ count) (hlast : n ≤ 0x10ffff) (h : ∀ position, resolve position rest = .ok numbers)
    (position : Nat) :
    resolve position (backslash :: letter :: ((hexDigits count n).map Char.toNat ++ rest)) =
      .ok (n :: numbers) := by
  have hother : simple? letter = none ∧ isOctal letter = false ∧ letter ≠ 'x'.toNat := by
    unfold numbered? at hletter
    split at hletter
    · rename_i heq
      subst heq
      exact ⟨rfl, rfl, by decide⟩
    · split at hletter
      · rename_i heq
        subst heq
        exact ⟨rfl, rfl, by decide⟩
      · simp at hletter
  have hlength : ((hexDigits count n).map Char.toNat).length = count := by rw [List.length_map, length_hexDigits]
  have hdrop : ((hexDigits count n).map Char.toNat ++ rest).drop count = rest := List.drop_left' hlength
  rw [resolve, if_neg (by simp), hother.1]
  simp only [hother.2.1, hother.2.2, hletter, hexRun_hexDigits, hlength, hexNumber_hexDigits hn, hdrop, h]
  rw [if_neg (by simp), if_neg (by simp), if_neg (by omega), if_neg (by omega)]
  rfl

end Escaped

namespace Expression

open Text Escaped

/-! ### Characters of a literal -/

/-- The ways to write a character in a literal: as it is, with a backslash before a letter, or by its number. -/
inductive Written (quote c : Char) : List Char → Prop
  | plain (hquote : c ≠ quote) (hslash : c ≠ '\\') : Written quote c [c]
  | letter {d : Char} (h : Escaped.simple? d.toNat = some [c.toNat]) : Written quote c ['\\', d]
  | byte (h : c.toNat < 16 ^ 2) : Written quote c ('\\' :: 'x' :: hexDigits 2 c.toNat)
  | number {d : Char} {count : Nat} {name : String} (h : numbered? d.toNat = some (count, name))
      (hc : c.toNat < 16 ^ count) : Written quote c ('\\' :: d :: hexDigits count c.toNat)

private theorem written_escapeByNumber (quote c : Char) : Written quote c (escapeByNumber c) := by
  rw [escapeByNumber]
  split
  · rename_i hbyte
    exact .byte hbyte
  split
  · rename_i hshort
    exact .number rfl hshort
  · exact .number rfl (Nat.lt_of_le_of_lt c.toNat_le_max (by decide))

theorem written_escapeChar {quote : Char} (hquote : isQuote quote = true) (c : Char) :
    Written quote c (escapeChar quote c) := by
  rw [escapeChar]
  split
  · rename_i hc
    rw [isQuote, Bool.or_eq_true, beq_iff_eq, beq_iff_eq] at hquote
    rw [Bool.or_eq_true, decide_eq_true_eq, decide_eq_true_eq] at hc
    apply Written.letter
    rcases hc with rfl | rfl
    · rcases hquote with rfl | rfl <;> rfl
    · rfl
  rename_i hc
  rw [Bool.or_eq_true, decide_eq_true_eq, decide_eq_true_eq, not_or] at hc
  split
  · rename_i htab
    exact htab ▸ .letter rfl
  split
  · rename_i hfeed
    exact hfeed ▸ .letter rfl
  split
  · rename_i hreturn
    exact hreturn ▸ .letter rfl
  split
  · exact .plain hc.1 hc.2
  · exact written_escapeByNumber quote c

private theorem body_hexDigits {quote : Char} (hquote : isQuote quote = true) (width n : Nat) :
    Body quote (hexDigits width n) := by
  have hall : ∀ d < 16, isQuote (hexDigit d) = false ∧ hexDigit d ≠ '\\' := by decide
  refine body_of_forall fun c hc => ?_
  obtain ⟨d, hd, rfl⟩ := exists_of_mem_hexDigits hc
  obtain ⟨hplain, hslash⟩ := hall d hd
  exact ⟨(ne_of_isQuote hquote hplain).symm, hslash⟩

theorem Written.body {quote : Char} (hquote : isQuote quote = true) {c : Char} {cs : List Char}
    (h : Written quote c cs) : Body quote cs := by
  cases h with
  | plain hc hslash => exact .plain hc hslash .nil
  | letter _ => exact .pair _ .nil
  | byte _ => exact .pair _ (body_hexDigits hquote _ _)
  | number _ _ => exact .pair _ (body_hexDigits hquote _ _)

/-- However it is written, a character is resolved to itself. -/
theorem Written.resolve {quote c : Char} {cs : List Char} (h : Written quote c cs) {rest numbers : List Nat}
    (hrest : ∀ position, Escaped.resolve position rest = .ok numbers) (position : Nat) :
    Escaped.resolve position (cs.map Char.toNat ++ rest) = .ok (c.toNat :: numbers) := by
  cases h with
  | plain _ hslash =>
    have hnumber : c.toNat ≠ backslash := fun heq => hslash (Char.toNat_inj.1 heq)
    exact resolve_plain hnumber hrest position
  | letter hletter => exact resolve_letter hletter hrest position
  | byte hc => exact resolve_byte hc hrest position
  | number hletter hc => exact resolve_number hletter hc c.toNat_le_max hrest position

theorem body_escaped {quote : Char} (hquote : isQuote quote = true) (cs : List Char) :
    Body quote (cs.flatMap (escapeChar quote)) := by
  induction cs with
  | nil => exact .nil
  | cons c cs ih =>
    rw [List.flatMap_cons]
    exact ((written_escapeChar hquote c).body hquote).append ih

private theorem resolve_escaped {quote : Char} (hquote : isQuote quote = true) (cs : List Char) (position : Nat) :
    resolve position ((cs.flatMap (escapeChar quote)).map Char.toNat) = .ok (cs.map Char.toNat) := by
  induction cs generalizing position with
  | nil => rw [List.flatMap_nil, List.map_nil, resolve]
  | cons c cs ih =>
    rw [List.flatMap_cons, List.map_append, List.map_cons]
    exact (written_escapeChar hquote c).resolve ih position

private theorem unescaped?_escaped {quote : Char} (hquote : isQuote quote = true) (cs : List Char) :
    unescaped? (cs.flatMap (escapeChar quote)) = some (String.ofList cs) := by
  have hvalid : (cs.map Char.toNat).all (fun n => n.isValidChar) = true := by
    rw [List.all_eq_true]
    intro n hn
    obtain ⟨c, -, rfl⟩ := List.mem_map.1 hn
    exact decide_eq_true c.valid
  have hback : (cs.map Char.toNat).map Char.ofNat = cs := by
    rw [List.map_map]
    exact List.map_id'' Char.ofNat_toNat cs
  rw [unescaped?, resolve_escaped hquote]
  dsimp only
  rw [if_pos hvalid, hback]

theorem isQuote_quoteFor (cs : List Char) : isQuote (quoteFor cs) = true := by
  rw [quoteFor]
  split <;> rfl

/-- A quoted text is read as the text. -/
theorem text?_quoted (cs : List Char) : text? (quoted cs) = some (String.ofList cs) := by
  have hquote := isQuote_quoteFor cs
  have hslash := ne_of_isQuote hquote (d := '\\') rfl
  have hline : (cs.flatMap (escapeChar (quoteFor cs)) ++ [quoteFor cs]).any isBreak = false := by
    rw [List.any_eq_false]
    intro c hc
    have hunbroken := oneLine_ofList.1 (oneLine_quotedText (String.ofList cs)) c
    rw [String.toList_ofList, quoted] at hunbroken
    simp [hunbroken (List.mem_cons_of_mem _ hc)]
  rw [quoted, text?, hquote, hline, body?_append hslash (body_escaped hquote cs)]
  exact unescaped?_escaped hquote cs

/-! ### Integers -/

private theorem digits?_of_digits {a : Numeral} (h : Numeral.Digits a) (after : Bool) :
    IntegerText.digits? 10 after a = some (a.map fun c => c.toNat - 48) := by
  induction a generalizing after with
  | nil => rfl
  | cons c a ih =>
    obtain ⟨hc, ha⟩ := h.of_cons
    have hrange := Numeral.isDigit_iff.1 hc
    have hvalue : hexValue? c = some (c.toNat - 48) := if_pos hc
    rw [IntegerText.digits?]
    · rw [hvalue, ih ha]
      exact if_pos (by omega)
    · rintro rfl
      exact absurd hc (by decide)

private theorem anyBase?_ofNat {n : Nat} (h : (Numeral.ofNat n).length ≤ IntegerText.digitLimit) :
    IntegerText.anyBase? (Numeral.ofNat n) = some n := by
  have hvalue : IntegerText.valueIn 10 ((Numeral.ofNat n).map fun c => c.toNat - 48) = n := by
    rw [IntegerText.valueIn, List.foldl_map]
    exact Numeral.val_ofNat n
  rw [IntegerText.anyBase?]
  · rw [IntegerText.baseTen?, digits?_of_digits (Numeral.digits_ofNat n)]
    simp only [Option.bind_eq_bind, Option.bind_some, List.isEmpty_map, List.length_map, hvalue]
    rw [if_neg]
    simp [Numeral.ofNat_ne_nil, h]
  · intro c rest heq
    have hzero := Numeral.eq_zero_of_head?_ofNat (n := n) (by rw [heq]; rfl)
    rw [hzero] at heq
    simp at heq

theorem integer?_ofInt {n : Int} (h : (Numeral.ofNat n.natAbs).length ≤ IntegerText.digitLimit) :
    integer? (Numeral.ofInt n) = some n := by
  rw [Numeral.ofInt]
  split
  · rw [integer?, anyBase?_ofNat h, Option.map_some]
    congr 1
    omega
  · have hnat : n.toNat = n.natAbs := by omega
    rw [hnat, integer?, anyBase?_ofNat h, Option.map_some]
    · congr 1
      omega
    · intro digits heq
      have hdigit := Numeral.digits_ofNat n.natAbs '-' (by rw [heq]; exact List.mem_cons_self)
      cases hdigit

/-! ### Values in tables -/

/-- A line that is read as a value, by itself and between the separators of a table. -/
structure Denotes (t : String) (v : Value) : Prop where
  reads : atom? t.toList = some v
  part : ∀ sep, sep = ',' ∨ sep = ':' → IsPart sep t.toList
  line : OneLine t

theorem Denotes.ne_nil {t : String} {v : Value} (h : Denotes t v) : t.toList ≠ [] := by
  intro hnil
  have hreads := h.reads
  rw [hnil] at hreads
  cases hreads

private theorem isPart_quoted {sep : Char} (hsep : isQuote sep = false) (cs : List Char) : IsPart sep (quoted cs) := by
  have hquote := isQuote_quoteFor cs
  refine ⟨closed_quoted hsep hquote (body_escaped hquote cs), fun hhead => ?_⟩
  exact ne_of_isQuote hquote rfl (Option.some.inj hhead)

theorem denotes_text (s : String) : Denotes (quotedText s) (.text s) := by
  have hlist : (quotedText s).toList = quoted s.toList := String.toList_ofList
  refine ⟨?_, fun sep hsep => ?_, oneLine_quotedText s⟩
  · have hne : quoted s.toList ≠ "None".toList := fun heq =>
      ne_of_isQuote (isQuote_quoteFor s.toList) rfl (List.cons.inj heq).1
    rw [hlist, atom?, if_neg hne, text?_quoted, String.ofList_toList]
    rfl
  · rw [hlist]
    rcases hsep with rfl | rfl
    · exact isPart_quoted rfl s.toList
    · exact isPart_quoted rfl s.toList

private theorem not_special_of_mem_ofInt {n : Int} {c : Char} (h : c ∈ Numeral.ofInt n) :
    c ≠ ',' ∧ c ≠ ':' ∧ c ≠ ' ' ∧ c ≠ 'N' ∧ isQuote c = false := by
  have hdigits (m : Nat) (hc : c ∈ Numeral.ofNat m) :
      c ≠ ',' ∧ c ≠ ':' ∧ c ≠ ' ' ∧ c ≠ 'N' ∧ isQuote c = false := by
    have hdigit := Numeral.digits_ofNat m c hc
    have hne (d : Char) (hd : Numeral.isDigit d = false) : c ≠ d := by
      intro heq
      rw [heq, hd] at hdigit
      cases hdigit
    refine ⟨hne _ rfl, hne _ rfl, hne _ rfl, hne _ rfl, ?_⟩
    rw [isQuote, Bool.or_eq_false_iff, beq_eq_false_iff_ne, beq_eq_false_iff_ne]
    exact ⟨hne _ rfl, hne _ rfl⟩
  rw [Numeral.ofInt] at h
  split at h
  · rcases List.mem_cons.1 h with rfl | h
    · decide
    · exact hdigits _ h
  · exact hdigits _ h

theorem denotes_int {n : Int} (h : (Numeral.ofNat n.natAbs).length ≤ IntegerText.digitLimit) :
    Denotes (String.ofList (Numeral.ofInt n)) (.int n) := by
  have hreads := integer?_ofInt h
  have hspecial (c : Char) (hc : c ∈ Numeral.ofInt n) := not_special_of_mem_ofInt hc
  have hline := oneLine_ofList.2 (Numeral.unbroken_ofInt n)
  generalize Numeral.ofInt n = digits at hreads hspecial hline
  have hclosed (sep : Char) (hsep : sep = ',' ∨ sep = ':') : Closed sep digits := by
    refine closed_of_forall fun c hc => ?_
    obtain ⟨hcomma, hcolon, -, -, hquote⟩ := hspecial c hc
    rcases hsep with rfl | rfl
    · exact ⟨hcomma, hquote⟩
    · exact ⟨hcolon, hquote⟩
  cases digits with
  | nil => cases hreads
  | cons c cs =>
    obtain ⟨-, -, hblank, hname, hquote⟩ := hspecial c List.mem_cons_self
    refine ⟨?_, fun sep hsep => ?_, hline⟩
    · have hne : c :: cs ≠ "None".toList := fun heq => hname (List.cons.inj heq).1
      have htext : text? (c :: cs) = none := by rw [text?, hquote]; rfl
      rw [String.toList_ofList, atom?, if_neg hne, htext, hreads]
      rfl
    · rw [String.toList_ofList]
      exact ⟨hclosed sep hsep, fun hhead => hblank (Option.some.inj hhead)⟩

/-! ### Tables -/

theorem mapM_of_forall₂ {α β : Type} {f : α → Option β} {as : List α} {bs : List β}
    (h : List.Forall₂ (fun b a => f a = some b) bs as) : as.mapM f = some bs := by
  induction h with
  | nil => rfl
  | cons hab _ ih => rw [List.mapM_cons, hab, ih]; rfl

theorem items_intercalate {ps : List (List Char)} (h : ∀ p ∈ ps, IsPart ',' p ∧ p ≠ []) :
    items ([',', ' '].intercalate ps) = ps := by
  cases ps with
  | nil => rfl
  | cons p ps =>
    rw [items, parts_intercalate (by simp) fun q hq => (h q hq).1, if_neg]
    intro hlast
    exact (h [] (List.mem_of_getLast? hlast)).2 rfl

theorem read?_round (cs : List Char) : read? ('(' :: (cs ++ [')'])) = round? cs := by
  rw [read?, List.getLast?_concat, if_pos rfl, List.dropLast_concat]

theorem read?_curly (cs : List Char) : read? ('\x7b' :: (cs ++ ['\x7d'])) = curly? cs := by
  rw [read?, List.getLast?_concat, if_pos rfl, List.dropLast_concat]

theorem toList_enclosed (opening closing : String) (texts : List String) :
    (Value.enclosed opening closing texts).toList =
      opening.toList ++ ([',', ' '].intercalate (texts.map String.toList) ++ closing.toList) := by
  rw [Value.enclosed, String.toList_append, String.toList_append, String.toList_intercalate, List.append_assoc]
  rfl

/-- The texts of values, in round brackets, are read as the tuple of the values. -/
theorem read?_tupleText {vs : List Value} {texts : List String}
    (h : List.Forall₂ (fun v t => Denotes t v) vs texts) :
    read? (Value.tupleText texts).toList = some (.tuple vs) := by
  have hparts : ∀ p ∈ texts.map String.toList, IsPart ',' p ∧ p ≠ [] := by
    intro p hp
    obtain ⟨t, ht, rfl⟩ := List.mem_map.1 hp
    obtain ⟨v, -, hv⟩ := exists_of_forall₂ h ht
    exact ⟨hv.part _ (.inl rfl), hv.ne_nil⟩
  have hvalues : (texts.map String.toList).mapM atom? = some vs := by
    rw [List.mapM_map]
    exact mapM_of_forall₂ (h.imp fun v t hv => hv.reads)
  cases h with
  | nil => rfl
  | @cons v t vs texts hv hrest =>
    cases hrest with
    | nil =>
      -- behind the comma there is an empty part, which is no item
      have hpart := (hparts t.toList List.mem_cons_self).1
      have hlist : (Value.tupleText [t]).toList = '(' :: ((t.toList ++ [',']) ++ [')']) := by
        simp [Value.tupleText]
      have hcut : parts ',' (t.toList ++ [',']) = [t.toList, []] := hpart.parts_append []
      rw [hlist, read?_round, round?, items, hcut]
      exact congrArg (Option.map Value.tuple) hvalues
    | @cons w u ws us hw hws =>
      have hcut : parts ',' ([',', ' '].intercalate ((t :: u :: us).map String.toList)) =
          (t :: u :: us).map String.toList := parts_intercalate (by simp) fun p hp => (hparts p hp).1
      rw [Value.tupleText, toList_enclosed]
      · refine (read?_round _).trans ?_
        rw [round?, items_intercalate hparts, hcut]
        exact congrArg (Option.map Value.tuple) hvalues
      · simp

def EntryText (e : String × Value) (t : String) : Prop :=
  ∃ u, Denotes u e.2 ∧ t = quotedText e.1 ++ ": " ++ u

theorem toList_entry (key u : String) :
    (quotedText key ++ ": " ++ u).toList = (quotedText key).toList ++ ':' :: ' ' :: u.toList := by
  rw [String.toList_append, String.toList_append, List.append_assoc]
  rfl

theorem EntryText.entry? {e : String × Value} {t : String} (h : EntryText e t) :
    Expression.entry? t.toList = some e := by
  obtain ⟨u, hu, rfl⟩ := h
  have hkey := (denotes_text e.1).part ':' (.inr rfl)
  have hparts : parts ':' (quotedText e.1 ++ ": " ++ u).toList = [(quotedText e.1).toList, u.toList] := by
    rw [toList_entry, hkey.parts_append, parts_blank (by decide), (hu.part ':' (.inr rfl)).parts_eq]
  have htext : text? (quotedText e.1).toList = some e.1 := by
    rw [quotedText, String.toList_ofList, text?_quoted, String.ofList_toList]
  rw [Expression.entry?, hparts]
  simp only [htext, hu.reads, Option.bind_eq_bind, Option.bind_some, Option.pure_def]

private theorem EntryText.isPart {e : String × Value} {t : String} (h : EntryText e t) :
    IsPart ',' t.toList ∧ t.toList ≠ [] := by
  obtain ⟨u, hu, rfl⟩ := h
  have hkey := (denotes_text e.1).part ',' (.inl rfl)
  have hcolon : Closed ',' [':', ' '] := closed_of_forall (by simp [isQuote])
  rw [toList_entry]
  refine ⟨⟨hkey.closed.append (hcolon.append (hu.part ',' (.inl rfl)).closed), ?_⟩, by simp⟩
  rw [List.head?_append_of_ne_nil _ (denotes_text e.1).ne_nil]
  exact hkey.head

theorem EntryText.line {e : String × Value} {t : String} (h : EntryText e t) : OneLine t := by
  obtain ⟨u, hu, rfl⟩ := h
  rw [oneLine_append, oneLine_append]
  exact ⟨⟨oneLine_quotedText e.1, oneLine_literal rfl⟩, hu.line⟩

/-- The texts of entries, in curly brackets, are read as the mapping with these entries. -/
theorem read?_entries {entries : List (String × Value)} (hkeys : (entries.map Prod.fst).Nodup) {texts : List String}
    (h : List.Forall₂ EntryText entries texts) :
    read? (Value.enclosed "\x7b" "\x7d" texts).toList = some (.mapping entries) := by
  have hparts : ∀ p ∈ texts.map String.toList, IsPart ',' p ∧ p ≠ [] := by
    intro p hp
    obtain ⟨t, ht, rfl⟩ := List.mem_map.1 hp
    obtain ⟨e, -, he⟩ := exists_of_forall₂ h ht
    exact he.isPart
  have hentries : (texts.map String.toList).mapM entry? = some entries := by
    rw [List.mapM_map]
    exact mapM_of_forall₂ (h.imp fun e t he => he.entry?)
  rw [toList_enclosed]
  refine (read?_curly _).trans ?_
  rw [curly?, items_intercalate hparts, hentries, Option.map_some, Table.ofPairs_of_nodup hkeys]

end Expression

/-! ### Literals of values -/

namespace Value

open Expression

/-- A value of a table: a text or an integer. -/
inductive Atomic : Value → Prop
  | text (s : String) : Atomic (text s)
  | int (n : Int) : Atomic (int n)

theorem sourceLiteral_text (s : String) : (text s).sourceLiteral = .ok (Text.quotedText s) := by
  have hsource : (text s).sourceLiteral = (text s).literal := rfl
  rw [hsource, Value.literal]

/-- An integer with more digits than can be written. -/
def TooLong (v : Value) : Prop := ∃ n : Int, v = int n ∧ IntegerText.digitLimit < (Numeral.ofNat n.natAbs).length

theorem Atomic.literal {v : Value} (h : v.Atomic) :
    (∃ t, v.literal = .ok t ∧ Denotes t v) ∨ v.TooLong ∧ v.literal = .error .integerTooLong := by
  cases h with
  | text s => exact .inl ⟨_, by rw [Value.literal], denotes_text s⟩
  | int n =>
    rw [Value.literal, IntegerText.write?_eq]
    by_cases hlong : IntegerText.digitLimit < (Numeral.ofNat n.natAbs).length
    · rw [if_pos hlong]
      exact .inr ⟨⟨n, rfl, hlong⟩, rfl⟩
    · rw [if_neg hlong]
      exact .inl ⟨_, rfl, denotes_int (Nat.le_of_not_lt hlong)⟩

theorem literal_tuple {items : List Value} {texts : List String}
    (h : List.Forall₂ (fun v t => v.literal = .ok t) items texts) :
    (tuple items).literal = .ok (tupleText texts) := by
  have hparts : items.attach.mapM (fun v => v.1.literal) = .ok texts :=
    (List.mapM_subtype fun v _ => rfl).trans (by rw [List.unattach_attach]; exact mapM_eq_ok.2 h)
  rw [Value.literal, hparts]
  rfl

def entryLiteral (e : String × Value) : Except Error String := do
  let v ← e.2.literal
  return Text.quotedText e.1 ++ ": " ++ v

theorem literal_mapping (entries : List (String × Value)) :
    (mapping entries).literal = (do
      let parts ← entries.mapM entryLiteral
      return enclosed "\x7b" "\x7d" parts) := by
  rw [Value.literal]
  congr 1
  exact (List.mapM_subtype fun e _ => rfl).trans (by rw [List.unattach_attach]; rfl)

theorem Atomic.entryLiteral {e : String × Value} (h : e.2.Atomic) :
    (∃ t, Value.entryLiteral e = .ok t ∧ EntryText e t) ∨
      e.2.TooLong ∧ Value.entryLiteral e = .error .integerTooLong := by
  obtain ⟨u, hu, hdenotes⟩ | ⟨hlong, hfail⟩ := h.literal
  · exact .inl ⟨_, by rw [Value.entryLiteral, hu]; rfl, u, hdenotes, rfl⟩
  · exact .inr ⟨hlong, by rw [Value.entryLiteral, hfail]; rfl⟩

/-- The literal of a value is a single line, and read as an expression it denotes the value. -/
def ReadsBack (v : Value) : Prop := ∃ t, v.sourceLiteral = .ok t ∧ OneLine t ∧ read? t.toList = some v

theorem readsBack_null : null.ReadsBack := by
  have hsource : null.sourceLiteral = null.literal := rfl
  exact ⟨"None", by rw [hsource, Value.literal], oneLine_literal rfl, rfl⟩

theorem readsBack_text (s : String) : (text s).ReadsBack := by
  refine ⟨_, sourceLiteral_text s, Text.oneLine_quotedText s, ?_⟩
  have hlist : (Text.quotedText s).toList = Text.quoted s.toList := String.toList_ofList
  rw [read?]
  · exact (denotes_text s).reads
  all_goals
    intro rest heq
    exact ne_of_isQuote (isQuote_quoteFor s.toList) rfl (List.cons.inj (hlist.symm.trans heq)).1

theorem readsBack_tuple (texts : List String) : (tuple (texts.map text)).ReadsBack := by
  have hliterals : List.Forall₂ (fun v t => v.literal = .ok t) (texts.map text) (texts.map Text.quotedText) := by
    rw [List.forall₂_map_left_iff, List.forall₂_map_right_iff, List.forall₂_same]
    intro s _
    rw [Value.literal]
  have hdenotes : List.Forall₂ (fun v t => Denotes t v) (texts.map text) (texts.map Text.quotedText) := by
    rw [List.forall₂_map_left_iff, List.forall₂_map_right_iff, List.forall₂_same]
    exact fun s _ => denotes_text s
  refine ⟨_, literal_tuple hliterals, oneLine_tupleText fun t ht => ?_, read?_tupleText hdenotes⟩
  obtain ⟨s, -, rfl⟩ := List.mem_map.1 ht
  exact Text.oneLine_quotedText s

theorem readsBack_mapping {entries : List (String × Value)} (hkeys : (entries.map Prod.fst).Nodup)
    (hatomic : ∀ e ∈ entries, e.2.Atomic) :
    (mapping entries).ReadsBack ∨
      (∃ e ∈ entries, e.2.TooLong) ∧ (mapping entries).sourceLiteral = .error .integerTooLong := by
  have hsource : (mapping entries).sourceLiteral = (mapping entries).literal := rfl
  obtain ⟨texts, htexts, hall⟩ | ⟨hlong, hfail⟩ :=
    mapM_ok_or_error (f := entryLiteral) fun e he => (hatomic e he).entryLiteral
  · refine .inl ⟨enclosed "\x7b" "\x7d" texts, by rw [hsource, literal_mapping, htexts]; rfl, ?_, ?_⟩
    · refine oneLine_enclosed (oneLine_literal rfl) (oneLine_literal rfl) fun t ht => ?_
      obtain ⟨e, -, he⟩ := exists_of_forall₂ hall ht
      exact he.line
    · exact read?_entries hkeys hall
  · exact .inr ⟨hlong, by rw [hsource, literal_mapping, hfail]; rfl⟩

theorem readsBack_of_short {entries : List (String × Value)} (hkeys : (entries.map Prod.fst).Nodup)
    (h : ∀ e ∈ entries, (∃ s, e.2 = text s) ∨ ∃ n, e.2 = int n ∧ (IntegerText.write? n).isSome = true) :
    (mapping entries).ReadsBack := by
  have hatomic : ∀ e ∈ entries, e.2.Atomic := by
    intro e he
    obtain ⟨s, hs⟩ | ⟨n, hn, -⟩ := h e he
    · exact hs ▸ .text s
    · exact hn ▸ .int n
  obtain hread | ⟨⟨e, he, n, hn, hlong⟩, -⟩ := readsBack_mapping hkeys hatomic
  · exact hread
  · obtain ⟨s, hs⟩ | ⟨m, hm, hwritten⟩ := h e he
    · cases hs.symm.trans hn
    · obtain rfl := Value.int.inj (hm.symm.trans hn)
      rw [IntegerText.write?_eq, if_pos hlong] at hwritten
      cases hwritten

end Value

/-! ### Constants of a field -/

namespace Source.Emitter

open Value

def constants (e : Emitter) (f : FieldPlan) : List (String × Value) :=
  let keys := [("_KEYS_" ++ e.stem f, tuple (f.lookupKeys.map text)),
    ("_OUT_" ++ e.stem f, tuple ((e.outputKeys f).map text))]
  match f.enum with
  | none => keys
  | some t => keys ++
    [("_ENUM_" ++ e.stem f ++ "_BY_NAME", mapping (t.byName.map fun (p : String × Int) => (p.1, int p.2))),
      ("_ENUM_" ++ e.stem f ++ "_BY_NUMBER", mapping (t.byNumber.map fun (p : String × String) => (p.1, text p.2))),
      ("_ENUM_" ++ e.stem f ++ "_DEFAULT", (t.defaultName.map text).getD null)]

/-- A line that gives a name to an expression for a value. -/
def Assigns (line : String) (constant : String × Value) : Prop :=
  ∃ t, line = constant.1 ++ " = " ++ t ∧ OneLine t ∧ Expression.read? t.toList = some constant.2

theorem readsBack_byName {s : Schema.Enum} {t : EnumTable} (h : EnumTable.build s = .ok t) :
    (mapping (t.byName.map fun (p : String × Int) => (p.1, int p.2))).ReadsBack := by
  obtain ⟨hall, rfl⟩ := EnumTable.build_eq_ok_iff.1 h
  have hkeys := EnumTable.nodup_numbers s.values
  apply readsBack_of_short
  · rw [List.map_map]
    exact hkeys
  · intro e he
    obtain ⟨p, hp, rfl⟩ := List.mem_map.1 he
    obtain ⟨v, hv, hnumber⟩ := EnumTable.exists_of_mem_numbers hp
    exact .inr ⟨p.2, rfl, hnumber ▸ hall v hv⟩

theorem readsBack_byNumber (s : Schema.Enum) :
    (mapping ((EnumTable.ofEnum s).byNumber.map fun (p : String × String) => (p.1, text p.2))).ReadsBack := by
  have hkeys := EnumTable.nodup_byNumber s
  apply readsBack_of_short
  · rw [List.map_map]
    exact hkeys
  · intro e he
    obtain ⟨p, -, rfl⟩ := List.mem_map.1 he
    exact .inl ⟨p.2, rfl⟩

private theorem readsBack_defaultName (t : EnumTable) : ((t.defaultName.map text).getD null).ReadsBack := by
  cases t.defaultName with
  | none => exact readsBack_null
  | some name => exact readsBack_text name

/-- The name of a constant may end in the same piece of the line that the sign stands in. -/
theorem assigns_suffixed (head suffix : String) {sign t : String} {v : Value} (hsign : suffix ++ " = " = sign)
    (hline : OneLine t) (hread : Expression.read? t.toList = some v) :
    Assigns (head ++ sign ++ t) (head ++ suffix, v) := by
  refine ⟨t, ?_, hline, hread⟩
  rw [← hsign, ← String.append_assoc]

/-- The lines for a field give its constants their values, one line each. -/
theorem constantLines_assign (e : Emitter) {f : FieldPlan} (h : ∀ t ∈ f.enum, ∃ s, EnumTable.build s = .ok t) :
    ∃ lines, e.constantLines f = .ok lines ∧ List.Forall₂ Assigns lines (e.constants f) := by
  obtain ⟨keys, hkeys, hkeysLine, hkeysRead⟩ := readsBack_tuple f.lookupKeys
  obtain ⟨out, hout, houtLine, houtRead⟩ := readsBack_tuple (e.outputKeys f)
  rw [constantLines, keysLiteral, keysLiteral, hkeys, ok_bind, hout, ok_bind, constants]
  cases henum : f.enum with
  | none =>
    refine ⟨_, rfl, .cons ⟨keys, rfl, hkeysLine, hkeysRead⟩ (.cons ⟨out, rfl, houtLine, houtRead⟩ .nil)⟩
  | some t =>
    obtain ⟨s, hbuild⟩ := h t henum
    obtain ⟨byName, hbyName, hbyNameLine, hbyNameRead⟩ := readsBack_byName hbuild
    obtain ⟨-, rfl⟩ := EnumTable.build_eq_ok_iff.1 hbuild
    obtain ⟨byNumber, hbyNumber, hbyNumberLine, hbyNumberRead⟩ := readsBack_byNumber s
    obtain ⟨zero, hzero, hzeroLine, hzeroRead⟩ := readsBack_defaultName (EnumTable.ofEnum s)
    refine ⟨_, by dsimp only; rw [hbyName, ok_bind, hbyNumber, ok_bind, hzero, ok_bind]; rfl, ?_⟩
    exact .cons ⟨keys, rfl, hkeysLine, hkeysRead⟩ (.cons ⟨out, rfl, houtLine, houtRead⟩
      (.cons (assigns_suffixed _ "_BY_NAME" (by decide) hbyNameLine hbyNameRead)
        (.cons (assigns_suffixed _ "_BY_NUMBER" (by decide) hbyNumberLine hbyNumberRead)
          (.cons (assigns_suffixed _ "_DEFAULT" (by decide) hzeroLine hzeroRead) .nil))))

end Source.Emitter

/-- Every text has a literal of printable characters on one line that is read as the text; so has every tuple of
texts, and every mapping to texts and integers, in the same order, unless it holds an integer too long to be
written. And the lines of constants of a field, whose enum is one of a schema, assign the tables that are meant. -/
theorem literals_read_back :
    (∀ s : String, (Value.text s).ReadsBack ∧
      ∀ t, (Value.text s).sourceLiteral = .ok t → ∀ c ∈ t.toList, Text.isPrintable c = true) ∧
    (∀ texts : List String, (Value.tuple (texts.map Value.text)).ReadsBack) ∧
    (∀ entries : List (String × Value), (entries.map Prod.fst).Nodup → (∀ e ∈ entries, e.2.Atomic) →
      (Value.mapping entries).ReadsBack ∨
        (∃ e ∈ entries, e.2.TooLong) ∧ (Value.mapping entries).sourceLiteral = .error .integerTooLong) ∧
    ∀ (e : Source.Emitter) (f : FieldPlan), (∀ t ∈ f.enum, ∃ s, EnumTable.build s = .ok t) →
      ∃ lines, e.constantLines f = .ok lines ∧ List.Forall₂ Source.Emitter.Assigns lines (e.constants f) := by
  refine ⟨fun s => ⟨Value.readsBack_text s, fun t ht => ?_⟩, Value.readsBack_tuple,
    fun entries hkeys hatomic => Value.readsBack_mapping hkeys hatomic, fun e f h => e.constantLines_assign h⟩
  rw [Value.sourceLiteral_text] at ht
  obtain rfl := Except.ok.inj ht
  exact Text.printable_quotedText s

end MessageCodec
