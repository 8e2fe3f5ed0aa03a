import MessageCodec.Proofs.Lines
import MessageCodec.Text.Escaped

/-!
# Reading expressions

The expressions that constants need, from the side of whoever reads the source text: quoted texts, integers,
the null constant, and brackets around such values. A reader knows nothing of how a literal was written. It
finds the end of a quoted text by its quotes and backslashes, resolves the escapes in it, and takes commas and
colons for separators wherever they stand outside of quoted texts. One value in round brackets is that value,
and it is the comma behind it that makes a tuple of it.

What else may stand in an expression is refused: prefixes and long quotes, adjacent literals, operators, names.
-/

namespace MessageCodec

namespace Expression

/-! ### Quoted texts -/

def isQuote (c : Char) : Bool := c == '\'' || c == '"'

theorem ne_of_isQuote {quote d : Char} (hquote : isQuote quote = true) (hd : isQuote d = false) : quote ≠ d := by
  intro heq
  rw [heq, hd] at hquote
  cases hquote

/-- The characters up to the closing quote, which has to come last. A backslash takes the next character with
it, so that it does not close the literal. -/
def body? (quote : Char) : List Char → Option (List Char)
  | [] => none
  | '\\' :: c :: rest => (body? quote rest).map fun body => '\\' :: c :: body
  | c :: rest =>
    if c = quote then if rest.isEmpty then some [] else none
    else (body? quote rest).map (c :: ·)

def unescaped? (body : List Char) : Option String :=
  match Escaped.resolve 0 (body.map Char.toNat) with
  | .ok numbers =>
    if numbers.all fun n => n.isValidChar then some (String.ofList (numbers.map Char.ofNat)) else none
  | .error _ => none

def text? : List Char → Option String
  | [] => none
  | quote :: rest =>
    if isQuote quote && !rest.any Text.isBreak then (body? quote rest).bind unescaped? else none

/-! ### Values -/

def integer? : List Char → Option Int
  | '-' :: digits => (IntegerText.anyBase? digits).map fun (n : Nat) => -(n : Int)
  | digits => (IntegerText.anyBase? digits).map fun (n : Nat) => (n : Int)

def atom? (cs : List Char) : Option Value :=
  if cs = "None".toList then some .null
  else ((text? cs).map Value.text).or ((integer? cs).map Value.int)

/-- Where a character stands: outside of quoted texts, in one, or in one just after a backslash. -/
inductive Place where
  | outside
  | inside (quote : Char)
  | escaped (quote : Char)
deriving DecidableEq

def Place.next : Place → Char → Place
  | outside, c => if isQuote c then inside c else outside
  | inside quote, c => if c = quote then outside else if c = '\\' then escaped quote else inside quote
  | escaped quote, _ => inside quote

def cut (sep : Char) : Place → List Char → List (List Char)
  | _, [] => [[]]
  | place, c :: cs =>
    if place = .outside ∧ c = sep then [] :: cut sep .outside cs
    else (cut sep (place.next c) cs).modifyHead (c :: ·)

def parts (sep : Char) (cs : List Char) : List (List Char) :=
  (cut sep .outside cs).map fun part => part.dropWhile (· == ' ')

def items (cs : List Char) : List (List Char) :=
  if (parts ',' cs).getLast? = some [] then (parts ',' cs).dropLast else parts ',' cs

def round? (cs : List Char) : Option Value :=
  match parts ',' cs with
  | [part] => if part.isEmpty then some (.tuple []) else atom? part
  | _ => ((items cs).mapM atom?).map Value.tuple

def entry? (cs : List Char) : Option (String × Value) :=
  match parts ':' cs with
  | [key, value] => do
    let key ← text? key
    let value ← atom? value
    return (key, value)
  | _ => none

def curly? (cs : List Char) : Option Value :=
  ((items cs).mapM entry?).map fun entries => .mapping (Table.ofPairs entries)

def read? (cs : List Char) : Option Value :=
  match cs with
  | '(' :: rest => if rest.getLast? = some ')' then round? rest.dropLast else none
  | '\x7b' :: rest => if rest.getLast? = some '\x7d' then curly? rest.dropLast else none
  | cs => atom? cs

/-- One value in round brackets is no tuple. -/
example : read? "(-7)".toList = some (.int (-7)) ∧ read? "(-7,)".toList = some (.tuple [.int (-7)]) := by
  constructor <;> rfl

/-! ### Bodies of quoted texts -/

/-- Characters that may stand in a literal with a quote: no quote, and no backslash by itself. -/
inductive Body (quote : Char) : List Char → Prop
  | nil : Body quote []
  | plain {c : Char} {cs : List Char} (hquote : c ≠ quote) (hslash : c ≠ '\\') (h : Body quote cs) :
      Body quote (c :: cs)
  | pair (c : Char) {cs : List Char} (h : Body quote cs) : Body quote ('\\' :: c :: cs)

theorem Body.append {quote : Char} {cs ds : List Char} (h : Body quote cs) (hd : Body quote ds) :
    Body quote (cs ++ ds) := by
  induction h with
  | nil => exact hd
  | plain hquote hslash _ ih => exact .plain hquote hslash ih
  | pair c _ ih => exact .pair c ih

theorem body_of_forall {quote : Char} {cs : List Char} (h : ∀ c ∈ cs, c ≠ quote ∧ c ≠ '\\') : Body quote cs := by
  induction cs with
  | nil => exact .nil
  | cons c cs ih =>
    obtain ⟨hc, hcs⟩ := List.forall_mem_cons.1 h
    exact .plain hc.1 hc.2 (ih hcs)

private theorem body?_cons {quote c : Char} (hslash : c ≠ '\\') (hquote : c ≠ quote) (rest : List Char) :
    body? quote (c :: rest) = (body? quote rest).map (c :: ·) := by
  rw [body?]
  · exact if_neg hquote
  · exact fun _ _ heq _ => hslash heq

/-- A body is found again in front of the closing quote. -/
theorem body?_append {quote : Char} (hslash : quote ≠ '\\') {cs : List Char} (h : Body quote cs) :
    body? quote (cs ++ [quote]) = some cs := by
  induction h with
  | nil =>
    rw [List.nil_append, body?]
    · exact if_pos rfl
    · exact fun _ _ heq _ => hslash heq
  | plain hquote hslash _ ih => rw [List.cons_append, body?_cons hslash hquote, ih, Option.map_some]
  | pair c _ ih => rw [List.cons_append, List.cons_append, body?, ih, Option.map_some]

/-! ### Cutting outside of quoted texts -/

theorem cut_sep (sep : Char) (cs : List Char) : cut sep .outside (sep :: cs) = [] :: cut sep .outside cs := by
  rw [cut, if_pos ⟨rfl, rfl⟩]

theorem cut_cons {sep c : Char} {place : Place} (h : place = .outside → c ≠ sep) (cs : List Char) :
    cut sep place (c :: cs) = (cut sep (place.next c) cs).modifyHead (c :: ·) := by
  rw [cut, if_neg fun hboth => h hboth.1 hboth.2]

theorem cut_inside {sep quote : Char} (hslash : quote ≠ '\\') {cs : List Char} (h : Body quote cs)
    (rest : List Char) :
    cut sep (.inside quote) (cs ++ rest) = (cut sep (.inside quote) rest).modifyHead (cs ++ ·) := by
  have hinside (place : Place) (hne : place ≠ .outside) (c : Char) (cs : List Char) :
      cut sep place (c :: cs) = (cut sep (place.next c) cs).modifyHead (c :: ·) :=
    cut_cons (fun hplace => absurd hplace hne) cs
  induction h with
  | nil => exact (congrFun List.modifyHead_id _).symm
  | @plain c cs hquote hbackslash _ ih =>
    rw [List.cons_append, hinside _ (by simp), Place.next, if_neg hquote, if_neg hbackslash, ih,
      List.modifyHead_modifyHead]
    rfl
  | @pair c cs _ ih =>
    rw [List.cons_append, List.cons_append, hinside _ (by simp), Place.next, if_neg hslash.symm, if_pos rfl,
      hinside _ (by simp), Place.next, ih, List.modifyHead_modifyHead, List.modifyHead_modifyHead]
    rfl

/-- A piece that is passed over from outside to outside without a cut. -/
def Closed (sep : Char) (p : List Char) : Prop :=
  ∀ rest, cut sep .outside (p ++ rest) = (cut sep .outside rest).modifyHead (p ++ ·)

theorem Closed.append {sep : Char} {p q : List Char} (hp : Closed sep p) (hq : Closed sep q) :
    Closed sep (p ++ q) := by
  intro rest
  rw [List.append_assoc, hp, hq, List.modifyHead_modifyHead]
  congr 1
  funext part
  exact (List.append_assoc p q part).symm

theorem closed_of_forall {sep : Char} {p : List Char} (h : ∀ c ∈ p, c ≠ sep ∧ isQuote c = false) :
    Closed sep p := by
  intro rest
  induction p with
  | nil => exact (congrFun List.modifyHead_id _).symm
  | cons c p ih =>
    obtain ⟨⟨hsep, hquote⟩, hp⟩ := List.forall_mem_cons.1 h
    rw [List.cons_append, cut_cons (fun _ => hsep), Place.next, hquote, if_neg (by simp), ih hp,
      List.modifyHead_modifyHead]
    rfl

/-- A quoted text is passed over whatever stands in it. -/
theorem closed_quoted {sep quote : Char} (hsep : isQuote sep = false) (hquote : isQuote quote = true)
    {body : List Char} (h : Body quote body) : Closed sep (quote :: (body ++ [quote])) := by
  intro rest
  have hne := ne_of_isQuote hquote hsep
  have hslash := ne_of_isQuote hquote (d := '\\') rfl
  rw [List.cons_append, List.append_assoc, cut_cons (fun _ => hne), Place.next, if_pos hquote,
    cut_inside hslash h, List.singleton_append, cut_cons (fun hplace => by cases hplace), Place.next, if_pos rfl,
    List.modifyHead_modifyHead, List.modifyHead_modifyHead]
  congr 1
  funext part
  simp

theorem Closed.cut_append_sep {sep : Char} {p : List Char} (h : Closed sep p) (rest : List Char) :
    cut sep .outside (p ++ sep :: rest) = p :: cut sep .outside rest := by
  rw [h, cut_sep, List.modifyHead_cons, List.append_nil]

/-! ### Parts -/

/-- A piece that may be a part: no separator is found in it, and it does not begin with a blank. -/
structure IsPart (sep : Char) (p : List Char) : Prop where
  closed : Closed sep p
  head : p.head? ≠ some ' '

theorem IsPart.dropWhile {sep : Char} {p : List Char} (h : IsPart sep p) : p.dropWhile (· == ' ') = p := by
  cases p with
  | nil => rfl
  | cons c p =>
    have hc : c ≠ ' ' := fun heq => h.head (congrArg some heq)
    exact List.dropWhile_cons_of_neg (by simpa using hc)

theorem IsPart.parts_append {sep : Char} {p : List Char} (h : IsPart sep p) (rest : List Char) :
    parts sep (p ++ sep :: rest) = p :: parts sep rest := by
  rw [parts, h.closed.cut_append_sep, List.map_cons, h.dropWhile, parts]

theorem IsPart.parts_eq {sep : Char} {p : List Char} (h : IsPart sep p) : parts sep p = [p] := by
  have hcut := h.closed []
  rw [List.append_nil] at hcut
  rw [parts, hcut, cut, List.modifyHead_cons, List.append_nil, List.map_singleton, h.dropWhile]

theorem parts_blank {sep : Char} (hsep : sep ≠ ' ') (cs : List Char) : parts sep (' ' :: cs) = parts sep cs := by
  have hnext : Place.outside.next ' ' = .outside := rfl
  rw [parts, parts, cut_cons (fun _ => hsep.symm), hnext]
  cases cut sep .outside cs <;> rfl

/-- Parts with a comma and a blank between them are found again. -/
theorem parts_intercalate {ps : List (List Char)} (hne : ps ≠ []) (h : ∀ p ∈ ps, IsPart ',' p) :
    parts ',' ([',', ' '].intercalate ps) = ps := by
  induction ps with
  | nil => exact absurd rfl hne
  | cons p ps ih =>
    obtain ⟨hp, hps⟩ := List.forall_mem_cons.1 h
    cases ps with
    | nil => rw [List.intercalate_singleton, hp.parts_eq]
    | cons q ps =>
      rw [List.intercalate_cons_cons, List.append_assoc, List.cons_append, hp.parts_append, List.singleton_append,
        parts_blank (by decide), ih (by simp) hps]

end Expression

end MessageCodec
