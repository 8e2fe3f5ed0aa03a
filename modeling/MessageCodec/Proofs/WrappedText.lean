import MessageCodec.Proofs.EnumTable
import MessageCodec.Proofs.Reading

/-!
# Base64 text in other forms

Bytes are read from their base64 text also where blanks have been put into it or padding has been left out. The
blanks are dropped, and the length of what stays says how much padding is missing. All other texts are read too.
Only digits, padding and blanks give bytes, and then those that the digits spell.
-/

namespace MessageCodec

namespace Base64

variable {bs : List UInt8} {cs ds : List Char}

/-! ### Blanks and padding -/

/-- A text with blanks put in anywhere. -/
inductive Spaced : List Char → List Char → Prop
  | nil : Spaced [] []
  | keep (c : Char) {cs ds : List Char} (h : Spaced cs ds) : Spaced (c :: cs) (c :: ds)
  | blank {c : Char} (hc : Text.isBlank c = true) {cs ds : List Char} (h : Spaced cs ds) : Spaced cs (c :: ds)

theorem removeBlanks_of_spaced (h : Spaced cs ds) : Text.removeBlanks ds = Text.removeBlanks cs := by
  induction h with
  | nil => rfl
  | keep c _ ih =>
    simp only [Text.removeBlanks, List.filter_cons] at ih ⊢
    rw [ih]
  | blank hc _ ih =>
    rw [Text.removeBlanks, List.filter_cons_of_neg (by simp [hc])]
    exact ih

theorem spaced_removeBlanks (cs : List Char) : Spaced (Text.removeBlanks cs) cs := by
  induction cs with
  | nil => exact .nil
  | cons c cs ih =>
    rw [Text.removeBlanks, List.filter_cons]
    split
    · exact .keep c ih
    · rename_i hblank
      exact .blank (by simpa using hblank) ih

/-- The base64 text of some bytes without some of its padding, and with blanks put in anywhere. -/
def Wraps (bs : List UInt8) (cs : List Char) : Prop :=
  ∃ short count, encode bs = short ++ List.replicate count '=' ∧ Spaced short cs

theorem wraps_encode (bs : List UInt8) : Wraps bs (encode bs) := by
  refine ⟨encode bs, 0, (List.append_nil _).symm, ?_⟩
  generalize encode bs = cs
  induction cs with
  | nil => exact .nil
  | cons c cs ih => exact .keep c ih

private theorem count_pad_encode (bs : List UInt8) : (encode bs).count '=' ≤ 2 := by
  have hdigit : ∀ n < 64, ∀ cs : List Char, (digit n :: cs).count '=' = cs.count '=' := by
    intro n hn cs
    exact List.count_cons_of_ne (digit_ne_pad hn)
  induction bs using encode.induct with
  | case1 => simp [encode]
  | case2 a =>
    have ha := a.toNat_lt
    rw [encode, hdigit _ (by omega), hdigit _ (by omega)]
    decide
  | case3 a b =>
    have ha := a.toNat_lt
    have hb := b.toNat_lt
    rw [encode, hdigit _ (by omega), hdigit _ (by omega), hdigit _ (by omega)]
    decide
  | case4 a b c rest ih =>
    have ha := a.toNat_lt
    have hb := b.toNat_lt
    have hc := c.toNat_lt
    rwa [encode, hdigit _ (by omega), hdigit _ (by omega), hdigit _ (by omega), hdigit _ (by omega)]

private theorem pad_of_encode {short : List Char} {count : Nat} (h : encode bs = short ++ List.replicate count '=') :
    pad short = encode bs := by
  have hcount := count_pad_encode bs
  have hlength := length_encode bs
  rw [h, List.count_append, List.count_replicate_self] at hcount
  rw [h, List.length_append, List.length_replicate] at hlength
  have hmissing : (4 - short.length % 4) % 4 = count := by omega
  rw [pad, hmissing, h]

theorem decode_of_wraps (h : Wraps bs cs) : decode cs = bs := by
  obtain ⟨short, count, hencode, hspaced⟩ := h
  have hblank : Text.removeBlanks cs = short := by
    rw [removeBlanks_of_spaced hspaced]
    apply List.filter_eq_self.2
    intro c hc
    rw [isBlank_of_mem_encode bs c (by rw [hencode]; exact List.mem_append_left _ hc)]
    rfl
  rw [decode, hblank, pad_of_encode hencode, decodeStrict_encode, Option.getD_some]

/-! ### Digits -/

private theorem lt_of_digitValue? {c : Char} {v : Nat} (h : digitValue? c = some v) : c.toNat < 0x80 := by
  have hbelow (last : Char) (hle : c.val ≤ last.val) (hlast : last.toNat < 0x80) : c.toNat < 0x80 :=
    (UInt32.le_iff_toNat_le.1 hle).trans_lt hlast
  unfold digitValue? at h
  split at h
  · rename_i hupper
    exact hbelow 'Z' (of_decide_eq_true hupper).2 (by decide)
  split at h
  · rename_i hlower
    exact hbelow 'z' (of_decide_eq_true (Bool.and_eq_true_iff.1 hlower).2) (by decide)
  split at h
  · rename_i hdigit
    exact hbelow '9' (of_decide_eq_true (Bool.and_eq_true_iff.1 hdigit).2) (by decide)
  split at h
  · rename_i hplus
    rw [hplus]
    decide
  split at h
  · rename_i hslash
    rw [hslash]
    decide
  · cases h

theorem digit_of_digitValue? {c : Char} {v : Nat} (h : digitValue? c = some v) : v < 64 ∧ digit v = c := by
  have hall : ∀ v ∈ digitValue? c, v < 64 ∧ digit v = c := by
    apply Text.ascii_forall c (lt_of_digitValue? h)
    decide
  exact hall v h

/-! ### What is read -/

private theorem of_readFrom_pad {phase : Phase} {pads : Nat} (h : readFrom phase pads ('=' :: cs) = some bs) :
    (phase.closedBy (pads + 1) = true ∧ cs = [] ∧ bs = []) ∨ readFrom phase (pads + 1) cs = some bs := by
  unfold readFrom at h
  rw [if_pos rfl] at h
  split at h
  · rename_i hclosed
    split at h
    · exact .inl ⟨hclosed, rfl, (Option.some.inj h).symm⟩
    · cases h
  · exact .inr h

private theorem of_readFrom_digit {phase : Phase} {pads : Nat} {c : Char} (hc : c ≠ '=')
    (h : readFrom phase pads (c :: cs) = some bs) :
    pads = 0 ∧ ∃ v more, digitValue? c = some v ∧ readFrom (phase.push v).1 0 cs = some more ∧
      bs = (phase.push v).2 ++ more := by
  unfold readFrom at h
  rw [if_neg hc] at h
  split at h
  · cases h
  · rename_i v hv
    split at h
    · rename_i hpads
      obtain ⟨more, hmore, rfl⟩ := Option.map_eq_some_iff.1 h
      exact ⟨hpads, v, more, hv, hmore, rfl⟩
    · cases h

/-- Reading goes on with a digit, or only padding is left, which does not stand after the first digit of a group. No
digit follows padding. -/
theorem readFrom_cases {phase : Phase} {pads : Nat} (h : readFrom phase pads cs = some bs) :
    (bs = [] ∧ (∃ count, cs = List.replicate count '=') ∧ ∀ bits, phase ≠ .one bits) ∨
      (pads = 0 ∧ ∃ c v rest more, cs = c :: rest ∧ digitValue? c = some v ∧
        readFrom (phase.push v).1 0 rest = some more ∧ bs = (phase.push v).2 ++ more) := by
  induction cs generalizing pads with
  | nil =>
    cases phase with
    | start => exact .inl ⟨(Option.some.inj h).symm, ⟨0, rfl⟩, by simp⟩
    | one bits => cases h
    | two bits => cases h
    | three bits => cases h
  | cons c cs ih =>
    by_cases hc : c = '='
    · left
      subst hc
      rcases of_readFrom_pad h with ⟨hclosed, rfl, rfl⟩ | hrest
      · refine ⟨rfl, ⟨1, rfl⟩, ?_⟩
        rintro bits rfl
        cases hclosed
      · rcases ih hrest with ⟨hbs, ⟨count, rfl⟩, hphase⟩ | ⟨hpads, -⟩
        · exact ⟨hbs, ⟨count + 1, rfl⟩, hphase⟩
        · cases hpads
    · right
      obtain ⟨hpads, v, more, hv, hmore, heq⟩ := of_readFrom_digit hc h
      exact ⟨hpads, c, v, cs, more, rfl, hv, hmore, heq⟩

/-- Digits that spell bytes. They are those of the base64 text of the bytes, but for the last digit, which may have
bits to spare. -/
structure Spells (ds : List Char) (bs : List UInt8) : Prop where
  digits : ∀ c ∈ ds, (digitValue? c).isSome = true
  length : bs.length = ds.length * 3 / 4
  front : ds.dropLast <+: encode bs

section Groups

variable {c d e f : Char} {v w x y : Nat}

theorem Spells.nil : Spells [] [] := ⟨by simp, rfl, List.nil_prefix⟩

theorem Spells.two (hc : digitValue? c = some v) (hd : digitValue? d = some w) :
    Spells [c, d] [(v * 4 + w / 16).toUInt8] := by
  obtain ⟨hv, rfl⟩ := digit_of_digitValue? hc
  obtain ⟨hw, rfl⟩ := digit_of_digitValue? hd
  have hfirst : (v * 4 + w / 16) / 4 = v := by omega
  refine ⟨by simp [hc, hd], by simp, ?_⟩
  rw [encode, Word.toNat_toUInt8 (by omega), hfirst]
  exact ⟨_, rfl⟩

theorem Spells.three (hc : digitValue? c = some v) (hd : digitValue? d = some w) (he : digitValue? e = some x) :
    Spells [c, d, e] [(v * 4 + w / 16).toUInt8, (w % 16 * 16 + x / 4).toUInt8] := by
  obtain ⟨hv, rfl⟩ := digit_of_digitValue? hc
  obtain ⟨hw, rfl⟩ := digit_of_digitValue? hd
  obtain ⟨hx, -⟩ := digit_of_digitValue? he
  have hfirst : (v * 4 + w / 16) / 4 = v := by omega
  have hsecond : (v * 4 + w / 16) % 4 * 16 + (w % 16 * 16 + x / 4) / 16 = w := by omega
  refine ⟨by simp [hc, hd, he], by simp, ?_⟩
  rw [encode, Word.toNat_toUInt8 (by omega), Word.toNat_toUInt8 (by omega), hfirst, hsecond]
  exact ⟨_, rfl⟩

theorem Spells.group (hc : digitValue? c = some v) (hd : digitValue? d = some w) (he : digitValue? e = some x)
    (hf : digitValue? f = some y) (h : Spells ds bs) :
    Spells (c :: d :: e :: f :: ds)
      ((v * 4 + w / 16).toUInt8 :: (w % 16 * 16 + x / 4).toUInt8 :: (x % 4 * 64 + y).toUInt8 :: bs) := by
  obtain ⟨hv, rfl⟩ := digit_of_digitValue? hc
  obtain ⟨hw, rfl⟩ := digit_of_digitValue? hd
  obtain ⟨hx, rfl⟩ := digit_of_digitValue? he
  obtain ⟨hy, rfl⟩ := digit_of_digitValue? hf
  have hfirst : (v * 4 + w / 16) / 4 = v := by omega
  have hsecond : (v * 4 + w / 16) % 4 * 16 + (w % 16 * 16 + x / 4) / 16 = w := by omega
  have hthird : (w % 16 * 16 + x / 4) % 16 * 4 + (x % 4 * 64 + y) / 64 = x := by omega
  have hfourth : (x % 4 * 64 + y) % 64 = y := by omega
  refine ⟨?_, ?_, ?_⟩
  · simpa [hc, hd, he, hf] using h.digits
  · have hlength := h.length
    simp only [List.length_cons]
    omega
  · rw [encode, Word.toNat_toUInt8 (by omega), Word.toNat_toUInt8 (by omega), Word.toNat_toUInt8 (by omega), hfirst,
      hsecond, hthird, hfourth]
    have hdrop : (digit v :: digit w :: digit x :: digit y :: ds).dropLast <+:
        digit v :: digit w :: digit x :: digit y :: ds.dropLast := by
      cases ds with
      | nil => exact ⟨[digit y], rfl⟩
      | cons g ds => exact List.prefix_rfl
    apply hdrop.trans
    simpa using h.front

end Groups

/-- Bytes are read from padded digits that spell them. -/
theorem exists_spells_of_readFrom (h : readFrom .start 0 cs = some bs) :
    ∃ ds count, cs = ds ++ List.replicate count '=' ∧ Spells ds bs := by
  induction hn : cs.length using Nat.strong_induction_on generalizing cs bs with
  | _ n ih =>
    -- a group is read digit by digit; padding may stand before it, after two digits or after three
    rcases readFrom_cases h with ⟨rfl, ⟨count, rfl⟩, -⟩ | ⟨-, c, v, rest, more, rfl, hc, hone, rfl⟩
    · exact ⟨[], count, rfl, .nil⟩
    rcases readFrom_cases hone with ⟨-, -, hnot⟩ | ⟨-, d, w, rest, more, rfl, hd, htwo, rfl⟩
    · exact absurd rfl (hnot v)
    rcases readFrom_cases htwo with ⟨rfl, ⟨count, rfl⟩, -⟩ | ⟨-, e, x, rest, more, rfl, he, hthree, rfl⟩
    · exact ⟨[c, d], count, rfl, .two hc hd⟩
    rcases readFrom_cases hthree with ⟨rfl, ⟨count, rfl⟩, -⟩ | ⟨-, f, y, rest, more, rfl, hf, hstart, rfl⟩
    · exact ⟨[c, d, e], count, rfl, .three hc hd he⟩
    have hshorter : rest.length < n := by
      rw [← hn]
      simp only [List.length_cons]
      omega
    obtain ⟨ds, count, rfl, hspells⟩ := ih rest.length hshorter hstart rfl
    exact ⟨c :: d :: e :: f :: ds, count, rfl, .group hc hd he hf hspells⟩

/-- A text from which bytes are read is one of digits that spell them, with padding and blanks. -/
theorem exists_spells_of_decode (h : decode cs ≠ []) :
    ∃ ds count, Spaced (ds ++ List.replicate count '=') cs ∧ Spells ds (decode cs) := by
  have hstrict : decodeStrict (pad (Text.removeBlanks cs)) = some (decode cs) := by
    rw [decode] at h ⊢
    cases hread : decodeStrict (pad (Text.removeBlanks cs)) with
    | none =>
      rw [hread] at h
      exact absurd rfl h
    | some bs => rfl
  have hread : readFrom .start 0 (pad (Text.removeBlanks cs)) = some (decode cs) := by
    unfold decodeStrict at hstrict
    split at hstrict
    · cases hstrict
    · exact hstrict
  obtain ⟨ds, count, hpad, hspells⟩ := exists_spells_of_readFrom hread
  have hspaced := spaced_removeBlanks cs
  -- the padding that was completed is a part of the padding that was read
  rw [pad] at hpad
  rcases List.append_eq_append_iff.1 hpad with ⟨more, rfl, hmore⟩ | ⟨more, heq, hmore⟩
  · have hnil : more = [] := by
      rw [List.eq_nil_iff_forall_not_mem]
      intro c hc
      have hmark : c = '=' := List.eq_of_mem_replicate (hmore ▸ List.mem_append_left _ hc)
      have hdigit := hspells.digits c (List.mem_append_right _ hc)
      rw [hmark] at hdigit
      exact absurd hdigit (by decide)
    rw [hnil, List.append_nil] at hspells
    exact ⟨_, 0, by rwa [List.replicate_zero, List.append_nil], hspells⟩
  · have hmarks : more = List.replicate more.length '=' := by
      rw [List.eq_replicate_iff]
      exact ⟨rfl, fun c hc => List.eq_of_mem_replicate (hmore ▸ List.mem_append_left _ hc)⟩
    refine ⟨ds, more.length, ?_, hspells⟩
    rwa [← hmarks, ← heq]

end Base64

/-! ### Encoded messages -/

/-- Base64 text is read tolerantly. Bytes are read from their text, from the text without some of its padding and from
the text with blanks put in anywhere; raw bytes are read as they are. Any other text can be read as well: it gives no
bytes, unless it consists of digits that spell them, padding and blanks. So a message is decoded alike from the text
that encoding gives, from such forms of it and from the bytes. -/
theorem Codecs.encoded_forms_agree :
    (∀ (bs : List UInt8) (text : String), Base64.Wraps bs text.toList → (Value.text text).toEncoded = .ok bs) ∧
    (∀ bs : List UInt8, (Value.bytes bs).toEncoded = .ok bs) ∧
    (∀ text : String, ∃ bs, (Value.text text).toEncoded = .ok bs ∧
      (bs = [] ∨ ∃ ds count, Base64.Spaced (ds ++ List.replicate count '=') text.toList ∧ Base64.Spells ds bs)) ∧
    ∀ (cs : Codecs) (c : Codec) (v : Value) (encoded : String), cs.encodeText c v = .ok encoded →
      ∃ bs, cs.encode c v = .ok bs ∧ Base64.Wraps bs encoded.toList ∧
        cs.decodeValue c (.bytes bs) = cs.decode c bs ∧
        ∀ text : String, Base64.Wraps bs text.toList → cs.decodeValue c (.text text) = cs.decode c bs := by
  have hwraps : ∀ (bs : List UInt8) (text : String), Base64.Wraps bs text.toList →
      (Value.text text).toEncoded = .ok bs := by
    intro bs text h
    show Except.ok (Base64.decode text.toList) = _
    rw [Base64.decode_of_wraps h]
  refine ⟨hwraps, fun bs => rfl, ?_, ?_⟩
  · intro text
    refine ⟨Base64.decode text.toList, rfl, ?_⟩
    rw [or_iff_not_imp_left]
    exact Base64.exists_spells_of_decode
  · intro cs c v encoded h
    obtain ⟨bs, hbs, rfl⟩ := encodeText_eq_ok.1 h
    refine ⟨bs, hbs, ?_, rfl, ?_⟩
    · rw [Codec.ElementType.toList_encodeText]
      exact Base64.wraps_encode bs
    · intro text htext
      rw [decodeValue, hwraps bs text htext, ok_bind]

namespace Sample

private theorem wraps_word : Base64.Wraps [13, 5, 0, 0, 0] " DQUA\nAAA".toList := by
  have hshort : Text.removeBlanks " DQUA\nAAA".toList = "DQUAAAA".toList := by decide
  have hspaced := Base64.spaced_removeBlanks " DQUA\nAAA".toList
  rw [hshort] at hspaced
  exact ⟨"DQUAAAA".toList, 1, by decide, hspaced⟩

theorem encoded_forms_agree_word :
    Codecs.encodeText ⟨[blankCodec], true⟩ blankCodec (.mapping [("_", .int 5)]) = .ok "DQUAAAA=" ∧
    Base64.Wraps [13, 5, 0, 0, 0] " DQUA\nAAA".toList ∧
    (Value.text " DQUA\nAAA").toEncoded = .ok [13, 5, 0, 0, 0] ∧
    Codecs.decodeValue ⟨[blankCodec], true⟩ blankCodec (.text " DQUA\nAAA") =
      Codecs.decodeValue ⟨[blankCodec], true⟩ blankCodec (.bytes [13, 5, 0, 0, 0]) := by
  obtain ⟨hwraps, -, -, hforms⟩ := Codecs.encoded_forms_agree
  have hencode : Codecs.encode ⟨[blankCodec], true⟩ blankCodec (.mapping [("_", .int 5)]) = .ok [13, 5, 0, 0, 0] := by
    rw [Codecs.encode_eq]
    exact eq_ok_of_toOption (by decide +kernel)
  have htext : Codecs.encodeText ⟨[blankCodec], true⟩ blankCodec (.mapping [("_", .int 5)]) = .ok "DQUAAAA=" :=
    Codecs.encodeText_eq_ok.2 ⟨_, hencode, by decide⟩
  obtain ⟨bs, hbs, -, hraw, hother⟩ := hforms _ _ _ _ htext
  obtain rfl := Except.ok.inj (hencode.symm.trans hbs)
  exact ⟨htext, wraps_word, hwraps _ _ wraps_word, (hother _ wraps_word).trans hraw.symm⟩

end Sample

end MessageCodec
