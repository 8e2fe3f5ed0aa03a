import MessageCodec.Proofs.Emission
import MessageCodec.Proofs.Plan
import MessageCodec.Source.Package

/-!
# Generated packages hang together

From the plans of one run a package can always be written. A module imports exactly the modules of the
other messages that its message holds, each once, and what it calls there it has imported; all of them are
files of the same package. Read as text, a module says the same as long as no name has a line break.
-/

namespace MessageCodec

namespace Source

/-! ### Symbols of plans -/

def symbolsOf (plans : List MessagePlan) : Table String := plans.map fun m => (m.fullName, m.symbol)

theorem ofPairs_symbols {plans : List MessagePlan} (h : (plans.map MessagePlan.fullName).Nodup) :
    Table.ofPairs (plans.map fun m => (m.fullName, m.symbol)) = symbolsOf plans := by
  apply Table.ofPairs_of_nodup
  rw [List.map_map]
  exact h

theorem get?_symbolsOf {plans : List MessagePlan} (h : (plans.map MessagePlan.fullName).Nodup) {m : MessagePlan}
    (hm : m ∈ plans) : (symbolsOf plans).get? m.fullName = some m.symbol := by
  apply Table.get?_of_mem
  · rw [symbolsOf, List.map_map]
    exact h
  · exact List.mem_map.2 ⟨m, hm, rfl⟩

/-! ### Imports -/

theorem nodup_insertNew {s : String} {set : List String} (h : set.Nodup) : (Naming.insertNew s set).Nodup := by
  rw [Naming.insertNew]
  split
  · exact h
  · rename_i hnew
    rw [List.contains_iff_mem] at hnew
    rw [List.nodup_append]
    refine ⟨h, List.nodup_singleton s, ?_⟩
    rintro t ht _ hs rfl
    exact hnew (List.mem_singleton.1 hs ▸ ht)

theorem importLine_inj {s t : String} (h : importLine s = importLine t) : s = t := by
  -- both lines are the symbol twice with fixed text around it, so the symbols are equally long
  have hlist : ("from . import " ++ s ++ " as _m_" ++ s).toList = ("from . import " ++ t ++ " as _m_" ++ t).toList :=
    congrArg String.toList h
  simp only [String.toList_append, List.append_assoc] at hlist
  replace hlist := List.append_cancel_left hlist
  have hlength := congrArg List.length hlist
  simp only [List.length_append] at hlength
  exact String.toList_injective (List.append_inj_left hlist (by omega))

theorem not_foreign_importLine (s : String) : ¬ Emitter.Foreign (importLine s) := by
  show ¬ Emitter.Foreign ("from . import " ++ s ++ " as _m_" ++ s)
  simp [Emitter.Foreign]

namespace Emitter

/-- The other messages that fields of a message hold, by their symbols. -/
structure Links (e : Emitter) (plans : List MessagePlan) (fields : List FieldPlan) (children : List String) :
    Prop where
  nodup : children.Nodup
  known : ∀ s ∈ children, s ≠ e.message.symbol ∧ ∃ m ∈ plans, m.symbol = s
  covers : ∀ f ∈ fields, ∀ s, e.childSymbol f = .ok s → s = e.message.symbol ∨ s ∈ children

variable {plans : List MessagePlan} {e : Emitter}

theorem Links.step {done : List FieldPlan} {children : List String} (h : e.Links plans done children) {f : FieldPlan}
    {m : MessagePlan} (hm : m ∈ plans) (hsymbol : e.childSymbol f = .ok m.symbol) :
    e.Links plans (done ++ [f])
      (if m.symbol == e.message.symbol then children else Naming.insertNew m.symbol children) := by
  have hcase (more : List String) (hmore : ∀ s ∈ children, s ∈ more)
      (hown : m.symbol = e.message.symbol ∨ m.symbol ∈ more) :
      ∀ g ∈ done ++ [f], ∀ s, e.childSymbol g = .ok s → s = e.message.symbol ∨ s ∈ more := by
    intro g hg s hs
    rcases List.mem_append.1 hg with hg | hg
    · exact (h.covers g hg s hs).imp_right (hmore s)
    · rw [List.mem_singleton.1 hg, hsymbol] at hs
      exact Except.ok.inj hs ▸ hown
  split
  · rename_i hown
    exact ⟨h.nodup, h.known, hcase children (fun _ hs => hs) (.inl (beq_iff_eq.1 hown))⟩
  · rename_i hother
    refine ⟨nodup_insertNew h.nodup, fun s hs => ?_, hcase _ (fun s hs => ?_) (.inr ?_)⟩
    · rcases FieldPlan.mem_insertNew.1 hs with hs | rfl
      · exact h.known s hs
      · exact ⟨fun heq => hother (beq_iff_eq.2 heq), m, hm, rfl⟩
    · exact FieldPlan.mem_insertNew.2 (.inl hs)
    · exact FieldPlan.mem_insertNew.2 (.inr rfl)

private theorem foldlM_links (he : e.Knows plans) {rest : List FieldPlan}
    (hrest : ∀ f ∈ rest, f.Settled plans ∧ f.kind = .message) {done : List FieldPlan} {children : List String}
    (h : e.Links plans done children) :
    ∃ children', rest.foldlM (fun children f => do
        let symbol ← e.childSymbol f
        return if symbol == e.message.symbol then children else Naming.insertNew symbol children) children
        = .ok children' ∧ e.Links plans (done ++ rest) children' := by
  induction rest generalizing done children with
  | nil => exact ⟨children, rfl, by rwa [List.append_nil]⟩
  | cons f rest ih =>
    obtain ⟨⟨hf, hkind⟩, hrest⟩ := List.forall_mem_cons.1 hrest
    obtain ⟨m, hm, -, hsymbol⟩ := childSymbol_ok he hf hkind
    obtain ⟨children', hfold, hlinks⟩ := ih hrest (h.step hm hsymbol)
    refine ⟨children', ?_, by rwa [List.append_assoc, List.singleton_append] at hlinks⟩
    rw [List.foldlM_cons, hsymbol]
    exact hfold

theorem imported_ok (he : e.Knows plans) (hfields : ∀ f ∈ e.message.fields, f.Settled plans) :
    ∃ children, e.imported = .ok children ∧
      e.Links plans (e.message.fields.filter fun f => f.kind = .message) children := by
  have hstart : e.Links plans [] [] := ⟨List.nodup_nil, by simp, by simp⟩
  refine foldlM_links he (fun f hf => ?_) hstart
  rw [List.mem_filter, decide_eq_true_eq] at hf
  exact ⟨hfields f hf.1, hf.2⟩

/-! ### Functions -/

theorem foreign_indent {level : Nat} {ls : List String} : ∀ l ∈ indent (level + 1) ls, Foreign l := by
  intro l hl
  obtain ⟨l', -, rfl⟩ := List.mem_map.1 hl
  split
  · rename_i hempty
    rw [String.isEmpty_iff] at hempty
    simp [hempty, Foreign]
  · simp [Foreign, Nat.mul_succ, List.replicate_succ]

structure Body (e : Emitter) (ls : List String) : Prop where
  oneLines : e.Plain → OneLines ls
  foreign : ∀ l ∈ ls, Foreign l

theorem Body.append {ls ls' : List String} (h : e.Body ls) (h' : e.Body ls') : e.Body (ls ++ ls') :=
  ⟨fun hplain => oneLines_append.2 ⟨h.oneLines hplain, h'.oneLines hplain⟩,
    List.forall_mem_append.2 ⟨h.foreign, h'.foreign⟩⟩

theorem Body.indent {ls : List String} (h : e.Plain → OneLines ls) (level : Nat) :
    e.Body (Source.indent (level + 1) ls) :=
  ⟨fun hplain => oneLines_indent (h hplain), foreign_indent⟩

theorem emits_all {g : FieldPlan → Except Error (List String)} {fields : List FieldPlan}
    (h : ∀ f ∈ fields, e.Emits (g f)) :
    ∃ bodies, fields.mapM g = .ok bodies ∧ (e.Plain → OneLines bodies.flatten) ∧
      ∀ f ∈ fields, ∃ body, g f = .ok body ∧ body ⊆ bodies.flatten := by
  obtain ⟨bodies, hbodies⟩ := exists_forall₂ h
  refine ⟨bodies, mapM_eq_ok.2 (hbodies.imp fun f body hbody => hbody.1), fun hplain l hl => ?_, fun f hf => ?_⟩
  · obtain ⟨body, hbody, hl⟩ := List.mem_flatten.1 hl
    obtain ⟨f, -, -, hlines⟩ := exists_of_forall₂ hbodies hbody
    exact hlines hplain l hl
  · obtain ⟨body, hbody, hg, -⟩ := exists_of_forall₂ hbodies.flip hf
    exact ⟨body, hg, fun l hl => List.mem_flatten.2 ⟨body, hbody, hl⟩⟩

theorem indent_subset {ls ls' : List String} (h : ls ⊆ ls') (level : Nat) : indent level ls ⊆ indent level ls' :=
  List.map_subset _ h

theorem oneLine_docstring {s : String} (h : OneLine s) : OneLine (docstring s) := by
  show OneLine ("\"\"\"" ++ s ++ "\"\"\"")
  rw [oneLine_append, oneLine_append]
  exact ⟨⟨oneLine_literal rfl, h⟩, oneLine_literal rfl⟩

private theorem oneLines_unknownLines : OneLines unknownLines := by
  simp only [unknownLines, oneLines_cons, oneLines_nil, and_true]
  and_intros <;> exact oneLine_literal rfl

theorem oneLines_recordLines {arms : List String} (h : OneLines arms) : OneLines (recordLines arms) := by
  rw [recordLines]
  split
  · exact oneLines_unknownLines
  · rw [oneLines_append, oneLines_cons]
    exact ⟨h, oneLine_literal rfl, oneLines_indent oneLines_unknownLines⟩

theorem subset_recordLines (arms : List String) : arms ⊆ recordLines arms := by
  rw [recordLines]
  split
  · rename_i hempty
    rw [List.isEmpty_iff.1 hempty]
    exact List.nil_subset _
  · exact List.subset_append_left _ _

theorem fillLines_ok (hsettled : ∀ f ∈ e.message.fields, f.Settled plans) :
    ∃ defaults, e.fillLines = .ok defaults ∧ (e.Plain → OneLines defaults.flatten) := by
  rw [fillLines]
  split
  · obtain ⟨defaults, hdefaults, hlines, -⟩ := emits_all (e := e) fun f hf => emits_defaultLines (hsettled f hf)
    exact ⟨defaults, hdefaults, hlines⟩
  · exact ⟨[], rfl, fun _ => oneLines_nil⟩

theorem constants_ok (hsettled : ∀ f ∈ e.message.fields, f.Settled plans) :
    ∃ constants, e.message.fields.mapM e.constantLines = .ok constants ∧ e.Body constants.flatten := by
  obtain ⟨constants, hconstants, hbody⟩ := exists_mapM fun f hf => constantLines_ok e (hsettled f hf)
  refine ⟨constants, hconstants, fun _ l hl => ?_, fun l hl => ?_⟩
  · obtain ⟨ls, hls, hl⟩ := List.mem_flatten.1 hl
    exact (hbody ls hls).1 l hl
  · obtain ⟨ls, hls, hl⟩ := List.mem_flatten.1 hl
    exact (hbody ls hls).2 l hl

theorem foreign_docstring (s : String) : Foreign (docstring s) := by
  show Foreign ("\"\"\"" ++ s ++ "\"\"\"")
  simp [Foreign]

theorem body_header (e : Emitter) : e.Body (header :: e.sourceLines) := by
  have hheader : Foreign header := by
    show Foreign "# Generated by proto2wire. DO NOT EDIT."
    simp [Foreign]
  have hsource : e.Body e.sourceLines := by
    rw [sourceLines]
    split
    · rename_i name hname
      split
      · exact ⟨fun _ => oneLines_nil, by simp⟩
      · refine ⟨fun hplain => oneLines_cons.2 ⟨?_, oneLines_nil⟩, by simp [Foreign]⟩
        exact oneLine_append.2 ⟨oneLine_literal rfl, hplain.fileName name hname⟩
    · exact ⟨fun _ => oneLines_nil, by simp⟩
  exact ⟨fun hplain => oneLines_cons.2 ⟨oneLine_literal rfl, hsource.oneLines hplain⟩,
    List.forall_mem_cons.2 ⟨hheader, hsource.foreign⟩⟩

theorem oneLine_textLiteral (s : String) : OneLine (textLiteral s) := Text.oneLine_quotedText s

theorem body_blank (e : Emitter) : e.Body ["", ""] :=
  ⟨fun _ => oneLines_cons.2 ⟨oneLine_literal rfl, oneLines_cons.2 ⟨oneLine_literal rfl, oneLines_nil⟩⟩, by simp [Foreign]⟩

section Functions

variable (he : e.Knows plans) (hsettled : ∀ f ∈ e.message.fields, f.Settled plans)
  (hnumbered : ∀ f ∈ e.message.fields, f.Numbered)

include he hsettled hnumbered

theorem encodeFunction_ok : ∃ ls, e.encodeFunction = .ok ls ∧ e.Body ls ∧
    ∀ f ∈ e.message.fields, ∃ body, e.encodeLines f = .ok body ∧ indent 1 body ⊆ ls := by
  obtain ⟨bodies, hbodies, hlines, hfields⟩ := emits_all (e := e) fun f hf =>
    emits_encodeLines he hf (hsettled f hf) (hnumbered f hf)
  rw [encodeFunction, hbodies, ok_bind]
  refine ⟨_, rfl, (Body.append ⟨fun hplain => ?_, ?_⟩ (.indent hlines 0)).append ⟨fun _ => ?_, ?_⟩, fun f hf => ?_⟩
  · have hname : OneLine e.encodeName := oneLine_append.2 ⟨hplain.symbol, oneLine_literal rfl⟩
    have hdoc : OneLine (docstring ("Encode a ``" ++ e.message.name ++ "`` dict or object into base64 wire bytes.")) := by
      apply oneLine_docstring
      rw [oneLine_append, oneLine_append]
      exact ⟨⟨oneLine_literal rfl, hplain.name⟩, oneLine_literal rfl⟩
    simp only [oneLines_cons, oneLines_nil, oneLine_append, hname, hdoc, and_true]
    and_intros <;> exact oneLine_literal rfl
  · simp [Foreign]
  · simp only [oneLines_cons, oneLines_nil, and_true]
    exact ⟨oneLine_literal rfl, oneLine_literal rfl⟩
  · simp [Foreign]
  · obtain ⟨body, hbody, hsub⟩ := hfields f hf
    refine ⟨body, hbody, fun l hl => ?_⟩
    exact List.mem_append_left _ (List.mem_append_right _ (indent_subset hsub 1 hl))

private theorem arms_ok : ∃ ls, e.arms = .ok ls ∧ (e.Plain → OneLines ls) ∧
    ∀ f ∈ e.message.fields, ∃ first arm, e.decodeLines f first = .ok arm ∧ arm ⊆ ls := by
  rw [arms]
  split
  · rename_i hnil
    exact ⟨[], rfl, fun _ => oneLines_nil, by simp [hnil]⟩
  · rename_i f rest hfields
    rw [hfields] at hsettled hnumbered ⊢
    have hemits (g : FieldPlan) (hg : g ∈ f :: rest) (first : Bool) : e.Emits (e.decodeLines g first) :=
      emits_decodeLines he (hsettled g hg) (hnumbered g hg) first
    obtain ⟨opening, hopening, hopeningLines⟩ := hemits f List.mem_cons_self true
    obtain ⟨bodies, hbodies, hlines, hothers⟩ := emits_all (e := e) fun g (hg : g ∈ rest) =>
      hemits g (List.mem_cons_of_mem _ hg) false
    rw [hopening, ok_bind, hbodies, ok_bind]
    refine ⟨_, rfl, fun hplain => oneLines_append.2 ⟨hopeningLines hplain, hlines hplain⟩, fun g hg => ?_⟩
    rcases List.mem_cons.1 hg with rfl | hg
    · exact ⟨true, opening, hopening, fun l hl => List.mem_append_left _ hl⟩
    · obtain ⟨arm, harm, hsub⟩ := hothers g hg
      exact ⟨false, arm, harm, fun l hl => List.mem_append_right _ (hsub hl)⟩

private theorem decodeFunction_ok : ∃ ls, e.decodeFunction = .ok ls ∧ e.Body ls ∧
    ∀ f ∈ e.message.fields, ∃ first arm, e.decodeLines f first = .ok arm ∧ indent 2 arm ⊆ ls := by
  obtain ⟨arms, harms, hlines, hfields⟩ := arms_ok he hsettled hnumbered
  obtain ⟨defaults, hdefaults, hdefaultLines⟩ := fillLines_ok hsettled
  rw [decodeFunction, harms, ok_bind, hdefaults, ok_bind]
  refine ⟨_, rfl, ((Body.append ⟨fun hplain => ?_, ?_⟩ (.indent (fun hplain => oneLines_recordLines (hlines hplain)) 1)).append
    (.indent hdefaultLines 0)).append ⟨fun _ => ?_, ?_⟩, fun f hf => ?_⟩
  · have hname : OneLine e.decodeName := oneLine_append.2 ⟨hplain.symbol, oneLine_literal rfl⟩
    have hdoc : OneLine (docstring ("Decode base64 (or raw) wire bytes into a ``" ++ e.message.name ++ "`` dict.")) := by
      apply oneLine_docstring
      rw [oneLine_append, oneLine_append]
      exact ⟨⟨oneLine_literal rfl, hplain.name⟩, oneLine_literal rfl⟩
    simp only [oneLines_cons, oneLines_nil, oneLine_append, hname, hdoc, and_true]
    and_intros <;> exact oneLine_literal rfl
  · simp [Foreign]
  · simp only [oneLines_cons, oneLines_nil, and_true]
    exact ⟨oneLine_literal rfl, oneLine_literal rfl⟩
  · simp [Foreign]
  · obtain ⟨first, arm, harm, hsub⟩ := hfields f hf
    refine ⟨first, arm, harm, fun l hl => ?_⟩
    have hrecord := indent_subset (List.Subset.trans hsub (subset_recordLines arms)) 2 hl
    exact List.mem_append_left _ (List.mem_append_left _ (List.mem_append_right _ hrecord))

/-- The lines of a module: what stands before its imports of other messages, these imports, and the rest. -/
theorem lines_ok : ∃ front children back, e.lines = .ok (front ++ children.map importLine ++ back) ∧
    header :: e.sourceLines ⊆ front ∧ e.Body front ∧ e.Body back ∧
    e.Links plans (e.message.fields.filter fun f => f.kind = .message) children ∧
    ∀ f ∈ e.message.fields, (∃ body, e.encodeLines f = .ok body ∧ indent 1 body ⊆ back) ∧
      ∃ first arm, e.decodeLines f first = .ok arm ∧ indent 2 arm ⊆ back := by
  obtain ⟨children, hchildren, hlinks⟩ := imported_ok he hsettled
  obtain ⟨constants, hconstants, hconstantsBody⟩ := constants_ok hsettled
  obtain ⟨encode, hencode, hencodeBody, hencoded⟩ := encodeFunction_ok he hsettled hnumbered
  obtain ⟨decode, hdecode, hdecodeBody, hdecoded⟩ := decodeFunction_ok he hsettled hnumbered
  refine ⟨header :: e.sourceLines ++ [docstring ("Protobuf wire codec for ``" ++ e.message.fullName ++ "``."), "",
      "from .. import " ++ e.settings.runtimeModule ++ " as _pb"], children,
    ["", "FULL_NAME = " ++ textLiteral e.message.fullName, ""] ++ constants.flatten ++ ["", ""] ++ encode ++ ["", ""]
      ++ decode ++ ["", "", "__all__ = [" ++ textLiteral e.encodeName ++ ", " ++ textLiteral e.decodeName ++ "]", ""],
    ?_, List.subset_append_left _ _, ?_, ?_, hlinks, fun f hf => ⟨?_, ?_⟩⟩
  · rw [lines, importLines, hchildren, ok_bind, pure_bind, hconstants, ok_bind, hencode, ok_bind, hdecode, ok_bind]
    simp [pure, Except.pure]
  · refine (body_header e).append ⟨fun hplain => ?_, ?_⟩
    · have hdoc : OneLine (docstring ("Protobuf wire codec for ``" ++ e.message.fullName ++ "``.")) := by
        apply oneLine_docstring
        rw [oneLine_append, oneLine_append]
        exact ⟨⟨oneLine_literal rfl, hplain.fullName⟩, oneLine_literal rfl⟩
      simp only [oneLines_cons, oneLines_nil, oneLine_append, hdoc, hplain.runtime, and_true, true_and]
      and_intros <;> exact oneLine_literal rfl
    · rw [List.forall_mem_cons]
      exact ⟨foreign_docstring _, by simp [Foreign]⟩
  · refine ((((((Body.append ⟨fun _ => ?_, by simp [Foreign]⟩ hconstantsBody).append (body_blank e)).append
      hencodeBody).append (body_blank e)).append hdecodeBody).append ⟨fun _ => ?_, by simp [Foreign]⟩)
    all_goals
      simp only [oneLines_cons, oneLines_nil, oneLine_append, oneLine_textLiteral, and_true]
      and_intros <;> exact oneLine_literal rfl
  · obtain ⟨body, hbody, hsub⟩ := hencoded f hf
    refine ⟨body, hbody, fun l hl => ?_⟩
    simp [hsub hl]
  · obtain ⟨first, arm, harm, hsub⟩ := hdecoded f hf
    refine ⟨first, arm, harm, fun l hl => ?_⟩
    simp [hsub hl]

end Functions

theorem oneLines_importLines (he : e.Knows plans) {fields : List FieldPlan} {children : List String}
    (h : e.Links plans fields children) (hplain : e.Plain) : OneLines (children.map importLine) := by
  intro l hl
  obtain ⟨s, hs, rfl⟩ := List.mem_map.1 hl
  obtain ⟨-, m, hm, rfl⟩ := h.known s hs
  have hline : OneLine m.symbol := hplain.symbols _ (Table.mem_of_get? (he m hm))
  show OneLine ("from . import " ++ m.symbol ++ " as _m_" ++ m.symbol)
  simp only [oneLine_append, hline, and_true]
  exact ⟨oneLine_literal rfl, oneLine_literal rfl⟩

end Emitter

/-! ### Packages -/

def moduleOf (settings : Settings) (plans : List MessagePlan) (m : MessagePlan) : Emitter :=
  { message := m, symbols := symbolsOf plans, settings }

/-- Lines of a module that fit the other modules of a package. Each import of a message is of another one
of the package and stands once. A field that holds a message goes through the functions of that message,
which are at hand: its own module's, or those of a module that is imported. -/
structure Linked (settings : Settings) (plans : List MessagePlan) (m : MessagePlan) (lines : List String) : Prop where
  headed : header :: (moduleOf settings plans m).sourceLines ⊆ lines
  imported : ∀ s, importLine s ∈ lines → ∃ c ∈ plans, c.symbol = s ∧ c.fullName ≠ m.fullName
  once : ∀ s, lines.count (importLine s) ≤ 1
  called : ∀ f ∈ m.fields, f.kind = .message → ∃ c ∈ plans, f.child = some c.fullName ∧ ∀ suffix,
    (c.fullName = m.fullName ∧ (moduleOf settings plans m).childFunction f suffix = .ok (m.symbol ++ suffix)) ∨
    (importLine c.symbol ∈ lines ∧
      (moduleOf settings plans m).childFunction f suffix = .ok ("_m_" ++ c.symbol ++ "." ++ c.symbol ++ suffix))
  written : ∀ f ∈ m.fields,
    (∃ body, (moduleOf settings plans m).encodeLines f = .ok body ∧ indent 1 body ⊆ lines) ∧
    ∃ first arm, (moduleOf settings plans m).decodeLines f first = .ok arm ∧ indent 2 arm ⊆ lines

/-- Names that are written into a package as they are, without line breaks. -/
structure PlainNames (settings : Settings) (plans : List MessagePlan) : Prop where
  runtime : OneLine settings.runtimeModule
  name : ∀ m ∈ plans, OneLine m.name
  fullName : ∀ m ∈ plans, OneLine m.fullName
  symbol : ∀ m ∈ plans, OneLine m.symbol
  fileName : ∀ m ∈ plans, ∀ s ∈ m.fileName, OneLine s
  fields : ∀ m ∈ plans, ∀ f ∈ m.fields, f.Plain

section Package

variable {settings : Settings} {plans : List MessagePlan}

theorem PlainNames.moduleOf (h : PlainNames settings plans) {m : MessagePlan} (hm : m ∈ plans) :
    (moduleOf settings plans m).Plain where
  runtime := h.runtime
  name := h.name m hm
  fullName := h.fullName m hm
  symbol := h.symbol m hm
  fileName := h.fileName m hm
  symbols := by
    intro entry hentry
    obtain ⟨c, hc, rfl⟩ := List.mem_map.1 hentry
    exact h.symbol c hc
  fields := h.fields m hm

private theorem mem_importLine {front back children : List String} (hfront : ∀ l ∈ front, Emitter.Foreign l)
    (hback : ∀ l ∈ back, Emitter.Foreign l) {s : String} :
    importLine s ∈ front ++ children.map importLine ++ back ↔ s ∈ children := by
  rw [List.mem_append, List.mem_append]
  constructor
  · rintro ((h | h) | h)
    · exact absurd (hfront _ h) (not_foreign_importLine s)
    · obtain ⟨t, ht, heq⟩ := List.mem_map.1 h
      exact importLine_inj heq ▸ ht
    · exact absurd (hback _ h) (not_foreign_importLine s)
  · intro h
    exact .inl (.inr (List.mem_map_of_mem h))

private theorem count_importLine {front back children : List String} (hfront : ∀ l ∈ front, Emitter.Foreign l)
    (hback : ∀ l ∈ back, Emitter.Foreign l) (hnodup : children.Nodup) (s : String) :
    (front ++ children.map importLine ++ back).count (importLine s) ≤ 1 := by
  have hnone {ls : List String} (h : ∀ l ∈ ls, Emitter.Foreign l) : ls.count (importLine s) = 0 :=
    List.count_eq_zero.2 fun hmem => absurd (h _ hmem) (not_foreign_importLine s)
  rw [List.count_append, List.count_append, hnone hfront, hnone hback, Nat.zero_add, Nat.add_zero]
  exact List.nodup_iff_count_le_one.1 (hnodup.map fun _ _ h => importLine_inj h) _

private theorem linked_of_closed (settings : Settings) (hplans : Plan.Closed plans)
    (hnumbered : ∀ m ∈ plans, ∀ f ∈ m.fields, f.Numbered)
    {m : MessagePlan} (hm : m ∈ plans) : ∃ lines, (moduleOf settings plans m).lines = .ok lines ∧
      Linked settings plans m lines ∧ (PlainNames settings plans → linesOf (unlines lines) = lines) := by
  have he : (moduleOf settings plans m).Knows plans := fun c hc => get?_symbolsOf hplans.names hc
  obtain ⟨front, children, back, hlines, hheaded, hfront, hback, hlinks, hwritten⟩ :=
    Emitter.lines_ok he (hplans.fields m hm) (hnumbered m hm)
  have hsymbol {c c' : MessagePlan} (hc : c ∈ plans) (hc' : c' ∈ plans) (h : c.symbol = c'.symbol) : c = c' :=
    List.inj_on_of_nodup_map hplans.symbols hc hc' h
  have hname {c c' : MessagePlan} (hc : c ∈ plans) (hc' : c' ∈ plans) (h : c.fullName = c'.fullName) : c = c' :=
    List.inj_on_of_nodup_map hplans.names hc hc' h
  replace hheaded : header :: (moduleOf settings plans m).sourceLines ⊆ front ++ children.map importLine ++ back :=
    fun l hl => List.mem_append_left _ (List.mem_append_left _ (hheaded hl))
  refine ⟨_, hlines, ⟨hheaded, fun s hs => ?_, count_importLine hfront.foreign hback.foreign hlinks.nodup,
    fun f hf hkind => ?_, fun f hf => ?_⟩, fun hplain => ?_⟩
  · rw [mem_importLine hfront.foreign hback.foreign] at hs
    obtain ⟨hne, c, hc, rfl⟩ := hlinks.known s hs
    exact ⟨c, hc, rfl, fun heq => hne (hname hc hm heq ▸ rfl)⟩
  · obtain ⟨c, hc, hchild, hcs⟩ := Emitter.childSymbol_ok he (hplans.fields m hm f hf) hkind
    refine ⟨c, hc, hchild, fun suffix => ?_⟩
    have hfunction : (moduleOf settings plans m).childFunction f suffix = .ok (if c.symbol == m.symbol
        then c.symbol ++ suffix else "_m_" ++ c.symbol ++ "." ++ c.symbol ++ suffix) := by
      rw [Emitter.childFunction, hcs, ok_bind]
      rfl
    rw [hfunction]
    by_cases hown : c.symbol = m.symbol
    · left
      rw [if_pos (beq_iff_eq.2 hown), hown]
      exact ⟨hsymbol hc hm hown ▸ rfl, rfl⟩
    · right
      have hmem : c.symbol ∈ children :=
        (hlinks.covers f (List.mem_filter.2 ⟨hf, decide_eq_true hkind⟩) _ hcs).resolve_left hown
      rw [if_neg (mt beq_iff_eq.1 hown)]
      exact ⟨(mem_importLine hfront.foreign hback.foreign).2 hmem, rfl⟩
  · obtain ⟨⟨body, hbody, hsub⟩, first, arm, harm, hsub'⟩ := hwritten f hf
    exact ⟨⟨body, hbody, fun l hl => List.mem_append_right _ (hsub hl)⟩, first, arm, harm,
      fun l hl => List.mem_append_right _ (hsub' hl)⟩
  · have hmodule := hplain.moduleOf hm
    apply linesOf_unlines_of_oneLine
    · exact List.ne_nil_of_mem (hheaded List.mem_cons_self)
    · rw [oneLines_append, oneLines_append]
      exact ⟨⟨hfront.oneLines hmodule, Emitter.oneLines_importLines he hlinks hmodule⟩, hback.oneLines hmodule⟩

def modulePath (m : MessagePlan) : String := Naming.sanitizePath ("messages/" ++ m.symbol ++ ".py")

theorem package_ok (hplans : Plan.Closed plans) (hnumbered : ∀ m ∈ plans, ∀ f ∈ m.fields, f.Numbered)
    (settings : Settings) (runtime : String) (inputs : List String) :
    ∃ files, package settings runtime inputs plans = .ok files ∧ ∀ m ∈ plans, ∃ lines,
      ⟨modulePath m, unlines lines⟩ ∈ files ∧ Linked settings plans m lines ∧
      (PlainNames settings plans → linesOf (unlines lines) = lines) := by
  have hfile (m : MessagePlan) (hm : m ∈ plans) : ∃ file, messageFile settings (symbolsOf plans) m = .ok file ∧
      ∃ lines, file = ⟨modulePath m, unlines lines⟩ ∧ Linked settings plans m lines ∧
        (PlainNames settings plans → linesOf (unlines lines) = lines) := by
    obtain ⟨lines, hlines, hlinked⟩ := linked_of_closed settings hplans hnumbered hm
    have hrender : (moduleOf settings plans m).render = .ok (unlines lines) := by
      rw [Emitter.render, hlines]
      rfl
    refine ⟨_, ?_, lines, rfl, hlinked⟩
    rw [messageFile]
    exact bind_eq_ok.2 ⟨_, hrender, rfl⟩
  obtain ⟨modules, hmodules⟩ := exists_forall₂ hfile
  have hmapM := mapM_eq_ok.2 (hmodules.imp fun m file h => h.1)
  refine ⟨_, by rw [package, ofPairs_symbols hplans.names, hmapM, ok_bind]; rfl, fun m hm => ?_⟩
  obtain ⟨file, hfile, -, lines, rfl, hlinked⟩ := exists_of_forall₂ hmodules.flip hm
  exact ⟨lines, List.mem_append_left _ (List.mem_append_right _ hfile), hlinked⟩

/-- What a planner yields, whatever it was asked for before, is closed and can be rendered. No plan is of a
map entry. As long as the field numbers are within the digit limit a package can be written in any
settings, with a module for every plan, and the modules fit together line by line; read as texts they
have the same lines as long as no name has a line break. -/
theorem plan_renders {w : Workspace} {settings : Settings} {p after : Planner} (hp : Planner.Reached w settings p)
    {targets others : List Schema.File} {plans : List MessagePlan}
    (h : Planning.Yields (Planner.plan targets others) p plans after) :
    Plan.Closed plans ∧
    (∃ places, Plan.collect targets others = .ok places ∧ ∀ m ∈ plans, ∃ place ∈ places,
      m.fullName = place.message.fullName ∧ place.message.mapEntry = false) ∧
    ((∀ m ∈ plans, ∀ f ∈ m.fields, f.Numbered) → ∀ style runtime inputs, ∃ files,
      package style runtime inputs plans = .ok files ∧ ∀ m ∈ plans, ∃ lines,
        ⟨modulePath m, unlines lines⟩ ∈ files ∧ Linked style plans m lines ∧
        (PlainNames style plans → linesOf (unlines lines) = lines)) := by
  have hclosed := Plan.closed_of_yields (hp.of_yields h).sound h
  refine ⟨hclosed, ?_, fun hnumbered => package_ok hclosed hnumbered⟩
  obtain ⟨places, hplaces, hplans⟩ := Planner.plan_yields h
  refine ⟨places, hplaces, fun m hm => ?_⟩
  obtain ⟨place, hplace, hdescribes⟩ := exists_of_forall₂ hplans hm
  obtain ⟨hmem, hentry⟩ := Plan.mem_of_mem_chosen hplace
  exact ⟨place, hmem, hdescribes.fullName, hentry⟩

end Package

end Source

namespace Sample

open Schema Plan Planning Source

theorem reached_planner : Planner.Reached {} {} planner := by
  have hresolver : Naming.Resolver.new (Naming.Rules.standard.withOverrides []) ["MessageHandler"] = forumSymbols 0 := by
    decide
  apply Planner.Reached.new
  rw [planner, ← hresolver]
  rfl

theorem numbered_forum : ∀ m ∈ forumPlans, ∀ f ∈ m.fields, f.Numbered := by
  have hnumbers : ∀ m ∈ forumPlans, ∀ f ∈ m.fields, IsInt32 f.number := by
    simp [forumPlans, IsInt32]
  exact fun m hm f hf => FieldPlan.numbered_of_isInt32 (hnumbers m hm f hf)

private theorem plain_forum : PlainNames {} forumPlans where
  runtime := oneLine_literal rfl
  name := by
    simp only [forumPlans, List.forall_mem_cons, List.not_mem_nil, IsEmpty.forall_iff, implies_true, and_true]
    and_intros <;> exact oneLine_literal rfl
  fullName := by
    simp only [forumPlans, List.forall_mem_cons, List.not_mem_nil, IsEmpty.forall_iff, implies_true, and_true]
    and_intros <;> exact oneLine_literal rfl
  symbol := by
    simp only [forumPlans, List.forall_mem_cons, List.not_mem_nil, IsEmpty.forall_iff, implies_true, and_true]
    and_intros <;> exact oneLine_literal rfl
  fileName := by
    simp only [forumPlans, List.forall_mem_cons, List.not_mem_nil, IsEmpty.forall_iff, implies_true, and_true]
    and_intros <;> rintro _ ⟨⟩ <;> exact oneLine_literal rfl
  fields := by
    simp only [forumPlans, List.forall_mem_cons, List.not_mem_nil, IsEmpty.forall_iff, implies_true, and_true]
    and_intros <;> refine ⟨oneLine_literal rfl, ?_, ?_⟩ <;> rintro _ ⟨⟩ <;> exact oneLine_literal rfl

theorem plan_renders_forum : ∃ after, Yields (Planner.plan [forum] []) planner forumPlans after ∧
    ∃ files, package {} "" [] forumPlans = .ok files ∧ ∀ m ∈ forumPlans, ∃ lines,
      ⟨modulePath m, unlines lines⟩ ∈ files ∧ Linked {} forumPlans m lines ∧ linesOf (unlines lines) = lines := by
  obtain ⟨after, hplans⟩ := plan_forum
  obtain ⟨-, -, hrenders⟩ := plan_renders reached_planner hplans
  obtain ⟨files, hfiles, hmodules⟩ := hrenders numbered_forum {} "" []
  refine ⟨after, hplans, files, hfiles, fun m hm => ?_⟩
  obtain ⟨lines, hfile, hlinked, hread⟩ := hmodules m hm
  exact ⟨lines, hfile, hlinked, hread plain_forum⟩

theorem collect_alone {file : File} {place : Place} (hplaces : placesOf file = [place])
    (htargets : ∀ f ∈ place.message.fields, messageTarget? f = none) : collect [file] [] = .ok [place] := by
  have hown : firstOfName [] ([file].flatMap placesOf) = [place] := by
    rw [List.flatMap_singleton, hplaces]
    rfl
  rw [collect, hown, pull_of_seen]
  · rfl
  · intro w hw target htarget
    rw [List.flatMap_singleton, outgoing, List.mem_map] at hw
    obtain ⟨f, hf, rfl⟩ := hw
    rw [htargets f hf] at htarget
    cases htarget

theorem chosen_alone {place : Place} (hentry : place.message.mapEntry = false)
    (hkept : supported [place.message.fullName] place.message ≠ []) : chosen [place] = [place] := by
  have hcandidates : candidates [place] = [place] := by
    rw [candidates, List.filter_cons_of_pos (by rw [hentry]; rfl), List.filter_nil]
  have hsieve : sieve [place] = [place] := by
    rw [sieve, namesOf, List.map_singleton, List.filter_cons_of_pos (by simp [hkept]), List.filter_nil]
  rw [chosen, hcandidates, prune, hsieve, if_neg (Nat.lt_irrefl _)]

/-- A file with one message, which holds no messages, is planned field by field. -/
theorem plan_alone {p : Planner} {file : File} {place : Place} {plan : MessagePlan} {symbol : String}
    {resolver : Naming.Resolver} (hplaces : placesOf file = [place]) (hentry : place.message.mapEntry = false)
    (htargets : ∀ f ∈ place.message.fields, messageTarget? f = none)
    (hkept : supported [place.message.fullName] place.message ≠ [])
    (hsymbol : p.resolver.register place.message.fullName ""
      (Planner.wantedSymbol p.settings place.file.package place.message.fullName) = .ok (symbol, resolver))
    (hmessage : ∀ journal, ∃ after, Yields (Planner.message [place.message.fullName] place)
      { p with journal, resolver } plan after) :
    ∃ after, Yields (Planner.plan [file] []) p [plan] after := by
  have hregister (journal : Journal) : Yields ([place].forM Planner.register) { p with journal } ()
      { p with journal, resolver } :=
    yields_bind.2 ⟨_, _, Planner.register_yields hsymbol, yields_pure.2 ⟨rfl, rfl⟩⟩
  obtain ⟨after, hafter⟩ := hmessage _
  refine ⟨after, Planner.yields_plan (collect_alone hplaces htargets) (chosen_alone hentry hkept) (hregister _) ?_⟩
  rw [namesOf, List.map_singleton, List.mapM_cons]
  exact yields_bind.2 ⟨_, _, hafter, yields_bind.2 ⟨_, _, yields_pure.2 ⟨rfl, rfl⟩, yields_pure.2 ⟨rfl, rfl⟩⟩⟩

def loneSymbols : Naming.Resolver where
  rules := .standard
  symbols := [("M", "M")]
  taken := ["MessageHandler", "get_message_handlers", "messages", "M"]

theorem plan_lone {file : File} {place : Place} {plan : MessagePlan} (hplaces : placesOf file = [place])
    (hname : place.message.fullName = "M") (hpackage : place.file.package = none) (hentry : place.message.mapEntry = false)
    (htargets : ∀ f ∈ place.message.fields, messageTarget? f = none) (hkept : supported ["M"] place.message ≠ [])
    (hmessage : ∀ journal, ∃ after, Yields (Planner.message ["M"] place)
      { planner with journal, resolver := loneSymbols } plan after) :
    ∃ after, Yields (Planner.plan [file] []) planner [plan] after := by
  have hsymbol : (forumSymbols 0).register "M" "" (Planner.wantedSymbol {} none "M") = .ok ("M", loneSymbols) :=
    eq_ok_of_toOption (by decide)
  rw [← hname] at hkept hmessage hsymbol
  rw [← hpackage] at hsymbol
  exact plan_alone hplaces hentry htargets hkept hsymbol hmessage

/-- A file whose name goes on in the next line with an import. -/
def forged : File where
  name := "a\nfrom . import Nope as _m_Nope\n#.proto"
  dialect := .proto3
  messages := [{ id := 0, name := "M", fullName := "M", fields := [
    { name := "a", number := 1, kind := .scalar, scalar := some ScalarType.int32.name }] }]

def forgedPlan : MessagePlan where
  name := "M"
  fullName := "M"
  symbol := "M"
  fileName := some forged.name
  fields := [
    { name := "a", number := 1, kind := .scalar, scalar := some ScalarType.int32.name, jsonName := some "a",
      default := .int 0 }]

private theorem plan_forged : ∃ after, Yields (Planner.plan [forged] []) planner [forgedPlan] after := by
  refine plan_lone rfl rfl rfl rfl (by decide) (by decide) fun journal => ⟨_, rfl⟩

/-- A line break in the name of a file is written as it is: a module then has the line of an import that
belongs to no plan. -/
theorem line_break_forges_import : ∃ after, Yields (Planner.plan [forged] []) planner [forgedPlan] after ∧
    ∃ files, package {} "" [] [forgedPlan] = .ok files ∧
      ∃ file ∈ files, importLine "Nope" ∈ linesOf file.content ∧ ∀ m ∈ [forgedPlan], m.symbol ≠ "Nope" := by
  obtain ⟨after, hplans⟩ := plan_forged
  have hafter := (reached_planner.of_yields hplans).sound
  have hnumbered : ∀ m ∈ [forgedPlan], ∀ f ∈ m.fields, f.Numbered := by
    intro m hm f hf
    apply FieldPlan.numbered_of_isInt32
    rw [List.mem_singleton.1 hm] at hf
    rw [List.mem_singleton.1 hf]
    exact ⟨by decide, by decide⟩
  obtain ⟨files, hfiles, hmodules⟩ := package_ok (closed_of_yields hafter hplans) hnumbered {} "" []
  obtain ⟨lines, hfile, hlinked, -⟩ := hmodules forgedPlan List.mem_cons_self
  refine ⟨after, hplans, files, hfiles, _, hfile, ?_, by decide⟩
  have hsource : "# source: " ++ forged.name ∈ lines := hlinked.headed (List.mem_cons_of_mem _ List.mem_cons_self)
  rw [linesOf_unlines (List.ne_nil_of_mem hsource), List.mem_flatMap]
  exact ⟨_, hsource, by decide⟩

end Sample

end MessageCodec
