import MessageCodec.Proofs.FilePaths
import MessageCodec.Proofs.Rendering

/-!
# The files of a package

A symbol is chosen by hand or is a candidate for an identifier. As long as the ones chosen by hand are fit for use,
and so is the collision suffix, every message module is the file that its symbol names, and no two files of a
package have the same name.
-/

namespace MessageCodec

/-! ### Where symbols come from -/

namespace Naming

/-- Rules under which the symbols of some types are fit for use. -/
structure Rules.Fit (rules : Rules) (names : List String) : Prop where
  suffix : Suffix rules.collisionSuffix
  plain : ∀ name ∈ names, ∀ symbol, rules.overrides.get? name = some symbol → ∀ c ∈ symbol.toList, isPlain c = true
  not_keyword : ∀ name ∈ names, ∀ symbol, rules.overrides.get? name = some symbol → isKeyword symbol = false
  not_package : ∀ name ∈ names, ∀ symbol, rules.overrides.get? name = some symbol → symbol ≠ "__init__"

namespace Resolver

/-- Every symbol was chosen by hand and is an identifier, or is a candidate for an identifier. -/
structure Grounded (rules : Rules) (r : Resolver) : Prop where
  rules_eq : r.rules = rules
  origin : ∀ fullName symbol, r.lookup? fullName = some symbol →
    (r.override? fullName = some symbol ∧ Text.isIdentifier symbol = true) ∨
      ∃ stem k, symbol = candidate rules.collisionSuffix "" (identifier stem "Message") k

variable {rules : Rules} {r r' : Resolver}

theorem grounded_new (rules : Rules) (more : List String) : (Resolver.new rules more).Grounded rules where
  rules_eq := rfl
  origin := by
    intro fullName symbol h
    simp [Resolver.new, lookup?, Table.get?] at h

theorem Grounded.register (hr : r.Grounded rules) {fullName stem symbol : String}
    (h : r.register fullName "" (identifier stem "Message") = .ok (symbol, r')) : r'.Grounded rules := by
  have hcases := registers r fullName "" (identifier stem "Message")
  rw [h] at hcases
  cases hcases with
  | known => exact hr
  | chosen hnew hchosen _ hidentifier =>
    refine ⟨hr.rules_eq, ?_⟩
    intro other symbol' hother
    rcases (lookup?_assign_eq_some hnew _ _ _).1 hother with hother | ⟨rfl, rfl⟩
    · exact hr.origin other symbol' hother
    · exact .inl ⟨hchosen, hidentifier⟩
  | made hnew _ _ =>
    refine ⟨hr.rules_eq, ?_⟩
    intro other symbol' hother
    rcases (lookup?_assign_eq_some hnew _ _ _).1 hother with hother | ⟨rfl, rfl⟩
    · exact hr.origin other symbol' hother
    · obtain ⟨k, -, hk, -⟩ := exists_makeUnique r "" (identifier stem "Message")
      rw [hr.rules_eq] at hk
      exact .inr ⟨stem, k, hk⟩

/-- Symbols are fit for use where those chosen by hand are. -/
theorem Grounded.usable (hr : r.Grounded rules) {names : List String} (hrules : rules.Fit names) {fullName : String}
    (hname : fullName ∈ names) {symbol : String} (h : r.lookup? fullName = some symbol) : Usable symbol := by
  rcases hr.origin fullName symbol h with ⟨hchosen, hidentifier⟩ | ⟨stem, k, rfl⟩
  · rw [override?_eq_some, hr.rules_eq] at hchosen
    have hplain := hrules.plain fullName hname symbol hchosen.1
    exact ⟨word_of_isIdentifier hidentifier hplain, hrules.not_keyword fullName hname symbol hchosen.1,
      hrules.not_package fullName hname symbol hchosen.1⟩
  · exact usable_candidate hrules.suffix stem k

end Resolver

end Naming

namespace Planner

open Planning

private theorem Reached.grounded {w : Workspace} {settings : Settings} {p : Planner} (h : Reached w settings p) :
    p.resolver.Grounded p.resolver.rules := by
  have hrun : ∃ rules, p.resolver.Grounded rules := by
    induction h with
    | new h =>
      obtain ⟨rules, -, heq⟩ := bind_eq_ok.1 h
      obtain rfl := Except.ok.inj heq
      exact ⟨_, Naming.Resolver.grounded_new _ _⟩
    | run _ targets others ih =>
      obtain ⟨rules, hrules⟩ := ih
      refine ⟨rules, keeps_plan (P := Naming.Resolver.Grounded rules) ?_ targets others _ hrules⟩
      exact fun _ _ _ _ _ hr h => hr.register h
  obtain ⟨rules, hrules⟩ := hrun
  rw [hrules.rules_eq]
  exact hrules

/-- The symbols of plans are fit for use where those chosen by hand are. -/
theorem Reached.usable {w : Workspace} {settings : Settings} {p after : Planner} (hp : Reached w settings p)
    {targets others : List Schema.File} {plans : List MessagePlan} (h : Yields (plan targets others) p plans after)
    (hrules : p.resolver.rules.Fit (plans.map MessagePlan.fullName)) : ∀ m ∈ plans, Naming.Usable m.symbol := by
  intro m hm
  have hkeeps := keeps_plan (P := Naming.Resolver.Grounded p.resolver.rules) (fun _ _ _ _ _ hr h => hr.register h)
    targets others
  have hafter : after.resolver.Grounded p.resolver.rules := hkeeps.of_yields hp.grounded h
  obtain ⟨places, -, hplans⟩ := plan_yields h
  obtain ⟨place, -, hplace⟩ := exists_of_forall₂ hplans hm
  refine hafter.usable hrules ?_ (Naming.Resolver.lookup_eq_ok.1 hplace.symbol)
  rw [← hplace.fullName]
  exact List.mem_map_of_mem hm

end Planner

/-! ### File names -/

namespace Text

theorem not_slash_of_isIdentifier {s : String} (h : isIdentifier s = true) : '/' ∉ s.toList := by
  intro hmem
  rw [isIdentifier] at h
  cases hs : s.toList with
  | nil =>
    rw [hs] at hmem
    cases hmem
  | cons c rest =>
    rw [hs] at h hmem
    rw [Bool.and_eq_true, List.all_eq_true] at h
    rcases List.mem_cons.1 hmem with rfl | hrest
    · exact absurd h.1 (by decide)
    · exact absurd (h.2 '/' hrest) (by decide)

end Text

theorem Settings.ofParameter_eq_ok {w : Workspace} {parameter : String} {settings : Settings}
    (h : Settings.ofParameter w parameter = .ok settings) : Text.isIdentifier settings.runtimeModule = true ∧
      settings.namingConfig = given? (entries parameter) "naming_config" := by
  rw [ofParameter, ofEntries] at h
  obtain ⟨_, -, h⟩ := bind_eq_ok.1 h
  obtain ⟨_, -, h⟩ := bind_eq_ok.1 h
  obtain ⟨_, -, h⟩ := bind_eq_ok.1 h
  obtain ⟨_, -, h⟩ := bind_eq_ok.1 h
  dsimp only at h
  split at h
  · cases h
  · rename_i hidentifier
    cases h
    exact ⟨by simpa using hidentifier, rfl⟩

namespace Source

def pathOf (symbol : String) : String := "messages/" ++ symbol ++ ".py"

theorem pathOf_injective : Function.Injective pathOf := by
  intro a b h
  have hlist := congrArg String.toList h
  simp only [pathOf, String.toList_append, List.append_cancel_right_eq, List.append_cancel_left_eq] at hlist
  exact String.toList_injective hlist

private theorem slash_mem_pathOf (symbol : String) : '/' ∈ (pathOf symbol).toList := by
  rw [pathOf, String.toList_append, String.toList_append]
  exact List.mem_append_left _ (List.mem_append_left _ (by decide))

private theorem ne_pathOf {name : String} (h : '/' ∉ name.toList) (symbol : String) : name ≠ pathOf symbol := by
  rintro rfl
  exact h (slash_mem_pathOf symbol)

private theorem append_ne_readme (s : String) : s ++ ".py" ≠ "README.md" := by
  intro h
  have hlast := congrArg (fun t : String => t.toList.getLast?) h
  simp at hlast

/-- The names of the files of a package are distinct. -/
theorem nodup_names {runtime : String} (hruntime : '/' ∉ runtime.toList) (hpackage : runtime ≠ "__init__")
    {symbols : List String} (hsymbols : symbols.Nodup) (hinit : "__init__" ∉ symbols) :
    (["__init__.py", runtime ++ ".py", pathOf "__init__"] ++ symbols.map pathOf ++ ["README.md"]).Nodup := by
  have hpaths : (("__init__" :: symbols).map pathOf).Nodup :=
    (List.nodup_cons.2 ⟨hinit, hsymbols⟩).map pathOf_injective
  have hrest : (("__init__" :: symbols).map pathOf ++ ["README.md"]).Nodup := by
    rw [List.nodup_append]
    refine ⟨hpaths, List.nodup_singleton _, ?_⟩
    intro name hname readme hreadme
    obtain ⟨symbol, -, rfl⟩ := List.mem_map.1 hname
    rw [List.mem_singleton.1 hreadme]
    exact append_ne_readme _
  have hapart {name : String} (hslash : '/' ∉ name.toList) (hreadme : name ≠ "README.md") :
      name ∉ ("__init__" :: symbols).map pathOf ++ ["README.md"] := by
    rw [List.mem_append, List.mem_map, List.mem_singleton]
    rintro (⟨symbol, -, heq⟩ | heq)
    · exact ne_pathOf hslash symbol heq.symm
    · exact hreadme heq
  have hslash : '/' ∉ (runtime ++ ".py").toList := by
    rw [String.toList_append, List.mem_append, not_or]
    exact ⟨hruntime, by decide⟩
  have hfirst : "__init__.py" ≠ runtime ++ ".py" := by
    intro heq
    apply hpackage
    have hlist : (runtime ++ ".py").toList = ("__init__" ++ ".py").toList := congrArg String.toList heq.symm
    rw [String.toList_append, String.toList_append, List.append_cancel_right_eq] at hlist
    exact String.toList_injective hlist
  show ("__init__.py" :: (runtime ++ ".py") :: (("__init__" :: symbols).map pathOf ++ ["README.md"])).Nodup
  rw [List.nodup_cons, List.nodup_cons, List.mem_cons, not_or]
  exact ⟨⟨hfirst, hapart (by decide) (by decide)⟩, hapart hslash (append_ne_readme runtime), hrest⟩

theorem package_eq_ok {settings : Settings} {runtime : String} {inputs : List String} {plans : List MessagePlan}
    (hnames : (plans.map MessagePlan.fullName).Nodup) {files : List GeneratedFile}
    (h : package settings runtime inputs plans = .ok files) :
    ∃ modules, files = [⟨"__init__.py", registryModule plans⟩, ⟨settings.runtimeModule ++ ".py", runtime⟩,
        ⟨pathOf "__init__", messagesModule plans⟩] ++ modules ++ [⟨"README.md", readme inputs plans⟩] ∧
      List.Forall₂ (fun m file => file.name = modulePath m ∧ (moduleOf settings plans m).render = .ok file.content)
        plans modules := by
  rw [package, ofPairs_symbols hnames] at h
  obtain ⟨modules, hmodules, heq⟩ := bind_eq_ok.1 h
  refine ⟨modules, ?_, (mapM_eq_ok.1 hmodules).imp ?_⟩
  · rw [pathOf]
    exact (Except.ok.inj heq).symm
  intro m file hfile
  obtain ⟨content, hcontent, heq⟩ := bind_eq_ok.1 hfile
  obtain rfl := Except.ok.inj heq
  refine ⟨?_, hcontent⟩
  rw [modulePath]

/-- From whatever settings a parameter string gives, and whatever a planner was asked for before, the symbols of
plans are identifiers and no reserved words, a package can be written as long as field numbers are within the
digit limit, no two of its files have the same name, and the module of each message is the file that its symbol
names. The runtime module must not be named like the module of a whole package, and the symbols chosen by hand
and the collision suffix must be fit for use. -/
theorem package_files_apart {w : Workspace} {parameter : String} {settings : Settings}
    (hsettings : Settings.ofParameter w parameter = .ok settings) (hruntime : settings.runtimeModule ≠ "__init__")
    {p after : Planner} (hp : Planner.Reached w settings p) {targets others : List Schema.File}
    {plans : List MessagePlan} (h : Planning.Yields (Planner.plan targets others) p plans after)
    (hrules : p.resolver.rules.Fit (plans.map MessagePlan.fullName)) (runtime : String) (inputs : List String) :
    (∀ m ∈ plans, Text.isIdentifier m.symbol = true ∧ Naming.isKeyword m.symbol = false) ∧
    ((∀ m ∈ plans, ∀ f ∈ m.fields, f.Numbered) → ∃ files, package settings runtime inputs plans = .ok files) ∧
    ∀ files, package settings runtime inputs plans = .ok files →
      (files.map GeneratedFile.name).Nodup ∧
      ∃ modules, files = [⟨"__init__.py", registryModule plans⟩, ⟨settings.runtimeModule ++ ".py", runtime⟩,
          ⟨"messages/__init__.py", messagesModule plans⟩] ++ modules ++ [⟨"README.md", readme inputs plans⟩] ∧
        List.Forall₂ (fun m file => file.name = "messages/" ++ m.symbol ++ ".py" ∧
          (moduleOf settings plans m).render = .ok file.content) plans modules := by
  have hclosed := Plan.closed_of_yields (hp.of_yields h).sound h
  have husable := hp.usable h hrules
  refine ⟨?_, ?_, ?_⟩
  · intro m hm
    exact ⟨(husable m hm).word.isIdentifier, (husable m hm).not_keyword⟩
  · intro hnumbered
    obtain ⟨files, hfiles, -⟩ := package_ok hclosed hnumbered settings runtime inputs
    exact ⟨files, hfiles⟩
  · intro files hfiles
    obtain ⟨modules, rfl, hmodules⟩ := package_eq_ok hclosed.names hfiles
    have hpaths : List.Forall₂ (fun m file => file.name = pathOf m.symbol ∧
        (moduleOf settings plans m).render = .ok file.content) plans modules := by
      refine ((List.forall₂_and_left _ _).2 ⟨husable, hmodules⟩).imp ?_
      intro m file hm
      rw [pathOf, ← Naming.sanitizePath_word hm.1.word]
      exact hm.2
    have hnames : modules.map GeneratedFile.name = (plans.map MessagePlan.symbol).map pathOf := by
      rw [List.map_map, ← List.forall₂_eq_eq_eq, List.forall₂_map_left_iff, List.forall₂_map_right_iff]
      exact (hpaths.imp fun _ _ h => h.1).flip
    refine ⟨?_, modules, rfl, hpaths⟩
    rw [List.map_append, List.map_append, hnames]
    apply nodup_names (Text.not_slash_of_isIdentifier (Settings.ofParameter_eq_ok hsettings).1) hruntime
      hclosed.symbols
    intro hinit
    obtain ⟨m, hm, heq⟩ := List.mem_map.1 hinit
    exact (husable m hm).not_package heq

end Source

namespace Sample

open Schema Plan Planning Source

theorem fit_standard (names : List String) : Naming.Rules.standard.Fit names where
  suffix := Naming.suffix_standard
  plain _ _ _ h := nomatch h
  not_keyword _ _ _ h := nomatch h
  not_package _ _ _ h := nomatch h

private theorem ofParameter_empty : Settings.ofParameter {} "" = .ok {} := rfl

theorem package_files_apart_forum : ∃ after files, Yields (Planner.plan [forum] []) planner forumPlans after ∧
    package {} "" [] forumPlans = .ok files ∧ (files.map GeneratedFile.name).Nodup ∧
    ∃ file ∈ files, file.name = "messages/Thread.py" := by
  obtain ⟨after, hplans⟩ := plan_forum
  obtain ⟨-, hexists, hfiles⟩ := package_files_apart ofParameter_empty (by decide) reached_planner hplans
    (fit_standard _) "" []
  obtain ⟨files, hok⟩ := hexists numbered_forum
  obtain ⟨hnodup, modules, rfl, hmodules⟩ := hfiles files hok
  obtain ⟨file, hfile, hname, -⟩ := exists_of_forall₂ hmodules.flip (List.mem_cons_self : _ ∈ forumPlans)
  exact ⟨after, _, hplans, hok, hnodup, file, List.mem_append_left _ (List.mem_append_right _ hfile), hname⟩

def lone : File where
  name := "a.proto"
  dialect := .proto3
  messages := [{ id := 0, name := "M", fullName := "M", fields := [
    { name := "a", number := 1, kind := .scalar, scalar := some ScalarType.int32.name }] }]

def lonePlan (symbol : String) : MessagePlan where
  name := "M"
  fullName := "M"
  symbol := symbol
  fileName := some "a.proto"
  fields := [
    { name := "a", number := 1, kind := .scalar, scalar := some ScalarType.int32.name, jsonName := some "a",
      default := .int 0 }]

def accented : Settings := { renames := [("M", "é")] }

/-- The symbols under these settings, before the message has got its own and after. -/
def accentedSymbols (count : Nat) : Naming.Resolver where
  rules := { Naming.Rules.standard with overrides := [("M", "é")] }
  symbols := [("M", "é")].take count
  taken := ["MessageHandler", "get_message_handlers", "messages", "é"].take (3 + count)

theorem ofParameter_accented : Settings.ofParameter {} "rename_overrides=M:é" = .ok accented := rfl

theorem new_accented : Planner.new {} accented = .ok { settings := accented, resolver := accentedSymbols 0 } := rfl

private theorem plan_accented : ∃ after,
    Yields (Planner.plan [lone] []) { settings := accented, resolver := accentedSymbols 0 } [lonePlan "é"] after := by
  have hsymbol : (accentedSymbols 0).register "M" "" (Planner.wantedSymbol accented none "M") =
      .ok ("é", accentedSymbols 1) := eq_ok_of_toOption (by decide)
  exact plan_alone rfl rfl (by decide) (by decide) hsymbol fun journal => ⟨_, rfl⟩

private theorem numbered_lone (symbol : String) : ∀ m ∈ [lonePlan symbol], ∀ f ∈ m.fields, f.Numbered := by
  intro m hm f hf
  apply FieldPlan.numbered_of_isInt32
  rw [List.mem_singleton.1 hm] at hf
  rw [List.mem_singleton.1 hf]
  exact ⟨by decide, by decide⟩

/-- A symbol beyond ASCII is accepted and imported as it is, but the file of its module has another name. -/
theorem accented_module_misplaced : ∃ p after files, Settings.ofParameter {} "rename_overrides=M:é" = .ok accented ∧
    Planner.new {} accented = .ok p ∧ Yields (Planner.plan [lone] []) p [lonePlan "é"] after ∧
    package accented "" [] [lonePlan "é"] = .ok files ∧ ∀ file ∈ files, file.name ≠ "messages/é.py" := by
  obtain ⟨after, hplans⟩ := plan_accented
  have hreached := Planner.Reached.new new_accented
  have hclosed := Plan.closed_of_yields (hreached.of_yields hplans).sound hplans
  obtain ⟨files, hfiles, -⟩ := package_ok hclosed (numbered_lone "é") accented "" []
  refine ⟨_, after, files, ofParameter_accented, new_accented, hplans, hfiles, ?_⟩
  obtain ⟨modules, rfl, hmodules⟩ := package_eq_ok hclosed.names hfiles
  have hpath : modulePath (lonePlan "é") = "messages/_.py" := by decide
  cases hmodules with
  | cons hmodule hrest =>
    cases hrest
    intro file hfile
    simp only [List.cons_append, List.nil_append, List.mem_cons, List.not_mem_nil, or_false] at hfile
    rcases hfile with rfl | rfl | rfl | rfl | rfl
    · decide
    · decide
    · decide
    · rw [hmodule.1, hpath]
      decide
    · decide

/-- The runtime module may be named so that its file is written over the registry. -/
theorem runtime_over_registry : ∃ settings, Settings.ofParameter {} "runtime_module=__init__" = .ok settings ∧
    ∀ runtime inputs plans files, package settings runtime inputs plans = .ok files →
      ¬ (files.map GeneratedFile.name).Nodup := by
  refine ⟨{ runtimeModule := "__init__" }, rfl, ?_⟩
  intro runtime inputs plans files h hnodup
  obtain ⟨modules, -, heq⟩ := bind_eq_ok.1 h
  obtain rfl := Except.ok.inj heq
  exact (List.nodup_cons.1 hnodup).1 List.mem_cons_self

end Sample

end MessageCodec
