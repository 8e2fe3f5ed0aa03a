import MessageCodec.Generation
import MessageCodec.Proofs.Layout
import MessageCodec.Proofs.Limits
import MessageCodec.Proofs.Loading

/-!
# What a request is answered with

A run either writes a whole package or fails, and nearly every failure is an error of the input that becomes part
of the response. What is raised instead has few causes: a file of identifiers or of naming rules that cannot be
opened, a home that is not known, naming rules that nest too deep or are no object or hold a torn text, and a oneof
index that counts back too far.
-/

namespace MessageCodec

open Schema Plan Source

/-! ### Causes -/

/-- The path of the naming rules for a request, from its parameter or from the environment. -/
def Workspace.rulesPath? (w : Workspace) (request : Descriptor.Request) : Option String :=
  (Settings.given? (Settings.entries request.parameter) "naming_config").or
    (w.namingConfig.filter fun s => !s.isEmpty)

/-- The naming rules for a request have a torn symbol or a torn suffix. -/
def Workspace.Torn (w : Workspace) (request : Descriptor.Request) : Prop :=
  ∃ rules, w.namingRules (Settings.given? (Settings.entries request.parameter) "naming_config") = .ok rules ∧
    (rules.torn ≠ [] ∨ rules.tornSuffix = true)

/-- The errors that a request raises, each with its cause. -/
inductive Raised (w : Workspace) (request : Descriptor.Request) : Error → Prop
  | list {key path file : String} {place : Path} {fault : ReadFault}
      (hkey : key ∈ ["reserved_identifiers_file", "rename_overrides_file"])
      (hpath : Settings.given? (Settings.entries request.parameter) key = some path)
      (hplace : w.expand (Path.ofString path) = .ok place)
      (hread : w.readBytes place.toString = .error (.unreadable file fault)) : Raised w request (.unreadable file fault)
  | home {key path user : String} (hkey : key ∈ ["reserved_identifiers_file", "rename_overrides_file"])
      (hpath : Settings.given? (Settings.entries request.parameter) key = some path)
      (hhome : w.expand (Path.ofString path) = .error (.noHome user)) : Raised w request (.noHome user)
  | rules {path file : String} {fault : ReadFault} (hpath : w.rulesPath? request = some path)
      (hread : w.readBytes path = .error (.unreadable file fault)) : Raised w request (.unreadable file fault)
  | nesting {path : String} {text : List Char} (hpath : w.rulesPath? request = some path)
      (htext : w.readText path = .ok text) (hdeep : Json.parse w.levels text = .error .nestedTooDeep) :
      Raised w request .nestedTooDeep
  | shape {path : String} {text : List Char} {v : Json.Tree} (hpath : w.rulesPath? request = some path)
      (htext : w.readText path = .ok text) (hv : Json.parse w.levels text = .ok v)
      (hshape : ∀ members, v ≠ .object members) : Raised w request .rulesNotMapping
  | torn (h : w.Torn request) : Raised w request .tornText
  | oneof (h : request.Misindexed) : Raised w request .oneofIndex

private theorem Error.unreadable_not_reported (file : String) (fault : ReadFault) :
    (unreadable file fault).kind.isReported = false := by
  cases fault <;> rfl

theorem Raised.not_reported {w : Workspace} {request : Descriptor.Request} {e : Error} (h : Raised w request e) :
    e.kind.isReported = false := by
  cases h with
  | list => exact Error.unreadable_not_reported _ _
  | rules => exact Error.unreadable_not_reported _ _
  | _ => rfl

/-- The errors that a run for a request may end with. -/
def Foreseen (w : Workspace) (request : Descriptor.Request) (e : Error) : Prop :=
  e.Reported ∨ (e.isTorn = true ∧ w.Torn request) ∨ Raised w request e

theorem FailsOnly.foreseen {α : Type} {x : Except Error α} (h : FailsOnly Error.Reported x) (w : Workspace)
    (request : Descriptor.Request) : FailsOnly (Foreseen w request) x :=
  h.imp fun _ => .inl

/-- What is not reported has a cause. -/
theorem FailsOnly.foreseen_of_raised {α : Type} {x : Except Error α} {Q : Error → Prop}
    (h : FailsOnly (fun e => e.Reported ∨ Q e) x) {w : Workspace} {request : Descriptor.Request}
    (hQ : ∀ e, x = .error e → Q e → Raised w request e) : FailsOnly (Foreseen w request) x := by
  intro e he
  rcases h e he with hreported | hother
  · exact .inl hreported
  · exact .inr (.inr (hQ e he hother))

/-! ### Files -/

namespace Workspace

private theorem readBytes_fails (w : Workspace) (path : String) :
    FailsOnly (fun e => e.Reported ∨ ∃ fault, e = .unreadable path fault) (w.readBytes path) := by
  rw [readBytes]
  split
  · exact .error (.inl rfl)
  split
  · exact .error (.inr ⟨_, rfl⟩)
  split
  · split
    · exact .error (.inr ⟨_, rfl⟩)
    · exact .ok _
  · exact .error (.inr ⟨_, rfl⟩)

theorem expand_fails (w : Workspace) (p : Path) :
    FailsOnly (fun e => e.Reported ∨ ∃ user, e = .noHome user) (w.expand p) := by
  rw [expand]
  split
  · split
    · split
      · exact .error (.inl rfl)
      split
      · exact .ok _
      · exact .error (.inr ⟨_, rfl⟩)
    · exact .ok _
  · exact .ok _

theorem readText_fails (w : Workspace) (path : String) :
    FailsOnly (fun e => e.Reported ∨ (w.readBytes path = .error e ∧ ∃ fault, e = .unreadable path fault))
      (w.readText path) := by
  rw [readText]
  apply FailsOnly.bind
  · intro e he
    exact (readBytes_fails w path e he).imp_right fun hfault => ⟨he, hfault⟩
  · intro bs _
    split
    · exact .ok _
    · exact .error (.inl rfl)

end Workspace

/-! ### Settings -/

namespace Settings

private theorem reported_rename (entry : String) : FailsOnly Error.Reported (rename entry) := by
  rw [rename]
  split
  · exact .error rfl
  dsimp only
  split
  · exact .error rfl
  split
  · exact .error rfl
  · exact .ok _

theorem reported_renamesOf (entries : List String) : FailsOnly Error.Reported (renamesOf entries) := by
  rw [renamesOf]
  apply FailsOnly.foldlM
  intro entry _ table
  exact (reported_rename entry).bind fun _ _ => .ok _

private theorem reported_decodeCaseOf (table : Table String) : FailsOnly Error.Reported (decodeCaseOf table) := by
  rw [decodeCaseOf]
  split
  · rw [DecodeCase.parse]
    split
    all_goals first | exact .ok _ | exact .error rfl
  · exact .ok _

variable {w : Workspace} {request : Descriptor.Request}

private theorem fileEntries_fails {key : String} (hkey : key ∈ ["reserved_identifiers_file", "rename_overrides_file"]) :
    FailsOnly (Foreseen w request) (fileEntries w (entries request.parameter) key) := by
  rw [fileEntries]
  split
  · rename_i path hpath
    rw [linesOfFile]
    split
    · exact .ok _
    apply FailsOnly.bind
    · apply (Workspace.expand_fails w _).foreseen_of_raised
      intro e he hhome
      obtain ⟨user, rfl⟩ := hhome
      exact .home hkey hpath he
    intro place hplace
    refine FailsOnly.bind ?_ fun cs _ => .ok _
    apply (Workspace.readText_fails w _).foreseen_of_raised
    intro e _ hfault
    obtain ⟨hread, fault, rfl⟩ := hfault
    exact .list hkey hpath hplace hread
  · exact .ok _

theorem ofParameter_fails :
    FailsOnly (Foreseen w request) (ofParameter w request.parameter) := by
  rw [ofParameter, ofEntries]
  refine FailsOnly.bind ((reported_decodeCaseOf _).foreseen w request) fun decodeCase _ => ?_
  refine FailsOnly.bind (fileEntries_fails (by decide)) fun listed _ => ?_
  refine FailsOnly.bind (fileEntries_fails (by decide)) fun renamedListed _ => ?_
  refine FailsOnly.bind ((reported_renamesOf _).foreseen w request) fun renames _ => ?_
  dsimp only
  split
  · exact .error (.inl rfl)
  · exact .ok _

end Settings

/-! ### Naming rules -/

theorem Json.parse_fails (room : Nat) (cs : List Char) :
    FailsOnly (fun e => e.Reported ∨ e = .nestedTooDeep) (parse room cs) := by
  unfold parse
  dsimp only
  split
  · exact .ok _
  · exact .error (.inl rfl)
  · exact .error (.inl rfl)
  · exact .error (.inr rfl)

namespace Naming.Rules

private theorem reported_reservedOf (v : Json.Tree) : FailsOnly Error.Reported (reservedOf v) := by
  unfold reservedOf
  split
  · apply FailsOnly.foldlM
    intro item _ set
    split
    · exact .ok _
    · exact .error rfl
  · exact .error rfl

private theorem reported_overridesOf (v : Json.Tree) : FailsOnly Error.Reported (overridesOf v) := by
  unfold overridesOf
  split
  · apply FailsOnly.foldlM
    intro entry _ table
    split
    · exact .ok _
    · exact .error rfl
  · exact .error rfl

private theorem ofConfiguration_fails (v : Json.Tree) : FailsOnly
    (fun e => e.Reported ∨ (e = .rulesNotMapping ∧ ∀ members, v ≠ .object members)) (ofConfiguration v) := by
  unfold ofConfiguration
  split
  · refine FailsOnly.imp (E := Error.Reported) ?_ fun _ => .inl
    refine FailsOnly.bind (reported_reservedOf _) fun reserved _ => ?_
    refine FailsOnly.bind (reported_overridesOf _) fun overrides _ => ?_
    exact .ok _
  · rename_i hno
    exact .error (.inr ⟨rfl, hno⟩)

/-- Only the error of a torn symbol is told apart. -/
theorem tear_cases (rules : Rules) (e : Error) :
    rules.tear e = e ∨ ((rules.tear e).isTorn = true ∧ rules.torn ≠ []) := by
  unfold tear
  split
  · rename_i symbol fullName
    split
    · rename_i htorn
      exact .inr ⟨rfl, List.ne_nil_of_mem (List.contains_iff_mem.1 htorn)⟩
    · exact .inl rfl
  · exact .inl rfl

end Naming.Rules

section Run

variable {w : Workspace} {request : Descriptor.Request}

private theorem Workspace.namingRules_fails {path : Option String}
    (hpath : path = Settings.given? (Settings.entries request.parameter) "naming_config") :
    FailsOnly (Foreseen w request) (w.namingRules path) := by
  have hnamed : (path.filter fun s => !s.isEmpty) = path := by
    rw [hpath, Settings.given?, Option.filter_filter]
    simp
  rw [namingRules]
  dsimp only
  split
  · rename_i file hfile
    rw [hnamed, hpath] at hfile
    refine FailsOnly.bind ?_ fun text htext => FailsOnly.bind ?_ fun v hv => ?_
    · apply (readText_fails w file).foreseen_of_raised
      intro e _ hfault
      obtain ⟨hread, fault, rfl⟩ := hfault
      exact .rules hfile hread
    · apply (Json.parse_fails w.levels text).foreseen_of_raised
      intro e he hdeep
      rw [hdeep] at he ⊢
      exact .nesting hfile htext he
    · apply (Naming.Rules.ofConfiguration_fails v).foreseen_of_raised
      intro e _ hother
      obtain ⟨rfl, hshape⟩ := hother
      exact .shape hfile htext hv hshape
  · exact .ok _

theorem Planner.new_fails {settings : Settings} (h : Settings.ofParameter w request.parameter = .ok settings) :
    FailsOnly (Foreseen w request) (Planner.new w settings) := by
  rw [Planner.new]
  exact FailsOnly.bind (Workspace.namingRules_fails (Settings.ofParameter_eq_ok h).2) fun _ _ => .ok _

/-- The rules of a new planner are as torn as those for the request. -/
theorem Planner.torn_of_new {settings : Settings} (h : Settings.ofParameter w request.parameter = .ok settings)
    {p : Planner} (hp : Planner.new w settings = .ok p)
    (htorn : p.resolver.rules.torn ≠ [] ∨ p.resolver.rules.tornSuffix = true) : w.Torn request := by
  obtain ⟨rules, hrules, heq⟩ := bind_eq_ok.1 hp
  obtain rfl := Except.ok.inj heq
  refine ⟨rules, (Settings.ofParameter_eq_ok h).2 ▸ hrules, htorn.imp_left ?_⟩
  intro hkept hnone
  apply hkept
  show List.filter _ rules.torn = []
  rw [hnone, List.filter_nil]

/-! ### Runs -/

/-- Work of a run for a request that ends with a result as `Q` asks or with a foreseen error. -/
abbrev Ends (w : Workspace) (request : Descriptor.Request) {α : Type} (work : Run α) (Q : α → Prop) : Prop :=
  Contract (fun _ => True) work (fun a _ => Q a) fun e _ => Foreseen w request e

theorem ends_lift {α : Type} {x : Except Error α} {Q : α → Prop} (hok : ∀ a, x = .ok a → Q a)
    (h : FailsOnly (Foreseen w request) x) : Ends w request (liftM x : Run α) Q :=
  Contract.lift (fun _ a _ ha => hok a ha) fun _ e _ he => h e he

/-- What comes next works on what is known of the result. -/
theorem ends_bind {α β : Type} {x : Run α} {f : α → Run β} {Q : α → Prop} {R : β → Prop} (hx : Ends w request x Q)
    (hf : ∀ a, Q a → Ends w request (f a) R) : Ends w request (x >>= f) R :=
  Contract.bind hx fun a s hs => hf a hs s trivial

theorem ends_load {α : Type} {r : Registry} {work : Load α} (hr : r.request = request)
    (hwork : Load.Safe request request.Misindexed work) :
    Ends w request (Run.load r work) fun x => x.2.request = request := by
  have hend := hwork { r with journal := [] } hr
  rw [Run.load]
  rcases hrun : work.run { r with journal := [] } with ⟨result, after⟩
  rw [hrun] at hend
  refine Contract.seq (Contract.modify fun _ => id) fun _ => ?_
  cases result with
  | ok a => exact fun _ _ => hend
  | error e =>
    intro _ _
    rcases hend with hreported | ⟨rfl, hfound⟩
    · exact .inl hreported
    · exact .inr (.inr (.oneof hfound))

theorem ends_planning {p : Planner} (hp : p.resolver.Sound) (htorn : p.resolver.rules.torn ≠ [] → w.Torn request)
    (targets others : List File) : Ends w request (Run.planning p (Planner.plan targets others)) Closed := by
  have hend := Planner.contract_plan targets others { p with journal := [] } trivial
  have hsound := Planner.keeps_plan (P := Naming.Resolver.Sound) (fun _ _ _ _ _ hr h => hr.register h) targets others
    { p with journal := [] } hp
  rw [Run.planning]
  rcases hrun : (Planner.plan targets others).run { p with journal := [] } with ⟨result, after⟩
  rw [hrun] at hend hsound
  refine Contract.seq (Contract.modify fun _ => id) fun _ => ?_
  cases result with
  | ok plans => exact fun _ _ => closed_of_yields hsound hrun
  | error e =>
    intro _ _
    show Foreseen w request (p.resolver.rules.tear e)
    rcases p.resolver.rules.tear_cases e with heq | ⟨hwords, hsome⟩
    · exact .inl (heq.symm ▸ hend)
    · exact .inr (.inl ⟨hwords, htorn hsome⟩)

namespace Blueprint

/-- A blueprint with the settings of a request, whose plans fit together, and torn only where the naming rules are. -/
structure Suits (w : Workspace) (request : Descriptor.Request) (b : Blueprint) : Prop where
  settings : Settings.ofParameter w request.parameter = .ok b.settings
  closed : Closed b.messages
  torn : b.isTorn = true → w.Torn request

private theorem safe_sortFiles (inputs : List String) : Load.Safe request request.Misindexed (sortFiles inputs) := by
  refine Contract.seq (Contract.mapM fun name _ => Registry.safe_fileNamed name) fun targets => ?_
  exact Contract.seq Registry.safe_allFiles fun files => Contract.pure fun _ => id

private theorem ends_ofRegistry {settings : Settings}
    (hsettings : Settings.ofParameter w request.parameter = .ok settings)
    {r : Registry} (hr : r.request = request) : Ends w request (ofRegistry w settings r) (Suits w request) := by
  rw [ofRegistry]
  refine ends_bind (ends_load hr Registry.safe_allFiles) fun x hx => ?_
  refine ends_bind (ends_load hx (safe_sortFiles _)) fun y _ => ?_
  refine ends_bind (ends_lift (fun _ => id) (Planner.new_fails hsettings)) fun p hp => ?_
  have htorn := Planner.torn_of_new hsettings hp
  have hsound := (Planner.Reached.new hp).sound
  refine ends_bind (ends_planning hsound (fun hsome => htorn (.inl hsome)) _ _) fun plans hplans => ?_
  refine Contract.seq (Contract.modify fun _ => id) fun _ => ?_
  refine Contract.pure fun _ _ => ⟨hsettings, hplans, fun hany => htorn (.inr ?_)⟩
  obtain ⟨m, -, hm⟩ := List.any_eq_true.1 hany
  exact (Bool.and_eq_true_iff.1 hm).1

theorem ends_ofRequest : Ends w request (ofRequest w request) (Suits w request) := by
  rw [ofRequest]
  refine ends_bind (ends_lift (fun _ => id) Settings.ofParameter_fails) fun settings hsettings => ?_
  exact ends_ofRegistry hsettings rfl

end Blueprint

/-- A run that is reported ends with what the work makes or with an error to put into words, unless the error is
raised. -/
theorem contract_reporting {α : Type} {work : Run α} {Q : α → Prop} (hwork : Ends w request work Q) (lead : String) :
    Contract (fun _ => True) (Run.reporting lead work)
      (fun result _ => match result with
        | .ok a => Q a
        | .error e => e.Reported ∨ (e.isTorn = true ∧ w.Torn request))
      fun e _ => Raised w request e := by
  rw [Run.reporting]
  apply Contract.tryCatch
  · exact hwork.bind fun a => Contract.pure fun _ => id
  intro e
  split
  · rename_i hreported
    refine Contract.seq (Contract.modify fun _ => id) fun _ => ?_
    refine Contract.pure fun _ hend => ?_
    rcases hend with hwords | htorn | hraised
    · exact .inl hwords
    · exact .inr htorn
    · rw [hraised.not_reported] at hreported
      cases hreported
  · rename_i hno
    refine Contract.throw fun _ hend => ?_
    rcases hend with hwords | ⟨htorn, -⟩ | hraised
    · exact absurd (Bool.and_eq_true_iff.1 hwords).1 hno
    · cases e <;> cases htorn
      exact absurd rfl hno
    · exact hraised

end Run

/-! ### Responses -/

/-- The answers to a request: words for an error and no files, or a package in the settings of the request. -/
inductive Answers (w : Workspace) (runtime : String) (request : Descriptor.Request) : Response → Prop
  | failed {text : String} (htext : text ≠ "") : Answers w runtime request { error := some text }
  | generated {settings : Settings} {plans : List MessagePlan} {inputs : List String} {modules : List GeneratedFile}
      (hsettings : Settings.ofParameter w request.parameter = .ok settings) (hplans : Closed plans)
      (hmodules : List.Forall₂
        (fun m file => file.name = modulePath m ∧ (moduleOf settings plans m).render = .ok file.content) plans modules) :
      Answers w runtime request
        { files := [⟨"__init__.py", registryModule plans⟩, ⟨settings.runtimeModule ++ ".py", runtime⟩,
            ⟨"messages/__init__.py", messagesModule plans⟩] ++ modules ++ [⟨"README.md", readme inputs plans⟩] }

section

variable {w : Workspace} {runtime : String} {request : Descriptor.Request}

private theorem contract_ofFiles (b : Blueprint) (files : List GeneratedFile) :
    Contract (fun _ => (b.isTorn = true → w.Torn request) ∧ Answers w runtime request { files })
      (liftM (Response.ofFiles b files) : Run Response) (fun response _ => Answers w runtime request response)
      fun e _ => Raised w request e := by
  rw [Response.ofFiles]
  split
  · rename_i htorn
    exact Contract.throw fun _ hmade => .torn (hmade.1 htorn)
  · exact Contract.pure fun _ hmade => hmade.2

private theorem contract_ofError (e : Error) :
    Contract (fun _ => e.Reported ∨ (e.isTorn = true ∧ w.Torn request)) (liftM (Response.ofError e) : Run Response)
      (fun response _ => Answers w runtime request response) fun e _ => Raised w request e := by
  rw [Response.ofError]
  split
  · rename_i htorn
    refine Contract.throw fun _ hend => .torn ?_
    rcases hend with hwords | ⟨-, hrules⟩
    · rw [Error.Reported, htorn, Bool.not_true, Bool.and_false] at hwords
      cases hwords
    · exact hrules
  · rename_i hwhole
    exact Contract.pure fun _ hend => .failed (Error.message_ne_empty (hend.resolve_right fun h => hwhole h.1))

end

/-- Whatever a request holds and whatever files are there, it is answered with words for an error and no files or
with a whole package, unless it names a file that cannot be opened, a home that is not known, naming rules that nest
too deep, are no object or hold a torn text, or a oneof before the first. -/
theorem respond_answers_or_raises (w : Workspace) (runtime : String) (request : Descriptor.Request) (journal : Journal) :
    (∃ response after, (respond w runtime request).run journal = (.ok response, after) ∧
      Answers w runtime request response) ∨
    ∃ e after, (respond w runtime request).run journal = (.error e, after) ∧ Raised w request e := by
  have hwork : Ends w request (do
      let blueprint ← Blueprint.ofRequest w request
      let files ← (blueprint.files runtime : Except Error _)
      return (blueprint, files)) fun made =>
        (made.1.isTorn = true → w.Torn request) ∧ Answers w runtime request { files := made.2 } := by
    refine ends_bind Blueprint.ends_ofRequest fun b hb => ?_
    refine ends_bind (ends_lift (fun _ => id) ?_) fun files hfiles => Contract.pure fun _ _ => ⟨hb.torn, ?_⟩
    · exact (reported_package hb.closed b.settings runtime b.inputs).foreseen w request
    · obtain ⟨modules, rfl, hmodules⟩ := package_eq_ok hb.closed.names hfiles
      exact .generated hb.settings hb.closed hmodules
  have hcontract : Contract (fun _ => True) (respond w runtime request)
      (fun response _ => Answers w runtime request response) fun e _ => Raised w request e := by
    refine (contract_reporting hwork "Generation failed: ").bind fun result => ?_
    cases result with
    | ok made => exact contract_ofFiles made.1 made.2
    | error e => exact contract_ofError e
  have hend := hcontract journal trivial
  rcases hrun : (respond w runtime request).run journal with ⟨result, after⟩
  rw [hrun] at hend
  cases result with
  | ok response => exact .inl ⟨response, after, rfl, hend⟩
  | error e => exact .inr ⟨e, after, rfl, hend⟩

namespace Sample

/-- A message with one oneof, whose field asks for the last but one. -/
def misindexed : Descriptor.Message where
  name := "M"
  fields := [{ name := "a", number := 1, oneofIndex := some (-2) }]
  oneofs := ["choice"]

/-- A list file that is not there, the home of a user who is not known and a oneof before the first are not part of
a response. -/
theorem unreported_errors_raised :
    (respond {} "" { parameter := "reserved_identifiers_file=missing.txt" }).run [] =
      (.error (.unreadable "missing.txt" .missing), []) ∧
    (respond {} "" { parameter := "rename_overrides_file=~nobody/renames.txt" }).run [] =
      (.error (.noHome "nobody"), []) ∧
    (respond {} "" { files := [{ name := "m", messages := [misindexed] }] }).run [] = (.error .oneofIndex, []) :=
  ⟨rfl, rfl, rfl⟩

end Sample

end MessageCodec
