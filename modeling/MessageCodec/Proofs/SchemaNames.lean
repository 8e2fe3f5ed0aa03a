import MessageCodec.Proofs.Contract
import MessageCodec.Proofs.Plan
import MessageCodec.Schema.Binary.Write
import MessageCodec.Tool.Inputs

/-!
# The names of schema files

The compiler names a file by its path from the first directory that is above it. The directories it is given leave
out those of files that are below an earlier one. What is left out is itself below an earlier one, so the first
directory above a file is the same as if all had been given. Hence the files are asked for under the names that
they get.
-/

namespace MessageCodec

/-! ### Paths -/

namespace Path

/-- A directory is above a file whose path goes on from its own by some components. -/
def Above (d file : Path) (rest : List String) : Prop := rest ≠ [] ∧ file = ⟨d.root, d.parts ++ rest⟩

theorem isAbove_iff {d file : Path} : d.isAbove file = true ↔ ∃ rest, d.Above file rest := by
  rw [isAbove, Bool.and_eq_true, Bool.and_eq_true, beq_iff_eq, beq_iff_eq, decide_eq_true_eq]
  constructor
  · rintro ⟨⟨hroot, hlength⟩, htake⟩
    refine ⟨file.parts.drop d.parts.length, ?_, ?_⟩
    · rw [Ne, List.drop_eq_nil_iff]
      omega
    · have hparts : d.parts ++ file.parts.drop d.parts.length = file.parts := by
        conv_lhs => rw [← htake]
        rw [List.length_take, min_eq_left hlength.le, List.take_append_drop]
      rw [hparts, hroot]
  · rintro ⟨rest, hne, rfl⟩
    have hlength := List.length_pos_of_ne_nil hne
    refine ⟨⟨rfl, ?_⟩, List.take_left⟩
    rw [List.length_append]
    omega

theorem Above.below {d file : Path} {rest : List String} (h : d.Above file rest) :
    d.below file = "/".intercalate rest := by
  rw [Path.below, h.2, List.drop_left]

/-- What is above a file is its directory or above its directory, and so above all that this is above. -/
theorem isAbove_of_parent {d g f : Path} (hg : d.isAbove g = true) (hf : g.parent.isAbove f = true) :
    d.isAbove f = true := by
  obtain ⟨rest, hne, rfl⟩ := isAbove_iff.1 hg
  obtain ⟨more, hmore, rfl⟩ := isAbove_iff.1 hf
  refine isAbove_iff.2 ⟨rest.dropLast ++ more, ?_, ?_⟩
  · simp [hmore]
  · simp only [parent, List.dropLast_append_of_ne_nil hne, List.append_assoc]

theorem parent_isAbove {f : Path} (h : f.parts ≠ []) : f.parent.isAbove f = true := by
  refine isAbove_iff.2 ⟨[f.parts.getLast h], List.cons_ne_nil _ _, ?_⟩
  simp only [parent, List.dropLast_append_getLast h]

theorem climb_append (done front back : List String) : climb done (front ++ back) = climb (climb done front) back := by
  induction front generalizing done with
  | nil => rfl
  | cons part front ih =>
    rw [List.cons_append, climb, climb]
    split
    · exact ih _
    · exact ih _

end Path

namespace Tool

/-- The path of a schema file ends with a component of its own. -/
theorem exists_last_of_isSchema {p : Path} (h : isSchema p = true) :
    ∃ front last, p.parts = front ++ [last] ∧ last ≠ ".." := by
  rw [isSchema, beq_iff_eq] at h
  rcases List.eq_nil_or_concat p.parts with hnil | ⟨front, last, heq⟩
  · rw [Path.suffix, Path.name, hnil] at h
    exact absurd h (by decide)
  · rw [List.concat_eq_append] at heq
    refine ⟨front, last, heq, ?_⟩
    rintro rfl
    rw [Path.suffix, Path.name, heq, List.getLast?_concat] at h
    exact absurd h (by decide)

theorem exists_parts_resolve {p : Path} (h : isSchema p = true) (cwd : Path) :
    ∃ last, (cwd.resolve p).parts = (cwd.resolve p.parent).parts ++ [last] := by
  obtain ⟨front, last, hparts, hlast⟩ := exists_last_of_isSchema h
  have hclimb : ∀ done, Path.climb [] (done ++ (front ++ [last])) = Path.climb [] (done ++ front) ++ [last] := by
    intro done
    rw [← List.append_assoc, Path.climb_append, Path.climb, if_neg hlast]
    rfl
  refine ⟨last, ?_⟩
  simp only [Path.resolve, Path.join, Path.parent, hparts, List.dropLast_concat]
  split
  · exact hclimb cwd.parts
  · rw [hparts]
    exact hclimb []

theorem resolve_parent {p : Path} (h : isSchema p = true) (cwd : Path) :
    cwd.resolve p.parent = (cwd.resolve p).parent := by
  obtain ⟨last, hparts⟩ := exists_parts_resolve h cwd
  show cwd.resolve p.parent = ⟨"/", (cwd.resolve p).parts.dropLast⟩
  rw [hparts, List.dropLast_concat]
  rfl

/-! ### The first directory above a file -/

private theorem find?_foldl {α β : Type} {step : List α → β → List α} {g : β → α} {p : α → Bool}
    (h : ∀ found b, (step found b).find? p = (found ++ [g b]).find? p) (bs : List β) (found : List α) :
    (bs.foldl step found).find? p = (found ++ bs.map g).find? p := by
  induction bs generalizing found with
  | nil => rw [List.foldl_nil, List.map_nil, List.append_nil]
  | cons b bs ih =>
    calc ((b :: bs).foldl step found).find? p
        = (step found b ++ bs.map g).find? p := ih (step found b)
      _ = (found ++ [g b] ++ bs.map g).find? p := by rw [List.find?_append, h, ← List.find?_append]
      _ = (found ++ (b :: bs).map g).find? p := by rw [List.append_assoc, List.map_cons, List.singleton_append]

/-- What passes a test only after something else has done so may be left out. -/
theorem find?_append_singleton {α : Type} {p : α → Bool} {found : List α} {a : α}
    (h : p a = true → ∃ b ∈ found, p b = true) : found.find? p = (found ++ [a]).find? p := by
  rw [List.find?_append]
  cases hfind : found.find? p with
  | some b => rfl
  | none =>
    rw [List.find?_eq_none] at hfind
    have hnot : p a = false := by
      rw [← Bool.not_eq_true]
      intro ha
      obtain ⟨b, hb, hpb⟩ := h ha
      exact hfind b hb hpb
    rw [List.find?_singleton, hnot]
    rfl

/-- Of the directories to search, the first above a file is the first of all those given and those of the files. -/
theorem find?_searchPaths (given files : List Path) (f : Path) :
    (searchPaths given files).find? (fun d => d.isAbove f) =
      (given ++ files.map Path.parent).find? (fun d => d.isAbove f) := by
  have hgiven : (given.foldl (fun paths d => if paths.contains d then paths else paths ++ [d]) []).find?
      (fun d => d.isAbove f) = ([] ++ given.map id).find? (fun d => d.isAbove f) := by
    apply find?_foldl
    intro found d
    split
    · rename_i hmem
      apply find?_append_singleton
      intro habove
      exact ⟨d, List.contains_iff_mem.1 hmem, habove⟩
    · rfl
  rw [List.map_id, List.nil_append] at hgiven
  rw [List.find?_append, ← hgiven, ← List.find?_append]
  apply find?_foldl
  intro found g
  split
  · rename_i hcovered
    obtain ⟨d, hd, habove⟩ := List.any_eq_true.1 hcovered
    apply find?_append_singleton
    intro hparent
    exact ⟨d, hd, Path.isAbove_of_parent habove hparent⟩
  · rfl

/-- The name of a file: its path from the first of some directories that is above it. -/
inductive Named (file : Path) : List Path → String → Prop
  | here {d : Path} {rest : List String} {more : List Path} (h : d.Above file rest) :
      Named file (d :: more) ("/".intercalate rest)
  | later {d : Path} {more : List Path} {name : String} (h : ∀ rest, ¬ d.Above file rest)
      (hmore : Named file more name) : Named file (d :: more) name

theorem named_iff {file : Path} {paths : List Path} {name : String} :
    Named file paths name ↔ ∃ d, paths.find? (fun d => d.isAbove file) = some d ∧ d.below file = name := by
  induction paths with
  | nil =>
    constructor
    · intro h
      cases h
    · rintro ⟨d, hd, -⟩
      cases hd
  | cons e more ih =>
    cases habove : e.isAbove file with
    | true =>
      simp only [List.find?_cons, habove]
      obtain ⟨rest, hrest⟩ := Path.isAbove_iff.1 habove
      constructor
      · intro h
        cases h with
        | here hother => exact ⟨e, rfl, hother.below⟩
        | later hnot _ => exact absurd hrest (hnot rest)
      · rintro ⟨d, hd, rfl⟩
        obtain rfl := Option.some.inj hd
        rw [hrest.below]
        exact .here hrest
    | false =>
      have hnot : ∀ rest, ¬ e.Above file rest := by
        intro rest hrest
        rw [Path.isAbove_iff.2 ⟨rest, hrest⟩] at habove
        cases habove
      simp only [List.find?_cons, habove]
      rw [← ih]
      constructor
      · intro h
        cases h with
        | here hrest => exact absurd hrest (hnot _)
        | later _ hmore => exact hmore
      · exact .later hnot

/-- Each of some schema files has one name by the directories to search, and is asked for under that. -/
theorem named_schemaName (w : Workspace) {paths includes : List Path} (hpaths : ∀ p ∈ paths, isSchema p = true)
    {p : Path} (hp : p ∈ paths) (name : String) :
    Named (w.directory.resolve p) (searchPaths (includes.map w.directory.resolve) (paths.map w.directory.resolve)) name ↔
      schemaName w p (includes ++ paths.map Path.parent) = name := by
  have hdirectories : (includes ++ paths.map Path.parent).map w.directory.resolve =
      includes.map w.directory.resolve ++ (paths.map w.directory.resolve).map Path.parent := by
    rw [List.map_append, List.map_map, List.map_map]
    congr 1
    apply List.map_congr_left
    intro q hq
    exact resolve_parent (hpaths q hq) w.directory
  have hparts : (w.directory.resolve p).parts ≠ [] := by
    obtain ⟨last, hlast⟩ := exists_parts_resolve (hpaths p hp) w.directory
    rw [hlast]
    simp
  rw [named_iff, find?_searchPaths, schemaName, hdirectories]
  cases hfind : (includes.map w.directory.resolve ++ (paths.map w.directory.resolve).map Path.parent).find?
      (fun d => d.isAbove (w.directory.resolve p)) with
  | some d => simp
  | none =>
    -- its own directory is among them
    rw [List.find?_eq_none] at hfind
    refine absurd (Path.parent_isAbove hparts) (hfind _ ?_)
    rw [List.mem_append]
    exact .inr (List.mem_map_of_mem (List.mem_map_of_mem hp))

/-! ### Loading -/

namespace Inputs

/-- Every file that is asked for is there. -/
def Complete (i : Inputs) : Prop := ∀ t ∈ i.targets, ∃ d ∈ i.files, d.name = t

theorem mem_targets_ask {i : Inputs} {names : List String} {t : String} :
    t ∈ (i.ask names).targets ↔ t ∈ i.targets ∨ t ∈ names := by
  show t ∈ names.foldl (fun targets name => Naming.insertNew name targets) i.targets ↔ _
  generalize i.targets = targets
  induction names generalizing targets with
  | nil => simp
  | cons name names ih => rw [List.foldl_cons, ih, FieldPlan.mem_insertNew, List.mem_cons, or_assoc]

/-- A file is merged, or gives way to an earlier one of its name. -/
theorem exists_mem_merge {i : Inputs} {files : List Descriptor.File} {name : String} :
    (∃ d ∈ (i.merge files).files, d.name = name) ↔ (∃ d ∈ i.files, d.name = name) ∨ ∃ d ∈ files, d.name = name := by
  show (∃ d ∈ files.foldl (fun merged f => if merged.any fun g => g.name == f.name then merged else merged ++ [f])
    i.files, d.name = name) ↔ _
  generalize i.files = merged
  induction files generalizing merged with
  | nil => simp
  | cons f files ih =>
    rw [List.foldl_cons, ih, List.exists_mem_cons_iff, ← or_assoc]
    apply or_congr_left
    split
    · rename_i hmerged
      obtain ⟨d, hd, hname⟩ := List.any_eq_true.1 hmerged
      rw [beq_iff_eq] at hname
      constructor
      · exact .inl
      · rintro (hthere | rfl)
        · exact hthere
        · exact ⟨d, hd, hname⟩
    · simp only [List.mem_append, List.mem_singleton, or_and_right, exists_or, exists_eq_left]

theorem Complete.add {i : Inputs} (h : i.Complete) {files : List Descriptor.File} {names : List String}
    (hnames : ∀ name ∈ names, ∃ d ∈ files, d.name = name) : ((i.merge files).ask names).Complete := by
  intro t ht
  show ∃ d ∈ (i.merge files).files, d.name = t
  rw [exists_mem_merge]
  rcases mem_targets_ask.1 ht with ht | ht
  · exact .inl (h t ht)
  · exact .inr (hnames t ht)

end Inputs

/-- A compiler that is given files and the directories to search ends with a set that holds every file under its
name. -/
structure Compiles (compiler : Compiler) (paths files : List Path) (set : List Descriptor.File) : Prop where
  ends : ∃ report bs, compiler.call (commandLine "protoc" compiler.output paths files) = .ended 0 report (some bs) ∧
    Descriptor.setOfBytes bs = .ok set
  named : ∀ f ∈ files, ∀ name, Named f paths name → ∃ d ∈ set, d.name = name

variable {commands : List (List String)} {E : Error → Session → Prop}

private theorem contract_note (level : Level) (text : String) :
    Contract (·.commands = commands) (note level text) (fun _ s => s.commands = commands) E :=
  fun _ hs => hs

theorem contract_addSet (w : Workspace) {i : Inputs} (hi : i.Complete) (path : Path) (hE : ∀ e s, E e s) :
    Contract (·.commands = commands) (Inputs.addSet w i path) (fun i s => i.Complete ∧ s.commands = commands) E := by
  rw [Inputs.addSet]
  cases w.read path with
  | error fault =>
    split
    · exact (contract_note _ _).bind fun _ => Contract.throw fun s _ => hE _ s
    · exact Contract.throw fun s _ => hE _ s
  | ok bs =>
    have hset : Contract (·.commands = commands) (do
        let files ← (Descriptor.setOfBytes bs : Except Error _)
        return (i.merge files).ask (files.map Descriptor.File.name) : Tool Inputs)
        (fun i s => i.Complete ∧ s.commands = commands) E := by
      apply Contract.bind (Q := fun _ s => s.commands = commands)
      · exact Contract.lift (fun _ _ hs _ => hs) fun s e _ _ => hE e s
      · intro files
        apply Contract.pure
        intro s hs
        refine ⟨hi.add ?_, hs⟩
        intro name hname
        exact List.mem_map.1 hname
    split
    · exact (contract_note _ _).bind fun _ => hset
    · exact hset

variable {schemas includes paths files : List Path} {set : List Descriptor.File}

private theorem contract_compile {w : Workspace} {compiler : Compiler}
    (hfiles : schemas.map w.directory.resolve = files)
    (hpaths : searchPaths (includes.map w.directory.resolve) files = paths) (hset : Compiles compiler paths files set) :
    Contract (·.commands = commands) (compile w compiler "protoc" schemas includes)
      (fun found s => found = set ∧ s.commands = commands ++ [commandLine "protoc" compiler.output paths files]) E := by
  obtain ⟨report, bs, hcall, hread⟩ := hset.ends
  rw [compile, hfiles]
  dsimp only
  rw [hpaths, hcall]
  apply Contract.bind (Q := fun _ s => s.commands = commands ++ [commandLine "protoc" compiler.output paths files])
  · apply Contract.modify
    intro s hs
    rw [hs]
  · intro _
    dsimp only
    rw [if_neg (by simp), hread]
    apply Contract.lift
    · intro s found hs hfound
      exact ⟨(Except.ok.inj hfound).symm, hs⟩
    · intro s e _ herror
      cases herror

/-- The compiler is called once, if at all. The schema files are asked for under their names and are there. -/
theorem contract_addSchemas {w : Workspace} {compiler : Compiler} {i : Inputs} (hi : i.Complete)
    (hschemas : ∀ p ∈ schemas, isSchema p = true) (hfiles : schemas.map w.directory.resolve = files)
    (hpaths : searchPaths (includes.map w.directory.resolve) files = paths) (hset : Compiles compiler paths files set) :
    Contract (·.commands = commands) (i.addSchemas w compiler schemas includes)
      (fun i s => i.Complete ∧ (∀ p ∈ schemas, schemaName w p (includes ++ schemas.map Path.parent) ∈ i.targets) ∧
        s.commands = commands ++ if schemas = [] then [] else [commandLine "protoc" compiler.output paths files]) E := by
  rw [Inputs.addSchemas]
  cases schemas with
  | nil =>
    apply Contract.pure
    intro s hs
    rw [if_pos rfl, List.append_nil]
    exact ⟨hi, fun p hp => absurd hp List.not_mem_nil, hs⟩
  | cons first others =>
    rw [if_neg (List.cons_ne_nil _ _)]
    apply (contract_compile hfiles hpaths hset).bind
    intro found
    apply Contract.pure
    rintro s ⟨rfl, hs⟩
    refine ⟨hi.add ?_, ?_, hs⟩
    · intro name hname
      obtain ⟨p, hp, hp'⟩ := List.mem_map.1 hname
      apply hset.named _ (hfiles ▸ List.mem_map_of_mem hp)
      subst hfiles hpaths
      exact (named_schemaName w hschemas hp name).2 hp'
    · intro p hp
      exact Inputs.mem_targets_ask.2 (.inr (List.mem_map_of_mem hp))

/-- Schema files are asked for under the names that the compiler gives them, so all that is asked for is there. A file
is named by its path from the first directory above it, of those that the compiler is told to search. If it then ends
with a set that has every file under its name, only the reading of another input can fail. -/
theorem targets_have_compiled_names (w : Workspace) (compiler : Compiler) (inputs includes : List Path) :
    let schemas := inputs.filter isSchema
    let files := schemas.map w.directory.resolve
    let paths := searchPaths (includes.map w.directory.resolve) files
    let nameOf := fun p => schemaName w p (includes ++ schemas.map Path.parent)
    (∀ p ∈ schemas, ∀ name, Named (w.directory.resolve p) paths name ↔ nameOf p = name) ∧
    ∀ set, Compiles compiler paths files set →
      (∀ p ∈ schemas, ∃ d ∈ set, d.name = nameOf p) ∧
      ∀ commands, Contract (·.commands = commands) (Inputs.load w compiler inputs includes)
        (fun i s => (∀ t ∈ i.targets, ∃ d ∈ i.files, d.name = t) ∧ (∀ p ∈ schemas, nameOf p ∈ i.targets) ∧
          s.commands = commands ++ if schemas = [] then [] else [commandLine "protoc" compiler.output paths files])
        (fun _ _ => ∃ p ∈ inputs, isSchema p = false) := by
  intro schemas files paths nameOf
  have hschemas : ∀ p ∈ schemas, isSchema p = true := fun p hp => (List.mem_filter.1 hp).2
  have hnames : ∀ p ∈ schemas, ∀ name, Named (w.directory.resolve p) paths name ↔ nameOf p = name :=
    fun p hp name => named_schemaName w hschemas hp name
  refine ⟨hnames, ?_⟩
  intro set hset
  constructor
  · intro p hp
    exact hset.named _ (List.mem_map_of_mem hp) _ ((hnames p hp _).2 rfl)
  intro commands
  rw [Inputs.load]
  apply Contract.bind (Q := fun i s => i.Complete ∧ s.commands = commands)
  · have hstep : ∀ p ∈ inputs.filter (fun p => !isSchema p), ∀ i : Inputs,
        Contract (fun s => i.Complete ∧ s.commands = commands) (i.addSet w p)
          (fun i s => i.Complete ∧ s.commands = commands) (fun _ _ => ∃ p ∈ inputs, isSchema p = false) := by
      intro p hp i s hs
      obtain ⟨hmem, hother⟩ := List.mem_filter.1 hp
      rw [Bool.not_eq_true'] at hother
      exact contract_addSet w hs.1 p (fun _ _ => ⟨p, hmem, hother⟩) s hs.2
    refine (Contract.foldlM hstep {}).pre fun s hs => ⟨?_, hs⟩
    intro t ht
    cases ht
  · intro i s hs
    exact contract_addSchemas hs.1 hschemas rfl rfl hset s hs.2

end Tool

namespace Sample

open Tool

def nestedWorkspace : Workspace := { directory := ⟨"/", ["p"]⟩ }

/-- The directory of the last file is below that of the first, and so is left out. -/
def nestedSchemas : List Path :=
  [⟨"/", ["p", "a", "x.proto"]⟩, ⟨"", ["y.proto"]⟩, ⟨"", ["a", "c", "..", "b", "z.proto"]⟩]

def nestedFiles : List Path :=
  [⟨"/", ["p", "a", "x.proto"]⟩, ⟨"/", ["p", "y.proto"]⟩, ⟨"/", ["p", "a", "b", "z.proto"]⟩]

def nestedPaths : List Path := [⟨"/", ["p", "lib"]⟩, ⟨"/", ["p", "a"]⟩, ⟨"/", ["p"]⟩]

def nestedOutput : List UInt8 :=
  Descriptor.bytesOfSet [{ name := "x.proto" }, { name := "y.proto" }, { name := "b/z.proto" }]

def nestedCompiler : Compiler where
  output := "set.pb"
  call := fun command =>
    if command = ["protoc", "--descriptor_set_out=set.pb", "--include_imports", "-I/p/lib", "-I/p/a", "-I/p",
        "/p/a/x.proto", "/p/y.proto", "/p/a/b/z.proto"] then .ended 0 [] (some nestedOutput)
    else .missing

private theorem exists_compiles_nested : ∃ set, Compiles nestedCompiler nestedPaths nestedFiles set := by
  have hread : (Descriptor.setOfBytes nestedOutput).toOption.map (List.map Descriptor.File.name) =
      some ["x.proto", "y.proto", "b/z.proto"] := by
    decide +kernel
  obtain ⟨set, hset, hnames⟩ := Option.map_eq_some_iff.1 hread
  have hcall : nestedCompiler.call (commandLine "protoc" nestedCompiler.output nestedPaths nestedFiles) =
      .ended 0 [] (some nestedOutput) := by
    dsimp only [nestedCompiler]
    apply if_pos
    decide
  refine ⟨set, ⟨[], nestedOutput, hcall, eq_ok_of_toOption hset⟩, ?_⟩
  intro f hf name hname
  obtain ⟨d, hd, rfl⟩ := named_iff.1 hname
  have hfound : ∀ f ∈ nestedFiles, ∀ d ∈ nestedPaths.find? (fun d => d.isAbove f),
      d.below f ∈ ["x.proto", "y.proto", "b/z.proto"] := by
    decide
  have hmem := hfound f hf d hd
  rw [← hnames] at hmem
  exact List.mem_map.1 hmem

theorem targets_have_compiled_names_nested : ∃ set, Compiles nestedCompiler nestedPaths nestedFiles set ∧
    Named ⟨"/", ["p", "a", "b", "z.proto"]⟩ nestedPaths "b/z.proto" ∧ (∃ d ∈ set, d.name = "b/z.proto") ∧
    ∃ i s, (Inputs.load nestedWorkspace nestedCompiler nestedSchemas [⟨"", ["lib"]⟩]).run {} = (.ok i, s) ∧
      "b/z.proto" ∈ i.targets ∧ ∀ t ∈ i.targets, ∃ d ∈ i.files, d.name = t := by
  obtain ⟨set, hset⟩ := exists_compiles_nested
  obtain ⟨hnames, hload⟩ := targets_have_compiled_names nestedWorkspace nestedCompiler nestedSchemas [⟨"", ["lib"]⟩]
  have hz : ⟨"", ["a", "c", "..", "b", "z.proto"]⟩ ∈ nestedSchemas.filter isSchema := by decide
  have hname : schemaName nestedWorkspace ⟨"", ["a", "c", "..", "b", "z.proto"]⟩
      ([⟨"", ["lib"]⟩] ++ (nestedSchemas.filter isSchema).map Path.parent) = "b/z.proto" := by
    decide
  obtain ⟨hfound, hcontract⟩ := hload set hset
  refine ⟨set, hset, (hnames _ hz _).2 hname, hname ▸ hfound _ hz, ?_⟩
  have hrun := hcontract [] {} rfl
  revert hrun
  rcases (Inputs.load nestedWorkspace nestedCompiler nestedSchemas [⟨"", ["lib"]⟩]).run {} with ⟨result, s⟩
  intro hrun
  cases result with
  | ok i => exact ⟨i, s, rfl, hname ▸ hrun.2.1 _ hz, hrun.1⟩
  | error e =>
    obtain ⟨p, hp, hother⟩ := hrun
    have hall : ∀ p ∈ nestedSchemas, isSchema p = true := by decide
    rw [hall p hp] at hother
    cases hother

end Sample

end MessageCodec
