import Mathlib.Data.Bool.AllAny
import MessageCodec.Proofs.Identifier
import MessageCodec.Proofs.Pieces
import MessageCodec.Proofs.SchemaNames

/-!
# The paths of generated files

Whatever path is asked for, the path that is generated consists of words, of which the last may have an
extension. Such a path is left as it is, so a second pass changes nothing. It has no component that leads
nowhere or upwards, so a file lies below the directory it is written to.
-/

namespace MessageCodec

namespace Naming

/-! ### Components -/

/-- The components of a path that can be generated: words, of which the last may go on with an extension after a
point. -/
inductive Proper : List String → Prop
  | word {s : String} (h : Word s.toList) : Proper [s]
  | file {s extension : String} (h : Word s.toList)
      (hextension : ∀ c ∈ extension.toList, c ≠ '.' ∧ c ≠ '/' ∧ c ≠ '\\') : Proper [s ++ "." ++ extension]
  | directory {s : String} {rest : List String} (h : Word s.toList) (hrest : Proper rest) : Proper (s :: rest)

theorem Proper.ne_nil {parts : List String} (h : Proper parts) : parts ≠ [] := by
  cases h <;> exact List.cons_ne_nil _ _

theorem toList_file (s extension : String) : (s ++ "." ++ extension).toList = s.toList ++ '.' :: extension.toList := by
  rw [String.toList_append, String.toList_append, List.append_assoc]
  rfl

theorem file_eq (s extension : String) : s ++ "." ++ extension = s ++ String.ofList ('.' :: extension.toList) := by
  rw [← String.toList_inj, toList_file, String.toList_append, String.toList_ofList]

theorem Proper.not_mem {parts : List String} (h : Proper parts) :
    ∀ part ∈ parts, '/' ∉ part.toList ∧ '\\' ∉ part.toList := by
  induction h with
  | word h =>
    rw [List.forall_mem_singleton]
    exact ⟨h.not_mem rfl, h.not_mem rfl⟩
  | file h hextension =>
    rw [List.forall_mem_singleton, toList_file, List.mem_append, List.mem_cons, List.mem_append, List.mem_cons]
    constructor
    · rintro (hstem | hpoint | hmem)
      · exact h.not_mem rfl hstem
      · cases hpoint
      · exact (hextension _ hmem).2.1 rfl
    · rintro (hstem | hpoint | hmem)
      · exact h.not_mem rfl hstem
      · cases hpoint
      · exact (hextension _ hmem).2.2 rfl
  | directory h _ ih =>
    rw [List.forall_mem_cons]
    exact ⟨⟨h.not_mem rfl, h.not_mem rfl⟩, ih⟩

/-- Every component opens with a plain character, so it is none of those with a meaning of their own. -/
theorem Proper.not_special {parts : List String} (h : Proper parts) :
    ∀ part ∈ parts, part ≠ "" ∧ part ≠ "." ∧ part ≠ ".." := by
  have hplain {cs : List Char} (hcs : Word cs) (more : List Char) :
      cs ++ more ≠ [] ∧ cs ++ more ≠ ['.'] ∧ cs ++ more ≠ ['.', '.'] := by
    obtain ⟨c, hhead, -⟩ := hcs.opens
    obtain ⟨rest, rfl⟩ := List.head?_eq_some_iff.1 hhead
    have hc := hcs.plain c List.mem_cons_self
    simp only [List.cons_append, ne_eq, reduceCtorEq, not_false_eq_true, List.cons.injEq, not_and, true_and]
    constructor <;> rintro rfl <;> cases hc
  have hspecial {s : String} {cs more : List Char} (hcs : Word cs) (hs : s.toList = cs ++ more) :
      s ≠ "" ∧ s ≠ "." ∧ s ≠ ".." := by
    have hne := hplain hcs more
    rw [← hs] at hne
    refine ⟨?_, ?_, ?_⟩ <;> rintro rfl
    · exact hne.1 rfl
    · exact hne.2.1 rfl
    · exact hne.2.2 rfl
  induction h with
  | word h =>
    rw [List.forall_mem_singleton]
    exact hspecial h (List.append_nil _).symm
  | file h _ =>
    rw [List.forall_mem_singleton]
    exact hspecial h (toList_file _ _)
  | directory h _ ih =>
    rw [List.forall_mem_cons]
    exact ⟨hspecial h (List.append_nil _).symm, ih⟩

/-- Every component is a word with its extension. -/
theorem exists_component (stem extension : String) :
    ∃ s, Word s.toList ∧ component stem extension = s ++ extension := by
  have hfilled : ∃ c rest, (if (plain stem.toList).isEmpty then ['_'] else plain stem.toList) = c :: rest ∧
      ∀ d ∈ c :: rest, isPlain d = true := by
    cases hbody : plain stem.toList with
    | nil => exact ⟨'_', [], rfl, List.forall_mem_singleton.2 rfl⟩
    | cons c rest => exact ⟨c, rest, rfl, fun d hd => isPlain_of_mem_plain (hbody ▸ hd)⟩
  obtain ⟨c, rest, hfilled, hplain⟩ := hfilled
  rw [component, hfilled]
  dsimp only
  by_cases hdigit : c.isDigit = true
  · rw [if_pos hdigit]
    refine ⟨_, ?_, rfl⟩
    rw [String.toList_ofList]
    exact ⟨List.forall_mem_cons.2 ⟨rfl, hplain⟩, '_', rfl, rfl⟩
  · rw [if_neg hdigit]
    refine ⟨_, ?_, rfl⟩
    rw [String.toList_ofList]
    exact ⟨hplain, c, rfl, eq_false_of_ne_true hdigit⟩

/-- A path is made of proper components, however many it is given and whatever they are. -/
theorem proper_sanitizeComponents {parts : List String} (hne : parts ≠ [])
    (h : ∀ part ∈ parts, '/' ∉ part.toList ∧ '\\' ∉ part.toList) : Proper (sanitizeComponents parts) := by
  induction parts with
  | nil => exact absurd rfl hne
  | cons part rest ih =>
    rw [List.forall_mem_cons] at h
    cases rest with
    | nil =>
      rw [sanitizeComponents]
      obtain ⟨-, hsplit⟩ | ⟨stem, extension, hpart, hlast, hsplit⟩ := Text.splitLast?_cases '.' part
      · obtain ⟨s, hs, hcomponent⟩ := exists_component part ""
        rw [hsplit, hcomponent, String.append_empty]
        exact .word hs
      · obtain ⟨s, hs, hcomponent⟩ := exists_component stem ("." ++ extension)
        have hparts : ∀ c ∈ extension.toList, c ∈ part.toList := by
          intro c hc
          rw [hpart, String.toList_append, String.toList_ofList, List.mem_append, List.mem_cons]
          exact .inr (.inr hc)
        rw [hsplit]
        dsimp only
        rw [hcomponent, ← String.append_assoc]
        refine .file hs fun c hc => ⟨?_, ?_, ?_⟩ <;> rintro rfl
        · exact hlast hc
        · exact h.1.1 (hparts _ hc)
        · exact h.1.2 (hparts _ hc)
    | cons next rest =>
      obtain ⟨s, hs, hcomponent⟩ := exists_component part ""
      rw [sanitizeComponents, hcomponent, String.append_empty]
      · exact .directory hs (ih (List.cons_ne_nil _ _) h.2)
      · simp

theorem sanitizeComponents_of_proper {parts : List String} (h : Proper parts) : sanitizeComponents parts = parts := by
  induction h with
  | word h =>
    rw [sanitizeComponents, Text.splitLast?_of_not_mem (h.not_mem rfl)]
    dsimp only
    rw [component_word h, String.append_empty]
  | @file s extension h hextension =>
    have hpoint : '.' ∉ extension.toList := fun hmem => (hextension _ hmem).1 rfl
    rw [sanitizeComponents, file_eq, Text.splitLast?_append hpoint]
    dsimp only
    rw [component_word h, ← String.append_assoc, file_eq]
  | directory h hrest ih =>
    obtain ⟨next, rest, rfl⟩ := List.exists_cons_of_ne_nil hrest.ne_nil
    rw [sanitizeComponents, component_word h, String.append_empty, ih]
    simp

/-! ### Whole paths -/

theorem map_unify_of_not_mem {cs : List Char} (h : '\\' ∉ cs) :
    cs.map (fun c => if c = '\\' then '/' else c) = cs := by
  have hsame : ∀ c ∈ cs, (if c = '\\' then '/' else c) = id c := by
    intro c hc
    apply if_neg
    rintro rfl
    exact h hc
  rw [List.map_congr_left hsame, List.map_id]

theorem split_slash {parts : List String} (h : Proper parts) : Text.split '/' ("/".intercalate parts) = parts :=
  Text.split_intercalate h.ne_nil fun part hpart => (h.not_mem part hpart).1

theorem Proper.not_mem_intercalate {parts : List String} (h : Proper parts) :
    '\\' ∉ ("/".intercalate parts).toList := by
  have hnone := fun part hpart => (h.not_mem part hpart).2
  clear h
  induction parts with
  | nil => exact List.not_mem_nil
  | cons part rest ih =>
    rw [List.forall_mem_cons] at hnone
    cases rest with
    | nil => exact String.intercalate_singleton ▸ hnone.1
    | cons next rest =>
      rw [String.intercalate_cons_cons, String.toList_append, String.toList_append, List.mem_append, List.mem_append]
      rintro ((hpart | hslash) | hrest)
      · exact hnone.1 hpart
      · exact absurd hslash (by decide)
      · exact ih hnone.2 hrest

/-- A path of proper components is left as it is. -/
theorem sanitizePath_of_proper {parts : List String} (h : Proper parts) :
    sanitizePath ("/".intercalate parts) = "/".intercalate parts := by
  have hfilter : parts.filter (fun p => !p.isEmpty) = parts := by
    rw [List.filter_eq_self]
    intro part hpart
    simpa using (h.not_special part hpart).1
  rw [sanitizePath, map_unify_of_not_mem h.not_mem_intercalate, String.ofList_toList, split_slash h, hfilter,
    sanitizeComponents_of_proper h]

/-- A word is the stem of a module's file as it stands. -/
theorem sanitizePath_word {s : String} (h : Word s.toList) :
    sanitizePath ("messages/" ++ s ++ ".py") = "messages/" ++ s ++ ".py" := by
  have hproper : Proper ["messages", s ++ "." ++ "py"] :=
    .directory ⟨List.all_eq_true.1 rfl, 'm', rfl, rfl⟩ (.file h (List.all_iff_forall_prop.1 rfl))
  have hpath : "/".intercalate ["messages", s ++ "." ++ "py"] = "messages/" ++ s ++ ".py" := by
    rw [String.intercalate_cons_cons, String.intercalate_singleton, ← String.toList_inj]
    simp
  rw [← hpath]
  exact sanitizePath_of_proper hproper

def componentsOf (path : String) : List String :=
  (Text.split '/' (String.ofList (path.toList.map fun c => if c = '\\' then '/' else c))).filter fun p => !p.isEmpty

theorem sanitizePath_eq (path : String) :
    sanitizePath path = "/".intercalate (sanitizeComponents (componentsOf path)) := rfl

/-- The characters of the components are those of the path other than slashes. -/
theorem mem_componentsOf_iff {path : String} {c : Char} :
    (∃ part ∈ componentsOf path, c ∈ part.toList) ↔ c ∈ path.toList ∧ c ≠ '/' ∧ c ≠ '\\' := by
  have hunified : c ∈ path.toList.map (fun d => if d = '\\' then '/' else d) ∧ (c == '/') = false ↔
      c ∈ path.toList ∧ c ≠ '/' ∧ c ≠ '\\' := by
    rw [List.mem_map, beq_eq_false_iff_ne]
    constructor
    · rintro ⟨⟨d, hd, hdc⟩, hslash⟩
      split at hdc
      · exact absurd hdc.symm hslash
      · rename_i hback
        subst hdc
        exact ⟨hd, hslash, hback⟩
    · rintro ⟨hc, hslash, hback⟩
      exact ⟨⟨c, hc, if_neg hback⟩, hslash⟩
  rw [← hunified, ← Text.mem_cutAt_iff (p := (· == '/')), componentsOf, Text.split, String.toList_ofList]
  constructor
  · rintro ⟨part, hpart, hc⟩
    obtain ⟨piece, hpiece, rfl⟩ := List.mem_map.1 (List.mem_filter.1 hpart).1
    rw [String.toList_ofList] at hc
    exact ⟨piece, hpiece, hc⟩
  · rintro ⟨piece, hpiece, hc⟩
    refine ⟨String.ofList piece, List.mem_filter.2 ⟨List.mem_map_of_mem hpiece, ?_⟩, ?_⟩
    · simpa using List.ne_nil_of_mem hc
    · rwa [String.toList_ofList]

theorem componentsOf_eq_nil_iff {path : String} :
    componentsOf path = [] ↔ ¬ ∃ c ∈ path.toList, c ≠ '/' ∧ c ≠ '\\' := by
  simp only [← mem_componentsOf_iff]
  constructor
  · rintro hnil ⟨c, part, hpart, -⟩
    rw [hnil] at hpart
    cases hpart
  · intro hnone
    rw [List.eq_nil_iff_forall_not_mem]
    intro part hpart
    have hne : part.toList ≠ [] := by simpa using (List.mem_filter.1 hpart).2
    obtain ⟨c, hc⟩ := List.exists_mem_of_ne_nil _ hne
    exact hnone ⟨c, part, hpart, hc⟩

/-- The path that is generated consists of proper components, as soon as there is anything but slashes to make it
from. -/
theorem exists_proper_sanitizePath {path : String} (h : ∃ c ∈ path.toList, c ≠ '/' ∧ c ≠ '\\') :
    ∃ parts, Proper parts ∧ sanitizePath path = "/".intercalate parts := by
  refine ⟨_, proper_sanitizeComponents (fun hnil => componentsOf_eq_nil_iff.1 hnil h) ?_, sanitizePath_eq path⟩
  intro part hpart
  constructor
  · intro hmem
    exact (mem_componentsOf_iff.1 ⟨part, hpart, hmem⟩).2.1 rfl
  · intro hmem
    exact (mem_componentsOf_iff.1 ⟨part, hpart, hmem⟩).2.2 rfl

end Naming

/-! ### Below the output directory -/

namespace Path

private theorem climb_of_not_mem {parts : List String} (h : ".." ∉ parts) (done : List String) :
    climb done parts = done ++ parts := by
  induction parts generalizing done with
  | nil => exact (List.append_nil done).symm
  | cons part rest ih =>
    rw [List.mem_cons, not_or] at h
    rw [climb, if_neg (Ne.symm h.1), ih h.2, List.append_assoc, List.singleton_append]

/-- A relative path without double dots stays below the directory it is joined to, whatever that one climbs. -/
theorem above_resolve_join {parts : List String} (hne : parts ≠ []) (h : ".." ∉ parts) (cwd directory : Path) :
    (cwd.resolve directory).Above (cwd.resolve (directory.join ⟨"", parts⟩)) parts := by
  refine ⟨hne, ?_⟩
  have hjoin : directory.join ⟨"", parts⟩ = ⟨directory.root, directory.parts ++ parts⟩ := rfl
  have hparts : (cwd.join ⟨directory.root, directory.parts ++ parts⟩).parts = (cwd.join directory).parts ++ parts := by
    rw [join, join]
    split
    · exact (List.append_assoc _ _ _).symm
    · rfl
  rw [hjoin, resolve, resolve, hparts, climb_append, climb_of_not_mem h]

private theorem ofString_intercalate {parts : List String} (h : Naming.Proper parts) :
    ofString ("/".intercalate parts) = ⟨"", parts⟩ := by
  have hparts : parts.filter (fun p => !p.isEmpty && p != ".") = parts := by
    rw [List.filter_eq_self]
    intro part hpart
    simpa using ⟨(h.not_special part hpart).1, (h.not_special part hpart).2.1⟩
  have hfirst : ("/".intercalate parts).toList.takeWhile (· == '/') = [] := by
    obtain ⟨part, rest, rfl⟩ := List.exists_cons_of_ne_nil h.ne_nil
    have hfront : ∃ more, ("/".intercalate (part :: rest)).toList = part.toList ++ more := by
      cases rest with
      | nil => exact ⟨[], by rw [String.intercalate_singleton, List.append_nil]⟩
      | cons next rest =>
        rw [String.intercalate_cons_cons, String.append_assoc, String.toList_append]
        exact ⟨_, rfl⟩
    obtain ⟨more, hmore⟩ := hfront
    have hne : part.toList ≠ [] := by simpa using (h.not_special part List.mem_cons_self).1
    obtain ⟨c, cs, hpart⟩ := List.exists_cons_of_ne_nil hne
    have hslash := (h.not_mem part List.mem_cons_self).1
    rw [hpart, List.mem_cons, not_or] at hslash
    rw [hmore, hpart, List.cons_append, List.takeWhile_cons_of_neg (by simpa using Ne.symm hslash.1)]
  rw [ofString, Naming.split_slash h, hparts, hfirst]
  rfl

end Path

namespace Naming

/-- A path that consists of words, of which the last may have an extension, is left as it is. Any other is made such a
path, as soon as it has anything but slashes: relative, without backslashes, and without components that are empty
or lead back. So a second pass changes nothing, and below any directory the file lies at these components. -/
theorem sanitizePath_settles (path : String) :
    (Proper (Text.split '/' path) → sanitizePath path = path) ∧
      sanitizePath (sanitizePath path) = sanitizePath path ∧
      ((∃ c ∈ path.toList, c ≠ '/' ∧ c ≠ '\\') →
        Proper (Text.split '/' (sanitizePath path)) ∧
        '\\' ∉ (sanitizePath path).toList ∧
        (∀ part ∈ Text.split '/' (sanitizePath path), part ≠ "" ∧ part ≠ "." ∧ part ≠ "..") ∧
        Path.ofString (sanitizePath path) = ⟨"", Text.split '/' (sanitizePath path)⟩ ∧
        ∀ cwd directory : Path, (cwd.resolve directory).Above
          (cwd.resolve (directory.join (Path.ofString (sanitizePath path)))) (Text.split '/' (sanitizePath path))) := by
  refine ⟨fun h => ?_, ?_⟩
  · rw [← Text.intercalate_split '/' path]
    exact sanitizePath_of_proper h
  by_cases hpath : ∃ c ∈ path.toList, c ≠ '/' ∧ c ≠ '\\'
  · obtain ⟨parts, hparts, heq⟩ := exists_proper_sanitizePath hpath
    rw [heq, split_slash hparts, Path.ofString_intercalate hparts]
    refine ⟨sanitizePath_of_proper hparts, fun _ => ⟨hparts, hparts.not_mem_intercalate, hparts.not_special, rfl, ?_⟩⟩
    exact Path.above_resolve_join hparts.ne_nil fun hmem => (hparts.not_special _ hmem).2.2 rfl
  · refine ⟨?_, fun h => absurd h hpath⟩
    rw [sanitizePath_eq path, componentsOf_eq_nil_iff.2 hpath]
    rfl

example : sanitizePath "..\\9 lives//x.y/.tar.gz" = "__/_9_lives/x_y/_tar.gz" := by decide

end Naming

end MessageCodec
