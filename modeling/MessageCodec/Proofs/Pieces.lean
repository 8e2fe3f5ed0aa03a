import Mathlib.Data.List.Basic
import Mathlib.Data.List.TakeWhile
import MessageCodec.Text.Lines

/-!
# Pieces of a text

Cutting a text at separators undoes joining pieces without one, and every character that is no separator
stands in some piece. The first and the last occurrence of a character divide a text in exactly one way.
-/

namespace MessageCodec.Text

/-! ### All separators -/

section Cut

variable {α : Type} {p : α → Bool} {cs : List α}

theorem cutAt_eq_splitOnP (p : α → Bool) (cs : List α) : cutAt p cs = cs.splitOnP p := by
  induction cs with
  | nil => rw [List.splitOnP_nil, cutAt]
  | cons c rest ih =>
    rw [cutAt, ih, List.splitOnP_cons_eq_if_modifyHead]
    obtain ⟨piece, more, hpieces⟩ := List.exists_cons_of_ne_nil (List.splitOnP_ne_nil p rest)
    rw [hpieces]
    rfl

theorem cutAt_ne_nil (p : α → Bool) (cs : List α) : cutAt p cs ≠ [] :=
  cutAt_eq_splitOnP p cs ▸ List.splitOnP_ne_nil p cs

theorem cutAt_of_forall (h : ∀ c ∈ cs, p c = false) : cutAt p cs = [cs] := by
  rw [cutAt_eq_splitOnP, List.splitOnP_eq_singleton h]

theorem cutAt_append_cons (h : ∀ c ∈ cs, p c = false) {d : α} (hd : p d = true) (ds : List α) :
    cutAt p (cs ++ d :: ds) = cs :: cutAt p ds := by
  rw [cutAt_eq_splitOnP, List.splitOnP_append_cons _ _ hd, List.splitOnP_eq_singleton h, cutAt_eq_splitOnP,
    List.singleton_append]

/-- The characters of the pieces are those that are no separators. -/
theorem mem_cutAt_iff {c : α} : (∃ piece ∈ cutAt p cs, c ∈ piece) ↔ c ∈ cs ∧ p c = false := by
  induction cs with
  | nil => simp [cutAt]
  | cons d rest ih =>
    obtain ⟨piece, more, hpieces⟩ := List.exists_cons_of_ne_nil (cutAt_ne_nil p rest)
    rw [hpieces, List.exists_mem_cons_iff] at ih
    rw [cutAt, hpieces, List.mem_cons, or_and_right, ← ih]
    by_cases hd : p d = true
    · have hnone : ¬ (c = d ∧ p c = false) := by
        rintro ⟨rfl, hc⟩
        rw [hd] at hc
        cases hc
      simp [hd, hnone]
    · rw [Bool.not_eq_true] at hd
      have hfound : c = d ∧ p c = false ↔ c = d := and_iff_left_of_imp fun h => h ▸ hd
      simp [hd, hfound, or_assoc]

end Cut

/-- Joined pieces are found again where none of them has the separator inside. -/
theorem split_intercalate {d : Char} {parts : List String} (hne : parts ≠ [])
    (h : ∀ part ∈ parts, d ∉ part.toList) : split d ((String.singleton d).intercalate parts) = parts := by
  have hlists : ∀ cs ∈ parts.map String.toList, d ∉ cs := by
    simpa using h
  rw [split, cutAt_eq_splitOnP, String.toList_intercalate, String.toList_singleton, ← List.splitOn_eq_splitOnP,
    List.splitOn_intercalate d hlists (by simpa using hne), List.map_map]
  simp

theorem intercalate_split (d : Char) (s : String) : (String.singleton d).intercalate (split d s) = s := by
  have hpieces : (split d s).map String.toList = s.toList.splitOn d := by
    rw [split, cutAt_eq_splitOnP, List.map_map, List.splitOn_eq_splitOnP]
    simp [Function.comp_def]
  rw [← String.toList_inj, String.toList_intercalate, hpieces, String.toList_singleton, List.intercalate_splitOn]

/-! ### One separator -/

theorem forall_ne_of_not_mem {d : Char} {cs : List Char} (h : d ∉ cs) : ∀ c ∈ cs, (c != d) = true := by
  intro c hc
  rw [bne_iff_ne]
  rintro rfl
  exact h hc

theorem splitFirst?_append {d : Char} {front : List Char} (h : d ∉ front) (back : List Char) :
    splitFirst? d (String.ofList (front ++ d :: back)) = some (String.ofList front, String.ofList back) := by
  have hother := forall_ne_of_not_mem h
  rw [splitFirst?, String.toList_ofList, List.takeWhile_append_of_pos hother, List.dropWhile_append_of_pos hother]
  simp

theorem splitLast?_append {d : Char} {extension : String} (h : d ∉ extension.toList) (s : String) :
    splitLast? d (s ++ String.ofList (d :: extension.toList)) = some (s, extension) := by
  have hback : (s ++ String.ofList (d :: extension.toList)).toList.reverse =
      extension.toList.reverse ++ d :: s.toList.reverse := by
    simp
  have hother := forall_ne_of_not_mem (List.mem_reverse.not.2 h)
  rw [splitLast?, hback, List.takeWhile_append_of_pos hother, List.dropWhile_append_of_pos hother]
  simp

theorem splitLast?_of_not_mem {d : Char} {s : String} (h : d ∉ s.toList) : splitLast? d s = none := by
  rw [splitLast?, List.dropWhile_eq_nil_iff.2 (forall_ne_of_not_mem (List.mem_reverse.not.2 h))]

/-- Either the character is missing, or the text falls into what is before and after its last occurrence. -/
theorem splitLast?_cases (d : Char) (s : String) :
    (d ∉ s.toList ∧ splitLast? d s = none) ∨
      ∃ stem extension : String, s = stem ++ String.ofList (d :: extension.toList) ∧ d ∉ extension.toList ∧
        splitLast? d s = some (stem, extension) := by
  by_cases hmem : d ∈ s.toList
  · obtain ⟨back, front, hback, hlast⟩ := List.eq_append_cons_of_mem (List.mem_reverse.2 hmem)
    have hs : s = String.ofList front.reverse ++ String.ofList (d :: (String.ofList back.reverse).toList) := by
      rw [← String.toList_inj, ← List.reverse_inj, hback]
      simp
    have hextension : d ∉ (String.ofList back.reverse).toList := by
      rwa [String.toList_ofList, List.mem_reverse]
    refine .inr ⟨String.ofList front.reverse, String.ofList back.reverse, hs, hextension, ?_⟩
    rw [hs, splitLast?_append hextension]
  · exact .inl ⟨hmem, splitLast?_of_not_mem hmem⟩

end MessageCodec.Text
