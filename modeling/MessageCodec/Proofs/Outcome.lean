import Mathlib.Tactic

/-!
# Computations that may fail

When a chain of computations ends well: every part of it has.
-/

namespace MessageCodec

variable {ε α β : Type}

theorem ok_bind (a : α) (f : α → Except ε β) : (Except.ok a >>= f) = f a := rfl

theorem bind_eq_ok {x : Except ε α} {f : α → Except ε β} {b : β} :
    x >>= f = .ok b ↔ ∃ a, x = .ok a ∧ f a = .ok b := by
  cases x with
  | error e => simp [bind, Except.bind]
  | ok a => simp [bind, Except.bind]

theorem mapM_eq_ok {f : α → Except ε β} {as : List α} {bs : List β} :
    as.mapM f = .ok bs ↔ List.Forall₂ (fun a b => f a = .ok b) as bs := by
  induction as generalizing bs with
  | nil =>
    rw [List.mapM_nil, List.forall₂_nil_left_iff]
    exact ⟨fun h => (Except.ok.inj h).symm, fun h => h ▸ rfl⟩
  | cons a as ih =>
    rw [List.mapM_cons, bind_eq_ok, List.forall₂_cons_left_iff]
    constructor
    · rintro ⟨b, hb, hrest⟩
      obtain ⟨bs', hbs', heq⟩ := bind_eq_ok.1 hrest
      exact ⟨b, bs', hb, ih.1 hbs', (Except.ok.inj heq).symm⟩
    · rintro ⟨b, bs', hb, hbs', rfl⟩
      exact ⟨b, hb, bind_eq_ok.2 ⟨bs', ih.2 hbs', rfl⟩⟩

theorem eq_ok_of_toOption {x : Except ε α} {a : α} (h : x.toOption = some a) : x = .ok a := by
  cases x with
  | error e => simp [Except.toOption] at h
  | ok b => rw [Option.some.inj h]

/-- A fold keeps what every step keeps. -/
theorem foldlM_invariant {P : β → Prop} {f : β → α → Except ε β}
    (hstep : ∀ b a b', P b → f b a = .ok b' → P b') {as : List α} {b b' : β} (hb : P b)
    (h : as.foldlM f b = .ok b') : P b' := by
  induction as generalizing b with
  | nil =>
    rw [List.foldlM_nil] at h
    exact Except.ok.inj h ▸ hb
  | cons a as ih =>
    rw [List.foldlM_cons] at h
    obtain ⟨mid, hmid, hrest⟩ := bind_eq_ok.1 h
    exact ih (hstep b a mid hb hmid) hrest

theorem exists_forall₂ {α β : Type} {R : α → β → Prop} {as : List α} (h : ∀ a ∈ as, ∃ b, R a b) :
    ∃ bs, List.Forall₂ R as bs := by
  induction as with
  | nil => exact ⟨[], .nil⟩
  | cons a as ih =>
    obtain ⟨b, hb⟩ := h a List.mem_cons_self
    obtain ⟨bs, hbs⟩ := ih fun a' ha' => h a' (List.mem_cons_of_mem _ ha')
    exact ⟨b :: bs, .cons hb hbs⟩

theorem exists_of_forall₂ {α β : Type} {R : α → β → Prop} {as : List α} {bs : List β} (h : List.Forall₂ R as bs)
    {b : β} (hb : b ∈ bs) : ∃ a ∈ as, R a b := by
  induction h with
  | nil => simp at hb
  | @cons a b' as bs hab _ ih =>
    rcases List.mem_cons.1 hb with rfl | hb
    · exact ⟨a, List.mem_cons_self, hab⟩
    · obtain ⟨a', ha', hab'⟩ := ih hb
      exact ⟨a', List.mem_cons_of_mem _ ha', hab'⟩

theorem forall₂_trans {α β γ : Type} {R : α → β → Prop} {S : β → γ → Prop} {T : α → γ → Prop} {as : List α}
    {bs : List β} {cs : List γ} (hR : List.Forall₂ R as bs) (hS : List.Forall₂ S bs cs)
    (h : ∀ a b c, R a b → S b c → T a c) : List.Forall₂ T as cs := by
  induction hR generalizing cs with
  | nil =>
    cases hS
    exact .nil
  | cons hab _ ih =>
    cases hS with
    | cons hbc hS => exact .cons (h _ _ _ hab hbc) (ih hS)

theorem forall₂_mem {α β : Type} {R : α → β → Prop} {as : List α} {bs : List β} (h : List.Forall₂ R as bs) :
    List.Forall₂ (fun a b => a ∈ as ∧ R a b) as bs := by
  rw [List.forall₂_and_left]
  exact ⟨fun _ => id, h⟩

theorem flatMap_const_nil {α β : Type} (as : List α) : as.flatMap (fun _ => ([] : List β)) = [] :=
  List.flatMap_eq_nil_iff.2 fun _ _ => rfl

theorem flatMap_eq_of_forall₂ {α β γ : Type} {f : α → List γ} {g : β → List γ} {as : List α} {bs : List β}
    (h : List.Forall₂ (fun a b => g b = f a) as bs) : bs.flatMap g = as.flatMap f := by
  induction h with
  | nil => rfl
  | cons hab _ ih => rw [List.flatMap_cons, List.flatMap_cons, hab, ih]

theorem exists_mem_iff_of_forall₂ {α β : Type} {R : α → β → Prop} {P : α → Prop} {Q : β → Prop} {as : List α}
    {bs : List β} (h : List.Forall₂ R as bs) (hiff : ∀ a ∈ as, ∀ b, R a b → (Q b ↔ P a)) :
    (∃ b ∈ bs, Q b) ↔ ∃ a ∈ as, P a := by
  induction h with
  | nil => simp
  | cons hab _ ih =>
    rw [List.forall_mem_cons] at hiff
    rw [List.exists_mem_cons_iff, List.exists_mem_cons_iff, hiff.1 _ hab, ih hiff.2]

/-- Where each element gives a result of some kind, so do all of them together. -/
theorem exists_mapM {Q : β → Prop} {f : α → Except ε β} {as : List α}
    (h : ∀ a ∈ as, ∃ b, f a = .ok b ∧ Q b) : ∃ bs, as.mapM f = .ok bs ∧ ∀ b ∈ bs, Q b := by
  obtain ⟨bs, hbs⟩ := exists_forall₂ h
  refine ⟨bs, mapM_eq_ok.2 (hbs.imp fun a b hab => hab.1), fun b hb => ?_⟩
  obtain ⟨a, -, -, hb⟩ := exists_of_forall₂ hbs hb
  exact hb

/-- A list on which a computation fails in one way only is gone through to its end, or fails in that way. -/
theorem mapM_ok_or_error {R : α → β → Prop} {P : α → Prop} {f : α → Except ε β} {e : ε} {as : List α}
    (h : ∀ a ∈ as, (∃ b, f a = .ok b ∧ R a b) ∨ P a ∧ f a = .error e) :
    (∃ bs, as.mapM f = .ok bs ∧ List.Forall₂ R as bs) ∨ (∃ a ∈ as, P a) ∧ as.mapM f = .error e := by
  induction as with
  | nil => exact .inl ⟨[], rfl, .nil⟩
  | cons a as ih =>
    obtain ⟨ha, has⟩ := List.forall_mem_cons.1 h
    rw [List.mapM_cons]
    obtain ⟨b, hb, hR⟩ | ⟨hP, hfail⟩ := ha
    · rw [hb, ok_bind]
      obtain ⟨bs, hbs, hall⟩ | ⟨⟨a', ha', hP⟩, hfail⟩ := ih has
      · exact .inl ⟨b :: bs, by rw [hbs]; rfl, .cons hR hall⟩
      · exact .inr ⟨⟨a', List.mem_cons_of_mem _ ha', hP⟩, by rw [hfail]; rfl⟩
    · exact .inr ⟨⟨a, List.mem_cons_self, hP⟩, by rw [hfail]; rfl⟩

/-! ### Two computations side by side -/

/-- Two computations that end alike: well, with results that are related, or with the same error. -/
inductive Matches {ε α β : Type} (R : α → β → Prop) : Except ε α → Except ε β → Prop
  | ok {a : α} {b : β} (h : R a b) : Matches R (.ok a) (.ok b)
  | error (e : ε) : Matches R (.error e) (.error e)

namespace Matches

variable {γ δ : Type} {R : α → β → Prop} {x : Except ε α} {y : Except ε β}

theorem bind {S : γ → δ → Prop} (h : Matches R x y) {f : α → Except ε γ} {g : β → Except ε δ}
    (hfg : ∀ a b, R a b → Matches S (f a) (g b)) : Matches S (x >>= f) (y >>= g) := by
  cases h with
  | ok hab => exact hfg _ _ hab
  | error e => exact .error e

theorem bind_eq (h : Matches R x y) {f : α → Except ε γ} {g : β → Except ε γ} (hfg : ∀ a b, R a b → f a = g b) :
    x >>= f = y >>= g := by
  cases h with
  | ok hab => exact hfg _ _ hab
  | error e => rfl

theorem imp {S : α → β → Prop} (h : Matches R x y) (himp : ∀ a b, R a b → S a b) : Matches S x y := by
  cases h with
  | ok hab => exact .ok (himp _ _ hab)
  | error e => exact .error e

theorem eq_map {f : α → β} (h : Matches (fun a b => b = f a) x y) : y = x.map f := by
  cases h with
  | ok hab => exact congrArg Except.ok hab
  | error e => rfl

theorem exists_ok (h : Matches R x y) {a : α} (hx : x = .ok a) : ∃ b, y = .ok b ∧ R a b := by
  cases h with
  | @ok a' b hab => exact ⟨b, rfl, Except.ok.inj hx ▸ hab⟩
  | error e => cases hx

end Matches

theorem eq_none_or_of_rel {R : α → β → Prop} {x : Option α} {y : Option β} (h : Option.Rel R x y) :
    (x = none ∧ y = none) ∨ ∃ a b, x = some a ∧ y = some b ∧ R a b := by
  cases h with
  | none => exact .inl ⟨rfl, rfl⟩
  | some hab => exact .inr ⟨_, _, rfl, rfl, hab⟩

theorem findSome?_forall₂ {γ δ : Type} {S : γ → δ → Prop} {R : α → β → Prop} {p : γ → Option α} {q : δ → Option β}
    {as : List γ} {bs : List δ} (h : List.Forall₂ S as bs) (hpq : ∀ a b, S a b → Option.Rel R (p a) (q b)) :
    Option.Rel R (as.findSome? p) (bs.findSome? q) := by
  induction h with
  | nil => exact .none
  | @cons a b _ _ hab _ ih =>
    rw [List.findSome?_cons, List.findSome?_cons]
    obtain ⟨hnone, hnone'⟩ | ⟨x, y, hx, hy, hxy⟩ := eq_none_or_of_rel (hpq a b hab)
    · rw [hnone, hnone']
      exact ih
    · rw [hx, hy]
      exact .some hxy

theorem findSome?_rel {γ : Type} {R : α → β → Prop} {p : γ → Option α} {q : γ → Option β} {keys : List γ}
    (h : ∀ key ∈ keys, Option.Rel R (p key) (q key)) : Option.Rel R (keys.findSome? p) (keys.findSome? q) :=
  findSome?_forall₂ (List.forall₂_same.2 h) fun _ _ hkey => hkey

/-- What alone passes a test is found by it. -/
theorem find?_of_unique {p : α → Bool} {as : List α} {a : α} (ha : a ∈ as) (hp : p a = true)
    (h : ∀ b ∈ as, p b = true → b = a) : as.find? p = some a := by
  cases hfind : as.find? p with
  | none =>
    rw [List.find?_eq_none] at hfind
    exact absurd hp (hfind a ha)
  | some b => rw [h b (List.mem_of_find?_eq_some hfind) (List.find?_some hfind)]

theorem find?_forall₂ {R : α → β → Prop} {p : α → Bool} {q : β → Bool} {as : List α} {bs : List β}
    (h : List.Forall₂ R as bs) (hpq : ∀ a b, R a b → p a = q b) : Option.Rel R (as.find? p) (bs.find? q) := by
  induction h with
  | nil => exact .none
  | @cons a b _ _ hab _ ih =>
    rw [List.find?_cons, List.find?_cons, hpq a b hab]
    cases q b with
    | true => exact .some hab
    | false => exact ih

theorem mapM_congr_forall₂ {γ : Type} {R : α → β → Prop} {as : List α} {bs : List β} (h : List.Forall₂ R as bs)
    {f : α → Except ε γ} {g : β → Except ε γ} (hfg : ∀ a b, R a b → f a = g b) : as.mapM f = bs.mapM g := by
  induction h with
  | nil => rfl
  | cons hab _ ih => rw [List.mapM_cons, List.mapM_cons, hfg _ _ hab, ih]

end MessageCodec
