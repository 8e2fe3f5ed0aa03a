import MessageCodec.Proofs.Numeral
import MessageCodec.Proofs.Planning
import MessageCodec.Proofs.Table

/-!
# Symbols are handed out once

The numbered candidates for a symbol are distinct, so the search for a free one ends with one. Hence no
two types of a resolver share a symbol, whatever it was asked for before, and the same holds of a planner
after any number of runs, those that fail included.
-/

namespace MessageCodec

namespace Naming.Resolver

/-! ### Free candidates -/

theorem candidate_inj {collision front back : String} {m n : Nat}
    (h : candidate collision front back (m + 1) = candidate collision front back (n + 1)) : m = n := by
  have hlist := congrArg String.toList h
  cases m with
  | zero =>
    cases n with
    | zero => rfl
    | succ n => simp [candidate, Numeral.ofNat_ne_nil] at hlist
  | succ m =>
    cases n with
    | zero => simp [candidate, Numeral.ofNat_ne_nil] at hlist
    | succ n =>
      simp only [candidate, String.toList_append, String.toList_ofList, List.append_cancel_left_eq] at hlist
      exact Numeral.ofNat_injective hlist

/-- The numbered candidates are one more than the taken symbols, so not all of them are taken. -/
theorem exists_free (taken : List String) (collision front back : String) :
    ∃ k ≤ taken.toFinset.card + 1, candidate collision front back k ∉ taken := by
  by_contra hnone
  push Not at hnone
  let tried := (Finset.range (taken.toFinset.card + 1)).image fun i => candidate collision front back (i + 1)
  have hcard : tried.card = taken.toFinset.card + 1 := by
    rw [Finset.card_image_of_injective _ fun m n h => candidate_inj h, Finset.card_range]
  have hsub : tried ⊆ taken.toFinset := by
    intro s hs
    obtain ⟨i, hi, rfl⟩ := Finset.mem_image.1 hs
    rw [Finset.mem_range] at hi
    rw [List.mem_toFinset]
    exact hnone (i + 1) (by omega)
  have hle := Finset.card_le_card hsub
  omega

/-- A search that is long enough to meet a free candidate ends at the first one. -/
theorem exists_firstFree {taken : List String} {candidates : Nat → String} {tries start : Nat}
    (h : ∃ k, start ≤ k ∧ k ≤ start + tries ∧ candidates k ∉ taken) :
    ∃ n, firstFree taken candidates tries start = candidates n ∧ IsLeast { k | start ≤ k ∧ candidates k ∉ taken } n := by
  induction tries generalizing start with
  | zero =>
    obtain ⟨k, hstart, hle, hfree⟩ := h
    obtain rfl : k = start := by omega
    exact ⟨k, rfl, ⟨hstart, hfree⟩, fun m hm => hm.1⟩
  | succ tries ih =>
    rw [firstFree]
    split
    · rename_i htaken
      rw [List.contains_iff_mem] at htaken
      have hlater : ∀ k, start ≤ k → candidates k ∉ taken → start + 1 ≤ k := by
        intro k hk hfree
        have hne : k ≠ start := by
          rintro rfl
          exact hfree htaken
        omega
      obtain ⟨k, hstart, hle, hfree⟩ := h
      obtain ⟨n, heq, ⟨hn, hfreeN⟩, hleast⟩ := ih ⟨k, hlater k hstart hfree, by omega, hfree⟩
      refine ⟨n, heq, ⟨by omega, hfreeN⟩, ?_⟩
      intro m hm
      exact hleast ⟨hlater m hm.1 hm.2, hm.2⟩
    · rename_i hfree
      rw [List.contains_iff_mem] at hfree
      exact ⟨start, rfl, ⟨le_rfl, hfree⟩, fun m hm => hm.1⟩

/-- The symbol that is made up is the first free candidate, and comes at most one place later than there are taken
symbols. -/
theorem exists_makeUnique (r : Resolver) (front back : String) :
    ∃ n ≤ r.taken.toFinset.card + 1, r.makeUnique front back = candidate r.rules.collisionSuffix front back n ∧
      IsLeast { k | candidate r.rules.collisionSuffix front back k ∉ r.taken } n := by
  obtain ⟨k, hk, hfree⟩ := exists_free r.taken r.rules.collisionSuffix front back
  have hcard : r.taken.toFinset.card ≤ r.taken.length := List.toFinset_card_le _
  have hmeets : ∃ k, 0 ≤ k ∧ k ≤ 0 + (r.taken.length + 1) ∧
      candidate r.rules.collisionSuffix front back k ∉ r.taken := ⟨k, Nat.zero_le k, by omega, hfree⟩
  obtain ⟨n, heq, hn, hleast⟩ := exists_firstFree hmeets
  refine ⟨n, ?_, heq, hn.2, fun m hm => hleast ⟨Nat.zero_le m, hm⟩⟩
  have hle : n ≤ k := hleast ⟨Nat.zero_le k, hfree⟩
  omega

theorem makeUnique_not_mem (r : Resolver) (front back : String) : r.makeUnique front back ∉ r.taken := by
  obtain ⟨n, -, heq, hfree, -⟩ := exists_makeUnique r front back
  rw [heq]
  exact hfree

/-! ### What a resolver knows -/

theorem lookup_eq_ok {r : Resolver} {fullName symbol : String} :
    r.lookup fullName = .ok symbol ↔ r.lookup? fullName = some symbol := by
  rw [lookup]
  split
  · rename_i found h
    rw [h, Except.ok.injEq, Option.some.injEq]
  · rename_i h
    rw [h]
    simp

theorem lookup_eq_error {r : Resolver} {fullName : String} {e : Error} :
    r.lookup fullName = .error e ↔ r.lookup? fullName = none ∧ e = .notRegistered fullName := by
  rw [lookup]
  split
  · rename_i found h
    rw [h]
    simp
  · rename_i h
    rw [h, Except.error.injEq, eq_comm]
    simp

theorem override?_eq_some {r : Resolver} {fullName symbol : String} :
    r.override? fullName = some symbol ↔ r.rules.overrides.get? fullName = some symbol ∧ symbol ≠ "" := by
  rw [override?, Option.filter_eq_some_iff, Bool.not_eq_true', String.isEmpty_eq_false_iff]

theorem lookup?_assign (r : Resolver) (fullName symbol other : String) :
    (r.assign fullName symbol).lookup? other = (r.lookup? other).or (if fullName = other then some symbol else none) := by
  show (r.symbols ++ [(fullName, symbol)]).get? other = _
  rw [Table.get?, List.find?_append, Option.map_or, ← Table.get?, ← Table.get?, Table.get?_cons]
  rfl

theorem lookup?_assign_eq_some {r : Resolver} {name : String} (hnew : r.lookup? name = none)
    (symbol fullName other : String) : (r.assign name symbol).lookup? fullName = some other ↔
      r.lookup? fullName = some other ∨ (name = fullName ∧ symbol = other) := by
  rw [lookup?_assign, Option.or_eq_some_iff]
  by_cases hname : name = fullName
  · rw [if_pos hname, ← hname, hnew, Option.some.injEq]
    simp
  · rw [if_neg hname]
    simp [hname]

/-! ### One type for each symbol -/

/-- Every symbol that was handed out is taken, and no two types share one. -/
structure Sound (r : Resolver) : Prop where
  taken : ∀ e ∈ r.symbols, e.2 ∈ r.taken
  distinct : (r.symbols.map Prod.snd).Nodup

theorem Sound.new (rules : Rules) (more : List String) : (Resolver.new rules more).Sound :=
  ⟨by simp [Resolver.new], by simp [Resolver.new]⟩

theorem taken_assign {r : Resolver} {symbol : String} (hfree : symbol ∉ r.taken) (fullName : String) :
    (r.assign fullName symbol).taken = r.taken ++ [symbol] :=
  if_neg (by rwa [List.contains_iff_mem])

theorem Sound.assign {r : Resolver} (hr : r.Sound) {fullName symbol : String} (hfree : symbol ∉ r.taken) :
    (r.assign fullName symbol).Sound := by
  constructor
  · intro e he
    rw [taken_assign hfree, List.mem_append]
    rcases List.mem_append.1 he with he | he
    · exact .inl (hr.taken e he)
    · rw [List.mem_singleton.1 he]
      exact .inr List.mem_cons_self
  · show ((r.symbols ++ [(fullName, symbol)]).map Prod.snd).Nodup
    rw [List.map_append, List.nodup_append]
    refine ⟨hr.distinct, List.nodup_singleton _, ?_⟩
    rintro s hs _ hsymbol rfl
    obtain ⟨e, he, rfl⟩ := List.mem_map.1 hs
    obtain rfl : e.2 = symbol := by simpa using hsymbol
    exact hfree (hr.taken e he)

/-- What becomes of the wish for a symbol: the type has one already, the one chosen by hand cannot be had, or a
free symbol is assigned, chosen by hand or made up. -/
inductive Registers (r : Resolver) (fullName front back : String) : Except Error (String × Resolver) → Prop
  | known {symbol : String} (h : r.lookup? fullName = some symbol) : Registers r fullName front back (.ok (symbol, r))
  | refused {symbol : String} (hnew : r.lookup? fullName = none) (hchosen : r.override? fullName = some symbol)
      (h : symbol ∈ r.taken ∨ Text.isIdentifier symbol = false) :
      Registers r fullName front back (.error (.overrideConflict symbol fullName))
  | chosen {symbol : String} (hnew : r.lookup? fullName = none) (hchosen : r.override? fullName = some symbol)
      (hfree : symbol ∉ r.taken) (hidentifier : Text.isIdentifier symbol = true) :
      Registers r fullName front back (.ok (symbol, r.assign fullName symbol))
  | made (hnew : r.lookup? fullName = none) (hchosen : r.override? fullName = none)
      (hfree : r.makeUnique front back ∉ r.taken) :
      Registers r fullName front back (.ok (r.makeUnique front back, r.assign fullName (r.makeUnique front back)))

theorem registers (r : Resolver) (fullName front back : String) :
    Registers r fullName front back (r.register fullName front back) := by
  rw [register]
  split
  · rename_i hknown
    exact .known hknown
  rename_i hnew
  split
  · rename_i symbol hchosen
    split
    · rename_i hno
      rw [Bool.or_eq_true, List.contains_iff_mem, Bool.not_eq_true'] at hno
      exact .refused hnew hchosen hno
    · rename_i hfree
      rw [Bool.or_eq_true, not_or, List.contains_iff_mem, Bool.not_eq_true', Bool.not_eq_false] at hfree
      exact .chosen hnew hchosen hfree.1 hfree.2
  · rename_i hchosen
    exact .made hnew hchosen (makeUnique_not_mem r front back)

theorem Sound.register {r r' : Resolver} (hr : r.Sound) {fullName front back symbol : String}
    (h : r.register fullName front back = .ok (symbol, r')) : r'.Sound := by
  have hcases := registers r fullName front back
  rw [h] at hcases
  cases hcases with
  | known _ => exact hr
  | chosen _ _ hfree _ => exact hr.assign hfree
  | made _ _ hfree => exact hr.assign hfree

theorem Sound.lookup_inj {r : Resolver} (hr : r.Sound) {a b symbol : String} (ha : r.lookup a = .ok symbol)
    (hb : r.lookup b = .ok symbol) : a = b := by
  rw [lookup_eq_ok] at ha hb
  exact congrArg Prod.fst (List.inj_on_of_nodup_map hr.distinct (Table.mem_of_get? ha) (Table.mem_of_get? hb) rfl)

/-- A symbol that is made up is the first free one of the candidates: as asked for, with the collision suffix, and
then numbered. The numbered ones are distinct, so it is found at the latest after two candidates more than there are
taken symbols. It is then taken as well, and no other symbol is. -/
theorem makeUnique_takes_first_free (r : Resolver) (front back : String) :
    (Function.Injective fun k => candidate r.rules.collisionSuffix front back (k + 1)) ∧
    ∃ n, IsLeast { k | candidate r.rules.collisionSuffix front back k ∉ r.taken } n ∧
      n + 1 ≤ r.taken.toFinset.card + 2 ∧
      r.makeUnique front back = candidate r.rules.collisionSuffix front back n ∧
      ∀ fullName, r.lookup? fullName = none → r.override? fullName = none →
        ∃ after, r.register fullName front back = .ok (r.makeUnique front back, after) ∧
          after.taken.toFinset = insert (r.makeUnique front back) r.taken.toFinset := by
  obtain ⟨n, hle, heq, hleast⟩ := exists_makeUnique r front back
  refine ⟨fun m k h => candidate_inj h, n, hleast, by omega, heq, ?_⟩
  intro fullName hnew hchosen
  refine ⟨r.assign fullName (r.makeUnique front back), ?_, ?_⟩
  · rw [register, hnew, hchosen]
  · rw [taken_assign (makeUnique_not_mem r front back)]
    ext s
    simp [or_comm]

end Naming.Resolver

namespace Sample

open Naming

/-- Without a collision suffix the first two candidates are the same. -/
def plainSuffixed : Resolver := ⟨{ reserved := [], overrides := [], collisionSuffix := "" }, [("forum.Post", "Post")],
  ["Post", "Post1"]⟩

/-- The search takes as long as it can. -/
theorem makeUnique_takes_first_free_posts :
    plainSuffixed.lookup? "blog.Post" = none ∧ plainSuffixed.override? "blog.Post" = none ∧
      plainSuffixed.makeUnique "" "Post" = "Post2" ∧
      ∃ after, plainSuffixed.register "blog.Post" "" "Post" = .ok ("Post2", after) ∧
        after.taken.toFinset = {"Post2", "Post", "Post1"} := by
  obtain ⟨-, n, -, -, -, htakes⟩ := Resolver.makeUnique_takes_first_free plainSuffixed "" "Post"
  have hmade : plainSuffixed.makeUnique "" "Post" = "Post2" := by decide +kernel
  have hnew : plainSuffixed.lookup? "blog.Post" = none := by decide
  have hchosen : plainSuffixed.override? "blog.Post" = none := by decide
  obtain ⟨after, hafter, htaken⟩ := htakes "blog.Post" hnew hchosen
  rw [hmade] at hafter htaken
  exact ⟨hnew, hchosen, hmade, after, hafter, htaken⟩

end Sample

/-! ### Runs of a planner -/

namespace Planner

open Planning

variable {P : Naming.Resolver → Prop}

private theorem keeps_register (hregister : ∀ r fullName stem symbol r', P r →
      r.register fullName "" (Naming.identifier stem "Message") = .ok (symbol, r') → P r') (place : Plan.Place) :
    Keeps (Handing P) (register place) := by
  intro p hp
  rw [run_register]
  rcases h : p.resolver.register _ _ _ with e | ⟨symbol, resolver⟩
  · exact hp
  · exact hregister _ _ _ _ _ hp h

/-- What every handing out of a symbol keeps, a run keeps. -/
theorem keeps_plan (hregister : ∀ r fullName stem symbol r', P r →
      r.register fullName "" (Naming.identifier stem "Message") = .ok (symbol, r') → P r') (targets others : List Schema.File) :
    Keeps (Handing P) (plan targets others) := by
  rw [plan]
  refine (Keeps.lift _).bind fun places => ?_
  have hsilent := silent_handing P
  refine (Keeps.forM (keeps_note hsilent) _).bind fun _ => ?_
  refine (Keeps.forM (keeps_register hregister) _).bind fun _ => ?_
  exact Keeps.mapM (keeps_message hsilent _) _

/-- A planner of some settings after any number of runs. -/
inductive Reached (w : Workspace) (settings : Settings) : Planner → Prop
  | new {p : Planner} (h : Planner.new w settings = .ok p) : Reached w settings p
  | run {p : Planner} (h : Reached w settings p) (targets others : List Schema.File) :
      Reached w settings ((plan targets others).run p).2

theorem Reached.of_yields {w : Workspace} {settings : Settings} {p after : Planner} (hp : Reached w settings p)
    {targets others : List Schema.File} {plans : List MessagePlan} (h : Yields (plan targets others) p plans after) :
    Reached w settings after := by
  have hrun := hp.run targets others
  rwa [h] at hrun

theorem Reached.sound {w : Workspace} {settings : Settings} {p : Planner} (h : Reached w settings p) :
    p.resolver.Sound := by
  induction h with
  | new h =>
    obtain ⟨rules, -, heq⟩ := bind_eq_ok.1 h
    obtain rfl := Except.ok.inj heq
    exact .new _ _
  | run _ targets others ih =>
    exact keeps_plan (P := Naming.Resolver.Sound) (fun _ _ _ _ _ hr h => hr.register h) targets others _ ih

end Planner

end MessageCodec
