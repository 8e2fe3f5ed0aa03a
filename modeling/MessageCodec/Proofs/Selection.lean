import Mathlib
import MessageCodec.Proofs.Planning

/-!
# Which messages are planned

A set of names is consistent when each message of it has a field that can be encoded once the messages of
the set are. Dropping messages round by round ends with the greatest consistent set: a message that is
dropped is in no consistent set, as all the messages it could have held on to were there to the end.
Messages are told apart by name, which is sound because no two of those that are collected share one.
-/

namespace MessageCodec.Plan

open Schema Planning

/-! ### Collected messages have names of their own -/

theorem firstOfName_names {seen : List String} {places : List Place} :
    (namesOf (firstOfName seen places)).Nodup ∧ ∀ name ∈ namesOf (firstOfName seen places), name ∉ seen := by
  induction places generalizing seen with
  | nil => simp [firstOfName, namesOf]
  | cons p places ih =>
    rw [firstOfName]
    split
    · exact ih
    · rename_i hnew
      rw [List.contains_iff_mem] at hnew
      obtain ⟨hnodup, hfresh⟩ := @ih (p.message.fullName :: seen)
      refine ⟨List.nodup_cons.2 ⟨fun hmem => hfresh _ hmem List.mem_cons_self, hnodup⟩, ?_⟩
      intro name hname hseen
      rcases List.mem_cons.1 hname with rfl | hname
      · exact hnew hseen
      · exact hfresh name hname (List.mem_cons_of_mem _ hseen)

theorem eq_of_placeOf? {places : List Place} {id : Nat} {fullName : String} {p : Place}
    (h : placeOf? places id fullName = some p) : p.message.id = id ∧ p.message.fullName = fullName := by
  unfold placeOf? at h
  have hfound := List.find?_some h
  rwa [Bool.and_eq_true, beq_iff_eq, beq_iff_eq] at hfound

/-- Messages that are pulled in one by one: each is found among those that are left, under a name not seen before. -/
inductive Pulls : List Place → List String → List Place → Prop
  | done (places : List Place) (seen : List String) : Pulls places seen []
  | place {places : List Place} {seen : List String} {id : Nat} {fullName : String} {p : Place} {more : List Place}
      (hfound : placeOf? places id fullName = some p) (hnew : fullName ∉ seen)
      (hmore : Pulls (without places id) (fullName :: seen) more) : Pulls places seen (p :: more)

section

variable {places : List Place} {seen : List String} {referrer : String} {f : Field} {rest : List (String × Field)}
  {id : Nat} {fullName : String}

theorem pull_of_no_target (h : messageTarget? f = none) :
    pull places seen ((referrer, f) :: rest) = pull places seen rest := by
  rw [pull, h]

theorem pull_of_known (h : messageTarget? f = some (id, fullName)) (hseen : seen.contains fullName = true) :
    pull places seen ((referrer, f) :: rest) = pull places seen rest := by
  rw [pull, h]
  exact if_pos hseen

theorem pull_of_missing (h : messageTarget? f = some (id, fullName)) (hnew : ¬ seen.contains fullName = true)
    (hmissing : placeOf? places id fullName = none) :
    pull places seen ((referrer, f) :: rest) = .error (.messageNotLoaded fullName (referrer ++ "." ++ f.name)) := by
  rw [pull, h]
  dsimp only
  rw [if_neg hnew]
  split
  · rfl
  · rename_i hfound
    rw [hmissing] at hfound
    cases hfound

theorem pull_of_found (h : messageTarget? f = some (id, fullName)) (hnew : ¬ seen.contains fullName = true) {p : Place}
    (hfound : placeOf? places id fullName = some p) : pull places seen ((referrer, f) :: rest) = (do
      let more ← pull (without places id) (fullName :: seen) (rest ++ outgoing p.message)
      return p :: more) := by
  rw [pull, h]
  dsimp only
  rw [if_neg hnew]
  split
  · rename_i hmissing
    rw [hfound] at hmissing
    cases hmissing
  · rename_i p' hfound'
    obtain rfl : p = p' := Option.some.inj (hfound.symm.trans hfound')
    rfl

end

theorem pulls_of_pull {places : List Place} {seen : List String} {work : List (String × Field)} {pulled : List Place}
    (h : pull places seen work = .ok pulled) : Pulls places seen pulled := by
  induction places, seen, work using pull.induct generalizing pulled with
  | case1 places seen =>
    rw [pull] at h
    obtain rfl := Except.ok.inj h
    exact .done places seen
  | case2 places seen referrer f rest hnone ih =>
    rw [pull_of_no_target hnone] at h
    exact ih h
  | case3 places seen referrer f rest id fullName htarget hseen ih =>
    rw [pull_of_known htarget hseen] at h
    exact ih h
  | case4 places seen referrer f rest id fullName htarget hseen hmissing =>
    rw [pull_of_missing htarget hseen hmissing] at h
    cases h
  | case5 places seen referrer f rest id fullName htarget hseen p hfound hlt ih =>
    rw [pull_of_found htarget hseen hfound] at h
    obtain ⟨more, hmore, heq⟩ := bind_eq_ok.1 h
    obtain rfl := Except.ok.inj heq
    rw [List.contains_iff_mem] at hseen
    exact .place hfound hseen (ih hmore)

theorem Pulls.names {places : List Place} {seen : List String} {pulled : List Place} (h : Pulls places seen pulled) :
    (namesOf pulled).Nodup ∧ ∀ name ∈ namesOf pulled, name ∉ seen := by
  induction h with
  | done => simp [namesOf]
  | @place places seen id fullName p more hfound hnew _ ih =>
    obtain ⟨hnodup, hfresh⟩ := ih
    have hname : p.message.fullName = fullName := (eq_of_placeOf? hfound).2
    refine ⟨List.nodup_cons.2 ⟨fun hmem => hfresh _ hmem (hname ▸ List.mem_cons_self), hnodup⟩, ?_⟩
    intro name hmem hseen
    rcases List.mem_cons.1 hmem with rfl | hmem
    · exact hnew (hname ▸ hseen)
    · exact hfresh name hmem (List.mem_cons_of_mem _ hseen)

/-- No two of the messages that are collected share a name. -/
theorem collect_names {targets others : List File} {places : List Place} (h : collect targets others = .ok places) :
    (namesOf places).Nodup := by
  obtain ⟨pulled, hpulled, heq⟩ := bind_eq_ok.1 h
  obtain rfl := Except.ok.inj heq
  obtain ⟨hnodup, hfresh⟩ := (pulls_of_pull hpulled).names
  rw [namesOf, List.map_append]
  refine firstOfName_names.1.append hnodup ?_
  intro name hown hname
  exact hfresh name hname hown

/-- Files that hold all the messages they refer to need no others. -/
theorem pull_of_seen {places : List Place} {seen : List String} {work : List (String × Field)}
    (h : ∀ w ∈ work, ∀ target ∈ messageTarget? w.2, target.2 ∈ seen) : pull places seen work = .ok [] := by
  induction work with
  | nil => rw [pull]
  | cons w work ih =>
    obtain ⟨referrer, f⟩ := w
    have hrest := ih fun w' hw' => h w' (List.mem_cons_of_mem _ hw')
    cases htarget : messageTarget? f with
    | none => rw [pull_of_no_target htarget, hrest]
    | some target =>
      have hseen := h _ List.mem_cons_self target htarget
      rw [pull_of_known htarget (List.contains_iff_mem.2 hseen), hrest]

/-! ### Fields that can be encoded -/

/-- A field can be encoded when the messages of a set of names are: it holds a scalar of a known type, an
enum, or a message of the set. -/
inductive Encodable (S : Set String) (f : Field) : Prop
  | scalar {name : String} {type : ScalarType} (hkind : f.kind = .scalar) (hscalar : f.scalar = some name)
      (htype : ScalarType.ofName? name = some type)
  | enum {e : Enum} (hkind : f.kind = .enum) (hresolved : f.resolved = some (.enum e))
  | message {id : Nat} {name : String} (hkind : f.kind = .message) (hresolved : f.resolved = some (.message id name))
      (hmem : name ∈ S)

theorem Encodable.mono {S T : Set String} (hsub : S ⊆ T) {f : Field} (h : Encodable S f) : Encodable T f := by
  cases h with
  | scalar hkind hscalar htype => exact .scalar hkind hscalar htype
  | enum hkind hresolved => exact .enum hkind hresolved
  | message hkind hresolved hmem => exact .message hkind hresolved (hsub hmem)

theorem Encodable.exists_enum {S : Set String} {f : Field} (h : Encodable S f) (hkind : f.kind = .enum) :
    ∃ e, f.resolved = some (.enum e) := by
  cases h with
  | @enum e _ hresolved => exact ⟨e, hresolved⟩
  | scalar hkind' => simp [hkind] at hkind'
  | message hkind' => simp [hkind] at hkind'

def nameSet (places : List Place) : Set String := { name | name ∈ namesOf places }

theorem obstacle?_eq_none_iff {selected : List String} {f : Field} :
    obstacle? selected f = none ↔ Encodable { name | name ∈ selected } f := by
  constructor
  · intro h
    unfold obstacle? at h
    split at h
    · simp at h
    · simp at h
    · rename_i hkind
      split at h
      · rename_i hsome
        obtain ⟨type, htype⟩ := Option.isSome_iff_exists.1 hsome
        obtain ⟨name, hscalar, hname⟩ := Option.bind_eq_some_iff.1 htype
        exact .scalar hkind hscalar hname
      · simp at h
    · rename_i hkind
      split at h
      · rename_i e hresolved
        exact .enum hkind hresolved
      · simp at h
    · rename_i hkind
      split at h
      · rename_i id name hresolved
        split at h
        · rename_i hmem
          exact .message hkind hresolved (List.contains_iff_mem.1 hmem)
        · simp at h
      · simp at h
    · simp at h
  · intro h
    cases h with
    | scalar hkind hscalar htype => simp [obstacle?, hkind, hscalar, htype]
    | enum hkind hresolved => simp [obstacle?, hkind, hresolved]
    | message hkind hresolved hmem =>
      have hcontains := List.contains_iff_mem.2 hmem
      simp only [obstacle?, hkind, hresolved, hcontains, if_true]

theorem mem_supported {selected : List String} {m : Message} {f : Field} :
    f ∈ supported selected m ↔ f ∈ m.fields ∧ Encodable { name | name ∈ selected } f := by
  rw [supported, List.mem_filter, Option.isNone_iff_eq_none, obstacle?_eq_none_iff]

/-! ### Rounds of dropping -/

theorem mem_sieve {places : List Place} {p : Place} :
    p ∈ sieve places ↔ p ∈ places ∧ ∃ f ∈ p.message.fields, Encodable (nameSet places) f := by
  rw [sieve, List.mem_filter, Bool.not_eq_true', List.isEmpty_eq_false_iff_exists_mem]
  simp only [mem_supported]
  rfl

theorem sieve_sublist (places : List Place) : (sieve places).Sublist places := List.filter_sublist

theorem iterate_sieve_sublist (places : List Place) (k : Nat) : (sieve^[k] places).Sublist places := by
  induction k with
  | zero => exact List.Sublist.refl _
  | succ k ih =>
    rw [Function.iterate_succ_apply']
    exact (sieve_sublist _).trans ih

/-- Pruning is some rounds, each of which drops a message, up to one that would drop none. -/
theorem exists_rounds (places : List Place) :
    ∃ rounds, (prune places).1 = sieve^[rounds] places ∧ sieve (sieve^[rounds] places) = sieve^[rounds] places ∧
      ∀ k < rounds, (sieve^[k + 1] places).length < (sieve^[k] places).length := by
  induction hn : places.length using Nat.strongRecOn generalizing places with
  | _ n ih =>
    rw [prune]
    split
    · rename_i hshorter
      obtain ⟨rounds, hpruned, hstable, hdrops⟩ := ih _ (hn ▸ hshorter) (sieve places) rfl
      refine ⟨rounds + 1, ?_, ?_, ?_⟩
      · exact hpruned.trans (Function.iterate_succ_apply ..).symm
      · rw [Function.iterate_succ_apply, hstable]
      · intro k hk
        cases k with
        | zero => exact hshorter
        | succ k =>
          rw [Function.iterate_succ_apply, Function.iterate_succ_apply sieve k]
          exact hdrops k (by omega)
    · rename_i hnot
      refine ⟨0, rfl, ?_, by simp⟩
      exact (sieve_sublist places).eq_of_length_le (by omega)

/-- Where names are distinct, a round that drops a message drops its name. -/
theorem nameSet_ssubset {places : List Place} (hnodup : (namesOf places).Nodup)
    (h : (sieve places).length < places.length) : nameSet (sieve places) ⊂ nameSet places := by
  refine ⟨fun name hname => ((sieve_sublist places).map _).subset hname, fun hback => ?_⟩
  have hsub : namesOf places ⊆ namesOf (sieve places) := fun name hname => hback hname
  have hle := (hnodup.subperm hsub).length_le
  rw [namesOf, namesOf, List.length_map, List.length_map] at hle
  omega

/-! ### The greatest consistent set -/

/-- A set of names of messages each of which has a field that can be encoded when the messages of the set
are. -/
structure Consistent (places : List Place) (S : Set String) : Prop where
  named : S ⊆ nameSet places
  held : ∀ p ∈ places, p.message.fullName ∈ S → ∃ f ∈ p.message.fields, Encodable S f

/-- A round drops no message of a consistent set. -/
theorem Consistent.subset_sieve {places : List Place} {S : Set String} (h : Consistent places S) :
    Consistent (sieve places) S := by
  refine ⟨fun name hname => ?_, fun p hp => h.held p (mem_sieve.1 hp).1⟩
  obtain ⟨p, hp, rfl⟩ := List.mem_map.1 (h.named hname)
  obtain ⟨f, hf, hencodable⟩ := h.held p hp hname
  exact List.mem_map.2 ⟨p, mem_sieve.2 ⟨hp, f, hf, hencodable.mono h.named⟩, rfl⟩

theorem Consistent.iterate_sieve {places : List Place} {S : Set String} (h : Consistent places S) (k : Nat) :
    Consistent (sieve^[k] places) S := by
  induction k with
  | zero => exact h
  | succ k ih =>
    rw [Function.iterate_succ_apply']
    exact ih.subset_sieve

/-- What no round changes is consistent, among all the messages that it was taken from. -/
theorem consistent_of_stable {places kept : List Place} (hnodup : (namesOf places).Nodup) (hsub : kept.Sublist places)
    (hstable : sieve kept = kept) : Consistent places (nameSet kept) := by
  refine ⟨fun name hname => (hsub.map _).subset hname, fun p hp hname => ?_⟩
  obtain ⟨p', hp', heq⟩ := List.mem_map.1 hname
  obtain rfl : p' = p := List.inj_on_of_nodup_map hnodup (hsub.subset hp') hp heq
  rw [← hstable] at hp'
  exact (mem_sieve.1 hp').2

theorem chosen_sublist (places : List Place) : (chosen places).Sublist (candidates places) := by
  obtain ⟨rounds, hpruned, -, -⟩ := exists_rounds (candidates places)
  rw [chosen, hpruned]
  exact iterate_sieve_sublist _ rounds

theorem chosen_names_nodup {targets others : List File} {places : List Place}
    (h : collect targets others = .ok places) : (namesOf (chosen places)).Nodup :=
  (collect_names h).sublist (((chosen_sublist places).trans List.filter_sublist).map _)

theorem mem_of_mem_chosen {places : List Place} {p : Place} (h : p ∈ chosen places) :
    p ∈ places ∧ p.message.mapEntry = false := by
  have hmem := (chosen_sublist places).subset h
  rw [candidates, List.mem_filter, Bool.not_eq_true'] at hmem
  exact hmem

theorem fullNames_of_describes {planner : Planner} {selected : List String} {places : List Place}
    {plans : List MessagePlan} (h : List.Forall₂ (MessagePlan.Describes planner selected) places plans) :
    plans.map MessagePlan.fullName = namesOf places := by
  rw [namesOf, ← List.forall₂_eq_eq_eq, List.forall₂_map_left_iff, List.forall₂_map_right_iff]
  exact h.flip.imp fun m place hm => hm.fullName

/-- The messages that are planned are the greatest set each of whose messages has a field that can be
encoded with it, and of each of them the fields that can be, in order of declaration. They are found in
rounds of which each drops a message. -/
theorem plan_selects_greatest {targets others : List File} {p after : Planner} {plans : List MessagePlan}
    (h : Yields (Planner.plan targets others) p plans after) :
    ∃ places rounds, collect targets others = .ok places ∧
      (plans.map MessagePlan.fullName).Nodup ∧
      IsGreatest { S | Consistent (candidates places) S } { name | name ∈ plans.map MessagePlan.fullName } ∧
      (∃ supports : Field → Bool,
        (∀ f, supports f = true ↔ Encodable { name | name ∈ plans.map MessagePlan.fullName } f) ∧
        List.Forall₂ (fun place m => m.fullName = place.message.fullName ∧
          List.Forall₂ (FieldPlan.Describes after.unescape place) (place.message.fields.filter supports) m.fields)
          (sieve^[rounds] (candidates places)) plans) ∧
      (∀ k < rounds, nameSet (sieve^[k + 1] (candidates places)) ⊂ nameSet (sieve^[k] (candidates places))) ∧
      sieve (sieve^[rounds] (candidates places)) = sieve^[rounds] (candidates places) := by
  obtain ⟨places, hplaces, hplans⟩ := Planner.plan_yields h
  obtain ⟨rounds, hpruned, hstable, hdrops⟩ := exists_rounds (candidates places)
  have hnodup : (namesOf (candidates places)).Nodup := (collect_names hplaces).sublist (List.filter_sublist.map _)
  have hsub := iterate_sieve_sublist (candidates places)
  rw [chosen, hpruned] at hplans
  rw [fullNames_of_describes hplans]
  refine ⟨places, rounds, hplaces, hnodup.sublist ((hsub rounds).map _), ?_, ?_, ?_, hstable⟩
  · refine ⟨consistent_of_stable hnodup (hsub rounds) hstable, fun S hS => ?_⟩
    exact (hS.iterate_sieve rounds).named
  · refine ⟨fun f => (obstacle? (namesOf (sieve^[rounds] (candidates places))) f).isNone, fun f => ?_, ?_⟩
    · rw [Option.isNone_iff_eq_none, obstacle?_eq_none_iff]
    · exact hplans.imp fun place m hm => ⟨hm.fullName, hm.fields⟩
  · intro k hk
    have hdrop := hdrops k hk
    rw [Function.iterate_succ_apply'] at hdrop ⊢
    exact nameSet_ssubset (hnodup.sublist ((hsub k).map _)) hdrop

end MessageCodec.Plan

/-! ### A sample

A thread refers to a shell, the shell to a ghost, and the ghost has nothing to encode. A reply and a link
only refer to each other. -/

namespace MessageCodec.Sample

open Schema Plan Planning

def refersTo (name : String) (number : Int) (id : Nat) (target : String) : Field :=
  { name, number, kind := .message, typeName := some target, resolved := some (.message id target) }

def forum : File where
  name := "forum.proto"
  package := some "forum"
  dialect := .proto3
  messages := [
    { id := 0, name := "Thread", fullName := "forum.Thread", fields := [
        { name := "title", number := 1, kind := .scalar, scalar := some ScalarType.string.name },
        refersTo "shell" 2 4 "forum.Shell",
        refersTo "reply" 3 1 "forum.Reply"] },
    { id := 1, name := "Reply", fullName := "forum.Reply", fields := [refersTo "link" 1 2 "forum.Link"] },
    { id := 2, name := "Link", fullName := "forum.Link", fields := [refersTo "reply" 1 1 "forum.Reply"] },
    { id := 3, name := "Ghost", fullName := "forum.Ghost", fields := [{ name := "tags", number := 1, kind := .map }] },
    { id := 4, name := "Shell", fullName := "forum.Shell", fields := [refersTo "ghost" 1 3 "forum.Ghost"] }]

def forumPlans : List MessagePlan := [
  { name := "Thread", fullName := "forum.Thread", symbol := "Thread", fileName := some "forum.proto", fields := [
      { name := "title", number := 1, kind := .scalar, scalar := some ScalarType.string.name, jsonName := some "title",
        default := .text "" },
      { name := "reply", number := 3, kind := .message, child := some "forum.Reply", jsonName := some "reply",
        presence := true }] },
  { name := "Reply", fullName := "forum.Reply", symbol := "Reply", fileName := some "forum.proto", fields := [
      { name := "link", number := 1, kind := .message, child := some "forum.Link", jsonName := some "link",
        presence := true }] },
  { name := "Link", fullName := "forum.Link", symbol := "Link", fileName := some "forum.proto", fields := [
      { name := "reply", number := 1, kind := .message, child := some "forum.Reply", jsonName := some "reply",
        presence := true }] }]

def forumSymbols (count : Nat) : Naming.Resolver where
  rules := .standard
  symbols := [("forum.Thread", "Thread"), ("forum.Reply", "Reply"), ("forum.Link", "Link")].take count
  taken := ["MessageHandler", "get_message_handlers", "messages", "Thread", "Reply", "Link"].take (3 + count)

def planner : Planner := { settings := {}, resolver := forumSymbols 0 }

theorem collect_forum : collect [forum] [] = .ok (placesOf forum) := by
  have hown : firstOfName [] ([forum].flatMap placesOf) = placesOf forum := rfl
  rw [collect, hown, pull_of_seen]
  · rfl
  · decide

private theorem chosen_forum : chosen (placesOf forum) = (placesOf forum).take 3 := by
  -- the ghost goes first, then the shell, and the third round drops none
  rw [chosen]
  rw [prune, if_pos (by decide)]
  rw [prune, if_pos (by decide)]
  rw [prune, if_neg (by decide)]
  rfl

private theorem register_forum (journal : Journal) : Yields (((placesOf forum).take 3).forM Planner.register)
    { planner with journal } () { planner with journal, resolver := forumSymbols 3 } := by
  have hthread : (forumSymbols 0).register "forum.Thread" ""
      (Planner.wantedSymbol {} (some "forum") "forum.Thread") = .ok ("Thread", forumSymbols 1) :=
    eq_ok_of_toOption (by decide)
  have hreply : (forumSymbols 1).register "forum.Reply" ""
      (Planner.wantedSymbol {} (some "forum") "forum.Reply") = .ok ("Reply", forumSymbols 2) :=
    eq_ok_of_toOption (by decide)
  have hlink : (forumSymbols 2).register "forum.Link" ""
      (Planner.wantedSymbol {} (some "forum") "forum.Link") = .ok ("Link", forumSymbols 3) :=
    eq_ok_of_toOption (by decide)
  refine yields_bind.2 ⟨_, _, Planner.register_yields hthread, ?_⟩
  refine yields_bind.2 ⟨_, _, Planner.register_yields hreply, ?_⟩
  exact yields_bind.2 ⟨_, _, Planner.register_yields hlink, yields_pure.2 ⟨rfl, rfl⟩⟩

theorem plan_forum : ∃ after, Yields (Planner.plan [forum] []) planner forumPlans after := by
  have hmessages (journal : Journal) : ∃ after, Yields
      (((placesOf forum).take 3).mapM (Planner.message (namesOf ((placesOf forum).take 3))))
      { planner with journal, resolver := forumSymbols 3 } forumPlans after := ⟨_, rfl⟩
  obtain ⟨after, hafter⟩ := hmessages _
  exact ⟨after, Planner.yields_plan collect_forum chosen_forum (register_forum _) hafter⟩

theorem plan_selects_greatest_forum :
    (∃ after, Yields (Planner.plan [forum] []) planner forumPlans after) ∧
      IsGreatest { S | Consistent (candidates (placesOf forum)) S }
        { name | name ∈ ["forum.Thread", "forum.Reply", "forum.Link"] } := by
  obtain ⟨after, hplans⟩ := plan_forum
  obtain ⟨places, rounds, hplaces, -, hgreatest, -⟩ := plan_selects_greatest hplans
  obtain rfl := Except.ok.inj (collect_forum.symm.trans hplaces)
  exact ⟨⟨after, hplans⟩, hgreatest⟩

end MessageCodec.Sample
