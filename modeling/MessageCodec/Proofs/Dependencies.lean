import Mathlib
import MessageCodec.Proofs.Planned

/-!
# Which messages of other files are needed

Messages of other files are taken in one by one, as fields refer to them, and some of those that are taken
in are dropped again. A message that is kept holds on to whatever message referred to it, so what is left
can be reached from the target files through messages that are left too. The other files are only looked
into for messages that a field refers to: in what order they come, and what else they hold, is not seen.
-/

namespace MessageCodec.Plan

open Schema Planning

/-- A field of one message holds another. -/
def Holds (p q : Place) : Prop := ∃ f ∈ p.message.fields, messageTarget? f = some (q.message.id, q.message.fullName)

/-- A message that can be reached from the target files through message fields, within some files. -/
def Reachable (targets files : List File) (q : Place) : Prop :=
  ∃ root ∈ targets.flatMap placesOf,
    Relation.ReflTransGen (fun a b => b ∈ files.flatMap placesOf ∧ Holds a b) root q

def DistinctMessages (files : List File) : Prop := ((files.flatMap placesOf).map fun p => p.message.id).Nodup

/-! ### What is looked up -/

theorem placeOf?_eq_some_iff {places : List Place} (hdistinct : (places.map fun p => p.message.id).Nodup) {id : Nat}
    {fullName : String} {p : Place} :
    placeOf? places id fullName = some p ↔ p ∈ places ∧ (p.message.id, p.message.fullName) = (id, fullName) := by
  rw [placeOf?, Prod.mk.injEq]
  constructor
  · intro h
    exact ⟨List.mem_of_find?_eq_some h, eq_of_placeOf? h⟩
  · rintro ⟨hp, rfl, rfl⟩
    apply find?_of_unique hp
    · rw [beq_self_eq_true, beq_self_eq_true, Bool.and_self]
    · intro q hq hmatch
      rw [Bool.and_eq_true, beq_iff_eq] at hmatch
      exact List.inj_on_of_nodup_map hdistinct hq hp hmatch.1

private theorem placeOf?_without (places : List Place) (id other : Nat) (fullName : String) :
    placeOf? (without places id) other fullName = if other = id then none else placeOf? places other fullName := by
  rw [placeOf?, without, List.find?_filter]
  split
  · rename_i heq
    rw [List.find?_eq_none]
    intro p _ hp
    simp only [Bool.and_eq_true, bne_iff_ne, beq_iff_eq, heq, decide_eq_true_eq] at hp
    exact hp.1 hp.2.1
  · rename_i hne
    rw [placeOf?]
    congr 1
    funext p
    by_cases hid : p.message.id = other
    · simp [hid, hne, beq_eq_decide]
    · simp [hid]

/-- Two collections in which all that can come up is found alike are as good as each other. -/
theorem pull_congr {T : Nat × String → Prop} {places places' : List Place} {seen : List String}
    {work : List (String × Field)} (hwork : ∀ w ∈ work, ∀ t, messageTarget? w.2 = some t → T t)
    (hsame : ∀ t, T t → placeOf? places t.1 t.2 = placeOf? places' t.1 t.2)
    (hclosed : ∀ t p, T t → placeOf? places t.1 t.2 = some p →
      ∀ f ∈ p.message.fields, ∀ t', messageTarget? f = some t' → T t') :
    pull places seen work = pull places' seen work := by
  induction places, seen, work using pull.induct generalizing places' with
  | case1 => rw [pull, pull]
  | case2 places seen referrer f rest hnone ih =>
    rw [List.forall_mem_cons] at hwork
    rw [pull_of_no_target hnone, pull_of_no_target hnone]
    exact ih hwork.2 hsame hclosed
  | case3 places seen referrer f rest id fullName htarget hseen ih =>
    rw [List.forall_mem_cons] at hwork
    rw [pull_of_known htarget hseen, pull_of_known htarget hseen]
    exact ih hwork.2 hsame hclosed
  | case4 places seen referrer f rest id fullName htarget hseen hmissing =>
    have hmissing' := (hsame _ (hwork _ List.mem_cons_self _ htarget)).symm.trans hmissing
    rw [pull_of_missing htarget hseen hmissing, pull_of_missing htarget hseen hmissing']
  | case5 places seen referrer f rest id fullName htarget hseen p hfound hlt ih =>
    rw [List.forall_mem_cons] at hwork
    have hT : T (id, fullName) := hwork.1 _ htarget
    have hfound' := (hsame _ hT).symm.trans hfound
    rw [pull_of_found htarget hseen hfound, pull_of_found htarget hseen hfound']
    congr 1
    apply ih
    · intro w hw t ht
      rcases List.mem_append.1 hw with hrest | hout
      · exact hwork.2 w hrest t ht
      · obtain ⟨g, hg, rfl⟩ := List.mem_map.1 hout
        exact hclosed _ p hT hfound g hg t ht
    · intro t ht
      rw [placeOf?_without, placeOf?_without, hsame t ht]
    · intro t q ht hq
      rw [placeOf?_without] at hq
      split at hq
      · cases hq
      · exact hclosed t q ht hq

/-! ### Other files, other orders -/

private theorem perm_places {targets others others' extra : List File} (hperm : others'.Perm (extra ++ others)) :
    ((targets ++ others').flatMap placesOf).Perm (extra.flatMap placesOf ++ (targets ++ others).flatMap placesOf) := by
  rw [← List.flatMap_append]
  apply List.Perm.flatMap_right
  refine (hperm.append_left targets).trans ?_
  rw [← List.append_assoc, ← List.append_assoc]
  exact (List.perm_append_comm).append_right others

/-- Files that hold nothing that can be reached may be left out, and the others may come in any order. -/
theorem collect_congr {targets others others' extra : List File} (hperm : others'.Perm (extra ++ others))
    (hdistinct : DistinctMessages (targets ++ others'))
    (hextra : ∀ file ∈ extra, ∀ q ∈ placesOf file, ¬ Reachable targets (targets ++ others') q) :
    collect targets others' = collect targets others := by
  have hplaces : ((targets ++ others').flatMap placesOf).Perm
      (extra.flatMap placesOf ++ (targets ++ others).flatMap placesOf) := perm_places hperm
  have hdistinct' : DistinctMessages (targets ++ others) := by
    rw [DistinctMessages, (hplaces.map _).nodup_iff, List.map_append] at hdistinct
    exact hdistinct.of_append_right
  -- all that can come up is what a message within reach refers to
  let T : Nat × String → Prop := fun t => ∃ p, Reachable targets (targets ++ others') p ∧
    ∃ f ∈ p.message.fields, messageTarget? f = some t
  have hreach : ∀ t, T t → ∀ q ∈ (targets ++ others').flatMap placesOf,
      (q.message.id, q.message.fullName) = t → Reachable targets (targets ++ others') q := by
    rintro t ⟨p, ⟨root, hroot, hpath⟩, f, hf, htarget⟩ q hq rfl
    exact ⟨root, hroot, hpath.tail ⟨hq, f, hf, htarget⟩⟩
  have hsame : ∀ t, T t → placeOf? ((targets ++ others').flatMap placesOf) t.1 t.2 =
      placeOf? ((targets ++ others).flatMap placesOf) t.1 t.2 := by
    intro t ht
    ext q
    rw [placeOf?_eq_some_iff hdistinct, placeOf?_eq_some_iff hdistinct']
    refine and_congr_left fun hq => ?_
    rw [hplaces.mem_iff, List.mem_append]
    constructor
    · rintro (hmem | hmem)
      · obtain ⟨file, hfile, hplace⟩ := List.mem_flatMap.1 hmem
        have hall := hplaces.mem_iff.2 (List.mem_append_left _ hmem)
        exact absurd (hreach t ht q hall hq) (hextra file hfile q hplace)
      · exact hmem
    · exact .inr
  rw [collect, collect]
  congr 1
  apply pull_congr _ hsame
  · intro t p ht hp f hf t' ht'
    obtain ⟨hmem, heq⟩ := (placeOf?_eq_some_iff hdistinct).1 hp
    exact ⟨p, hreach t ht p hmem heq, f, hf, ht'⟩
  · intro w hw t ht
    obtain ⟨p, hp, hmem⟩ := List.mem_flatMap.1 hw
    obtain ⟨f, hf, rfl⟩ := List.mem_map.1 hmem
    exact ⟨p, ⟨p, mem_of_mem_firstOfName hp, .refl⟩, f, hf, ht⟩

/-! ### What is kept -/

theorem messageTarget?_eq_some {f : Field} {id : Nat} {fullName : String} (h : messageTarget? f = some (id, fullName)) :
    f.kind = .message ∧ f.resolved = some (.message id fullName) := by
  unfold messageTarget? at h
  split at h
  · rename_i hkind hresolved
    obtain ⟨rfl, rfl⟩ := Prod.mk.inj (Option.some.inj h)
    exact ⟨hkind, hresolved⟩
  · cases h

/-- A message with a field that can be encoded along with what is kept is kept. -/
theorem mem_chosen_of_encodable {places : List Place} (hnodup : (namesOf places).Nodup) {p : Place} (hp : p ∈ places)
    (hentry : p.message.mapEntry = false) {f : Field} (hf : f ∈ p.message.fields)
    (hencodable : Encodable (nameSet (chosen places)) f) : p ∈ chosen places := by
  obtain ⟨rounds, hpruned, hstable, -⟩ := exists_rounds (candidates places)
  have hcandidate : p ∈ candidates places := List.mem_filter.2 ⟨hp, by rw [hentry]; rfl⟩
  have hnodup' : (namesOf (candidates places)).Nodup := hnodup.sublist (List.filter_sublist.map _)
  have hkept : Consistent (candidates places) (nameSet (chosen places)) := by
    rw [chosen, hpruned]
    exact consistent_of_stable hnodup' (iterate_sieve_sublist _ rounds) hstable
  -- with the name of the message added the set is still consistent, and no consistent set is greater
  have hmore : Consistent (candidates places) (insert p.message.fullName (nameSet (chosen places))) := by
    have hsub := Set.subset_insert p.message.fullName (nameSet (chosen places))
    have hnamed : p.message.fullName ∈ nameSet (candidates places) := List.mem_map.2 ⟨p, hcandidate, rfl⟩
    refine ⟨Set.insert_subset hnamed hkept.named, fun q hq hname => ?_⟩
    rcases hname with heq | hname
    · obtain rfl : q = p := List.inj_on_of_nodup_map hnodup' hq hcandidate heq
      exact ⟨f, hf, hencodable.mono hsub⟩
    · obtain ⟨g, hg, hheld⟩ := hkept.held q hq hname
      exact ⟨g, hg, hheld.mono hsub⟩
  have hname : p.message.fullName ∈ nameSet (chosen places) := by
    have hgreatest := (hmore.iterate_sieve rounds).named
    rw [chosen, hpruned] at hgreatest ⊢
    exact hgreatest (Set.mem_insert _ _)
  obtain ⟨q, hq, heq⟩ := List.mem_map.1 hname
  rwa [List.inj_on_of_nodup_map hnodup (mem_of_mem_chosen hq).1 hp heq] at hq

/-- What passes from the fields at hand to the messages they refer to, and on from each of those, holds of
all that is pulled in. -/
theorem forall_pulled {R : Place → Prop} {places pulled : List Place} {seen : List String} {work : List (String × Field)}
    (h : pull places seen work = .ok pulled)
    (hwork : ∀ w ∈ work, ∀ q, messageTarget? w.2 = some (q.message.id, q.message.fullName) → R q)
    (hstep : ∀ p ∈ pulled, R p → ∀ f ∈ p.message.fields, ∀ q,
      messageTarget? f = some (q.message.id, q.message.fullName) → R q) :
    ∀ q ∈ pulled, R q := by
  induction places, seen, work using pull.induct generalizing pulled with
  | case1 =>
    rw [pull] at h
    obtain rfl := Except.ok.inj h
    intro q hq
    cases hq
  | case2 places seen referrer f rest hnone ih =>
    rw [List.forall_mem_cons] at hwork
    rw [pull_of_no_target hnone] at h
    exact ih h hwork.2 hstep
  | case3 places seen referrer f rest id fullName htarget hseen ih =>
    rw [List.forall_mem_cons] at hwork
    rw [pull_of_known htarget hseen] at h
    exact ih h hwork.2 hstep
  | case4 places seen referrer f rest id fullName htarget hseen hmissing =>
    rw [pull_of_missing htarget hseen hmissing] at h
    cases h
  | case5 places seen referrer f rest id fullName htarget hseen p hfound hlt ih =>
    rw [List.forall_mem_cons] at hwork
    rw [pull_of_found htarget hseen hfound] at h
    obtain ⟨more, hmore, heq⟩ := bind_eq_ok.1 h
    obtain rfl := Except.ok.inj heq
    rw [List.forall_mem_cons] at hstep ⊢
    have hp : R p := hwork.1 p (by rw [htarget, (eq_of_placeOf? hfound).1, (eq_of_placeOf? hfound).2])
    refine ⟨hp, ih hmore ?_ hstep.2⟩
    intro w hw
    rcases List.mem_append.1 hw with hrest | hout
    · exact hwork.2 w hrest
    · obtain ⟨g, hg, rfl⟩ := List.mem_map.1 hout
      exact hstep.1 hp g hg

/-- The messages that are kept are those with the names that are kept. -/
theorem filter_of_sublist {kept places : List Place} (hsub : kept.Sublist places) (hnodup : (namesOf places).Nodup) :
    places.filter (fun p => p.message.fullName ∈ namesOf kept) = kept := by
  induction hsub with
  | slnil => rfl
  | @cons kept places p hsub ih =>
    obtain ⟨hnew, hnodup⟩ := List.nodup_cons.1 hnodup
    have hnot : p.message.fullName ∉ namesOf kept := fun hmem => hnew ((hsub.map _).subset hmem)
    rw [List.filter_cons_of_neg (by rwa [decide_eq_true_eq])]
    exact ih hnodup
  | @cons_cons kept places p hsub ih =>
    obtain ⟨hnew, hnodup⟩ := List.nodup_cons.1 hnodup
    have hself : p.message.fullName ∈ namesOf (p :: kept) := List.mem_cons_self
    rw [List.filter_cons_of_pos (by rwa [decide_eq_true_eq])]
    congr 1
    refine (List.filter_congr fun q hq => ?_).trans (ih hnodup)
    have hne : q.message.fullName ≠ p.message.fullName := fun heq => hnew (List.mem_map.2 ⟨q, hq, heq⟩)
    simp [namesOf, hne]

theorem exists_mem_firstOfName {seen : List String} {place : Place} {places : List Place} (hplace : place ∈ places)
    (hnew : place.message.fullName ∉ seen) :
    ∃ first ∈ firstOfName seen places, first.message.fullName = place.message.fullName := by
  induction places generalizing seen with
  | nil => cases hplace
  | cons head places ih =>
    rw [firstOfName]
    by_cases hname : head.message.fullName = place.message.fullName
    · rw [hname, if_neg (by rwa [List.contains_iff_mem])]
      exact ⟨head, List.mem_cons_self, hname⟩
    have hrest : place ∈ places := by
      rcases List.mem_cons.1 hplace with rfl | hrest
      · exact absurd rfl hname
      · exact hrest
    split
    · exact ih hrest hnew
    · have hnew' : place.message.fullName ∉ head.message.fullName :: seen := by
        rw [List.mem_cons, not_or]
        exact ⟨Ne.symm hname, hnew⟩
      obtain ⟨first, hfirst, heq⟩ := ih hrest hnew'
      exact ⟨first, List.mem_cons_of_mem _ hfirst, heq⟩

/-- What is pulled in stands in another file, under a name that no target file has. -/
theorem mem_others_of_pulled {targets others : List File} {pulled : List Place} {work : List (String × Field)}
    (h : pull ((targets ++ others).flatMap placesOf) (namesOf (firstOfName [] (targets.flatMap placesOf))) work =
      .ok pulled) {q : Place} (hq : q ∈ pulled) :
    q ∈ others.flatMap placesOf ∧ q.message.fullName ∉ namesOf (targets.flatMap placesOf) := by
  have hpulls := pulls_of_pull h
  have hname : q.message.fullName ∉ namesOf (targets.flatMap placesOf) := by
    intro hmem
    obtain ⟨place, hplace, heq⟩ := List.mem_map.1 hmem
    obtain ⟨first, hfirst, hfirst'⟩ := exists_mem_firstOfName hplace List.not_mem_nil
    refine hpulls.names.2 _ (List.mem_map_of_mem hq) (List.mem_map.2 ⟨first, hfirst, ?_⟩)
    exact hfirst'.trans heq
  have hmem := hpulls.mem hq
  rw [List.flatMap_append, List.mem_append] at hmem
  refine ⟨hmem.resolve_left fun hown => hname ?_, hname⟩
  exact List.mem_map_of_mem hown

/-- A message that is held by a root through messages of a list. -/
def HeldBy (kept roots : List Place) (q : Place) : Prop :=
  ∃ root ∈ roots, Relation.ReflTransGen (fun a b => a ∈ kept ∧ b ∈ kept ∧ Holds a b) root q

/-- A message that is kept is held, through others that are, by one of the target files. -/
theorem heldBy_of_mem_chosen {targets others : List File} {places : List Place}
    (h : collect targets others = .ok places) (hentries : ∀ p ∈ places, p.message.mapEntry = false) {q : Place}
    (hq : q ∈ chosen places) :
    HeldBy (chosen places) ((firstOfName [] (targets.flatMap placesOf)).filter
      fun p => p.message.fullName ∈ namesOf (chosen places)) q := by
  have hnodup := collect_names h
  obtain ⟨pulled, hpulled, heq⟩ := bind_eq_ok.1 h
  obtain rfl := Except.ok.inj heq
  generalize hown : firstOfName [] (targets.flatMap placesOf) = own at *
  generalize hkept : chosen (own ++ pulled) = kept at *
  -- whoever refers to a message that is kept is kept for it
  have hreferrer : ∀ p ∈ own ++ pulled, ∀ f ∈ p.message.fields, ∀ q ∈ kept,
      messageTarget? f = some (q.message.id, q.message.fullName) → p ∈ kept ∧ Holds p q := by
    intro p hp f hf q hq htarget
    obtain ⟨hkind, hresolved⟩ := messageTarget?_eq_some htarget
    have hname : q.message.fullName ∈ nameSet kept := List.mem_map.2 ⟨q, hq, rfl⟩
    rw [← hkept] at hname ⊢
    exact ⟨mem_chosen_of_encodable hnodup hp (hentries p hp) hf (.message hkind hresolved hname), f, hf, htarget⟩
  have hroot : ∀ p ∈ own, p ∈ kept → p ∈ own.filter fun p => p.message.fullName ∈ namesOf kept := by
    intro p hp hkept
    exact List.mem_filter.2 ⟨hp, decide_eq_true (List.mem_map_of_mem hkept)⟩
  rcases List.mem_append.1 (mem_of_mem_chosen (hkept ▸ hq)).1 with hq' | hq'
  · exact ⟨q, hroot q hq' hq, .refl⟩
  · refine forall_pulled (R := fun q => q ∈ kept → HeldBy kept _ q) hpulled ?_ ?_ q hq' hq
    · intro w hw q htarget hq
      obtain ⟨p, hp, hw⟩ := List.mem_flatMap.1 hw
      obtain ⟨f, hf, rfl⟩ := List.mem_map.1 hw
      obtain ⟨hmem, hholds⟩ := hreferrer p (List.mem_append_left _ hp) f hf q hq htarget
      exact ⟨p, hroot p hp hmem, .single ⟨hmem, hq, hholds⟩⟩
    · intro p hp hstep f hf q htarget hq
      obtain ⟨hmem, hholds⟩ := hreferrer p (List.mem_append_right _ hp) f hf q hq htarget
      obtain ⟨root, hroot, hpath⟩ := hstep hmem
      exact ⟨root, hroot, hpath.tail ⟨hmem, hq, hholds⟩⟩

/-- Where no map entry is collected, a run plans first the messages of the target files, in the order of their
declaration, and then messages of other files, each of which is held by way of messages that are planned,
starting with one of the target files. In what order the other files come, and what they hold that cannot
be reached from the target files, makes no difference to a run of any outcome. -/
theorem plan_needs_only_references (targets others : List File) :
    (∀ p plans after places, Yields (Planner.plan targets others) p plans after →
      collect targets others = .ok places → (∀ place ∈ places, place.message.mapEntry = false) →
      ∃ own pulled, List.Forall₂ (MessagePlan.Describes after (plans.map MessagePlan.fullName))
          (own ++ pulled) plans ∧
        own = (firstOfName [] (targets.flatMap placesOf)).filter
          (fun place => place.message.fullName ∈ plans.map MessagePlan.fullName) ∧
        (∀ q ∈ pulled, q ∈ others.flatMap placesOf ∧ q.message.fullName ∉ namesOf (targets.flatMap placesOf)) ∧
        ∀ q ∈ own ++ pulled, HeldBy (own ++ pulled) own q) ∧
    ∀ others' extra, others'.Perm (extra ++ others) → DistinctMessages (targets ++ others') →
      (∀ file ∈ extra, ∀ q ∈ placesOf file, ¬ Reachable targets (targets ++ others') q) →
        Planner.plan targets others' = Planner.plan targets others := by
  refine ⟨fun p plans after places h hplaces hentries => ?_, fun others' extra hperm hdistinct hextra => ?_⟩
  · obtain ⟨_, hcollect, hplans⟩ := Planner.plan_yields h
    obtain rfl := Except.ok.inj (hplaces.symm.trans hcollect)
    have hheld := fun q => heldBy_of_mem_chosen hplaces hentries (q := q)
    have hkept := filter_of_sublist ((chosen_sublist places).trans List.filter_sublist) (collect_names hplaces)
    obtain ⟨pulled, hpulled, heq⟩ := bind_eq_ok.1 hplaces
    obtain rfl := Except.ok.inj heq
    rw [List.filter_append] at hkept
    rw [fullNames_of_describes hplans]
    generalize hown : firstOfName [] (targets.flatMap placesOf) = own at *
    refine ⟨_, pulled.filter fun q => q.message.fullName ∈ namesOf (chosen (own ++ pulled)), ?_, rfl, fun q hq => ?_, ?_⟩
    · rw [hkept]
      exact hplans
    · rw [← hown] at hpulled
      exact mem_others_of_pulled hpulled (List.mem_of_mem_filter hq)
    · rw [hkept]
      exact hheld
  · rw [Planner.plan, Planner.plan, collect_congr hperm hdistinct hextra]

end MessageCodec.Plan

/-! ### A sample

A letter holds a stamp, which an office declares inside itself. The office has features of its own, and its
file has others. -/

namespace MessageCodec.Sample

open Schema Plan Planning

def featured (name setting : String) : Value := .mapping [("features", .mapping [(name, .text setting)])]

def letterFile : File where
  name := "letter.proto"
  package := some "mail"
  dialect := .editions
  messages := [
    { id := 0, name := "Letter", fullName := "mail.Letter", fields := [
        { name := "weight", number := 1, kind := .scalar, scalar := some ScalarType.int32.name },
        refersTo "stamp" 2 2 "mail.Office.Stamp"] }]
  options := featured "field_presence" "IMPLICIT"

def stamp : Message where
  id := 2
  name := "Stamp"
  fullName := "mail.Office.Stamp"
  fields := [
    { name := "codes", number := 1, cardinality := .repeated, kind := .scalar, scalar := some ScalarType.int32.name },
    { name := "price", number := 2, kind := .scalar, scalar := some ScalarType.int32.name }]

def officeFile : File where
  name := "office.proto"
  package := some "mail"
  dialect := .editions
  messages := [{ id := 1, name := "Office", fullName := "mail.Office", nested := [stamp],
                 options := featured "repeated_field_encoding" "expanded" }]
  options := featured "field_presence" "Implicit"

def weatherFile : File where
  name := "weather.proto"
  messages := [{ id := 3, name := "Rain", fullName := "Rain", fields := [refersTo "stamp" 1 2 "mail.Office.Stamp"] }]

def mailPlaces : List Place := placesOf letterFile ++ (placesOf officeFile).drop 1

def mailPlans : List MessagePlan := [
  { name := "Letter", fullName := "mail.Letter", symbol := "Letter", dialect := .editions,
    fileName := some "letter.proto", fields := [
      { name := "weight", number := 1, kind := .scalar, scalar := some ScalarType.int32.name,
        jsonName := some "weight", default := .int 0 },
      { name := "stamp", number := 2, kind := .message, child := some "mail.Office.Stamp", jsonName := some "stamp",
        presence := true }] },
  { name := "Stamp", fullName := "mail.Office.Stamp", symbol := "OfficeStamp", dialect := .editions,
    fileName := some "office.proto", fields := [
      { name := "codes", number := 1, kind := .scalar, scalar := some ScalarType.int32.name, repeated := true,
        jsonName := some "codes", default := .list [] },
      { name := "price", number := 2, kind := .scalar, scalar := some ScalarType.int32.name,
        jsonName := some "price", default := .int 0 }] }]

def mailSymbols (count : Nat) : Naming.Resolver where
  rules := .standard
  symbols := [("mail.Letter", "Letter"), ("mail.Office.Stamp", "OfficeStamp")].take count
  taken := ["MessageHandler", "get_message_handlers", "messages", "Letter", "OfficeStamp"].take (3 + count)

theorem collect_mail : collect [letterFile] [officeFile] = .ok mailPlaces := by
  have hstamp : placeOf? (([letterFile] ++ [officeFile]).flatMap placesOf) 2 "mail.Office.Stamp" =
      some ⟨stamp, officeFile, officeFile.messages⟩ := rfl
  have hwork : ((firstOfName [] ([letterFile].flatMap placesOf)).flatMap fun p => outgoing p.message) =
      [("mail.Letter", { name := "weight", number := 1, kind := .scalar, scalar := some ScalarType.int32.name }),
       ("mail.Letter", refersTo "stamp" 2 2 "mail.Office.Stamp")] := rfl
  rw [collect, hwork, pull_of_no_target rfl, pull_of_found rfl (by decide) hstamp, pull_of_seen]
  · rfl
  · decide

private theorem chosen_mail : chosen mailPlaces = mailPlaces := by
  rw [chosen, prune, if_neg (by decide)]
  rfl

private theorem register_mail : Yields (mailPlaces.forM Planner.register) planner ()
    { planner with resolver := mailSymbols 2 } := by
  have hletter : (mailSymbols 0).register "mail.Letter" ""
      (Planner.wantedSymbol {} (some "mail") "mail.Letter") = .ok ("Letter", mailSymbols 1) :=
    eq_ok_of_toOption (by decide)
  have hstamp : (mailSymbols 1).register "mail.Office.Stamp" ""
      (Planner.wantedSymbol {} (some "mail") "mail.Office.Stamp") = .ok ("OfficeStamp", mailSymbols 2) :=
    eq_ok_of_toOption (by decide)
  refine yields_bind.2 ⟨_, _, Planner.register_yields hletter, ?_⟩
  exact yields_bind.2 ⟨_, _, Planner.register_yields hstamp, yields_pure.2 ⟨rfl, rfl⟩⟩

theorem plan_mail : ∃ after, Yields (Planner.plan [letterFile] [officeFile]) planner mailPlans after := by
  have hentries : (prune (candidates mailPlaces)).2 = [] := by
    rw [prune, if_neg (by decide)]
  have hmessages : ∃ after, Yields (mailPlaces.mapM (Planner.message (namesOf mailPlaces)))
      { planner with resolver := mailSymbols 2 } mailPlans after := ⟨_, rfl⟩
  obtain ⟨after, hafter⟩ := hmessages
  refine ⟨after, Planner.yields_plan collect_mail chosen_mail ?_ hafter⟩
  rw [hentries]
  exact register_mail

/-- Only the letter and the stamp can be reached from the file of the letter. -/
theorem id_of_reachable_mail {q : Place} (h : Reachable [letterFile] [letterFile, weatherFile, officeFile] q) :
    q ∈ [letterFile, weatherFile, officeFile].flatMap placesOf ∧ (q.message.id = 0 ∨ q.message.id = 2) := by
  obtain ⟨root, hroot, hpath⟩ := h
  have htargets : ∀ p ∈ [letterFile, weatherFile, officeFile].flatMap placesOf, p.message.id = 0 ∨ p.message.id = 2 →
      ∀ f ∈ p.message.fields, ∀ target ∈ messageTarget? f, target.1 = 2 := by decide
  induction hpath with
  | refl =>
    obtain rfl := List.mem_singleton.1 hroot
    exact ⟨List.mem_cons_self, .inl rfl⟩
  | tail hp hstep ih =>
    obtain ⟨hq, f, hf, htarget⟩ := hstep
    exact ⟨hq, .inr (htargets _ ih.1 ih.2 f hf _ htarget)⟩

theorem plan_needs_only_references_mail :
    (∃ after, Yields (Planner.plan [letterFile] [officeFile]) planner mailPlans after ∧
      ∃ own pulled, List.Forall₂ (MessagePlan.Describes after ["mail.Letter", "mail.Office.Stamp"])
          (own ++ pulled) mailPlans ∧
        own = placesOf letterFile ∧
        (∀ q ∈ pulled, q ∈ [officeFile].flatMap placesOf ∧
          q.message.fullName ∉ namesOf ([letterFile].flatMap placesOf)) ∧
        ∀ q ∈ own ++ pulled, HeldBy (own ++ pulled) own q) ∧
    Planner.plan [letterFile] [weatherFile, officeFile] = Planner.plan [letterFile] [officeFile] := by
  obtain ⟨after, hplans⟩ := plan_mail
  obtain ⟨hkept, hsame⟩ := plan_needs_only_references [letterFile] [officeFile]
  obtain ⟨own, pulled, hdescribes, hown, hothers, hheld⟩ := hkept _ _ _ _ hplans collect_mail (by decide)
  refine ⟨⟨after, hplans, own, pulled, hdescribes, hown, hothers, hheld⟩, ?_⟩
  apply hsame [weatherFile, officeFile] [weatherFile] (List.Perm.refl _)
  · rw [DistinctMessages]
    decide
  · intro file hfile q hq hreachable
    obtain rfl := List.mem_singleton.1 hfile
    obtain rfl := List.mem_singleton.1 hq
    exact absurd (id_of_reachable_mail hreachable).2 (by decide)

end MessageCodec.Sample
