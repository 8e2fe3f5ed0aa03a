import MessageCodec.Value.Access

/-!
# Tables and entries by key

What every operation on tables and on the entries of a message does to the value under a key. The keys
of a field are written together, so the lists under them stay equal.
-/

namespace MessageCodec

namespace Table

variable {α : Type}

theorem get?_cons (e : String × α) (rest : Table α) (key : String) :
    get? (e :: rest) key = if e.1 = key then some e.2 else get? rest key := by
  rw [get?, List.find?_cons]
  by_cases h : e.1 = key
  · rw [if_pos h, beq_iff_eq.2 h]
    rfl
  · rw [if_neg h, beq_false_of_ne h]
    rfl

theorem get?_put (t : Table α) (key : String) (v : α) (other : String) :
    (t.put key v).get? other = if key = other then some v else t.get? other := by
  induction t with
  | nil => exact get?_cons _ _ _
  | cons e rest ih =>
    rw [put]
    by_cases h : e.1 = key
    · rw [if_pos (beq_iff_eq.2 h), get?_cons, get?_cons, h]
      by_cases hother : key = other
      · rw [if_pos hother, if_pos hother]
      · rw [if_neg hother, if_neg hother, if_neg hother]
    · rw [if_neg (by simpa using h), get?_cons, get?_cons, ih]
      by_cases hother : key = other
      · subst hother
        rw [if_neg h, if_pos rfl, if_pos rfl]
      · rw [if_neg hother, if_neg hother]

theorem has_eq_isSome (t : Table α) (key : String) : t.has key = (t.get? key).isSome := by
  induction t with
  | nil => rfl
  | cons e rest ih =>
    rw [has, List.any_cons, get?_cons]
    by_cases h : e.1 = key
    · rw [if_pos h, beq_iff_eq.2 h]
      rfl
    · rw [if_neg h, beq_false_of_ne h, Bool.false_or, ← ih, has]

theorem mem_put {t : Table α} {key : String} {v : α} {e : String × α} (h : e ∈ t.put key v) : e ∈ t ∨ e = (key, v) := by
  induction t with
  | nil => exact .inr (List.mem_singleton.1 h)
  | cons first rest ih =>
    rw [put] at h
    split at h
    · rcases List.mem_cons.1 h with heq | hmem
      · exact .inr heq
      · exact .inl (List.mem_cons_of_mem _ hmem)
    · rcases List.mem_cons.1 h with heq | hmem
      · exact .inl (heq ▸ List.mem_cons_self)
      · exact (ih hmem).imp_left (List.mem_cons_of_mem _)

theorem map_put {β : Type} (g : α → β) (t : Table α) (key : String) (v : α) :
    (t.put key v).map (fun e => (e.1, g e.2)) = put (t.map fun e => (e.1, g e.2)) key (g v) := by
  induction t with
  | nil => rfl
  | cons e rest ih =>
    rw [put, List.map_cons, put]
    split
    · rfl
    · rw [List.map_cons, ih]

/-- A value is put behind the entries with other keys. -/
theorem put_append {front : Table α} {key : String} (h : ∀ e ∈ front, e.1 ≠ key) (rest : Table α) (v : α) :
    put (front ++ rest) key v = front ++ rest.put key v := by
  induction front with
  | nil => rfl
  | cons e front ih =>
    rw [List.forall_mem_cons] at h
    rw [List.cons_append, put, if_neg (by simpa using h.1), ih h.2, List.cons_append]

theorem get?_append {front : Table α} {key : String} (h : ∀ e ∈ front, e.1 ≠ key) (rest : Table α) :
    get? (front ++ rest) key = get? rest key := by
  induction front with
  | nil => rfl
  | cons e front ih =>
    rw [List.forall_mem_cons] at h
    rw [List.cons_append, get?_cons, if_neg h.1, ih h.2]

theorem mem_of_get? {t : Table α} {key : String} {v : α} (h : t.get? key = some v) : (key, v) ∈ t := by
  obtain ⟨e, he, rfl⟩ := Option.map_eq_some_iff.1 h
  have hkey := List.find?_some he
  rw [beq_iff_eq] at hkey
  rw [← hkey]
  exact List.mem_of_find?_eq_some he

/-- Where keys are distinct, a pair of the table is what its key gives. -/
theorem get?_of_mem {t : Table α} (hnodup : (t.map Prod.fst).Nodup) {key : String} {v : α} (h : (key, v) ∈ t) :
    t.get? key = some v := by
  induction t with
  | nil => simp at h
  | cons e rest ih =>
    rw [List.map_cons, List.nodup_cons] at hnodup
    rw [get?_cons]
    rcases List.mem_cons.1 h with rfl | hrest
    · exact if_pos rfl
    · rw [if_neg, ih hnodup.2 hrest]
      intro hkey
      exact hnodup.1 (List.mem_map.2 ⟨_, hrest, hkey.symm⟩)

/-- Where keys are distinct, the order of the pairs does not matter. -/
theorem get?_of_perm {t u : Table α} (hperm : t.Perm u) (hnodup : (u.map Prod.fst).Nodup) (key : String) :
    t.get? key = u.get? key := by
  have hnodup' : (t.map Prod.fst).Nodup := (hperm.map Prod.fst).nodup_iff.2 hnodup
  apply Option.ext
  intro v
  exact ⟨fun h => get?_of_mem hnodup (hperm.mem_iff.1 (mem_of_get? h)),
    fun h => get?_of_mem hnodup' (hperm.mem_iff.2 (mem_of_get? h))⟩

/-- A key that has a value keeps it. -/
theorem get?_putNew (t : Table α) (key : String) (v : α) (other : String) :
    (t.putNew key v).get? other = (t.get? other).or (if key = other then some v else none) := by
  have hsingle : get? [(key, v)] other = if key = other then some v else none := get?_cons _ _ _
  rw [putNew]
  split
  · rename_i hhas
    rw [has_eq_isSome] at hhas
    by_cases h : key = other
    · subst h
      rw [Option.or_of_isSome hhas]
    · rw [if_neg h, Option.or_none]
  · rw [← hsingle, get?, get?, get?, List.find?_append, Option.map_or]

theorem nodup_putNew {t : Table α} (h : (t.map Prod.fst).Nodup) (key : String) (v : α) :
    ((t.putNew key v).map Prod.fst).Nodup := by
  rw [putNew]
  split
  · exact h
  · rename_i hnew
    rw [Bool.not_eq_true, has, List.any_eq_false] at hnew
    rw [List.map_append, List.nodup_append]
    refine ⟨h, by simp, ?_⟩
    rintro _ hold _ hkey rfl
    obtain ⟨e, he, heq⟩ := List.mem_map.1 hold
    rw [List.map_singleton, List.mem_singleton] at hkey
    exact hnew e he (by rw [heq, hkey, beq_self_eq_true])

theorem nodup_put {t : Table α} (h : (t.map Prod.fst).Nodup) (key : String) (v : α) :
    ((t.put key v).map Prod.fst).Nodup := by
  induction t with
  | nil => simp [put]
  | cons e rest ih =>
    rw [List.map_cons, List.nodup_cons] at h
    rw [put]
    split
    · rename_i hkey
      rw [List.map_cons, List.nodup_cons, ← beq_iff_eq.1 hkey]
      exact h
    · rename_i hkey
      rw [List.map_cons, List.nodup_cons]
      refine ⟨?_, ih h.2⟩
      intro hmem
      obtain ⟨found, hfound, heq⟩ := List.mem_map.1 hmem
      rcases mem_put hfound with hrest | hnew
      · exact h.1 (List.mem_map.2 ⟨found, hrest, heq⟩)
      · exact hkey (by rw [← heq, hnew, beq_self_eq_true])

/-! ### Tables from pairs -/

private theorem get?_foldl_put (pairs : List (String × α)) (t : Table α) (key : String) :
    (pairs.foldl (fun t p => t.put p.1 p.2) t).get? key = (get? pairs.reverse key).or (t.get? key) := by
  induction pairs generalizing t with
  | nil => rfl
  | cons p pairs ih =>
    have hlast : get? (pairs.reverse ++ [p]) key = (get? pairs.reverse key).or (get? [p] key) := by
      rw [get?, get?, get?, List.find?_append, Option.map_or]
    rw [List.foldl_cons, ih, get?_put, List.reverse_cons, hlast, Option.or_assoc, get?_cons]
    split
    · rfl
    · rfl

/-- Of several values under a key the last one is found. -/
theorem get?_ofPairs (pairs : List (String × α)) (key : String) :
    (ofPairs pairs).get? key = get? pairs.reverse key := by
  rw [ofPairs, get?_foldl_put]
  exact Option.or_none

/-- A value is found where it is the only one under its key. -/
theorem get?_ofPairs_of_unique {pairs : List (String × α)} {key : String} {v : α} (hmem : (key, v) ∈ pairs)
    (hunique : ∀ p ∈ pairs, p.1 = key → p.2 = v) : (ofPairs pairs).get? key = some v := by
  rw [get?_ofPairs, get?]
  cases hfind : pairs.reverse.find? fun p => p.1 == key with
  | none =>
    rw [List.find?_eq_none] at hfind
    exact absurd (beq_self_eq_true key) (hfind _ (List.mem_reverse.2 hmem))
  | some p =>
    have hkey := List.find?_some hfind
    rw [Option.map_some, hunique p (List.mem_reverse.1 (List.mem_of_find?_eq_some hfind)) (beq_iff_eq.1 hkey)]

theorem nodup_ofPairs (pairs : List (String × α)) : ((ofPairs pairs).map Prod.fst).Nodup := by
  have hstep : ∀ t : Table α, (t.map Prod.fst).Nodup →
      ((pairs.foldl (fun t p => t.put p.1 p.2) t).map Prod.fst).Nodup := by
    induction pairs with
    | nil => exact fun t ht => ht
    | cons p pairs ih => exact fun t ht => ih (t.put p.1 p.2) (nodup_put ht p.1 p.2)
  exact hstep [] List.nodup_nil

private theorem foldl_put_of_nodup {pairs : List (String × α)} {t : Table α}
    (h : (t.map Prod.fst ++ pairs.map Prod.fst).Nodup) :
    pairs.foldl (fun table p => table.put p.1 p.2) t = t ++ pairs := by
  induction pairs generalizing t with
  | nil => simp
  | cons p pairs ih =>
    have hnew : ∀ e ∈ t, e.1 ≠ p.1 := by
      intro e he
      exact (List.nodup_append.1 h).2.2 _ (List.mem_map_of_mem he) _ List.mem_cons_self
    have hput := put_append hnew [] p.2
    rw [List.append_nil] at hput
    rw [List.foldl_cons, hput, ih (by simpa [put] using h), List.append_assoc]
    rfl

theorem ofPairs_of_nodup {pairs : List (String × α)} (h : (pairs.map Prod.fst).Nodup) : ofPairs pairs = pairs := by
  rw [ofPairs, foldl_put_of_nodup (by simpa using h), List.nil_append]

end Table

namespace Entries

open Table

theorem get?_assign (keys : List String) (entries : Entries) (v : Value) (key : String) :
    (entries.assign keys v).get? key = if key ∈ keys then some v else entries.get? key := by
  induction keys generalizing entries with
  | nil => rfl
  | cons first rest ih =>
    rw [assign, List.foldl_cons, ← assign, ih, get?_put]
    by_cases hrest : key ∈ rest
    · rw [if_pos hrest, if_pos (List.mem_cons_of_mem _ hrest)]
    · by_cases hfirst : first = key
      · subst hfirst
        rw [if_neg hrest, if_pos rfl, if_pos List.mem_cons_self]
      · have hnot : key ∉ first :: rest := by
          rw [List.mem_cons, not_or]
          exact ⟨fun h => hfirst h.symm, hrest⟩
        rw [if_neg hrest, if_neg hfirst, if_neg hnot]

theorem assign_append {front : Entries} {keys : List String} (h : ∀ e ∈ front, e.1 ∉ keys) (rest : Entries) (v : Value) :
    Entries.assign keys (front ++ rest) v = front ++ rest.assign keys v := by
  induction keys generalizing rest with
  | nil => rfl
  | cons key keys ih =>
    have hkey : ∀ e ∈ front, e.1 ≠ key := fun e he heq => h e he (heq ▸ List.mem_cons_self)
    rw [assign, List.foldl_cons, put_append hkey]
    exact ih (fun e he hmem => h e he (List.mem_cons_of_mem _ hmem)) _

/-- A row of entries with the keys that a value is put under. -/
theorem assign_row {keys : List String} (hkeys : keys.Nodup) (old v : Value) (rest : Entries) :
    Entries.assign keys (keys.map (fun key => (key, old)) ++ rest) v = keys.map (fun key => (key, v)) ++ rest := by
  induction keys with
  | nil => rfl
  | cons key keys ih =>
    rw [List.nodup_cons] at hkeys
    have hput : Table.put ((key, old) :: (keys.map (fun key => (key, old)) ++ rest)) key v =
        [(key, v)] ++ (keys.map (fun key => (key, old)) ++ rest) := by
      rw [put, if_pos (beq_self_eq_true key)]
      rfl
    have hfront : ∀ e ∈ [(key, v)], e.1 ∉ keys := by
      rw [List.forall_mem_singleton]
      exact hkeys.1
    rw [List.map_cons, List.cons_append, assign, List.foldl_cons, hput, ← assign, assign_append hfront, ih hkeys.2]
    rfl

/-- New keys come last. -/
theorem assign_nil {keys : List String} (hkeys : keys.Nodup) (v : Value) :
    Entries.assign keys [] v = keys.map fun key => (key, v) := by
  induction keys with
  | nil => rfl
  | cons key keys ih =>
    rw [List.nodup_cons] at hkeys
    have hfront : ∀ e ∈ [(key, v)], e.1 ∉ keys := by
      rw [List.forall_mem_singleton]
      exact hkeys.1
    rw [assign, List.foldl_cons, put, ← List.append_nil [(key, v)], ← assign, assign_append hfront, ih hkeys.2]
    rfl

/-- Of several values that are put under the same keys the last one stays. -/
theorem get?_foldl_assign (keys : List String) (entries : Entries) (values : List Value) (key : String) :
    (values.foldl (fun acc v => Entries.assign keys acc v) entries).get? key =
      if key ∈ keys then values.getLast?.or (entries.get? key) else entries.get? key := by
  induction values generalizing entries with
  | nil => simp
  | cons v rest ih =>
    rw [List.foldl_cons, ih, get?_assign, List.getLast?_cons]
    by_cases h : key ∈ keys
    · rw [if_pos h, if_pos h, if_pos h]
      cases rest.getLast? <;> rfl
    · rw [if_neg h, if_neg h, if_neg h]

theorem get?_appendOne {key : String} {entries after : Entries} {values : List Value}
    (h : entries.appendOne key values = some after) {other : String} (hother : other ≠ key) :
    after.get? other = entries.get? other := by
  unfold appendOne at h
  split at h
  · rw [← Option.some.inj h, get?_put, if_neg hother.symm]
  · rw [← Option.some.inj h, get?_put, if_neg hother.symm]
  · simp at h

/-- Appending leaves every other key alone. -/
theorem get?_append_of_not_mem {keys : List String} {entries after : Entries} {values : List Value}
    (h : entries.append keys values = .ok after) {other : String} (hother : other ∉ keys) :
    after.get? other = entries.get? other := by
  induction keys generalizing entries with
  | nil =>
    obtain rfl := Except.ok.inj h
    rfl
  | cons key rest ih =>
    rw [List.mem_cons, not_or] at hother
    rw [append] at h
    split at h
    · rename_i mid hmid
      rw [ih h hother.2, get?_appendOne hmid hother.1]
    · simp at h

/-- Where all the keys hold one list, or nothing, appending puts the longer list under each of them. -/
theorem append_eq_assign {keys : List String} (hkeys : keys.Nodup) {entries : Entries} {held : Option (List Value)}
    (h : ∀ key ∈ keys, entries.get? key = held.map .list) (values : List Value) :
    entries.append keys values = .ok (entries.assign keys (.list (held.getD [] ++ values))) := by
  induction keys generalizing entries with
  | nil => rfl
  | cons key rest ih =>
    rw [List.nodup_cons] at hkeys
    have hone : entries.appendOne key values = some (entries.put key (.list (held.getD [] ++ values))) := by
      rw [appendOne, h key List.mem_cons_self]
      cases held <;> rfl
    rw [append, hone, assign, List.foldl_cons]
    apply ih hkeys.2
    intro other hother
    rw [get?_put, if_neg (fun hsame : key = other => hkeys.1 (hsame ▸ hother))]
    exact h other (List.mem_cons_of_mem _ hother)

theorem append_of_held {keys : List String} (hkeys : keys.Nodup) {entries : Entries} {held : Option (List Value)}
    (h : ∀ key ∈ keys, entries.get? key = held.map .list) (values : List Value) :
    ∃ after, entries.append keys values = .ok after ∧
      ∀ key ∈ keys, after.get? key = some (.list (held.getD [] ++ values)) := by
  refine ⟨_, append_eq_assign hkeys h values, fun key hkey => ?_⟩
  rw [get?_assign, if_pos hkey]

/-- Where appending succeeds, every key holds what it held before and the new elements. -/
theorem get?_append_of_mem {keys : List String} (hkeys : keys.Nodup) {entries after : Entries} {values : List Value}
    (h : entries.append keys values = .ok after) {key : String} (hkey : key ∈ keys) :
    after.get? key = some (.list (((entries.get? key).map Value.items).getD [] ++ values)) := by
  induction keys generalizing entries with
  | nil => simp at hkey
  | cons first rest ih =>
    rw [List.nodup_cons] at hkeys
    rw [append] at h
    split at h
    · rename_i mid hmid
      rcases List.mem_cons.1 hkey with rfl | hmem
      · rw [get?_append_of_not_mem h hkeys.1]
        unfold appendOne at hmid
        split at hmid
        · rename_i hnone
          rw [← Option.some.inj hmid, get?_put, if_pos rfl, hnone]
          rfl
        · rename_i items hsome
          rw [← Option.some.inj hmid, get?_put, if_pos rfl, hsome]
          rfl
        · simp at hmid
      · rw [ih hkeys.2 h hmem, get?_appendOne hmid (fun heq => hkeys.1 (heq ▸ hmem))]
    · simp at h

theorem get?_fillDefault (first : String) (rest : List String) (entries : Entries) (v : Value) (key : String) :
    (entries.fillDefault (first :: rest) v).get? key =
      if key ∈ first :: rest ∧ entries.get? first = none then some v else entries.get? key := by
  rw [fillDefault, has_eq_isSome]
  cases hfirst : entries.get? first with
  | none =>
    rw [Option.isSome_none, if_neg (by simp), get?_assign]
    simp
  | some w => simp

theorem get?_fillDefault_of_not_mem {keys : List String} {key : String} (h : key ∉ keys) (entries : Entries)
    (v : Value) : (entries.fillDefault keys v).get? key = entries.get? key := by
  cases keys with
  | nil => rfl
  | cons first rest =>
    rw [get?_fillDefault, if_neg]
    exact fun hmem => h hmem.1

theorem get?_attachUnknown (entries : Entries) (unknown : List UInt8) (key : String) :
    (entries.attachUnknown unknown).get? key =
      if key = unknownKey ∧ unknown ≠ [] then some (.text (Base64.encodeText unknown)) else entries.get? key := by
  cases unknown with
  | nil => simp [attachUnknown]
  | cons b rest =>
    rw [attachUnknown, List.isEmpty_cons, if_neg (by simp), get?_put]
    by_cases h : unknownKey = key
    · rw [if_pos h, if_pos ⟨h.symm, by simp⟩]
    · rw [if_neg h, if_neg (fun hmem => h hmem.1.symm)]

theorem get?_attachUnknown_of_ne {key : String} (h : key ≠ unknownKey) (entries : Entries) (unknown : List UInt8) :
    (entries.attachUnknown unknown).get? key = entries.get? key := by
  rw [get?_attachUnknown, if_neg (fun hand => h hand.1)]

end Entries

end MessageCodec
