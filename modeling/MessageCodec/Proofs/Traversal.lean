import Mathlib.Data.List.Lex
import Mathlib.Logic.ExistsUnique
import MessageCodec.Schema.Walk

/-!
# The order of a walk

A walk with a stack comes to the messages of a file in the order of the recursion: a message, then what is inside
it, then what is declared after it. What the stack holds at any time, whatever levels it comes from, is still to be
walked through from the top on. The order is said on its own by addresses. An address goes into the declarations by
their places, so it tells two messages apart that are declared alike, and the walk comes to each address once, to
the ones around it before and to the ones beside it in order of declaration.
-/

namespace MessageCodec.Schema

/-! ### By a stack and by recursion -/

theorem Message.sizeOf_lt_of_mem_nested {m n : Message} (h : n ∈ m.nested) : sizeOf n < sizeOf m := by
  have hlt := List.sizeOf_lt_of_mem h
  cases m
  simp only [Message.mk.sizeOf_spec] at *
  omega

/-- A message, then the walks through the messages inside it in order of declaration. -/
def Message.preorder (m : Message) : List Message := m :: m.nested.flatMap fun n => n.preorder
termination_by sizeOf m
decreasing_by exact sizeOf_lt_of_mem_nested ‹_›

/-- A stack holds what is still to be walked through, the top first. -/
theorem unstack_eq_preorder (stack : List Message) : unstack stack = stack.flatMap Message.preorder := by
  induction stack using unstack.induct with
  | case1 => rw [unstack, List.flatMap_nil]
  | case2 m rest ih =>
    rw [unstack, ih, List.flatMap_append, List.flatMap_cons, Message.preorder, List.cons_append]

mutual

theorem Message.map_fst_placed (around : List Message) :
    (m : Message) → (m.placed around).map Prod.fst = m.preorder
  | ⟨id, name, fullName, fields, nested, enums, oneofs, options, mapEntry⟩ => by
    rw [Message.placed, Message.preorder, List.map_cons, map_fst_placedIn _ nested]

theorem map_fst_placedIn (around : List Message) :
    (ms : List Message) → (placedIn around ms).map Prod.fst = ms.flatMap Message.preorder
  | [] => by rw [placedIn, List.map_nil, List.flatMap_nil]
  | m :: rest => by
    rw [placedIn, List.map_append, Message.map_fst_placed around m, map_fst_placedIn around rest, List.flatMap_cons]

end

/-! ### Addresses -/

/-- Where a message stands: the places of the declarations to go into, from the outside in. -/
abbrev Address := List Nat

def Message.at? (m : Message) : Address → Option Message
  | [] => some m
  | i :: p => m.nested[i]?.bind fun n => n.at? p

/-- The message at an address among the messages of a list and those inside them. -/
def messageAt? (ms : List Message) : Address → Option Message
  | [] => none
  | i :: p => ms[i]?.bind fun m => m.at? p

/-- The first address is around the second, or it is at or inside a declaration beside which the second is at or
inside a later one. -/
inductive Precedes : Address → Address → Prop
  | around {p q : Address} (h : q ≠ []) : Precedes p (p ++ q)
  | beside {p q r : Address} {i j : Nat} (h : i < j) : Precedes (p ++ i :: q) (p ++ j :: r)

theorem Precedes.cons {p q : Address} (i : Nat) (h : Precedes p q) : Precedes (i :: p) (i :: q) := by
  cases h with
  | around h => exact around (p := i :: p) h
  | @beside p q r j k h => exact beside (p := i :: p) h

theorem precedes_iff_lex {p q : Address} : Precedes p q ↔ List.Lex (· < ·) p q := by
  constructor
  · intro h
    cases h with
    | @around _ q h =>
      obtain ⟨i, q, rfl⟩ := List.exists_cons_of_ne_nil h
      rw [← List.append_nil p, List.append_assoc]
      exact .append_left _ .nil p
    | beside h => exact .append_left _ (.rel h) _
  · intro h
    induction h with
    | nil => exact .around (p := []) (List.cons_ne_nil _ _)
    | cons _ ih => exact ih.cons _
    | rel h => exact .beside (p := []) h

theorem Precedes.asymm {p q : Address} (h : Precedes p q) : ¬ Precedes q p := by
  rw [precedes_iff_lex] at h ⊢
  exact Std.Asymm.asymm _ _ h

theorem Precedes.ne {p q : Address} (h : Precedes p q) : p ≠ q := by
  rintro rfl
  exact h.asymm h

/-- In a list in order, addresses are in the order of their positions. -/
theorem precedes_iff_lt {addresses : List Address} (h : addresses.Pairwise Precedes) {i j : Nat} {p q : Address}
    (hi : addresses[i]? = some p) (hj : addresses[j]? = some q) : Precedes p q ↔ i < j := by
  obtain ⟨hilt, rfl⟩ := List.getElem?_eq_some_iff.1 hi
  obtain ⟨hjlt, rfl⟩ := List.getElem?_eq_some_iff.1 hj
  rw [List.pairwise_iff_getElem] at h
  refine ⟨fun hpq => ?_, h i j hilt hjlt⟩
  rcases Nat.lt_trichotomy i j with hlt | rfl | hgt
  · exact hlt
  · exact absurd rfl hpq.ne
  · exact absurd hpq (h j i hjlt hilt hgt).asymm

/-! ### The addresses of a walk -/

/-- All addresses of messages, each once and in order, and the messages at them. -/
structure Enumerates (find : Address → Option Message) (addresses : List Address) (ms : List Message) : Prop where
  messages : addresses.map find = ms.map some
  complete : ∀ p m, find p = some m → p ∈ addresses
  ordered : addresses.Pairwise Precedes

private theorem Enumerates.exists_message {find : Address → Option Message} {addresses : List Address}
    {ms : List Message}
    (h : Enumerates find addresses ms) {p : Address} (hp : p ∈ addresses) : ∃ m, find p = some m := by
  have hfind := List.mem_map_of_mem (f := find) hp
  rw [h.messages] at hfind
  obtain ⟨m, -, hm⟩ := List.mem_map.1 hfind
  exact ⟨m, hm.symm⟩

theorem Enumerates.once {find : Address → Option Message} {addresses : List Address} {ms : List Message}
    (h : Enumerates find addresses ms) {p : Address} {m : Message} (hm : find p = some m) :
    ∃! i : Nat, addresses[i]? = some p := by
  obtain ⟨i, hi⟩ := List.mem_iff_getElem?.1 (h.complete p m hm)
  refine ⟨i, hi, fun j hj => ?_⟩
  -- at two positions the address would come before itself
  have hbefore : ¬ j < i := fun hlt => ((precedes_iff_lt h.ordered hj hi).2 hlt).ne rfl
  have hafter : ¬ i < j := fun hlt => ((precedes_iff_lt h.ordered hi hj).2 hlt).ne rfl
  omega

/-- Among the messages of a list none has the empty address. -/
theorem Enumerates.ne_nil {forest ms : List Message} {addresses : List Address}
    (h : Enumerates (messageAt? forest) addresses ms) {p : Address} (hp : p ∈ addresses) : p ≠ [] := by
  rintro rfl
  obtain ⟨m, hm⟩ := h.exists_message hp
  cases hm

theorem Enumerates.nil : Enumerates (messageAt? []) [] [] where
  messages := rfl
  complete p m hm := by
    cases p <;> cases hm
  ordered := .nil

theorem Enumerates.message {m : Message} {addresses : List Address} {ms : List Message}
    (h : Enumerates (messageAt? m.nested) addresses ms) : Enumerates m.at? ([] :: addresses) (m :: ms) where
  messages := by
    have hinside : addresses.map m.at? = addresses.map (messageAt? m.nested) := by
      apply List.map_congr_left
      intro p hp
      obtain ⟨i, p, rfl⟩ := List.exists_cons_of_ne_nil (h.ne_nil hp)
      rfl
    rw [List.map_cons, List.map_cons, hinside, h.messages]
    rfl
  complete p n hn := by
    cases p with
    | nil => exact List.mem_cons_self
    | cons i p => exact List.mem_cons_of_mem _ (h.complete (i :: p) n hn)
  ordered := List.pairwise_cons.2 ⟨fun p hp => .around (p := []) (h.ne_nil hp), h.ordered⟩

/-- The same address among declarations that one more comes before. -/
def Address.later : Address → Address := List.modifyHead (· + 1)

theorem Precedes.later {p q : Address} (h : Precedes p q) : Precedes p.later q.later := by
  rw [precedes_iff_lex] at h ⊢
  cases h with
  | nil => exact .nil
  | cons h => exact .cons h
  | rel h => exact .rel (Nat.succ_lt_succ h)

theorem Enumerates.cons {m : Message} {rest xs ys : List Message} {ps qs : List Address}
    (hm : Enumerates m.at? ps xs) (hrest : Enumerates (messageAt? rest) qs ys) :
    Enumerates (messageAt? (m :: rest)) (ps.map (0 :: ·) ++ qs.map Address.later) (xs ++ ys) where
  messages := by
    have hfirst : messageAt? (m :: rest) ∘ (0 :: ·) = m.at? := rfl
    have hlater : messageAt? (m :: rest) ∘ Address.later = messageAt? rest := by
      funext p
      cases p <;> rfl
    rw [List.map_append, List.map_map, List.map_map, hfirst, hlater, hm.messages, hrest.messages, List.map_append]
  complete p n hn := by
    match p with
    | 0 :: p => exact List.mem_append_left _ (List.mem_map_of_mem (hm.complete p n hn))
    | (i + 1) :: p => exact List.mem_append_right _ (List.mem_map.2 ⟨i :: p, hrest.complete (i :: p) n hn, rfl⟩)
  ordered := by
    rw [List.pairwise_append, List.pairwise_map, List.pairwise_map]
    refine ⟨hm.ordered.imp (Precedes.cons 0), hrest.ordered.imp Precedes.later, fun p hp q hq => ?_⟩
    obtain ⟨p, -, rfl⟩ := List.mem_map.1 hp
    obtain ⟨q, hlater, rfl⟩ := List.mem_map.1 hq
    obtain ⟨i, q, rfl⟩ := List.exists_cons_of_ne_nil (hrest.ne_nil hlater)
    exact .beside (p := []) (Nat.succ_pos i)

theorem exists_enumerates {forest : List Message}
    (h : ∀ m ∈ forest, ∃ addresses, Enumerates m.at? addresses m.preorder) :
    ∃ addresses, Enumerates (messageAt? forest) addresses (forest.flatMap Message.preorder) := by
  induction forest with
  | nil => exact ⟨[], .nil⟩
  | cons m rest ih =>
    rw [List.forall_mem_cons] at h
    obtain ⟨ps, hps⟩ := h.1
    obtain ⟨qs, hqs⟩ := ih h.2
    exact ⟨_, hps.cons hqs⟩

theorem Message.exists_enumerates (m : Message) : ∃ addresses, Enumerates m.at? addresses m.preorder := by
  obtain ⟨addresses, h⟩ := Schema.exists_enumerates fun n (hn : n ∈ m.nested) => n.exists_enumerates
  rw [preorder]
  exact ⟨_, h.message⟩
termination_by sizeOf m
decreasing_by exact sizeOf_lt_of_mem_nested hn

/-- The walk with a stack is the walk by recursion, and the walk that knows the messages around each one comes to
them in the same order. It comes to each message of the file, told by its address, exactly once, after the messages
around it and before what is declared after it or after one of them. -/
theorem allMessages_preorder (f : File) :
    f.allMessages = f.messages.flatMap Message.preorder ∧ f.placed.map Prod.fst = f.allMessages ∧
      ∃ addresses : List Address, addresses.map (messageAt? f.messages) = f.allMessages.map some ∧
        (∀ p m, messageAt? f.messages p = some m → ∃! i : Nat, addresses[i]? = some p) ∧
        ∀ (i j : Nat) (p q : Address), addresses[i]? = some p → addresses[j]? = some q → (Precedes p q ↔ i < j) := by
  have hstack : f.allMessages = f.messages.flatMap Message.preorder := unstack_eq_preorder f.messages
  obtain ⟨addresses, h⟩ := exists_enumerates fun m (_ : m ∈ f.messages) => m.exists_enumerates
  rw [hstack]
  exact ⟨rfl, map_fst_placedIn [] f.messages, addresses, h.messages, fun p m => h.once,
    fun i j p q => precedes_iff_lt h.ordered⟩

end MessageCodec.Schema
