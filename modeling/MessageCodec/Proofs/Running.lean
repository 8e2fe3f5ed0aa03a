import MessageCodec.Codec.Loaded
import MessageCodec.Proofs.Layout
import MessageCodec.Proofs.Progress
import MessageCodec.Proofs.Stems
import MessageCodec.Proofs.Totality

/-!
# What a loaded package does

The functions of a package do what the codecs of its plans do, unless something stops them: there is no room for
another level, or a name that a module needs has been bound to something else. `Plan.Unshadowed` says when no name
has been, and then a package runs as the codecs for every value and all bytes that there is room for.

So an encoder fails for three reasons and no others: the digit limit, the room, and a name that is hidden.
-/

namespace MessageCodec

open Codec Source Wire

/-! ### Depth -/

namespace Value

theorem depth_le_depthOfItems (printed : Bool) {items : List Value} {v : Value} (h : v ∈ items) :
    v.depth printed ≤ depthOfItems printed items := by
  induction items with
  | nil => cases h
  | cons item items ih =>
    rw [depthOfItems]
    rcases List.mem_cons.1 h with rfl | h
    · exact le_max_left _ _
    · exact le_max_of_le_right (ih h)

private theorem depth_le_depthOfEntries (printed : Bool) {entries : List (String × Value)} {e : String × Value}
    (h : e ∈ entries) : e.2.depth printed ≤ depthOfEntries printed entries := by
  induction entries with
  | nil => cases h
  | cons entry entries ih =>
    rw [depthOfEntries]
    rcases List.mem_cons.1 h with rfl | h
    · obtain ⟨key, v⟩ := e
      exact le_max_left _ _
    · exact le_max_of_le_right (ih h)

private theorem depth_lt_of_member? {v w : Value} {key : String} (h : v.member? key = some w) :
    w.depth false < v.depth false := by
  unfold member? at h
  split at h
  · rw [depth]
    exact Nat.lt_succ_of_le (depth_le_depthOfEntries false (Table.mem_of_get? h))
  · rw [depth, if_neg (by simp)]
    exact Nat.lt_succ_of_le (depth_le_depthOfEntries false (Table.mem_of_get? h))
  · cases h

theorem depth_lt_of_field? {keys : List String} {v w : Value} (h : v.field? keys = some w) :
    w.depth false < v.depth false := by
  unfold field? at h
  obtain ⟨key, -, hkey⟩ := List.exists_of_findSome?_eq_some h
  split at hkey
  · rename_i u hu
    split at hkey
    · cases hkey
    · exact Option.some.inj hkey ▸ depth_lt_of_member? hu
  · cases hkey

theorem depth_le_of_mem_items {v w : Value} (h : w ∈ v.items) : w.depth false ≤ v.depth false := by
  unfold items at h
  split at h
  · cases h
  · rw [depth]
    exact Nat.le_succ_of_le (depth_le_depthOfItems false h)
  · rw [depth]
    exact Nat.le_succ_of_le (depth_le_depthOfItems false h)
  · rw [depth, if_neg (by simp)]
    exact Nat.le_succ_of_le (depth_le_depthOfItems false h)
  · rw [List.mem_singleton.1 h]

mutual

/-- A value that is printed has no more levels than it has. -/
theorem depth_printed_le : (v : Value) → v.depth true ≤ v.depth false
  | list items | tuple items => by
    rw [depth, depth]
    exact Nat.succ_le_succ (depthOfItems_printed_le items)
  | mapping entries => by
    rw [depth, depth]
    exact Nat.succ_le_succ (depthOfEntries_printed_le entries)
  | stream items => by
    rw [depth, if_pos rfl]
    exact Nat.zero_le _
  | object attributes => by
    rw [depth, if_pos rfl]
    exact Nat.zero_le _
  | null | bool _ | int _ | float _ | text _ | bytes _ | decimal _ => Nat.le_refl _

theorem depthOfItems_printed_le : (items : List Value) → depthOfItems true items ≤ depthOfItems false items
  | [] => Nat.le_refl _
  | v :: rest => max_le_max (depth_printed_le v) (depthOfItems_printed_le rest)

theorem depthOfEntries_printed_le :
    (entries : List (String × Value)) → depthOfEntries true entries ≤ depthOfEntries false entries
  | [] => Nat.le_refl _
  | e :: rest => max_le_max (depthOfEntry_printed_le e) (depthOfEntries_printed_le rest)

theorem depthOfEntry_printed_le : (e : String × Value) → depthOfEntry true e ≤ depthOfEntry false e
  | (_, v) => depth_printed_le v

end

end Value

theorem Codec.Field.depth_le_of_mem_itemsOf (f : Field) {w item : Value} (h : item ∈ f.itemsOf w) :
    item.depth false ≤ w.depth false := by
  rw [Field.itemsOf] at h
  split at h
  · exact Value.depth_le_of_mem_items h
  · rw [List.mem_singleton.1 h]

/-! ### Computations that may be stopped -/

/-- A computation ends as another does, unless it is stopped with an error as described. -/
def Tracks (E : Error → Prop) {α : Type} (x y : Except Error α) : Prop := x = y ∨ ∃ e, x = .error e ∧ E e

namespace Tracks

variable {E F : Error → Prop} {α β : Type}

theorem refl (x : Except Error α) : Tracks E x x := .inl rfl

theorem stopped {e : Error} (he : E e) (y : Except Error α) : Tracks E (.error e) y := .inr ⟨e, rfl, he⟩

theorem imp {x y : Except Error α} (h : Tracks E x y) (hE : ∀ e, E e → F e) : Tracks F x y := by
  rcases h with heq | ⟨e, heq, he⟩
  · exact .inl heq
  · exact .inr ⟨e, heq, hE e he⟩

theorem bind {x y : Except Error α} {f g : α → Except Error β} (h : Tracks E x y)
    (hf : ∀ a, y = .ok a → Tracks E (f a) (g a)) : Tracks E (x >>= f) (y >>= g) := by
  rcases h with rfl | ⟨e, rfl, he⟩
  · cases x with
    | error e => exact .refl _
    | ok a => exact hf a rfl
  · exact .stopped he _

/-- What comes next goes on from the result. -/
theorem ok_bind {x : Except Error α} {a : α} {f : α → Except Error β} {y : Except Error β} (h : Tracks E x (.ok a))
    (hf : Tracks E (f a) y) : Tracks E (x >>= f) y := by
  rcases h with rfl | ⟨e, rfl, he⟩
  · exact hf
  · exact .stopped he _

theorem mapM {f g : α → Except Error β} {as : List α} (h : ∀ a ∈ as, Tracks E (f a) (g a)) :
    Tracks E (as.mapM f) (as.mapM g) := by
  induction as with
  | nil => exact .refl _
  | cons a as ih =>
    obtain ⟨ha, has⟩ := List.forall_mem_cons.1 h
    rw [List.mapM_cons, List.mapM_cons]
    apply ha.bind
    intro b _
    apply (ih has).bind
    intro bs _
    exact .refl _

theorem eq {x y : Except Error α} (h : Tracks E x y) (hE : ∀ e, ¬ E e) : x = y := by
  rcases h with heq | ⟨e, -, he⟩
  · exact heq
  · exact absurd he (hE e)

theorem fails {x y : Except Error α} (h : Tracks E x y) (hy : FailsOnly E y) : FailsOnly E x := by
  rcases h with rfl | ⟨e, rfl, he⟩
  · exact hy
  · exact .error he

end Tracks

/-! ### Encoders and decoders with a decoder of their own for the messages in a message -/

namespace Codecs

variable {E : Error → Prop} {cs : Codecs} {c : Codec}

private theorem tracks_encodeValue {child : String → Value → Except Error (List UInt8)} {room : Nat} {f : Field}
    {w : Value} (hnest : ∀ item ∈ f.itemsOf w, room < item.depth true → E .nestedTooDeep)
    (hchild : ∀ name, f.type = .message name → ∃ inner, cs.codec? name = some inner ∧
      ∀ item ∈ f.itemsOf w, Tracks E (child name item) (cs.encode inner item)) :
    Tracks E (f.encodeBy child room w) (cs.encodeValue f w) := by
  unfold Field.encodeBy encodeValue
  cases htype : f.type with
  | element type =>
    dsimp only
    split
    · rename_i htoo
      rw [Bool.and_eq_true, List.any_eq_true] at htoo
      obtain ⟨-, item, hitem, hlt⟩ := htoo
      exact .stopped (hnest item hitem (of_decide_eq_true hlt)) _
    · exact .refl _
  | message name =>
    dsimp only
    obtain ⟨inner, hinner, hitems⟩ := hchild name htype
    rw [show cs.child name = .ok inner by rw [Codecs.child, hinner], ok_bind]
    refine Tracks.bind (Tracks.mapM fun item hitem => ?_) fun _ _ => .refl _
    unfold encodeItem
    split
    · exact .refl _
    · exact (hitems item hitem).bind fun _ _ => .refl _

theorem tracks_encodeBy {child : String → Value → Except Error (List UInt8)} {room : Nat} {v : Value}
    (hnest : room < v.depth false → E .nestedTooDeep)
    (hchild : ∀ f ∈ c.fields, ∀ name, f.type = .message name → ∃ inner, cs.codec? name = some inner ∧
      ∀ item : Value, item.depth false < v.depth false → Tracks E (child name item) (cs.encode inner item)) :
    Tracks E (c.encodeBy child room v) (cs.encode c v) := by
  rw [Codec.encodeBy]
  split
  · rename_i hnull
    rw [encode, if_pos hnull]
    exact .refl _
  rw [encode_eq]
  refine Tracks.bind (Tracks.mapM fun f hf => ?_) fun _ _ => .refl _
  rw [encodeField]
  split
  · rename_i hfield
    rw [hfield]
    exact .refl _
  rename_i w hfield
  rw [hfield]
  have hlt := Value.depth_lt_of_field? hfield
  apply tracks_encodeValue
  · intro item hitem htoo
    have hle := f.depth_le_of_mem_itemsOf hitem
    have hprinted := item.depth_printed_le
    exact hnest (by omega)
  · intro name htype
    obtain ⟨inner, hinner, hitems⟩ := hchild f hf name htype
    refine ⟨inner, hinner, fun item hitem => hitems item ?_⟩
    have hle := f.depth_le_of_mem_itemsOf hitem
    omega

end Codecs

namespace Codec

variable {E : Error → Prop} {c : Codec} {child child' : String → List UInt8 → Except Error Value}

/-- Turns go equally far, and differ only where the message in a record does. -/
theorem tracks_turnBy {g : Gathered} {data : List UInt8}
    (h : ∀ f ∈ c.fields, ∀ name, f.type = .message name → ∀ payload : List UInt8, payload.length < data.length →
      Tracks E (child name payload) (child' name payload)) :
    (c.turnBy child g data = none ∧ c.turnBy child' g data = none) ∨
      ∃ taken taken' after, c.turnBy child g data = some (taken, after) ∧
        c.turnBy child' g data = some (taken', after) ∧ Tracks E taken taken' := by
  have hsame (x : Option (Except Error Gathered × List UInt8)) : (x = none ∧ x = none) ∨
      ∃ taken taken' after, x = some (taken, after) ∧ x = some (taken', after) ∧ Tracks E taken taken' := by
    cases x with
    | none => exact .inl ⟨rfl, rfl⟩
    | some found => exact .inr ⟨found.1, found.1, found.2, rfl, rfl, .refl _⟩
  rw [turnBy, turnBy]
  cases htag : readTag data with
  | none => exact .inl ⟨rfl, rfl⟩
  | some found =>
    obtain ⟨⟨number, code⟩, rest⟩ := found
    have hrest := readTag_advances _ _ _ htag
    dsimp only [Option.bind_eq_bind, Option.bind_some]
    split
    · exact hsame _
    · exact hsame _
    · rename_i f name harm
      obtain ⟨hf, harm⟩ := arm?_some harm
      cases hread : readDelimited rest with
      | none => exact .inl ⟨rfl, rfl⟩
      | some block =>
        obtain ⟨payload, after⟩ := block
        have hlt := readDelimited_lt hread
        refine .inr ⟨_, _, after, rfl, rfl, Tracks.bind ?_ fun _ _ => .refl _⟩
        exact h f hf name (Field.type_of_arm?_message harm) payload (by omega)
    · exact hsame _

theorem tracks_gatherBy {g : Gathered} {data : List UInt8}
    (h : ∀ f ∈ c.fields, ∀ name, f.type = .message name → ∀ payload : List UInt8, payload.length < data.length →
      Tracks E (child name payload) (child' name payload)) :
    Tracks E (c.gatherBy child g data) (c.gatherBy child' g data) := by
  induction hn : data.length using Nat.strongRecOn generalizing data g with
  | _ n ih =>
    rw [gatherBy_eq, gatherBy_eq]
    rcases tracks_turnBy h with ⟨hnone, hnone'⟩ | ⟨taken, taken', after, hturn, hturn', htaken⟩
    · rw [hnone, hnone']
      exact .refl _
    · rw [hturn, hturn']
      have hlt := turnBy_lt hturn
      refine htaken.bind fun g' _ => ih after.length (by omega) ?_ rfl
      exact fun f hf name htype payload hpayload => h f hf name htype payload (by omega)

end Codec

/-! ### Names that modules bind -/

/-- No name that the modules of a package need is bound to anything else: neither the runtime nor a message is named
after what a package has anyway, and no function of a message is named as a message that it holds is imported. -/
structure Plan.Unshadowed (settings : Settings) (plans : List MessagePlan) : Prop where
  runtime : settings.runtimeModule ∉ packageAttributes ++ registryNames
  symbols : ∀ m ∈ plans, m.symbol ∉ packageAttributes
  aliases : ∀ m ∈ plans, ∀ f ∈ m.fields, ∀ child ∈ plans, f.child = some child.fullName →
    aliasOf child.symbol ∉ [m.symbol ++ "Encode", m.symbol ++ "Decode"]

instance (settings : Settings) (plans : List MessagePlan) : Decidable (Plan.Unshadowed settings plans) :=
  decidable_of_iff (settings.runtimeModule ∉ packageAttributes ++ registryNames ∧
      (∀ m ∈ plans, m.symbol ∉ packageAttributes) ∧
      ∀ m ∈ plans, ∀ f ∈ m.fields, ∀ child ∈ plans, f.child = some child.fullName →
        aliasOf child.symbol ∉ [m.symbol ++ "Encode", m.symbol ++ "Decode"])
    ⟨fun h => ⟨h.1, h.2.1, h.2.2⟩, fun h => ⟨h.runtime, h.symbols, h.aliases⟩⟩

namespace Source

theorem aliasOf_inj {s t : String} (h : aliasOf s = aliasOf t) : s = t := by
  have hlist := congrArg String.toList h
  rw [aliasOf, aliasOf, String.toList_append, String.toList_append] at hlist
  exact String.toList_injective (List.append_cancel_left hlist)

namespace Emitter

variable {e : Emitter} {imported : List String}

/-- What tells the names of a module apart: the names of constants go on with a capital after an underscore. -/
theorem constantNames_second {f : FieldPlan} {name : String} (h : name ∈ e.constantNames f) :
    name.toList[1]? ∈ [some 'K', some 'O', some 'E'] := by
  have hfirst : ∀ a ∈ affixes, a.1.toList[1]? ∈ [some 'K', some 'O', some 'E'] := by decide
  obtain ⟨a, ha, rfl⟩ := exists_affixes h
  rw [second_of_affixes ha]
  exact hfirst a ha

theorem second_aliasOf (s : String) : (aliasOf s).toList[1]? = some 'm' := by simp [aliasOf]

/-- What a name stands for that goes on as the names of imports do: nothing but a function may take its place. -/
theorem import_of_second {b : String × Binding} (h : b ∈ e.bindings imported)
    (hsecond : b.1.toList[1]? ∈ [some 'p', some 'm']) (hfunctions : b.1 ∉ [e.encodeName, e.decodeName]) :
    (b.1 = "_pb" ∧ (e.settings.runtimeModule ∉ packageAttributes ++ registryNames → b.2 = .runtime)) ∨
    ∃ s ∈ imported, b.1 = aliasOf s ∧ (s ∉ packageAttributes → b.2 = .message s) := by
  have happart : ∀ c ∈ [some 'K', some 'O', some 'E'], c ∉ [some 'p', some 'm'] := by decide
  simp only [bindings, List.mem_append, List.mem_map, List.mem_flatMap, List.mem_cons, List.not_mem_nil,
    or_false] at h
  rcases h with (((rfl | ⟨s, hs, rfl⟩) | rfl) | ⟨name, ⟨f, -, hname⟩, rfl⟩) | rfl | rfl | rfl
  · refine .inl ⟨rfl, fun hname => if_neg ?_⟩
    rwa [List.contains_iff_mem]
  · refine .inr ⟨s, hs, rfl, fun hname => if_neg ?_⟩
    rwa [List.contains_iff_mem]
  · exact absurd hsecond (by decide)
  · exact absurd hsecond (happart _ (constantNames_second hname))
  · exact absurd List.mem_cons_self hfunctions
  · exact absurd (List.mem_cons_of_mem _ List.mem_cons_self) hfunctions
  · exact absurd hsecond (by decide)

/-- The functions of a message are named after what they do, and `_pb` does not end so. -/
private theorem runtime_not_function (e : Emitter) : "_pb" ∉ [e.encodeName, e.decodeName] := by
  have hlast {back : String} (hback : back.toList.getLast? = some 'e') : "_pb" ≠ e.message.symbol ++ back := by
    intro heq
    have hend := congrArg (List.getLast? ∘ String.toList) heq
    rw [Function.comp_apply, Function.comp_apply, String.toList_append, List.getLast?_append, hback,
      Option.some_or] at hend
    exact absurd hend (by decide)
  rw [List.mem_pair, not_or]
  exact ⟨hlast rfl, hlast rfl⟩

theorem get?_runtime (h : e.settings.runtimeModule ∉ packageAttributes ++ registryNames) :
    (Table.ofPairs (e.bindings imported)).get? "_pb" = some .runtime := by
  apply Table.get?_ofPairs_of_unique
  · rw [bindings, if_neg (by rwa [List.contains_iff_mem])]
    simp
  intro b hb hkey
  rcases import_of_second hb (hkey ▸ by decide) (hkey ▸ runtime_not_function e) with ⟨-, hruntime⟩ | ⟨s, -, halias, -⟩
  · exact hruntime h
  · have hsecond := second_aliasOf s
    rw [← halias, hkey] at hsecond
    cases hsecond

theorem get?_aliasOf {s : String} (hs : s ∈ imported) (hname : s ∉ packageAttributes)
    (hfunctions : aliasOf s ∉ [e.encodeName, e.decodeName]) :
    (Table.ofPairs (e.bindings imported)).get? (aliasOf s) = some (.message s) := by
  have hsecond := second_aliasOf s
  apply Table.get?_ofPairs_of_unique
  · have hmem : (aliasOf s, Binding.message s) ∈
        imported.map fun s => (aliasOf s, if packageAttributes.contains s then .attribute else .message s) :=
      List.mem_map.2 ⟨s, hs, by rw [if_neg (by rwa [List.contains_iff_mem])]⟩
    rw [bindings]
    simp only [List.mem_append]
    exact .inl (.inl (.inl (.inr hmem)))
  intro b hb hkey
  rcases import_of_second hb (by rw [hkey, hsecond]; decide) (hkey ▸ hfunctions) with ⟨hpb, -⟩ | ⟨t, -, halias, ht⟩
  · rw [← hkey, hpb] at hsecond
    cases hsecond
  · obtain rfl := aliasOf_inj (halias.symm.trans hkey)
    exact ht hname

theorem load_eq_ok {names : Table Binding} (h : e.load = .ok names) :
    ∃ imported, e.imported = .ok imported ∧ names = Table.ofPairs (e.bindings imported) := by
  obtain ⟨imported, himported, hrest⟩ := bind_eq_ok.1 h
  refine ⟨imported, himported, ?_⟩
  dsimp only at hrest
  split at hrest
  · cases hrest
  split at hrest
  · cases hrest
  split at hrest
  · cases hrest
  exact (Except.ok.inj hrest).symm

end Emitter

end Source

/-! ### Packages -/

theorem Codecs.symbol_of_codecOf {settings : Settings} {m : MessagePlan} {c : Codec} (h : codecOf settings m = .ok c) :
    c.symbol = m.symbol := by
  obtain ⟨fields, -, heq⟩ := bind_eq_ok.1 h
  rw [← Except.ok.inj heq]

theorem Codecs.exists_child_of_codecOf {settings : Settings} {m : MessagePlan} {c : Codec}
    (h : codecOf settings m = .ok c) {f : Field} (hf : f ∈ c.fields) {name : String} (htype : f.type = .message name) :
    ∃ g ∈ m.fields, g.kind = .message ∧ g.child = some name := by
  obtain ⟨fields, hfields, heq⟩ := bind_eq_ok.1 h
  obtain rfl := Except.ok.inj heq
  obtain ⟨g, hg, hfield⟩ := exists_of_forall₂ (mapM_eq_ok.1 hfields) hf
  obtain ⟨type, hholds, heq⟩ := bind_eq_ok.1 hfield
  obtain rfl := Except.ok.inj heq
  obtain rfl : type = .message name := htype
  refine ⟨g, hg, ?_⟩
  unfold fieldType at hholds
  split at hholds
  · rename_i hkind
    split at hholds
    · rename_i child hchild
      rw [hchild, FieldType.message.inj (Except.ok.inj hholds)]
      exact ⟨hkind, rfl⟩
    · cases hholds
  · split at hholds <;> cases hholds
  · obtain ⟨_, -, heq⟩ := bind_eq_ok.1 hholds
    cases heq

/-- A message that a message holds is the message itself, or its module is imported. -/
theorem Source.Emitter.exists_import {settings : Settings} {plans : List MessagePlan} (hclosed : Plan.Closed plans)
    {m : MessagePlan} (hm : m ∈ plans) {g : FieldPlan} (hg : g ∈ m.fields) (hkind : g.kind = .message)
    {imported : List String} (himported : (moduleOf settings plans m).imported = .ok imported) :
    ∃ inner ∈ plans, g.child = some inner.fullName ∧ (inner.symbol = m.symbol ∨ inner.symbol ∈ imported) := by
  have hknows : (moduleOf settings plans m).Knows plans := fun m' hm' => get?_symbolsOf hclosed.names hm'
  obtain ⟨inner, hinner, hchild, hsymbol⟩ := childSymbol_ok hknows (hclosed.fields m hm g hg) hkind
  obtain ⟨children, hchildren, hlinks⟩ := imported_ok hknows fun f hf => hclosed.fields m hm f hf
  obtain rfl := Except.ok.inj (hchildren.symm.trans himported)
  have hmessage : g ∈ (moduleOf settings plans m).message.fields.filter fun f => f.kind = .message :=
    List.mem_filter.2 ⟨hg, decide_eq_true hkind⟩
  exact ⟨inner, hinner, hchild, hlinks.covers g hmessage _ hsymbol⟩

namespace Package

/-- Why a function of a package stops: it has no room for the levels that it is given, or a name is hidden. -/
inductive Stopped (settings : Settings) (plans : List MessagePlan) (room levels : Nat) : Error → Prop
  | nesting (h : room ≤ levels) : Stopped settings plans room levels .nestedTooDeep
  | hidden {name : String} (h : ¬ Plan.Unshadowed settings plans) :
      Stopped settings plans room levels (.notAModule name)

/-- What stops a function that is called stops the one that calls it. -/
theorem Stopped.outside {settings : Settings} {plans : List MessagePlan} {room room' levels levels' : Nat} {e : Error}
    (h : Stopped settings plans room levels e) (hle : room ≤ levels → room' ≤ levels') :
    Stopped settings plans room' levels' e := by
  cases h with
  | nesting h => exact .nesting (hle h)
  | hidden h => exact .hidden h

/-- There is room for the levels and no name is hidden, so nothing stops. -/
theorem not_stopped {settings : Settings} {plans : List MessagePlan} (hnames : Plan.Unshadowed settings plans)
    {room levels : Nat} (hroom : levels < room) (e : Error) : ¬ Stopped settings plans room levels e := by
  intro h
  cases h with
  | nesting h => omega
  | hidden h => exact h hnames

section

variable {settings : Settings} {plans : List MessagePlan} (hclosed : Plan.Closed plans) {p : Package}
  (hp : load settings plans = .ok p)

include hclosed hp

theorem ofPlans_of_load : Codecs.ofPlans settings plans = .ok p.codecs ∧
    List.Forall₂ (fun m entry => entry.1 = m.fullName ∧ ∃ imported,
      (moduleOf settings plans m).imported = .ok imported ∧
      entry.2 = Table.ofPairs ((moduleOf settings plans m).bindings imported)) plans p.names := by
  rw [load, ofPairs_symbols hclosed.names] at hp
  dsimp only at hp
  split at hp
  · cases hp
  obtain ⟨names, hnames, hrest⟩ := bind_eq_ok.1 hp
  obtain ⟨codecs, hcodecs, heq⟩ := bind_eq_ok.1 hrest
  obtain rfl := Except.ok.inj heq
  refine ⟨hcodecs, (mapM_eq_ok.1 hnames).imp fun m entry hentry => ?_⟩
  obtain ⟨bound, hbound, heq⟩ := bind_eq_ok.1 hentry
  obtain rfl := Except.ok.inj heq
  exact ⟨rfl, Emitter.load_eq_ok hbound⟩

/-- What the names of a module stand for. -/
theorem exists_bindings {m : MessagePlan} (hm : m ∈ plans) :
    ∃ imported, (moduleOf settings plans m).imported = .ok imported ∧ ∀ c : Codec, c.fullName = m.fullName →
      ∀ name, p.binding? c name = (Table.ofPairs ((moduleOf settings plans m).bindings imported)).get? name := by
  obtain ⟨-, hnames⟩ := ofPlans_of_load hclosed hp
  have hkeys : p.names.map Prod.fst = plans.map MessagePlan.fullName := by
    rw [← List.forall₂_eq_eq_eq, List.forall₂_map_left_iff, List.forall₂_map_right_iff]
    exact hnames.flip.imp fun _ _ h => h.1
  obtain ⟨⟨fullName, names⟩, hentry, rfl, imported, himported, rfl⟩ := exists_of_forall₂ hnames.flip hm
  refine ⟨imported, himported, fun c hc name => ?_⟩
  rw [binding?, hc, Table.get?_of_mem (hkeys ▸ hclosed.names) hentry, Option.bind_some]

theorem exists_plan {c : Codec} (hc : c ∈ p.codecs.codecs) : ∃ m ∈ plans, Codecs.codecOf settings m = .ok c :=
  exists_of_forall₂ (Codecs.ofPlans_eq_ok.1 (ofPlans_of_load hclosed hp).1).2 hc

theorem tracks_enter {c : Codec} (hc : c ∈ p.codecs.codecs) (room levels : Nat) :
    Tracks (Stopped settings plans room levels) (p.enter c) (.ok ()) := by
  obtain ⟨m, hm, hcodec⟩ := exists_plan hclosed hp hc
  obtain ⟨imported, -, hbinding⟩ := exists_bindings hclosed hp hm
  rw [enter]
  split
  · exact .refl _
  · rename_i hother
    refine .stopped (.hidden fun hnames => hother ?_) _
    rw [hbinding c (Codecs.fullName_of_codecOf hcodec), Emitter.get?_runtime hnames.runtime]

/-- The function of a message that a message holds is found under the name of its module. -/
theorem tracks_call {c : Codec} (hc : c ∈ p.codecs.codecs) {f : Field} (hf : f ∈ c.fields) {name : String}
    (htype : f.type = .message name) (room levels : Nat) :
    ∃ inner ∈ p.codecs.codecs, p.codecs.codec? name = some inner ∧
      Tracks (Stopped settings plans room levels) (p.call c name) (.ok inner) := by
  obtain ⟨m, hm, hcodec⟩ := exists_plan hclosed hp hc
  obtain ⟨g, hg, hkind, hchild⟩ := Codecs.exists_child_of_codecOf hcodec hf htype
  obtain ⟨imported, himported, hbinding⟩ := exists_bindings hclosed hp hm
  obtain ⟨m', hm', hchild', himport⟩ := Emitter.exists_import hclosed hm hg hkind himported
  obtain rfl : m'.fullName = name := Option.some.inj (hchild'.symm.trans hchild)
  obtain ⟨cs, hcs, -, hcodecs⟩ := Codecs.exists_writable settings hclosed
  obtain rfl := Except.ok.inj (hcs.symm.trans (ofPlans_of_load hclosed hp).1)
  obtain ⟨inner, hinner, hready, hfound⟩ := hcodecs m' hm'
  refine ⟨inner, hinner, hfound, ?_⟩
  rw [call, Codecs.child, hfound, ok_bind]
  split
  · exact .refl _
  · rename_i hother
    refine .stopped (.hidden fun hnames => hother ?_) _
    rw [Codecs.symbol_of_codecOf hready, Codecs.symbol_of_codecOf hcodec, Bool.or_eq_true, decide_eq_true_eq,
      decide_eq_true_eq]
    refine himport.imp_right fun hmem => ?_
    rw [hbinding c (Codecs.fullName_of_codecOf hcodec)]
    exact Emitter.get?_aliasOf hmem (hnames.symbols m' hm') (hnames.aliases m hm g hg m' hm' hchild)

/-- An encoder of a package does as the codecs do, unless it is stopped. The induction is on the room. -/
theorem tracks_encode (room : Nat) {c : Codec} (hc : c ∈ p.codecs.codecs) (v : Value) :
    Tracks (Stopped settings plans room (v.depth false)) (p.encode room c v) (p.codecs.encode c v) := by
  induction room generalizing c v with
  | zero => exact .stopped (.nesting (Nat.zero_le _)) _
  | succ room ih =>
    rw [encode]
    apply (tracks_enter hclosed hp hc _ _).ok_bind
    apply Codecs.tracks_encodeBy
    · exact fun htoo => .nesting htoo
    intro f hf name htype
    obtain ⟨inner, hinner, hfound, hcall⟩ := tracks_call hclosed hp hc hf htype (room + 1) (v.depth false)
    refine ⟨inner, hfound, fun item hitem => hcall.ok_bind ?_⟩
    exact (ih hinner item).imp fun e he => he.outside (by omega)

/-- A decoder of a package does as the codecs do, unless it is stopped. -/
theorem tracks_decode (room : Nat) {c : Codec} (hc : c ∈ p.codecs.codecs) (data : List UInt8) :
    Tracks (Stopped settings plans room data.length) (p.decode room c data) (p.codecs.decode c data) := by
  induction room generalizing c data with
  | zero => exact .stopped (.nesting (Nat.zero_le _)) _
  | succ room ih =>
    rw [decode, Codecs.decode, Codecs.gather_eq_gatherBy]
    apply (tracks_enter hclosed hp hc _ _).ok_bind
    refine Tracks.bind (tracks_gatherBy fun f hf name htype payload hpayload => ?_) fun _ _ => .refl _
    obtain ⟨inner, hinner, hfound, hcall⟩ := tracks_call hclosed hp hc hf htype (room + 1) data.length
    rw [Codecs.decodeChild, Codecs.child, hfound]
    exact hcall.ok_bind ((ih hinner payload).imp fun e he => he.outside (by omega))

end

/-- The functions of a package do what the codecs do, for every value and all bytes that there is room for. -/
structure Follows (p : Package) : Prop where
  encode : ∀ c ∈ p.codecs.codecs, ∀ room v, v.depth false < room → p.encode room c v = p.codecs.encode c v
  decode : ∀ c ∈ p.codecs.codecs, ∀ room data, data.length < room → p.decode room c data = p.codecs.decode c data

theorem follows_of_unshadowed {settings : Settings} {plans : List MessagePlan} (hclosed : Plan.Closed plans)
    (hnames : Plan.Unshadowed settings plans) {p : Package} (hp : load settings plans = .ok p) : p.Follows where
  encode _ hc room v hroom := (tracks_encode hclosed hp room hc v).eq fun e => not_stopped hnames hroom e
  decode _ hc room data hroom := (tracks_decode hclosed hp room hc data).eq fun e => not_stopped hnames hroom e

end Package

/-- Codecs say what packages of the plans do that have been loaded, where no name is hidden. -/
def Package.Runs (settings : Settings) (plans : List MessagePlan) (cs : Codecs) : Prop :=
  Plan.Unshadowed settings plans → ∀ p, load settings plans = .ok p → p.codecs = cs ∧ p.Follows

/-- What a planner yields that has been set up is run by packages. -/
theorem Planner.Reached.runs {w : Workspace} {settings : Settings} {p after : Planner} (hp : Reached w settings p)
    {targets others : List Schema.File} {plans : List MessagePlan}
    (h : Planning.Yields (Planner.plan targets others) p plans after) {style : Settings} {cs : Codecs}
    (hcs : Codecs.ofPlans style plans = .ok cs) : Package.Runs style plans cs := by
  have hclosed := Plan.closed_of_yields (hp.of_yields h).sound h
  intro hnames package hload
  refine ⟨?_, Package.follows_of_unshadowed hclosed hnames hload⟩
  exact Except.ok.inj ((Package.ofPlans_of_load hclosed hload).1.symm.trans hcs)

/-! ### Encoders -/

namespace Sample

open Schema Plan Planning

theorem unshadowed_forum (fill : Bool) : Unshadowed { fillDefaults := fill } forumPlans := by
  cases fill <;> decide

theorem load_forum (fill : Bool) : ∃ p, Package.load { fillDefaults := fill } forumPlans = .ok p := by
  cases fill <;> exact ⟨_, rfl⟩

end Sample

end MessageCodec
