import MessageCodec.Plan.Planner
import MessageCodec.Proofs.Outcome

/-!
# What a planner hands out

A planner works step by step on what it knows, and only the steps that hand out symbols touch its
resolver. So a run that ends well splits in two: symbols are handed out to all the chosen messages, and
then every message is described, field by field, with that one resolver. `plan_yields` says this once;
what a plan promises is read off `FieldPlan.Describes` and `MessagePlan.Describes` from there on.
-/

namespace MessageCodec

open Schema

/-! ### Runs that end well -/

namespace Planning

variable {α β : Type}

/-- Work that ends well on what a planner knows, with a result and what the planner knows then. -/
def Yields (work : Planning α) (p : Planner) (a : α) (after : Planner) : Prop := work.run p = (.ok a, after)

theorem yields_pure {p q : Planner} {a b : α} : Yields (pure a) p b q ↔ a = b ∧ p = q := by
  show ((Except.ok a, p) : Except Error α × Planner) = _ ↔ _
  rw [Prod.mk.injEq, Except.ok.injEq]

theorem yields_bind {x : Planning α} {f : α → Planning β} {p r : Planner} {b : β} :
    Yields (x >>= f) p b r ↔ ∃ a q, Yields x p a q ∧ Yields (f a) q b r := by
  have hrun : (x >>= f).run p = ExceptT.bindCont f (x.run p).1 (x.run p).2 := rfl
  unfold Yields
  rw [hrun]
  rcases x.run p with ⟨result, q⟩
  cases result with
  | error e =>
    constructor
    · intro h
      cases h
    · rintro ⟨_, _, h, _⟩
      cases h
  | ok a =>
    constructor
    · intro h
      exact ⟨a, q, rfl, h⟩
    · rintro ⟨_, _, h, hrest⟩
      cases h
      exact hrest

theorem yields_lift {x : Except Error α} {p q : Planner} {a : α} :
    Yields (liftM x) p a q ↔ x = .ok a ∧ p = q := by
  show ((x, p) : Except Error α × Planner) = _ ↔ _
  rw [Prod.mk.injEq]

theorem yields_get {p q a : Planner} : Yields get p a q ↔ p = a ∧ p = q := by
  show ((Except.ok p, p) : Except Error Planner × Planner) = _ ↔ _
  rw [Prod.mk.injEq, Except.ok.injEq]

theorem yields_modify {g : Planner → Planner} {p q : Planner} {u : Unit} :
    Yields (modify g) p u q ↔ g p = q := by
  show ((Except.ok (), g p) : Except Error Unit × Planner) = _ ↔ _
  simp

variable {P : Planner → Prop}

/-- Work that leaves a planner as some condition asks, also where it fails. -/
def Keeps (P : Planner → Prop) (work : Planning α) : Prop := ∀ p, P p → P (work.run p).2

theorem Keeps.pure (a : α) : Keeps P (Pure.pure a : Planning α) := fun _ hp => hp

theorem Keeps.lift (x : Except Error α) : Keeps P (liftM x : Planning α) := fun _ hp => hp

theorem Keeps.bind {x : Planning α} {f : α → Planning β} (hx : Keeps P x) (hf : ∀ a, Keeps P (f a)) :
    Keeps P (x >>= f) := by
  intro p hp
  have hmid := hx p hp
  have hrun : (x >>= f).run p = ExceptT.bindCont f (x.run p).1 (x.run p).2 := rfl
  rw [hrun]
  revert hmid
  rcases x.run p with ⟨result, q⟩
  intro hmid
  cases result with
  | error e => exact hmid
  | ok a => exact hf a q hmid

theorem Keeps.forM {f : α → Planning Unit} (hf : ∀ a, Keeps P (f a)) (as : List α) : Keeps P (as.forM f) := by
  induction as with
  | nil => exact Keeps.pure ()
  | cons a as ih =>
    rw [List.forM]
    exact (hf a).bind fun _ => ih

theorem Keeps.mapM {f : α → Planning β} (hf : ∀ a, Keeps P (f a)) (as : List α) : Keeps P (as.mapM f) := by
  induction as with
  | nil => exact Keeps.pure []
  | cons a as ih =>
    rw [List.mapM_cons]
    apply (hf a).bind
    intro b
    apply ih.bind
    intro bs
    exact Keeps.pure _

theorem Keeps.of_yields {work : Planning α} (hwork : Keeps P work) {p q : Planner} {a : α} (hp : P p)
    (h : Yields work p a q) : P q := by
  have hq := hwork p hp
  rwa [h] at hq

theorem mapM_yields {f : α → Planning β} (hf : ∀ a, Keeps P (f a)) {as : List α} {bs : List β} {p q : Planner}
    (hp : P p) (h : Yields (as.mapM f) p bs q) :
    List.Forall₂ (fun a b => ∃ before after, P before ∧ Yields (f a) before b after) as bs := by
  induction as generalizing bs p with
  | nil =>
    rw [List.mapM_nil, yields_pure] at h
    obtain ⟨rfl, rfl⟩ := h
    exact .nil
  | cons a as ih =>
    rw [List.mapM_cons, yields_bind] at h
    obtain ⟨b, mid, hb, hrest⟩ := h
    rw [yields_bind] at hrest
    obtain ⟨bs', after, hbs', hpure⟩ := hrest
    rw [yields_pure] at hpure
    obtain ⟨rfl, rfl⟩ := hpure
    exact .cons ⟨p, mid, hp, hb⟩ (ih ((hf a).of_yields hp hb) hbs')

end Planning

/-! ### Fields and messages -/

def Plan.candidates (places : List Place) : List Place := places.filter fun p => !p.message.mapEntry

def Plan.chosen (places : List Place) : List Place := (prune (candidates places)).1

open Planning

/-- The plan of a field says what the field says, in the place where it stands, when escapes are read so. -/
structure FieldPlan.Describes (unescape : Unescaping) (place : Plan.Place) (f : Field) (g : FieldPlan) : Prop where
  name : g.name = f.name
  number : g.number = f.number
  kind : g.kind = f.kind
  scalar : g.scalar = if f.kind = .scalar then f.scalar else none
  enum : ∀ e, f.kind = .enum → f.resolved = some (.enum e) → EnumTable.build e = .ok (EnumTable.ofEnum e) ∧
    g.enum = some (EnumTable.ofEnum e)
  no_enum : f.kind ≠ .enum → g.enum = none
  child : g.child = (Plan.messageTarget? f).map Prod.snd
  repeated : g.repeated = decide (f.cardinality = .repeated)
  packed : ∃ before after, Yields (Planner.packed place f) before g.packed after
  jsonName : g.jsonName = some ((f.jsonName.filter fun s => !s.isEmpty).getD (Naming.camelCase f.name))
  presence : Planner.presence place f = .ok g.presence
  default : Plan.fieldDefault unescape place.file.dialect f = .ok g.default

/-- The plan of a message says what the message says, of the fields that can be encoded when the messages
of the given names are generated, and bears the symbol that the planner has handed out. -/
structure MessagePlan.Describes (planner : Planner) (selected : List String) (place : Plan.Place)
    (m : MessagePlan) : Prop where
  name : m.name = place.message.name
  fullName : m.fullName = place.message.fullName
  symbol : planner.resolver.lookup place.message.fullName = .ok m.symbol
  fields : List.Forall₂ (FieldPlan.Describes planner.unescape place) (Plan.supported selected place.message) m.fields
  dialect : m.dialect = place.file.dialect
  fileName : m.fileName = some place.file.name

namespace Planner

/-- A condition that does not ask for the plans that have been made, nor for the journal. -/
def Silent (P : Planner → Prop) : Prop := ∀ p plans journal, P p → P { p with plans, journal }

/-- A condition on what a planner has handed out. -/
def Handing (P : Naming.Resolver → Prop) (p : Planner) : Prop := P p.resolver

theorem silent_handing (P : Naming.Resolver → Prop) : Silent (Handing P) := fun _ _ _ hp => hp

/-- Two planners have handed out the same symbols, and read escapes in the same way. -/
def Alike (p q : Planner) : Prop := q.resolver = p.resolver ∧ q.unescape = p.unescape

theorem silent_alike (p : Planner) : Silent (Alike p) := fun _ _ _ hq => hq

theorem Alike.describes {p q : Planner} (h : Alike p q) {selected : List String} {place : Plan.Place} {m : MessagePlan}
    (hm : m.Describes p selected place) : m.Describes q selected place :=
  ⟨hm.name, hm.fullName, h.1 ▸ hm.symbol, h.2 ▸ hm.fields, hm.dialect, hm.fileName⟩

section

variable {P : Planner → Prop} (hP : Silent P)

include hP

theorem keeps_note (entry : JournalEntry) : Keeps P (note entry) := fun p hp => hP p p.plans _ hp

theorem keeps_packed (place : Plan.Place) (f : Field) : Keeps P (packed place f) := by
  rw [packed]
  split
  · exact Keeps.pure _
  · refine (Keeps.lift _).bind fun requested => ?_
    split
    · exact (keeps_note hP _).bind fun _ => Keeps.pure _
    · exact Keeps.pure _

theorem keeps_field (place : Plan.Place) (f : Field) : Keeps P (field place f) := by
  rw [field]
  refine (Keeps.lift _).bind fun table => ?_
  refine (keeps_packed hP place f).bind fun packed => ?_
  refine (Keeps.lift _).bind fun presence => ?_
  refine Keeps.bind (fun _ hp => hp) fun p => ?_
  refine (Keeps.lift _).bind fun default => ?_
  exact Keeps.pure _

theorem keeps_skipped (selected : List String) (m : Message) (f : Field) : Keeps P
    (match Plan.obstacle? selected f with
    | some reason => note ⟨.debug, "Skipping field " ++ m.fullName ++ "." ++ f.name ++ ": " ++ reason⟩
    | none => pure ()) := by
  split
  · exact keeps_note hP _
  · exact Keeps.pure _

theorem keeps_message (selected : List String) (place : Plan.Place) : Keeps P (message selected place) := by
  rw [message]
  refine (Keeps.forM (keeps_skipped hP selected place.message) _).bind fun _ => ?_
  refine Keeps.bind (fun _ hp => hp) fun p => ?_
  refine (Keeps.lift _).bind fun symbol => ?_
  refine (Keeps.mapM (keeps_field hP place) _).bind fun fields => ?_
  exact Keeps.bind (fun p hp => hP p _ p.journal hp) fun _ => Keeps.pure _

end

theorem notes_yield (entries : Journal) (p : Planner) :
    Yields (entries.forM note) p () { p with journal := p.journal ++ entries } := by
  induction entries generalizing p with
  | nil =>
    rw [List.forM, yields_pure, List.append_nil]
    exact ⟨rfl, rfl⟩
  | cons entry entries ih =>
    rw [List.forM, yields_bind]
    refine ⟨(), _, yields_modify.2 rfl, ?_⟩
    have hrest := ih { p with journal := p.journal ++ [entry] }
    rwa [List.append_assoc] at hrest

theorem run_register (place : Plan.Place) (p : Planner) : (register place).run p = ExceptT.bindCont
    (fun x : String × Naming.Resolver => (modify fun p => { p with resolver := x.2 } : Planning Unit))
    (p.resolver.register place.message.fullName ""
      (wantedSymbol p.settings place.file.package place.message.fullName)) p := rfl

theorem register_yields {place : Plan.Place} {p : Planner} {symbol : String} {resolver : Naming.Resolver}
    (h : p.resolver.register place.message.fullName ""
      (wantedSymbol p.settings place.file.package place.message.fullName) = .ok (symbol, resolver)) :
    Yields (register place) p () { p with resolver } := by
  rw [Yields, run_register, h]
  rfl

theorem packed_yields {place : Plan.Place} {f : Field} {p q : Planner} {b : Bool}
    (h : Yields (packed place f) p b q) (hb : b = true) :
    f.cardinality = .repeated ∧ FieldPlan.packable f.kind f.scalar = true := by
  rw [packed] at h
  split at h
  · rw [yields_pure] at h
    simp [hb] at h
  rename_i hrepeated
  simp only [ne_eq, Decidable.not_not] at hrepeated
  rw [yields_bind] at h
  obtain ⟨requested, mid, hrequested, h⟩ := h
  rw [yields_lift] at hrequested
  obtain ⟨-, rfl⟩ := hrequested
  split at h
  · rw [yields_bind] at h
    obtain ⟨_, _, -, hpure⟩ := h
    rw [yields_pure] at hpure
    simp [hb] at hpure
  · rename_i hpackable
    rw [yields_pure] at h
    obtain ⟨rfl, rfl⟩ := h
    simpa [hrepeated, hb] using hpackable

private theorem enumTable_ok {f : Field} {table : Option EnumTable}
    (h : (match f.kind, f.resolved with
      | .enum, some (.enum e) => (EnumTable.build e).map some
      | _, _ => .ok none : Except Error (Option EnumTable)) = .ok table) :
    (∀ e, f.kind = .enum → f.resolved = some (.enum e) → EnumTable.build e = .ok (EnumTable.ofEnum e) ∧
      table = some (EnumTable.ofEnum e)) ∧ (f.kind ≠ .enum → table = none) := by
  split at h
  · rename_i e hkind hresolved
    refine ⟨fun e' _ hresolved' => ?_, fun hne => absurd hkind hne⟩
    obtain rfl : e = e' := by
      rw [hresolved] at hresolved'
      exact Reference.enum.inj (Option.some.inj hresolved')
    rw [EnumTable.build] at h ⊢
    split at h
    · rename_i hprinted
      exact ⟨if_pos hprinted, (Except.ok.inj h).symm⟩
    · simp [Except.map] at h
  · rename_i hno
    exact ⟨fun e hkind hresolved => (hno e hkind hresolved).elim, fun _ => (Except.ok.inj h).symm⟩

private theorem field_yields {place : Plan.Place} {f : Field} {p q : Planner} {g : FieldPlan}
    (h : Yields (field place f) p g q) : g.Describes p.unescape place f := by
  rw [field, yields_bind] at h
  obtain ⟨table, _, htable, h⟩ := h
  rw [yields_lift] at htable
  obtain ⟨htable, rfl⟩ := htable
  rw [yields_bind] at h
  obtain ⟨packed, mid, hpacked, h⟩ := h
  rw [yields_bind] at h
  obtain ⟨presence, _, hpresence, h⟩ := h
  rw [yields_lift] at hpresence
  obtain ⟨hpresence, rfl⟩ := hpresence
  rw [yields_bind] at h
  obtain ⟨_, _, hget, h⟩ := h
  rw [yields_get] at hget
  obtain ⟨rfl, rfl⟩ := hget
  rw [yields_bind] at h
  obtain ⟨default, _, hdefault, h⟩ := h
  rw [yields_lift, ((keeps_packed (silent_alike p) place f).of_yields ⟨rfl, rfl⟩ hpacked).2] at hdefault
  obtain ⟨hdefault, rfl⟩ := hdefault
  rw [yields_pure] at h
  obtain ⟨rfl, rfl⟩ := h
  obtain ⟨henum, hnone⟩ := enumTable_ok htable
  exact ⟨rfl, rfl, rfl, rfl, henum, hnone, rfl, rfl, ⟨p, mid, hpacked⟩, rfl, hpresence, hdefault⟩

private theorem message_yields {selected : List String} {place : Plan.Place} {p q : Planner} {m : MessagePlan}
    (h : Yields (message selected place) p m q) : m.Describes p selected place := by
  rw [message] at h
  simp only at h
  rw [yields_bind] at h
  obtain ⟨_, noted, hnotes, h⟩ := h
  have hnoted : Alike p noted :=
    (Keeps.forM (keeps_skipped (silent_alike p) selected place.message) _).of_yields ⟨rfl, rfl⟩ hnotes
  rw [yields_bind] at h
  obtain ⟨_, _, hget, h⟩ := h
  rw [yields_get] at hget
  obtain ⟨rfl, rfl⟩ := hget
  rw [yields_bind] at h
  obtain ⟨symbol, _, hsymbol, h⟩ := h
  rw [yields_lift] at hsymbol
  obtain ⟨hsymbol, rfl⟩ := hsymbol
  rw [yields_bind] at h
  obtain ⟨fields, mid, hfields, h⟩ := h
  rw [yields_bind] at h
  obtain ⟨_, after, -, h⟩ := h
  rw [yields_pure] at h
  obtain ⟨rfl, rfl⟩ := h
  have hall := mapM_yields (keeps_field (silent_alike p) place) hnoted hfields
  refine ⟨rfl, rfl, hnoted.1 ▸ hsymbol, hall.imp ?_, rfl, rfl⟩
  intro f g hg
  obtain ⟨before, _, hbefore, hg⟩ := hg
  exact hbefore.2 ▸ field_yields hg

/-- A run of a planner that ends well: of what is collected some messages are chosen, they get their
symbols, and then each of them is described. -/
theorem plan_yields {targets others : List File} {p q : Planner} {plans : List MessagePlan}
    (h : Yields (plan targets others) p plans q) :
    ∃ places, Plan.collect targets others = .ok places ∧
      List.Forall₂ (MessagePlan.Describes q (Plan.namesOf (Plan.chosen places))) (Plan.chosen places) plans := by
  rw [plan, yields_bind] at h
  obtain ⟨places, _, hplaces, h⟩ := h
  rw [yields_lift] at hplaces
  obtain ⟨hplaces, rfl⟩ := hplaces
  simp only at h
  rw [yields_bind] at h
  obtain ⟨_, noted, -, h⟩ := h
  rw [yields_bind] at h
  obtain ⟨_, named, -, h⟩ := h
  have hkeeps := keeps_message (silent_alike named) (Plan.namesOf (Plan.chosen places))
  have hq : Alike named q := (Keeps.mapM hkeeps _).of_yields ⟨rfl, rfl⟩ h
  refine ⟨places, hplaces, (mapM_yields hkeeps ⟨rfl, rfl⟩ h).imp fun place m ⟨before, after, hbefore, hm⟩ => ?_⟩
  have hafter : Alike before q := ⟨hq.1.trans hbefore.1.symm, hq.2.trans hbefore.2.symm⟩
  exact hafter.describes (message_yields hm)

/-- A run put together from its stages. -/
theorem yields_plan {targets others : List File} {places kept : List Plan.Place} {p named after : Planner}
    {plans : List MessagePlan} (hcollect : Plan.collect targets others = .ok places) (hkept : Plan.chosen places = kept)
    (hregister : Yields (kept.forM register)
      { p with journal := p.journal ++ (Plan.prune (Plan.candidates places)).2 } () named)
    (hmessages : Yields (kept.mapM (message (Plan.namesOf kept))) named plans after) :
    Yields (plan targets others) p plans after := by
  subst hkept
  rw [plan]
  refine yields_bind.2 ⟨_, _, yields_lift.2 ⟨hcollect, rfl⟩, ?_⟩
  refine yields_bind.2 ⟨_, _, notes_yield _ p, ?_⟩
  exact yields_bind.2 ⟨_, _, hregister, hmessages⟩

end Planner

end MessageCodec
