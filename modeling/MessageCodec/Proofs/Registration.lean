import MessageCodec.Proofs.Symbols

/-!
# Sessions with a resolver

A resolver is asked for one symbol after the other. The log of a session holds every call with its reply, those
that failed included. What a resolver knows is read off the log: a type has the symbol that its calls were
answered with, and the taken symbols are those at the start and the ones handed out since.
-/

namespace MessageCodec

namespace Naming

namespace Resolver

/-- A call for the symbol of a type, with what to make it from. -/
structure Call where
  fullName : String
  front : String
  back : String

def answer (c : Call) : ExceptT Error (StateM Resolver) String := do
  let r ← get
  let (symbol, after) ← (r.register c.fullName c.front c.back : Except Error _)
  set after
  return symbol

/-- What becomes of a call, told by what becomes of the wish for its symbol. -/
theorem run_answer (r : Resolver) (c : Call) : (answer c).run r =
    match r.register c.fullName c.front c.back with
    | .ok (symbol, after) => (.ok symbol, after)
    | .error e => (.error e, r) := by
  have hrun : (answer c).run r = ExceptT.bindCont
      (fun x : String × Resolver => (do set x.2; return x.1 : ExceptT Error (StateM Resolver) String))
      (r.register c.fullName c.front c.back) r := rfl
  rw [hrun]
  cases r.register c.fullName c.front c.back with
  | error e => rfl
  | ok x => rfl

end Resolver

open Resolver

/-- The calls to a resolver with their replies, and the resolver after them. -/
structure Session where
  log : List (Call × Except Error String)
  resolver : Resolver

namespace Session

def start (rules : Rules) (more : List String) : Session := ⟨[], Resolver.new rules more⟩

def next (s : Session) (c : Call) : Session :=
  let (reply, resolver) := (answer c).run s.resolver
  ⟨s.log ++ [(c, reply)], resolver⟩

def ofCalls (rules : Rules) (more : List String) (calls : List Call) : Session :=
  calls.foldl next (start rules more)

/-- What a session knows is what its log says. -/
structure Faithful (rules : Rules) (more : List String) (s : Session) : Prop where
  sound : s.resolver.Sound
  rules_eq : s.resolver.rules = rules
  taken_eq : s.resolver.taken = (Resolver.new rules more).taken ++ s.resolver.symbols.map Prod.snd
  fresh : ∀ e ∈ s.resolver.symbols, e.2 ∉ (Resolver.new rules more).taken
  answered : ∀ fullName symbol,
    s.resolver.lookup? fullName = some symbol ↔ ∃ c, (c, .ok symbol) ∈ s.log ∧ c.fullName = fullName
  chosen : ∀ fullName symbol, s.resolver.lookup? fullName = some symbol →
    ∀ other ∈ s.resolver.override? fullName, symbol = other

variable {rules : Rules} {more : List String} {s : Session}

theorem faithful_start (rules : Rules) (more : List String) : (start rules more).Faithful rules more where
  sound := .new rules more
  rules_eq := rfl
  taken_eq := (List.append_nil _).symm
  fresh := by
    intro e he
    simp [start, Resolver.new] at he
  answered := by
    intro fullName symbol
    simp [start, Resolver.new, lookup?, Table.get?]
  chosen := by
    intro fullName symbol h
    simp [start, Resolver.new, lookup?, Table.get?] at h

/-- A call that leaves the resolver alone is only noted. -/
theorem Faithful.note (hs : s.Faithful rules more) {c : Call} {reply : Except Error String}
    (hreply : ∀ symbol, reply = .ok symbol → s.resolver.lookup? c.fullName = some symbol) :
    Faithful rules more ⟨s.log ++ [(c, reply)], s.resolver⟩ := by
  refine ⟨hs.sound, hs.rules_eq, hs.taken_eq, hs.fresh, ?_, hs.chosen⟩
  intro fullName symbol
  rw [hs.answered]
  constructor
  · intro ⟨c', hlog, hname⟩
    exact ⟨c', List.mem_append_left _ hlog, hname⟩
  · intro ⟨c', hlog, hname⟩
    rcases List.mem_append.1 hlog with hlog | hlast
    · exact ⟨c', hlog, hname⟩
    · rw [List.mem_singleton, Prod.mk.injEq] at hlast
      rw [← hs.answered, ← hname, hlast.1]
      exact hreply symbol hlast.2.symm

theorem Faithful.assign (hs : s.Faithful rules more) {c : Call} {symbol : String}
    (hnew : s.resolver.lookup? c.fullName = none) (hfree : symbol ∉ s.resolver.taken)
    (hchosen : ∀ other ∈ s.resolver.override? c.fullName, symbol = other) :
    Faithful rules more ⟨s.log ++ [(c, .ok symbol)], s.resolver.assign c.fullName symbol⟩ := by
  have hlookup := lookup?_assign_eq_some hnew symbol
  refine ⟨hs.sound.assign hfree, hs.rules_eq, ?_, ?_, ?_, ?_⟩
  · show (s.resolver.assign c.fullName symbol).taken = _ ++ (s.resolver.symbols ++ [(c.fullName, symbol)]).map Prod.snd
    rw [taken_assign hfree, hs.taken_eq, List.map_append, ← List.append_assoc]
    rfl
  · intro e he
    rcases List.mem_append.1 he with he | hlast
    · exact hs.fresh e he
    · rw [List.mem_singleton.1 hlast]
      rw [hs.taken_eq, List.mem_append, not_or] at hfree
      exact hfree.1
  · intro fullName other
    rw [hlookup, hs.answered]
    constructor
    · rintro (⟨c', hlog, hname⟩ | ⟨hname, rfl⟩)
      · exact ⟨c', List.mem_append_left _ hlog, hname⟩
      · exact ⟨c, List.mem_append_right _ (List.mem_singleton_self _), hname⟩
    · intro ⟨c', hlog, hname⟩
      rcases List.mem_append.1 hlog with hlog | hlast
      · exact .inl ⟨c', hlog, hname⟩
      · rw [List.mem_singleton, Prod.mk.injEq, Except.ok.injEq] at hlast
        exact .inr ⟨hlast.1 ▸ hname, hlast.2.symm⟩
  · intro fullName other h
    rcases (hlookup fullName other).1 h with h | ⟨rfl, rfl⟩
    · exact hs.chosen fullName other h
    · exact hchosen

theorem Faithful.next (hs : s.Faithful rules more) (c : Call) : (s.next c).Faithful rules more := by
  have hcases := registers s.resolver c.fullName c.front c.back
  rw [Session.next, run_answer]
  revert hcases
  generalize s.resolver.register c.fullName c.front c.back = outcome
  intro hcases
  cases hcases with
  | known h =>
    apply hs.note
    intro symbol hreply
    rw [h, Except.ok.inj hreply]
  | refused =>
    apply hs.note
    intro symbol hreply
    cases hreply
  | chosen hnew hchosen hfree =>
    apply hs.assign hnew hfree
    intro other hother
    exact Option.some.inj (hchosen.symm.trans hother)
  | made hnew hchosen hfree =>
    apply hs.assign hnew hfree
    intro other hother
    rw [hchosen] at hother
    cases hother

theorem faithful_ofCalls (rules : Rules) (more : List String) (calls : List Call) :
    (ofCalls rules more calls).Faithful rules more := by
  have hrun : ∀ s : Session, s.Faithful rules more → (calls.foldl Session.next s).Faithful rules more := by
    induction calls with
    | nil => exact fun s hs => hs
    | cons c calls ih => exact fun s hs => ih _ (hs.next c)
  exact hrun _ (faithful_start rules more)

/-- A call for a type that has a symbol is answered with it, whatever the symbol should be made from. -/
theorem answer_again {r : Resolver} {c : Call} {symbol : String} (h : r.lookup? c.fullName = some symbol) :
    (answer c).run r = (.ok symbol, r) := by
  have hregister : r.register c.fullName c.front c.back = .ok (symbol, r) := by
    rw [register, h]
  rw [run_answer, hregister]

/-- The first call for a type whose symbol is chosen by hand. -/
theorem answer_chosen {r : Resolver} {c : Call} (hnew : r.lookup? c.fullName = none) {symbol : String}
    (hchosen : r.override? c.fullName = some symbol) : ((answer c).run r).1 =
      if symbol ∈ r.taken ∨ Text.isIdentifier symbol = false then .error (.overrideConflict symbol c.fullName)
      else .ok symbol := by
  rw [run_answer, register, hnew, hchosen]
  dsimp only
  by_cases hrefused : symbol ∈ r.taken ∨ Text.isIdentifier symbol = false
  · rw [if_pos hrefused, if_pos (by simpa using hrefused)]
  · rw [if_neg hrefused, if_neg (by simpa using hrefused)]

/-- A call fails only over a symbol that is chosen by hand, and changes nothing then. -/
theorem answer_error {r : Resolver} {c : Call} {e : Error} (h : ((answer c).run r).1 = .error e) :
    (∃ symbol, r.override? c.fullName = some symbol ∧ e = .overrideConflict symbol c.fullName) ∧
      ((answer c).run r).2 = r := by
  have hcases := registers r c.fullName c.front c.back
  rw [run_answer] at h ⊢
  revert h hcases
  generalize r.register c.fullName c.front c.back = outcome
  intro h hcases
  cases hcases with
  | known => cases h
  | refused _ hchosen _ => exact ⟨⟨_, hchosen, (Except.error.inj h).symm⟩, rfl⟩
  | chosen => cases h
  | made => cases h

/-- However a resolver is used, it hands out each symbol once. After any calls, some of which may have failed, no
two types share a symbol, and none has one that was reserved at the start. A type has just the symbol that its
calls were answered with, and keeps it. A symbol chosen by hand is the one that its type gets, unless it is taken
or no identifier when it is first asked for. A call that fails leaves all as it was. -/
theorem symbols_handed_out_once (rules : Rules) (more : List String) (calls : List Call) :
    let s := ofCalls rules more calls
    (∀ a b symbol, s.resolver.lookup a = .ok symbol → s.resolver.lookup b = .ok symbol → a = b) ∧
    (∀ a symbol, s.resolver.lookup a = .ok symbol → symbol ∉ (Resolver.new rules more).taken) ∧
    (∀ a symbol, s.resolver.lookup a = .ok symbol ↔ ∃ c, (c, .ok symbol) ∈ s.log ∧ c.fullName = a) ∧
    (∀ a symbol, s.resolver.lookup a = .ok symbol →
      ∀ front back, (answer ⟨a, front, back⟩).run s.resolver = (.ok symbol, s.resolver)) ∧
    (∀ a chosen, rules.overrides.get? a = some chosen → chosen ≠ "" →
      (∀ symbol, s.resolver.lookup a = .ok symbol → symbol = chosen) ∧
      ∀ e, s.resolver.lookup a = .error e → ∀ front back, ((answer ⟨a, front, back⟩).run s.resolver).1 =
        if chosen ∈ s.resolver.taken ∨ Text.isIdentifier chosen = false then .error (.overrideConflict chosen a)
        else .ok chosen) ∧
    ∀ c e, ((answer c).run s.resolver).1 = .error e →
      e.kind = .value ∧ (∃ chosen, rules.overrides.get? c.fullName = some chosen ∧ chosen ≠ "") ∧
        ((answer c).run s.resolver).2 = s.resolver := by
  intro s
  have hs : s.Faithful rules more := faithful_ofCalls rules more calls
  have hoverride : ∀ a chosen, s.resolver.override? a = some chosen ↔
      rules.overrides.get? a = some chosen ∧ chosen ≠ "" := by
    intro a chosen
    rw [override?_eq_some, hs.rules_eq]
  refine ⟨fun a b symbol => hs.sound.lookup_inj, ?_, ?_, ?_, ?_, ?_⟩
  · intro a symbol h
    exact hs.fresh _ (Table.mem_of_get? (lookup_eq_ok.1 h))
  · intro a symbol
    rw [lookup_eq_ok, hs.answered]
  · intro a symbol h front back
    exact answer_again (lookup_eq_ok.1 h)
  · intro a chosen hchosen hne
    have hfound := (hoverride a chosen).2 ⟨hchosen, hne⟩
    constructor
    · intro symbol h
      exact hs.chosen a symbol (lookup_eq_ok.1 h) chosen hfound
    · intro e h front back
      exact answer_chosen (lookup_eq_error.1 h).1 hfound
  · intro c e h
    obtain ⟨⟨chosen, hchosen, rfl⟩, hsame⟩ := answer_error h
    exact ⟨rfl, ⟨chosen, (hoverride c.fullName chosen).1 hchosen⟩, hsame⟩

end Session

end Naming

namespace Sample

open Naming Resolver

/-- The symbol that one type is to get may be gone before it is asked for. -/
def contested : Rules := { reserved := ["Post"], overrides := [("forum.Late", "ProtoPost")] }

def contestedCalls : List Call :=
  [⟨"forum.Post", "", "Post"⟩, ⟨"forum.Late", "", "Late"⟩, ⟨"blog.Post", "Po", "st"⟩, ⟨"forum.Post", "", "Other"⟩]

theorem symbols_handed_out_once_contested : ∃ r, (Session.ofCalls contested [] contestedCalls).resolver = r ∧
    (Session.ofCalls contested [] contestedCalls).log.map Prod.snd =
      [.ok "ProtoPost", .error (.overrideConflict "ProtoPost" "forum.Late"), .ok "PoProtost", .ok "ProtoPost"] ∧
    r.lookup "blog.Post" = .ok "PoProtost" ∧ (∀ a, r.lookup a = .ok "PoProtost" → "blog.Post" = a) ∧
    (answer ⟨"blog.Post", "", ""⟩).run r = (.ok "PoProtost", r) := by
  obtain ⟨hdistinct, -, -, hagain, -, -⟩ := Session.symbols_handed_out_once contested [] contestedCalls
  have hlookup : (Session.ofCalls contested [] contestedCalls).resolver.lookup "blog.Post" = .ok "PoProtost" :=
    eq_ok_of_toOption (by decide)
  refine ⟨_, rfl, rfl, hlookup, ?_, hagain _ _ hlookup _ _⟩
  intro a ha
  exact hdistinct _ _ _ hlookup ha

end Sample

end MessageCodec
