import MessageCodec.Proofs.Resolution

/-!
# Loading is final

Every call to a registry that is not complete takes in the whole request, on top of what earlier calls have left. What
they have left cannot help: a fault is one of the request, and a type name that is not resolved stays in front of all
that are mentioned later, while no type is declared that was not declared before. So calls to a registry for one request
all fail alike, or the first of them completes it and all the others only read.
-/

namespace MessageCodec

namespace Schema.Registry

open Descriptor Load

/-! ### Calls -/

/-- A call to a registry: for all files, or those with some names, or the one with a name. -/
inductive Call where
  | load (names : Option (List String))
  | file (name : String)
  | files

namespace Call

def answer : Call → Load (Table File)
  | load none | files => allFiles
  | load (some names) => select names
  | file name => do
    let f ← Registry.file name
    return [(name, f)]

def pick (table : Table File) : Call → Except Error (Table File)
  | load none | files => .ok table
  | load (some names) =>
    let missing := names.filter fun name => !table.has name
    if missing.isEmpty then
      .ok (names.foldl (fun picked name =>
        match table.get? name with
        | some f => picked.put name f
        | none => picked) [])
    else .error (.filesNotInRequest (missing.mergeSort fun a b => a ≤ b))
  | file name =>
    match table.get? name with
    | some f => .ok [(name, f)]
    | none => .error (.fileNotInRequest name)

/-- A call loads all files and then looks at those it is for. -/
theorem run_answer (c : Call) (r : Registry) : c.answer.run r = match allFiles.run r with
    | (.ok table, after) => (c.pick table, after)
    | (.error e, after) => (.error e, after) := by
  have hall : allFiles.run r = match allFiles.run r with
      | (.ok table, after) => (.ok table, after)
      | (.error e, after) => (.error e, after) := by
    rcases allFiles.run r with ⟨result, after⟩
    cases result <;> rfl
  cases c with
  | load names =>
    cases names with
    | none => exact hall
    | some names =>
      rw [answer, select, run_bind]
      rcases allFiles.run r with ⟨result, after⟩
      cases result with
      | error e => rfl
      | ok table =>
        dsimp only [pick]
        split <;> rfl
  | file name =>
    rw [answer, Registry.file, run_bind, run_bind]
    rcases allFiles.run r with ⟨result, after⟩
    cases result with
    | error e => rfl
    | ok table =>
      dsimp only [pick]
      cases table.get? name <;> rfl
  | files => exact hall

end Call

/-- The replies to calls, one after the other, and the registry after them. -/
def serve (r : Registry) : List Call → List (Except Error (Table File)) × Registry
  | [] => ([], r)
  | c :: calls =>
    let (reply, mid) := c.answer.run r
    let (replies, after) := serve mid calls
    (reply :: replies, after)

/-! ### Failing for ever -/

/-- A registry for a request that fails with an error, and has taken in nothing but what the request declares. -/
structure Stuck (request : Request) (e : Error) (r : Registry) : Prop where
  request_eq : r.request = request
  incomplete : r.complete = false
  cause : request.faults.head? = some e ∨ request.faults = [] ∧
    (∀ name, (r.types.get? name).isSome = true → name ∈ request.typeNames) ∧
    ∃ p, r.pending.find? (fun p => p.1 ∉ request.typeNames) = some p ∧ e = .unresolvedType p.1 p.2

variable {request : Request} {fs : List File} {e : Error} {r after : Registry}

theorem Filled.known_iff (h : Filled request fs r after)
    (htypes : ∀ name, (r.types.get? name).isSome = true → name ∈ request.typeNames) {name : String} :
    (after.types.get? name).isSome = true ↔ name ∈ request.typeNames := by
  rw [h.known]
  exact or_iff_right_of_imp (htypes name)

/-- Once all files are in, the names that are not resolved are those that the request does not declare. -/
theorem Filled.unresolved?_eq (h : Filled request fs r after)
    (htypes : ∀ name, (r.types.get? name).isSome = true → name ∈ request.typeNames) :
    after.unresolved? = after.pending.find? fun p => p.1 ∉ request.typeNames := by
  rw [unresolved?]
  congr 1
  funext p
  rw [Bool.eq_iff_iff, decide_eq_true_eq, ← h.known_iff htypes, Option.isNone_iff_eq_none, Option.not_isSome_iff_eq_none]

/-- A registry that fails once is stuck. -/
theorem stuck_of_filled (hsame : r.Same after) (hincomplete : r.complete = false) (hnil : r.request.faults = [])
    (h : Filled r.request fs r after)
    (htypes : ∀ name, (r.types.get? name).isSome = true → name ∈ r.request.typeNames) {p : String × String}
    (hfound : after.unresolved? = some p) : Stuck r.request (.unresolvedType p.1 p.2) after := by
  refine ⟨hsame.1, hsame.2.trans hincomplete, .inr ⟨hnil, fun name => (h.known_iff htypes).1, p, ?_, rfl⟩⟩
  rw [← h.unresolved?_eq htypes, hfound]

theorem stuck_of_error (hrun : ensure.run (new request) = (.error e, after)) : Stuck request e after := by
  have hend := contract_ensure (r := new request) rfl (new request) rfl
  rw [hrun] at hend
  obtain ⟨hsame, hhead | ⟨hnil, fs, hfilled, p, hfound, rfl⟩⟩ := hend
  · exact ⟨hsame.1, hsame.2, .inl hhead⟩
  · exact stuck_of_filled hsame rfl hnil hfilled (fun _ hsome => absurd hsome Bool.false_ne_true) hfound

/-- A registry that is stuck fails again, with the same error, and is still stuck. -/
theorem Stuck.again (h : Stuck request e r) : ∃ after, ensure.run r = (.error e, after) ∧ Stuck request e after := by
  obtain ⟨rfl, hincomplete, hcause⟩ := h
  have hend := contract_ensure hincomplete r rfl
  revert hend
  rcases ensure.run r with ⟨result, after⟩
  -- what was not resolved before comes first among what is not resolved now
  have hfirst : ∀ fs after, Filled r.request fs r after → r.request.faults = [] →
      ∃ p, after.unresolved? = some p ∧ e = .unresolvedType p.1 p.2 ∧
        ∀ name, (r.types.get? name).isSome = true → name ∈ r.request.typeNames := by
    intro fs after hfilled hnil
    rcases hcause with hhead | ⟨-, htypes, p, hfound, heq⟩
    · rw [hnil] at hhead
      cases hhead
    · obtain ⟨more, hpending, -⟩ := hfilled.2.pending
      refine ⟨p, ?_, heq, htypes⟩
      rw [hfilled.unresolved?_eq htypes, hpending, List.find?_append, hfound, Option.some_or]
  cases result with
  | ok _ =>
    rintro ⟨hnil, fs, mid, hfilled, hnone, -⟩
    obtain ⟨p, hfound, -⟩ := hfirst fs mid hfilled hnil
    rw [hnone] at hfound
    cases hfound
  | error e' =>
    rintro ⟨hsame, hhead | ⟨hnil, fs, hfilled, p, hfound, rfl⟩⟩
    · rcases hcause with hhead' | ⟨hnil, -⟩
      · obtain rfl : e' = e := Option.some.inj (hhead.symm.trans hhead')
        exact ⟨after, rfl, hsame.1, hsame.2.trans hincomplete, .inl hhead⟩
      · rw [hnil] at hhead
        cases hhead
    · obtain ⟨p', hfound', rfl, htypes⟩ := hfirst fs after hfilled hnil
      obtain rfl : p = p' := Option.some.inj (hfound.symm.trans hfound')
      exact ⟨after, rfl, stuck_of_filled hsame hincomplete hnil hfilled htypes hfound⟩

/-- A registry that fails and is stuck then fails at every call. -/
theorem replies_of_error {mid : Registry} (hrun : ensure.run r = (.error e, mid)) (hmid : Stuck request e mid)
    (calls : List Call) : ∀ reply ∈ (serve r calls).1, reply = .error e := by
  induction calls generalizing r mid with
  | nil => simp [serve]
  | cons c calls ih =>
    obtain ⟨after, hagain, hafter⟩ := hmid.again
    have hanswer : c.answer.run r = (.error e, mid) := by rw [c.run_answer, run_allFiles, hrun]
    rw [serve, hanswer]
    dsimp only
    rw [List.forall_mem_cons]
    exact ⟨rfl, ih hagain hafter⟩

/-! ### Loading once -/

private theorem run_allFiles_of_complete (h : r.complete = true) : allFiles.run r = (.ok r.files, r) := by
  have hget : (get : Load Registry).run r = (.ok r, r) := rfl
  have hensure : ensure.run r = (.ok (), r) := by
    rw [ensure, run_bind, hget]
    dsimp only
    rw [h]
    rfl
  rw [run_allFiles, hensure]

private theorem complete_of_run_allFiles {files : Table File} (hrun : allFiles.run (new request) = (.ok files, after)) :
    after.complete = true ∧ after.files = files := by
  have hend := contract_ensure (r := new request) rfl (new request) rfl
  rw [run_allFiles] at hrun
  revert hend hrun
  rcases ensure.run (new request) with ⟨result, after'⟩
  cases result with
  | error e =>
    intro hrun
    cases hrun
  | ok _ =>
    rintro hrun ⟨-, fs, mid, -, -, rfl⟩
    cases hrun
    exact ⟨rfl, rfl⟩

private theorem serve_of_complete (h : r.complete = true) (calls : List Call) :
    serve r calls = (calls.map (Call.pick r.files), r) := by
  induction calls with
  | nil => rfl
  | cons c calls ih =>
    rw [serve, c.run_answer, run_allFiles_of_complete h]
    dsimp only
    rw [ih, List.map_cons]

/-- The calls to a registry, whichever they are, fare as the loading of its request does. If that fails, every call
fails with the same error, and none is answered with a file. If not, the first call leaves a registry that no later
call changes, and every call is answered from the files in it; a call for files that are not there fails, and is the
only one that does. -/
theorem loading_is_final (request : Request) :
    (∀ e after, allFiles.run (new request) = (.error e, after) →
      ∀ calls, ∀ reply ∈ (serve (new request) calls).1, reply = .error e) ∧
    ∀ files after, allFiles.run (new request) = (.ok files, after) →
      after.files = files ∧ ∀ calls, calls ≠ [] → serve (new request) calls = (calls.map (Call.pick files), after) := by
  constructor
  · intro e after hrun
    have hensure : ensure.run (new request) = (.error e, after) := by
      rw [run_allFiles] at hrun
      revert hrun
      rcases ensure.run (new request) with ⟨result, after'⟩
      cases result with
      | ok _ =>
        intro hrun
        cases hrun
      | error e' =>
        intro hrun
        cases hrun
        rfl
    exact replies_of_error hensure (stuck_of_error hensure)
  · intro files after hrun
    obtain ⟨hcomplete, rfl⟩ := complete_of_run_allFiles hrun
    refine ⟨rfl, fun calls hcalls => ?_⟩
    obtain ⟨c, calls, rfl⟩ := List.exists_cons_of_ne_nil hcalls
    rw [serve, c.run_answer, hrun]
    dsimp only
    rw [serve_of_complete hcomplete, List.map_cons]

end Schema.Registry

namespace Sample

open Schema Schema.Registry Descriptor

/-- A field of the first file holds map entries of the second, which are not known to be that until both have been
taken in. -/
def lateRequest : Request where
  files := [
    { name := "early.proto"
      messages := [{ name := "Early", fields := [
        { name := "pairs", number := 1, type := .message, label := .repeated, typeName := ".Late.Pair" }] }] },
    { name := "late.proto"
      messages := [{ name := "Late", nested := [{ name := "Pair", options := [("map_entry", .bool true)] }] }] }]

/-- Both sides of it: the request above fails for ever, and of another only a call for what is not there fails. -/
theorem loading_is_final_late :
    (∃ after, allFiles.run (new lateRequest) = (.error (.unresolvedType "Late.Pair" "early.proto: Early.pairs"), after) ∧
      ∀ calls, ∀ reply ∈ (serve (new lateRequest) calls).1,
        reply = .error (.unresolvedType "Late.Pair" "early.proto: Early.pairs")) ∧
    ∃ files after, allFiles.run (new mailRequest) = (.ok files, after) ∧
      serve (new mailRequest) [.file "inn.proto", .files] =
        ([.error (.fileNotInRequest "inn.proto"), .ok files], after) := by
  constructor
  · have hrun : ∃ after, allFiles.run (new lateRequest) =
        (.error (.unresolvedType "Late.Pair" "early.proto: Early.pairs"), after) := ⟨_, rfl⟩
    obtain ⟨after, hrun⟩ := hrun
    exact ⟨after, hrun, (loading_is_final lateRequest).1 _ _ hrun⟩
  · have hrun : ∃ files after, allFiles.run (new mailRequest) = (.ok files, after) ∧ files.get? "inn.proto" = none :=
      ⟨_, _, rfl, by decide⟩
    obtain ⟨files, after, hrun, hmissing⟩ := hrun
    refine ⟨files, after, hrun, ?_⟩
    rw [((loading_is_final mailRequest).2 files after hrun).2 _ (by simp)]
    simp only [List.map_cons, List.map_nil, Call.pick, hmissing]

end Sample

end MessageCodec
