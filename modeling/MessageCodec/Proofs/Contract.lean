import MessageCodec.Proofs.Outcome

/-!
# What work may do

The errors that a computation may end with, and, for work on a state, what it makes of the state. A contract
covers every way in which work can end: with a result, or with an error that leaves the state where it was
reached.
-/

namespace MessageCodec

variable {ε σ α β : Type}

/-! ### Errors of a computation -/

/-- A computation fails with errors of some kind only. -/
def FailsOnly (E : ε → Prop) (x : Except ε α) : Prop := ∀ e, x = .error e → E e

namespace FailsOnly

variable {E F : ε → Prop}

theorem ok (a : α) : FailsOnly E (Except.ok a : Except ε α) := by
  intro e h
  cases h

theorem error {e : ε} (he : E e) : FailsOnly E (Except.error e : Except ε α) := by
  intro e' h
  cases h
  exact he

theorem imp {x : Except ε α} (hx : FailsOnly E x) (h : ∀ e, E e → F e) : FailsOnly F x :=
  fun e he => h e (hx e he)

theorem bind {x : Except ε α} {f : α → Except ε β} (hx : FailsOnly E x) (hf : ∀ a, x = .ok a → FailsOnly E (f a)) :
    FailsOnly E (x >>= f) := by
  cases x with
  | error e =>
    intro e' h
    cases h
    exact hx e rfl
  | ok a => exact hf a rfl

theorem map {x : Except ε α} (hx : FailsOnly E x) (f : α → β) : FailsOnly E (x.map f) := by
  cases x with
  | error e => exact error (hx e rfl)
  | ok a => exact ok (f a)

theorem mapM {f : α → Except ε β} {as : List α} (h : ∀ a ∈ as, FailsOnly E (f a)) : FailsOnly E (as.mapM f) := by
  induction as with
  | nil => exact ok []
  | cons a as ih =>
    rw [List.forall_mem_cons] at h
    rw [List.mapM_cons]
    apply h.1.bind
    intro b _
    apply (ih h.2).bind
    intro bs _
    exact ok (b :: bs)

theorem foldlM {f : β → α → Except ε β} {as : List α} (h : ∀ a ∈ as, ∀ b, FailsOnly E (f b a)) (b : β) :
    FailsOnly E (as.foldlM f b) := by
  induction as generalizing b with
  | nil => exact ok b
  | cons a as ih =>
    rw [List.forall_mem_cons] at h
    rw [List.foldlM_cons]
    apply (h.1 b).bind
    intro b' _
    exact ih h.2 b'

end FailsOnly

/-! ### Contracts -/

theorem run_bind (x : ExceptT ε (StateM σ) α) (f : α → ExceptT ε (StateM σ) β) (s : σ) :
    (x >>= f).run s = match x.run s with
      | (.ok a, mid) => (f a).run mid
      | (.error e, mid) => (.error e, mid) := by
  show ExceptT.bindCont f (x.run s).1 (x.run s).2 = _
  rcases x.run s with ⟨result, mid⟩
  cases result with
  | ok a => rfl
  | error e => rfl

/-- From a state as `P` asks, work ends with a result and a state as `Q` asks, or with an error and a state as `E`
asks. -/
def Contract (P : σ → Prop) (work : ExceptT ε (StateM σ) α) (Q : α → σ → Prop) (E : ε → σ → Prop) : Prop :=
  ∀ s, P s → match work.run s with
    | (.ok a, after) => Q a after
    | (.error e, after) => E e after

namespace Contract

variable {P P' : σ → Prop} {Q : α → σ → Prop} {E : ε → σ → Prop}

theorem pre {work : ExceptT ε (StateM σ) α} (h : Contract P work Q E) (himp : ∀ s, P' s → P s) : Contract P' work Q E :=
  fun s hs => h s (himp s hs)

theorem post {work : ExceptT ε (StateM σ) α} {Q' : α → σ → Prop} (h : Contract P work Q E)
    (himp : ∀ a s, Q a s → Q' a s) : Contract P work Q' E := by
  intro s hs
  have hend := h s hs
  revert hend
  rcases work.run s with ⟨result, after⟩
  cases result with
  | ok a => exact himp a after
  | error e => exact id

theorem errors {work : ExceptT ε (StateM σ) α} {E' : ε → σ → Prop} (h : Contract P work Q E)
    (himp : ∀ e s, E e s → E' e s) : Contract P work Q E' := by
  intro s hs
  have hend := h s hs
  revert hend
  rcases work.run s with ⟨result, after⟩
  cases result with
  | ok a => exact id
  | error e => exact himp e after

theorem pure {a : α} (h : ∀ s, P s → Q a s) : Contract P (Pure.pure a) Q E := h

theorem throw {e : ε} (h : ∀ s, P s → E e s) : Contract P (MonadExcept.throw e) Q E := h

theorem lift {x : Except ε α} (hok : ∀ s a, P s → x = .ok a → Q a s) (herror : ∀ s e, P s → x = .error e → E e s) :
    Contract P (liftM x) Q E := by
  intro s hs
  show match ((x, s) : Except ε α × σ) with
    | (.ok a, after) => Q a after
    | (.error e, after) => E e after
  cases x with
  | ok a => exact hok s a hs rfl
  | error e => exact herror s e hs rfl

theorem get {Q : σ → σ → Prop} (h : ∀ s, P s → Q s s) : Contract P (MonadState.get : ExceptT ε (StateM σ) σ) Q E := h

theorem modify {g : σ → σ} {Q : Unit → σ → Prop} (h : ∀ s, P s → Q () (g s)) :
    Contract P (modify g : ExceptT ε (StateM σ) Unit) Q E := h

theorem set {after : σ} {Q : PUnit → σ → Prop} (h : ∀ s, P s → Q ⟨⟩ after) :
    Contract P (set after : ExceptT ε (StateM σ) PUnit) Q E := h

theorem bind {x : ExceptT ε (StateM σ) α} {f : α → ExceptT ε (StateM σ) β} {R : β → σ → Prop} (hx : Contract P x Q E)
    (hf : ∀ a, Contract (Q a) (f a) R E) : Contract P (x >>= f) R E := by
  intro s hs
  have hmid := hx s hs
  rw [run_bind]
  revert hmid
  rcases x.run s with ⟨result, mid⟩
  intro hmid
  cases result with
  | error e => exact hmid
  | ok a => exact hf a mid hmid

/-- Work on what is known of the state at the start. -/
theorem get_bind {f : σ → ExceptT ε (StateM σ) β} {R : β → σ → Prop} (h : ∀ s, P s → Contract (· = s) (f s) R E) :
    Contract P (MonadState.get >>= f) R E :=
  fun s hs => h s hs s rfl

/-- What comes after an error is not reached. -/
theorem throw_bind {e : ε} {f : α → ExceptT ε (StateM σ) β} {R : β → σ → Prop} (h : ∀ s, P s → E e s) :
    Contract P (MonadExcept.throw e >>= f) R E := h

/-- Work that keeps a condition, and then other work. -/
theorem seq {x : ExceptT ε (StateM σ) α} {f : α → ExceptT ε (StateM σ) β} {R : β → σ → Prop}
    (hx : Contract P x (fun _ => P) E) (hf : ∀ a, Contract P (f a) R E) : Contract P (x >>= f) R E :=
  hx.bind hf

/-- Work whose errors are handled. -/
theorem tryCatch {x : ExceptT ε (StateM σ) α} {handle : ε → ExceptT ε (StateM σ) α} {E' : ε → σ → Prop}
    (hx : Contract P x Q E) (hhandle : ∀ e, Contract (E e) (handle e) Q E') :
    Contract P (MonadExcept.tryCatch x handle) Q E' := by
  intro s hs
  have hmid := hx s hs
  have hrun : (MonadExcept.tryCatch x handle : ExceptT ε (StateM σ) α).run s =
      match x.run s with
      | (.ok a, after) => (.ok a, after)
      | (.error e, after) => (handle e).run after := by
    show (match (x.run s).1 with
      | .ok a => (fun after => (Except.ok a, after) : StateM σ (Except ε α))
      | .error e => (handle e).run) (x.run s).2 = _
    rcases x.run s with ⟨result, after⟩
    cases result <;> rfl
  rw [hrun]
  revert hmid
  rcases x.run s with ⟨result, after⟩
  intro hmid
  cases result with
  | ok a => exact hmid
  | error e => exact hhandle e after hmid

/-- What every piece of work keeps, all of them together keep. -/
theorem forM {f : α → ExceptT ε (StateM σ) Unit} {as : List α} (h : ∀ a ∈ as, Contract P (f a) (fun _ => P) E) :
    Contract P (as.forM f) (fun _ => P) E := by
  induction as with
  | nil => exact pure fun _ => id
  | cons a as ih =>
    rw [List.forall_mem_cons] at h
    rw [List.forM]
    apply h.1.bind
    intro _
    exact ih h.2

theorem mapM {f : α → ExceptT ε (StateM σ) β} {as : List α} (h : ∀ a ∈ as, Contract P (f a) (fun _ => P) E) :
    Contract P (as.mapM f) (fun _ => P) E := by
  induction as with
  | nil => exact pure fun _ => id
  | cons a as ih =>
    rw [List.forall_mem_cons] at h
    rw [List.mapM_cons]
    apply h.1.bind
    intro b
    apply (ih h.2).bind
    intro bs
    exact pure fun _ => id

/-- What each step keeps of the state and of what has been made so far, all of them together keep. -/
theorem foldlM {f : β → α → ExceptT ε (StateM σ) β} {as : List α} {I : β → σ → Prop}
    (h : ∀ a ∈ as, ∀ b, Contract (I b) (f b a) I E) (b : β) : Contract (I b) (as.foldlM f b) I E := by
  induction as generalizing b with
  | nil => exact pure fun _ => id
  | cons a as ih =>
    rw [List.forall_mem_cons] at h
    rw [List.foldlM_cons]
    apply (h.1 b).bind
    intro b'
    exact ih h.2 b'

end Contract

end MessageCodec
