import HotReload.Host.World

/-!
# Running operations

An operation takes a state to a result and a state, and a failure keeps the state it was raised in.
`Ends` says of a result in what kind of state the operation ended and what it may have raised, and
`Keeps` says so of an operation from every such state; both follow its structure. `Respects` says
that an operation does not tell states apart that are alike: it has the same result from both, and
ends in states that are alike.
-/
namespace HotReload

/-- Operations on a state that may fail. -/
abbrev Operation (σ α : Type) := ExceptT Failure (StateM σ) α

namespace Operation

variable {σ α β : Type} {s s' : σ}

theorem bind_apply (act : Operation σ α) (f : α → Operation σ β) (s : σ) :
    (act >>= f) s =
      match act s with
      | (.ok x, s') => f x s'
      | (.error e, s') => (.error e, s') := by
  simp only [bind, ExceptT.bind, ExceptT.mk, StateT.bind]
  rcases act s with ⟨_ | _, _⟩ <;> rfl

theorem bind_of_ok {act : Operation σ α} {x : α} (h : act s = (.ok x, s'))
    (f : α → Operation σ β) : (act >>= f) s = f x s' := by
  rw [bind_apply, h]

theorem bind_of_error {act : Operation σ α} {e : Failure} (h : act s = (.error e, s'))
    (f : α → Operation σ β) : (act >>= f) s = (.error e, s') := by
  rw [bind_apply, h]

/-- What is answered at the end does not change the state. -/
theorem snd_bind_pure (act : Operation σ α) (f : α → β) (s : σ) :
    ((act >>= fun x => pure (f x)) s).2 = (act s).2 := by
  rw [bind_apply]
  rcases act s with ⟨_ | _, _⟩ <;> rfl

/-- Operations that succeed one after the other each succeed. -/
theorem bind_eq_ok {act : Operation σ α} {f : α → Operation σ β} {y : β}
    (h : (act >>= f) s = (.ok y, s')) :
    ∃ x s₁, act s = (.ok x, s₁) ∧ f x s₁ = (.ok y, s') := by
  rcases ha : act s with ⟨e | x, s₁⟩
  · rw [bind_of_error ha] at h
    cases h
  · rw [bind_of_ok ha] at h
    exact ⟨x, s₁, rfl, h⟩

theorem get_bind (f : σ → Operation σ β) (s : σ) : ((get : Operation σ σ) >>= f) s = f s s := rfl

theorem set_bind (t : σ) (f : PUnit → Operation σ β) (s : σ) :
    ((set t : Operation σ PUnit) >>= f) s = f ⟨⟩ t := rfl

theorem modify_bind (g : σ → σ) (f : PUnit → Operation σ β) (s : σ) :
    ((modify g : Operation σ PUnit) >>= f) s = f ⟨⟩ (g s) := rfl

/-- Whether an operation ended in a state of a kind and, if it failed, with a certain failure. -/
def Ends (I : σ → Prop) (E : Failure → Prop) (result : Except Failure α × σ) : Prop :=
  I result.2 ∧ ∀ e, result.1 = .error e → E e

/-- Whether an operation stays among the states of a kind, and raises only certain failures. -/
def Keeps (I : σ → Prop) (E : Failure → Prop) (act : Operation σ α) : Prop :=
  ∀ s, I s → Ends I E (act s)

variable {I : σ → Prop} {E E' : Failure → Prop}

theorem ends_ok {x : α} (h : I s) : Ends I E (.ok x, s) := by
  refine ⟨h, fun e he => ?_⟩
  cases he

theorem ends_error {e : Failure} (h : I s) (he : E e) :
    Ends I E ((.error e, s) : Except Failure α × σ) := by
  refine ⟨h, fun e' he' => ?_⟩
  cases he'
  exact he

theorem keeps_pure (x : α) : Keeps I E (pure x : Operation σ α) := fun _ hs => ends_ok hs

theorem keeps_throw {e : Failure} (h : E e) : Keeps I E (throw e : Operation σ α) :=
  fun _ hs => ends_error hs h

theorem keeps_modify {g : σ → σ} (h : ∀ s, I s → I (g s)) :
    Keeps I E (modify g : Operation σ PUnit) := fun s hs => ends_ok (h s hs)

theorem Ends.bind {act : Operation σ α} {f : α → Operation σ β} {s : σ} (h : Ends I E (act s))
    (hf : ∀ x, Keeps I E (f x)) : Ends I E ((act >>= f) s) := by
  rcases ha : act s with ⟨e | x, s'⟩
  · rw [ha] at h
    rw [bind_of_error ha]
    exact ends_error h.1 (h.2 e rfl)
  · rw [ha] at h
    rw [bind_of_ok ha]
    exact hf x s' h.1

theorem Keeps.bind {act : Operation σ α} {f : α → Operation σ β} (h : Keeps I E act)
    (hf : ∀ x, Keeps I E (f x)) : Keeps I E (act >>= f) := fun s hs => (h s hs).bind hf

theorem keeps_get_bind {f : σ → Operation σ β} (h : ∀ s, I s → Ends I E (f s s)) :
    Keeps I E ((get : Operation σ σ) >>= f) := h

theorem Ends.succeeds {result : Except Failure α × σ} (h : Ends I (fun _ => False) result) :
    ∃ x s', result = (.ok x, s') ∧ I s' := by
  rcases result with ⟨e | x, s'⟩
  · exact (h.2 e rfl).elim
  · exact ⟨x, s', rfl, h.1⟩

theorem Keeps.mono {act : Operation σ α} (h : Keeps I E act) (he : ∀ e, E e → E' e) :
    Keeps I E' act :=
  fun s hs => ⟨(h s hs).1, fun e h' => he e ((h s hs).2 e h')⟩

/-- Runs an operation and answers what it raised if `handles` says so. -/
def attempt (handles : Failure → Bool) (act : Operation σ α) : Operation σ (Except Failure α) :=
  fun s =>
    match act s with
    | (.ok x, s) => (.ok (.ok x), s)
    | (.error e, s) => (if handles e then .ok (.error e) else .error e, s)

theorem attempt_of_ok {handles : Failure → Bool} {act : Operation σ α} {x : α}
    (h : act s = (.ok x, s')) : attempt handles act s = (.ok (.ok x), s') := by
  simp only [attempt, h]

theorem attempt_of_error {handles : Failure → Bool} {act : Operation σ α} {e : Failure}
    (h : act s = (.error e, s')) :
    attempt handles act s = (if handles e then .ok (.error e) else .error e, s') := by
  simp only [attempt, h]

/-- An attempt raises what the operation raises and nothing handles. -/
theorem Ends.attempt {handles : Failure → Bool} {act : Operation σ α} (h : Ends I E (act s))
    (he : ∀ e, E e → handles e = true ∨ E' e) : Ends I E' (attempt handles act s) := by
  rcases ha : act s with ⟨e | x, s'⟩
  · rw [ha] at h
    rw [attempt_of_error ha]
    refine ⟨h.1, fun e' he' => ?_⟩
    split at he'
    · cases he'
    · cases he'
      exact (he e (h.2 e rfl)).resolve_left (by assumption)
  · rw [ha] at h
    rw [attempt_of_ok ha]
    exact ends_ok h.1

/-- What follows an operation, and what its failures lead to. -/
theorem Ends.bindInto {J : σ → Prop} {act : Operation σ α} {f : α → Operation σ β} {s : σ}
    (h : Ends I E (act s)) (he : ∀ e s', I s' → E e → J s' ∧ E' e)
    (hf : ∀ x s', I s' → Ends J E' (f x s')) :
    Ends J E' ((act >>= f) s) := by
  rcases ha : act s with ⟨e | x, s'⟩
  · rw [ha] at h
    rw [bind_of_error ha]
    obtain ⟨hs', he'⟩ := he e s' h.1 (h.2 e rfl)
    exact ends_error hs' he'
  · rw [ha] at h
    rw [bind_of_ok ha]
    exact hf x s' h.1

/-- What follows an operation that raises nothing. -/
theorem Ends.andThen {J : σ → Prop} {act : Operation σ α} {f : α → Operation σ β} {s : σ}
    (h : Ends I (fun _ => False) (act s)) (hf : ∀ x s', I s' → Ends J E (f x s')) :
    Ends J E ((act >>= f) s) := by
  obtain ⟨x, s', hact, hs'⟩ := h.succeeds
  rw [bind_of_ok hact]
  exact hf x s' hs'

theorem Ends.imp {J : σ → Prop} {result : Except Failure α × σ} (h : Ends I E result)
    (hj : ∀ s, I s → J s) : Ends J E result := ⟨hj _ h.1, h.2⟩

theorem Ends.mono {result : Except Failure α × σ} (h : Ends I E result) (he : ∀ e, E e → E' e) :
    Ends I E' result :=
  ⟨h.1, fun e h' => he e (h.2 e h')⟩

theorem Ends.and {J : σ → Prop} {result : Except Failure α × σ} (h : Ends I E result)
    (hj : Ends J E result) :
    Ends (fun s => I s ∧ J s) E result :=
  ⟨⟨h.1, hj.1⟩, h.2⟩

theorem Keeps.and {J : σ → Prop} {act : Operation σ α} (h : Keeps I E act) (hj : Keeps J E act) :
    Keeps (fun s => I s ∧ J s) E act := fun s hs => (h s hs.1).and (hj s hs.2)

theorem keeps_forM {l : List β} {f : β → Operation σ PUnit} (h : ∀ x ∈ l, Keeps I E (f x)) :
    Keeps I E (l.forM f) := by
  induction l with
  | nil => exact keeps_pure _
  | cons x rest ih =>
    obtain ⟨hx, hrest⟩ := List.forall_mem_cons.mp h
    exact hx.bind fun _ => ih hrest

theorem keeps_foldlM {l : List β} {f : α → β → Operation σ α} (h : ∀ a, ∀ x ∈ l, Keeps I E (f a x))
    (a : α) : Keeps I E (l.foldlM f a) := by
  induction l generalizing a with
  | nil => exact keeps_pure _
  | cons x rest ih =>
    rw [List.foldlM_cons]
    exact (h a x (by simp)).bind fun b => ih (fun a y hy => h a y (List.mem_cons_of_mem _ hy)) b

/-- A loop whose states are told apart by what is left of the list. -/
theorem Ends.forM {J : List β → σ → Prop} {f : β → Operation σ PUnit}
    (hf : ∀ x rest s, J (x :: rest) s → Ends (J rest) (fun _ => False) (f x s)) {l : List β} {s : σ}
    (h : J l s) : Ends (J []) E (l.forM f s) := by
  induction l generalizing s with
  | nil => exact keeps_pure _ s h
  | cons x rest ih => exact (hf x rest s h).andThen fun _ _ h' => ih h'

theorem Ends.foldlM {J : List β → σ → Prop} {f : α → β → Operation σ α}
    (hf : ∀ a x rest s, J (x :: rest) s → Ends (J rest) (fun _ => False) (f a x s)) {l : List β}
    {s : σ} (h : J l s) (a : α) : Ends (J []) E (l.foldlM f a s) := by
  induction l generalizing s a with
  | nil => exact keeps_pure a s h
  | cons x rest ih =>
    rw [List.foldlM_cons]
    exact (hf a x rest s h).andThen fun b _ h' => ih h' b

theorem keeps_attempt {handles : Failure → Bool} {act : Operation σ α} (h : Keeps I E act)
    (he : ∀ e, E e → handles e = true ∨ E' e) : Keeps I E' (attempt handles act) :=
  fun s hs => (h s hs).attempt he

/-! Two runs of an operation. -/

/-- Whether two operations have one result, and ended in states that are alike. -/
def Matches (R : σ → σ → Prop) (result result' : Except Failure α × σ) : Prop :=
  result.1 = result'.1 ∧ R result.2 result'.2

/-- Whether an operation does not tell states apart that are alike. -/
def Respects (R : σ → σ → Prop) (act : Operation σ α) : Prop :=
  ∀ s s', R s s' → Matches R (act s) (act s')

section Likeness

variable {R : σ → σ → Prop} {act act' : Operation σ α}

theorem Matches.bind {f f' : α → Operation σ β} (h : Matches R (act s) (act' s'))
    (hf : ∀ x t t', R t t' → Matches R (f x t) (f' x t')) :
    Matches R ((act >>= f) s) ((act' >>= f') s') := by
  rcases ha : act s with ⟨result, t⟩
  rcases ha' : act' s' with ⟨result', t'⟩
  rw [ha, ha'] at h
  obtain ⟨rfl, ht⟩ : result = result' ∧ R t t' := h
  rcases result with e | x
  · rw [bind_of_error ha, bind_of_error ha']
    exact ⟨rfl, ht⟩
  · rw [bind_of_ok ha, bind_of_ok ha']
    exact hf x t t' ht

theorem respects_pure (x : α) : Respects R (pure x : Operation σ α) := fun _ _ h => ⟨rfl, h⟩

theorem respects_throw (e : Failure) : Respects R (throw e : Operation σ α) := fun _ _ h => ⟨rfl, h⟩

theorem respects_modify {g : σ → σ} (h : ∀ s s', R s s' → R (g s) (g s')) :
    Respects R (modify g : Operation σ PUnit) := fun s s' hs => ⟨rfl, h s s' hs⟩

theorem Respects.bind {f : α → Operation σ β} (h : Respects R act) (hf : ∀ x, Respects R (f x)) :
    Respects R (act >>= f) := fun s s' hs => (h s s' hs).bind fun x t t' ht => hf x t t' ht

theorem respects_get_bind {f : σ → Operation σ β}
    (h : ∀ s s', R s s' → Matches R (f s s) (f s' s')) :
    Respects R ((get : Operation σ σ) >>= f) := h

theorem Matches.attempt {handles : Failure → Bool} (h : Matches R (act s) (act' s')) :
    Matches R (attempt handles act s) (attempt handles act' s') := by
  rcases ha : act s with ⟨result, t⟩
  rcases ha' : act' s' with ⟨result', t'⟩
  rw [ha, ha'] at h
  obtain ⟨rfl, ht⟩ : result = result' ∧ R t t' := h
  rcases result with e | x
  · rw [attempt_of_error ha, attempt_of_error ha']
    exact ⟨rfl, ht⟩
  · rw [attempt_of_ok ha, attempt_of_ok ha']
    exact ⟨rfl, ht⟩

theorem respects_forM {l : List β} {f : β → Operation σ PUnit} (h : ∀ x, Respects R (f x)) :
    Respects R (l.forM f) := by
  induction l with
  | nil => exact respects_pure _
  | cons x rest ih => exact (h x).bind fun _ => ih

theorem respects_foldlM {l : List β} {f : α → β → Operation σ α} (h : ∀ a x, Respects R (f a x))
    (a : α) :
    Respects R (l.foldlM f a) := by
  induction l generalizing a with
  | nil => exact respects_pure a
  | cons x rest ih =>
    rw [List.foldlM_cons]
    exact (h a x).bind fun b => ih b

theorem respects_mapM {l : List β} {f : β → Operation σ α} (h : ∀ x, Respects R (f x)) :
    Respects R (l.mapM f) := by
  induction l with
  | nil => exact respects_pure []
  | cons x rest ih =>
    rw [List.mapM_cons]
    exact (h x).bind fun y => ih.bind fun ys => respects_pure (y :: ys)

end Likeness

end Operation

theorem World.attempt_eq {α : Type} (handles : Failure → Bool) (act : Act α) :
    World.attempt handles act = Operation.attempt handles act := by
  funext w
  rcases h : act w with ⟨_ | _, _⟩ <;> simp only [World.attempt, Operation.attempt, h]

theorem World.attempt_of_ok {α : Type} {handles : Failure → Bool} {act : Act α} {w w' : World}
    {x : α} (h : act w = (.ok x, w')) : World.attempt handles act w = (.ok (.ok x), w') := by
  rw [World.attempt_eq]
  exact Operation.attempt_of_ok h

theorem World.attempt_of_error {α : Type} {handles : Failure → Bool} {act : Act α} {w w' : World}
    {e : Failure} (h : act w = (.error e, w')) :
    World.attempt handles act w = (if handles e then .ok (.error e) else .error e, w') := by
  rw [World.attempt_eq]
  exact Operation.attempt_of_error h

theorem World.attempt_of_handled {α : Type} {handles : Failure → Bool} {act : Act α} {w w' : World}
    {e : Failure} (h : act w = (.error e, w')) (he : handles e = true) :
    World.attempt handles act w = (.ok (.error e), w') := by
  rw [World.attempt_of_error h, if_pos he]

theorem World.ends_attempt {α : Type} {I : World → Prop} {E F : Failure → Prop}
    {handles : Failure → Bool} {act : Act α} {w : World} (h : Operation.Ends I F (act w))
    (he : ∀ e, F e → handles e = true ∨ E e) :
    Operation.Ends I E (World.attempt handles act w) := by
  rw [World.attempt_eq]
  exact h.attempt he

theorem DirectoryWatch.attempt_eq {α : Type} (handles : Failure → Bool) (act : Watching α) :
    DirectoryWatch.attempt handles act = Operation.attempt handles act := by
  funext r
  rcases h : act r with ⟨_ | _, _⟩ <;> simp only [DirectoryWatch.attempt, Operation.attempt, h]

end HotReload
