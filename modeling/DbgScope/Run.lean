import Mathlib.Tactic

/-!
# Computations that fail and keep their writes

`Run ε W α` is a computation over a state `W` that may fail with an `ε` and then leaves the state as
it had written it so far, as a function taking `&mut` arguments and returning a `Result` does.
`Triple P m Q E` is its Hoare triple: from `P`, the computation succeeds with `Q` or fails with `E`.
`loop` is a loop bounded by a number of rounds; `Triple.loop` is its invariant rule, `Reach` the
states it passes through, and `loop_stable` says that a bound no run reaches does not matter.
-/

namespace DbgScope

/-- A computation that may fail and keeps what it wrote when it does. -/
def Run (ε W α : Type) : Type := W → Except ε α × W

inductive Flow (σ β : Type) where
  | again (s : σ)
  | stop (b : β)

/-- `I` holds of the state a loop goes on from, `R` of the value it is left with. -/
def Flow.Holds {σ β : Type} (I : σ → Prop) (R : β → Prop) : Flow σ β → Prop
  | .again s => I s
  | .stop b => R b

namespace Run

variable {ε W V α β σ : Type}

def andThen (m : Run ε W α) (f : α → Run ε W β) : Run ε W β := fun w =>
  match m w with
  | (.ok a, w') => f a w'
  | (.error e, w') => (.error e, w')

instance : Monad (Run ε W) where
  pure a := fun w => (.ok a, w)
  bind := andThen

def fail (e : ε) : Run ε W α := fun w => (.error e, w)

def lift (r : Except ε α) : Run ε W α := fun w => (r, w)

/-- Run, and hand the failure back as a value. -/
def attempt (m : Run ε W α) : Run ε W (Except ε α) := fun w => (.ok (m w).1, (m w).2)

/-- Run the second computation where the first fails. -/
def orElse (m m' : Run ε W α) : Run ε W α := fun w =>
  match m w with
  | (.ok a, w') => (.ok a, w')
  | (.error _, w') => m' w'

def modify (f : W → W) : Run ε W Unit := fun w => (.ok (), f w)

def read (f : W → α) : Run ε W α := fun w => (.ok (f w), w)

def zoom (get : W → V) (put : V → W → W) (m : Run ε V α) : Run ε W α := fun w =>
  ((m (get w)).1, put (m (get w)).2 w)

/-- At most `rounds` rounds of `body`; `out` is the value of a loop that used them all. -/
def loop (body : σ → Run ε W (Flow σ β)) (out : σ → β) : ℕ → σ → Run ε W β
  | 0, s => pure (out s)
  | rounds + 1, s => do
    match ← body s with
    | .again s' => loop body out rounds s'
    | .stop b => pure b

def fold {γ : Type} (body : β → γ → Run ε W β) : List γ → β → Run ε W β
  | [], b => pure b
  | x :: xs, b => do fold body xs (← body b x)

/-! ## What each operation does to a state -/

@[simp] theorem pure_apply (a : α) (w : W) : (pure a : Run ε W α) w = (.ok a, w) := rfl

@[simp] theorem fail_apply (e : ε) (w : W) : (fail e : Run ε W α) w = (.error e, w) := rfl

@[simp] theorem lift_apply (r : Except ε α) (w : W) : lift r w = (r, w) := rfl

@[simp] theorem attempt_apply (m : Run ε W α) (w : W) : attempt m w = (.ok (m w).1, (m w).2) := rfl

@[simp] theorem modify_apply (f : W → W) (w : W) : (modify f : Run ε W Unit) w = (.ok (), f w) :=
  rfl

@[simp] theorem read_apply (f : W → α) (w : W) : (read f : Run ε W α) w = (.ok (f w), w) := rfl

@[simp] theorem zoom_apply (get : W → V) (put : V → W → W) (m : Run ε V α) (w : W) :
    zoom get put m w = ((m (get w)).1, put (m (get w)).2 w) := rfl

theorem bind_of_ok {m : Run ε W α} {f : α → Run ε W β} {w w' : W} {a : α}
    (h : m w = (.ok a, w')) : (m >>= f) w = f a w' := by
  show andThen m f w = f a w'
  unfold andThen; rw [h]

theorem bind_of_error {m : Run ε W α} {f : α → Run ε W β} {w w' : W} {e : ε}
    (h : m w = (.error e, w')) : (m >>= f) w = (.error e, w') := by
  show andThen m f w = _
  unfold andThen; rw [h]

@[simp] theorem pure_bind_apply (a : α) (f : α → Run ε W β) (w : W) :
    ((pure a : Run ε W α) >>= f) w = f a w := rfl

@[simp] theorem modify_bind_apply (g : W → W) (f : Unit → Run ε W β) (w : W) :
    ((modify g : Run ε W Unit) >>= f) w = f () (g w) := rfl

@[simp] theorem read_bind_apply (g : W → α) (f : α → Run ε W β) (w : W) :
    ((read g : Run ε W α) >>= f) w = f (g w) w := rfl

@[simp] theorem fail_bind_apply (e : ε) (f : α → Run ε W β) (w : W) :
    ((fail e : Run ε W α) >>= f) w = (.error e, w) := rfl

@[simp] theorem attempt_bind_apply (m : Run ε W α) (f : Except ε α → Run ε W β) (w : W) :
    (attempt m >>= f) w = f (m w).1 (m w).2 := rfl

theorem bind_ok {m : Run ε W α} {f : α → Run ε W β} {w w' : W} {b : β}
    (h : (m >>= f) w = (.ok b, w')) : ∃ a w₁, m w = (.ok a, w₁) ∧ f a w₁ = (.ok b, w') := by
  rcases hm : m w with ⟨r, w₁⟩
  cases r with
  | ok a => exact ⟨a, w₁, rfl, by rw [← h, bind_of_ok hm]⟩
  | error e => rw [bind_of_error hm] at h; simp at h

/-! ## Triples -/

/-- The two ways a run may end. -/
def Ends (Q : α → W → Prop) (E : ε → W → Prop) : Except ε α × W → Prop
  | (.ok a, w) => Q a w
  | (.error e, w) => E e w

/-- From `P`, the computation succeeds with `Q` or fails with `E`. -/
def Triple (P : W → Prop) (m : Run ε W α) (Q : α → W → Prop) (E : ε → W → Prop) : Prop :=
  ∀ w, P w → Ends Q E (m w)

theorem Ends.imp {Q Q' : α → W → Prop} {E E' : ε → W → Prop} {r : Except ε α × W}
    (h : Ends Q E r) (hQ : ∀ a w, Q a w → Q' a w) (hE : ∀ e w, E e w → E' e w) :
    Ends Q' E' r := by
  rcases r with ⟨r, w⟩
  cases r with
  | ok a => exact hQ a w h
  | error e => exact hE e w h

theorem Ends.anyway {Q : W → Prop} {r : Except ε α × W} (h : Ends (fun _ => Q) (fun _ => Q) r) :
    Q r.2 := by
  rcases r with ⟨r, w⟩
  cases r with
  | ok a => exact h
  | error e => exact h

namespace Triple

variable {P P' : W → Prop} {Q Q' : α → W → Prop} {R : β → W → Prop} {E E' : ε → W → Prop}

theorem imp {m : Run ε W α} (h : Triple P m Q E) (hP : ∀ w, P' w → P w)
    (hQ : ∀ a w, Q a w → Q' a w) (hE : ∀ e w, E e w → E' e w) : Triple P' m Q' E' :=
  fun w hw => (h w (hP w hw)).imp hQ hE

theorem pre {m : Run ε W α} (h : Triple P m Q E) (hP : ∀ w, P' w → P w) : Triple P' m Q E :=
  h.imp hP (fun _ _ hw => hw) fun _ _ hw => hw

theorem post {m : Run ε W α} (h : Triple P m Q E) (hQ : ∀ a w, Q a w → Q' a w) :
    Triple P m Q' E := h.imp (fun _ hw => hw) hQ fun _ _ hw => hw

theorem of_ok {m : Run ε W α} {w : W} {a : α} (h : Triple P m Q E) (hw : P w)
    (ha : (m w).1 = .ok a) : Q a (m w).2 := by
  have hends := h w hw
  rcases hm : m w with ⟨r, w'⟩
  rw [hm] at hends ha
  obtain rfl := ha
  exact hends

theorem of_error {m : Run ε W α} {w : W} {e : ε} (h : Triple P m Q E) (hw : P w)
    (he : (m w).1 = .error e) : E e (m w).2 := by
  have hends := h w hw
  rcases hm : m w with ⟨r, w'⟩
  rw [hm] at hends he
  obtain rfl := he
  exact hends

theorem always (m : Run ε W α) : Triple (fun _ => True) m (fun _ _ => True) (fun _ _ => True) := by
  intro w _
  rcases m w with ⟨r, w'⟩
  cases r <;> trivial

theorem pure {a : α} (h : ∀ w, P w → Q a w) : Triple P (Pure.pure a : Run ε W α) Q E := h

theorem fail {e : ε} (h : ∀ w, P w → E e w) : Triple P (Run.fail e : Run ε W α) Q E := h

theorem modify {f : W → W} {Q : Unit → W → Prop} (h : ∀ w, P w → Q () (f w)) :
    Triple P (Run.modify f : Run ε W Unit) Q E := h

theorem read {f : W → α} (h : ∀ w, P w → Q (f w) w) : Triple P (Run.read f : Run ε W α) Q E := h

theorem bind {m : Run ε W α} {f : α → Run ε W β} (hm : Triple P m Q E)
    (hf : ∀ a, Triple (Q a) (f a) R E) : Triple P (m >>= f) R E := by
  intro w hw
  have h := hm w hw
  rcases hr : m w with ⟨r, w₁⟩
  rw [hr] at h
  cases r with
  | ok a => rw [bind_of_ok hr]; exact hf a w₁ h
  | error e => rw [bind_of_error hr]; exact h

theorem attempt {m : Run ε W α} {Q : Except ε α → W → Prop}
    (h : Triple P m (fun a => Q (.ok a)) (fun e => Q (.error e))) :
    Triple P (Run.attempt m) Q E := by
  intro w hw
  have h' := h w hw
  rcases hr : m w with ⟨r, w₁⟩
  rw [hr] at h'
  rw [attempt_apply, hr]
  cases r with
  | ok a => exact h'
  | error e => exact h'

theorem ite {c : Prop} [Decidable c] {m m' : Run ε W α} (h : c → Triple P m Q E)
    (h' : ¬c → Triple P m' Q E) : Triple P (if c then m else m') Q E := by
  by_cases hc : c
  · rw [if_pos hc]; exact h hc
  · rw [if_neg hc]; exact h' hc

theorem pull {p : Prop} {m : Run ε W α} (h : p → Triple P m Q E) :
    Triple (fun w => P w ∧ p) m Q E := fun w hw => h hw.2 w hw.1

/-- **The fold rule.** -/
theorem fold {γ : Type} {body : β → γ → Run ε W β} {I : β → W → Prop} {xs : List γ}
    (hbody : ∀ b, ∀ x ∈ xs, Triple (I b) (body b x) I E) :
    ∀ b, Triple (I b) (Run.fold body xs b) I E := by
  induction xs with
  | nil => intro b; exact Triple.pure fun _ h => h
  | cons x xs ih =>
    intro b
    exact Triple.bind (hbody b x (by simp)) fun b' =>
      ih (fun b y hy => hbody b y (by simp [hy])) b'

theorem fold_through {γ : Type} {body : β → γ → Run ε W β} {I : List γ → β → W → Prop}
    {xs : List γ} (hbody : ∀ gone x rest b, xs = gone ++ x :: rest →
      Triple (I gone b) (body b x) (I (gone ++ [x])) E) (b : β) :
    Triple (I [] b) (Run.fold body xs b) (I xs) E := by
  suffices h : ∀ rest gone b, xs = gone ++ rest → Triple (I gone b) (Run.fold body rest b) (I xs) E
    from h xs [] b rfl
  intro rest
  induction rest with
  | nil =>
    intro gone b hxs
    rw [List.append_nil] at hxs
    exact Triple.pure fun _ h => hxs ▸ h
  | cons x rest ih =>
    intro gone b hxs
    exact Triple.bind (hbody gone x rest b hxs) fun b' => ih (gone ++ [x]) b' (by simp [hxs])

/-- **The loop rule, counting rounds.** An invariant that may speak of the rounds that are left
holds wherever the loop is left. -/
theorem countdown {body : σ → Run ε W (Flow σ β)} {out : σ → β} {I : ℕ → σ → W → Prop}
    (hbody : ∀ n s, Triple (I (n + 1) s) (body s)
      (fun flow w => match flow with | .again s' => I n s' w | .stop b => R b w) E)
    (hout : ∀ s w, I 0 s w → R (out s) w) :
    ∀ (rounds : ℕ) (s : σ), Triple (I rounds s) (Run.loop body out rounds s) R E := by
  intro rounds
  induction rounds with
  | zero => intro s; exact Triple.pure (hout s)
  | succ rounds ih =>
    intro s
    refine Triple.bind (hbody rounds s) fun flow => ?_
    cases flow with
    | again s' => exact ih s'
    | stop b => exact Triple.pure fun _ h => h

/-- **The loop rule.** An invariant every round keeps holds wherever the loop is left. -/
theorem loop {body : σ → Run ε W (Flow σ β)} {out : σ → β} {I : σ → W → Prop}
    (hbody : ∀ s, Triple (I s) (body s)
      (fun flow w => match flow with | .again s' => I s' w | .stop b => R b w) E)
    (hout : ∀ s w, I s w → R (out s) w) :
    ∀ (rounds : ℕ) (s : σ), Triple (I s) (Run.loop body out rounds s) R E :=
  countdown (fun _ => hbody) hout

end Triple

/-! ## Answers -/

/-- Whatever the computation answers, from any state, satisfies `Q`. -/
def Yields (m : Run ε W α) (Q : α → Prop) : Prop :=
  Triple (fun _ => True) m (fun a _ => Q a) (fun _ _ => True)

namespace Yields

variable {Q Q' : α → Prop} {R : β → Prop}

theorem of_ok {m : Run ε W α} (h : Yields m Q) {w w' : W} {a : α} (ha : m w = (.ok a, w')) :
    Q a := by
  have hends := h w trivial
  rw [ha] at hends
  exact hends

theorem imp {m : Run ε W α} (h : Yields m Q) (hQ : ∀ a, Q a → Q' a) : Yields m Q' :=
  Triple.imp h (fun _ h => h) (fun a _ => hQ a) (fun _ _ h => h)

theorem always (m : Run ε W α) : Yields m fun _ => True := Triple.always m

theorem pure {a : α} (h : Q a) : Yields (Pure.pure a : Run ε W α) Q := Triple.pure fun _ _ => h

theorem fail (e : ε) : Yields (Run.fail e : Run ε W α) Q := Triple.fail fun _ _ => trivial

theorem lift {r : Except ε α} (h : ∀ a, r = .ok a → Q a) : Yields (Run.lift r : Run ε W α) Q := by
  intro w _
  cases r with
  | ok a => exact h a rfl
  | error e => trivial

theorem bind {m : Run ε W α} {f : α → Run ε W β} (hm : Yields m Q)
    (hf : ∀ a, Q a → Yields (f a) R) : Yields (m >>= f) R :=
  Triple.bind hm fun a w ha => hf a ha w trivial

theorem lift_eq {r : Except ε α} {b : α} {f : α → Run ε W β} (hr : ∀ a, r = .ok a → a = b)
    (h : Yields (f b) R) : Yields (Run.lift r >>= f) R := bind (lift hr) fun _ ha => ha ▸ h

theorem after {m : Run ε W α} {f : α → Run ε W β} (hf : ∀ a, Yields (f a) R) :
    Yields (m >>= f) R :=
  bind (always m) fun a _ => hf a

theorem ite {c : Prop} [Decidable c] {m m' : Run ε W α} (h : c → Yields m Q)
    (h' : ¬c → Yields m' Q) : Yields (if c then m else m') Q := Triple.ite h h'

theorem guard {c : Prop} [Decidable c] {e : ε} {m : Run ε W α} (h : ¬c → Yields m Q) :
    Yields (if c then Run.fail e else m) Q := ite (fun _ => fail e) h

theorem countdown {body : σ → Run ε W (Flow σ β)} {out : σ → β} {I : ℕ → σ → Prop}
    (hbody : ∀ n s, I (n + 1) s → Yields (body s) (Flow.Holds (I n) R))
    (hout : ∀ s, I 0 s → R (out s)) (rounds : ℕ) (s : σ) (h : I rounds s) :
    Yields (Run.loop body out rounds s) R := by
  refine Triple.imp (Triple.countdown (I := fun n s _ => I n s) (fun n s w hI => ?_)
    (fun s _ => hout s) rounds s) (fun _ _ => h) (fun _ _ h => h) (fun _ _ h => h)
  refine (hbody n s hI w trivial).imp (fun flow _ h => ?_) (fun _ _ h => h)
  cases flow <;> exact h

theorem fold {γ : Type} {body : β → γ → Run ε W β} {xs : List γ}
    (hbody : ∀ b, ∀ x ∈ xs, R b → Yields (body b x) R) {b : β} (h : R b) :
    Yields (Run.fold body xs b) R :=
  Triple.imp (Triple.fold (I := fun b _ => R b) (fun b x hx w hb => hbody b x hx hb w trivial) b)
    (fun _ _ => h) (fun _ _ h => h) (fun _ _ h => h)

theorem fold_through {γ : Type} {body : β → γ → Run ε W β} {I : List γ → β → Prop} {xs : List γ}
    (hbody : ∀ gone x rest b, xs = gone ++ x :: rest → I gone b →
      Yields (body b x) (I (gone ++ [x]))) {b : β} (h : I [] b) :
    Yields (Run.fold body xs b) (I xs) :=
  Triple.imp (Triple.fold_through (I := fun gone b _ => I gone b)
      (fun gone x rest b hxs w hb => hbody gone x rest b hxs hb w trivial) b)
    (fun _ _ => h) (fun _ _ h => h) (fun _ _ h => h)

theorem and {m : Run ε W α} (h : Yields m Q) (h' : Yields m Q') :
    Yields m fun a => Q a ∧ Q' a := by
  intro w _
  have hw := h w trivial
  have hw' := h' w trivial
  rcases hr : m w with ⟨r, w'⟩
  rw [hr] at hw hw'
  cases r with
  | ok a => exact ⟨hw, hw'⟩
  | error e => trivial

end Yields

/-- From every state the computation answers `a`. -/
def Answers (m : Run ε W α) (a : α) : Prop := ∀ w, ∃ w', m w = (.ok a, w')

namespace Answers

theorem pure (a : α) : Answers (Pure.pure a : Run ε W α) a := fun w => ⟨w, rfl⟩

theorem lift {r : Except ε α} {a : α} (h : r = .ok a) : Answers (Run.lift r : Run ε W α) a :=
  fun w => ⟨w, by rw [h]; rfl⟩

theorem bind {m : Run ε W α} {f : α → Run ε W β} {a : α} {b : β} (hm : Answers m a)
    (hf : Answers (f a) b) : Answers (m >>= f) b := by
  intro w
  obtain ⟨w₁, h₁⟩ := hm w
  obtain ⟨w₂, h₂⟩ := hf w₁
  exact ⟨w₂, (bind_of_ok h₁).trans h₂⟩

theorem again {body : σ → Run ε W (Flow σ β)} {out : σ → β} {rounds : ℕ} {s s' : σ} {b : β}
    (h : Answers (body s) (.again s')) (hrest : Answers (Run.loop body out rounds s') b) :
    Answers (Run.loop body out (rounds + 1) s) b := bind h hrest

theorem stop {body : σ → Run ε W (Flow σ β)} {out : σ → β} {rounds : ℕ} {s : σ} {b : β}
    (h : Answers (body s) (.stop b)) : Answers (Run.loop body out (rounds + 1) s) b :=
  bind h (pure b)

end Answers

/-! ## Invariants -/

def Keeps (I : W → Prop) (E : ε → W → Prop) (m : Run ε W α) : Prop := Triple I m (fun _ => I) E

namespace Keeps

variable {I : W → Prop} {E : ε → W → Prop}

theorem pure (a : α) : Keeps I E (Pure.pure a : Run ε W α) := Triple.pure fun _ h => h

theorem fail {e : ε} (h : ∀ w, I w → E e w) : Keeps I E (Run.fail e : Run ε W α) := Triple.fail h

theorem lift {r : Except ε α} (h : ∀ e w, r = .error e → I w → E e w) :
    Keeps I E (Run.lift r : Run ε W α) := by
  intro w hw
  cases r with
  | ok a => exact hw
  | error e => exact h e w rfl hw

theorem read (f : W → α) : Keeps I E (Run.read f : Run ε W α) := Triple.read fun _ h => h

theorem modify {f : W → W} (h : ∀ w, I w → I (f w)) : Keeps I E (Run.modify f : Run ε W Unit) :=
  Triple.modify h

theorem bind {m : Run ε W α} {f : α → Run ε W β} (hm : Keeps I E m)
    (hf : ∀ a, Keeps I E (f a)) : Keeps I E (m >>= f) := Triple.bind hm hf

theorem ite {c : Prop} [Decidable c] {m m' : Run ε W α} (h : c → Keeps I E m)
    (h' : ¬c → Keeps I E m') : Keeps I E (if c then m else m') := Triple.ite h h'

theorem guard {c : Prop} [Decidable c] {a : α} {m : Run ε W α} (h : ¬c → Keeps I E m) :
    Keeps I E (if c then Pure.pure a else m) := ite (fun _ => pure a) h

theorem when {c : Prop} [Decidable c] {a : α} {m : Run ε W α} (h : c → Keeps I E m) :
    Keeps I E (if c then m else Pure.pure a) := ite h fun _ => pure a

theorem map {m : Run ε W α} {f : α → β} (hm : Keeps I E m) :
    Keeps I E (m >>= fun a => Pure.pure (f a)) := bind hm fun a => pure (f a)

theorem fold {γ : Type} {body : β → γ → Run ε W β} (hbody : ∀ b x, Keeps I E (body b x))
    (xs : List γ) (b : β) : Keeps I E (Run.fold body xs b) :=
  Triple.fold (fun b x _ => hbody b x) b

theorem loop {body : σ → Run ε W (Flow σ β)} {out : σ → β} (hbody : ∀ s, Keeps I E (body s))
    (rounds : ℕ) (s : σ) : Keeps I E (Run.loop body out rounds s) := by
  refine Triple.loop (I := fun _ => I) (fun s => ?_) (fun _ _ h => h) rounds s
  refine (hbody s).imp (fun _ h => h) (fun flow w h => ?_) (fun _ _ h => h)
  cases flow with
  | again s' => exact h
  | stop b => exact h

theorem and_ok {m : Run ε W α} {Q : α → W → Prop} (hm : Keeps I E m)
    (hQ : ∀ w a w', m w = (.ok a, w') → Q a w') : Triple I m (fun a w => I w ∧ Q a w) E := by
  intro w hw
  have h := hm w hw
  rcases hr : m w with ⟨r, w'⟩
  rw [hr] at h
  cases r with
  | ok a => exact ⟨h, hQ w a w' hr⟩
  | error e => exact h

theorem attempt_bind {m : Run ε W α} {f : Except ε α → Run ε W β} (hm : Keeps I E m)
    (hok : ∀ a, Keeps I E (f (.ok a)))
    (herror : ∀ e, Triple (E e) (f (.error e)) (fun _ => I) E) :
    Keeps I E (Run.attempt m >>= f) := by
  have hattempt : Triple I (Run.attempt m)
      (fun r w => match r with | .ok _ => I w | .error e => E e w) E :=
    Triple.attempt (hm.imp (fun _ h => h) (fun _ _ h => h) fun _ _ h => h)
  refine Triple.bind hattempt fun r => ?_
  cases r with
  | ok a => exact hok a
  | error e => exact herror e

theorem orElse {m m' : Run ε W α} (hm : Keeps I E m)
    (hm' : ∀ e, Triple (E e) m' (fun _ => I) E) : Keeps I E (Run.orElse m m') := by
  intro w hw
  have h := hm w hw
  unfold Run.orElse
  rcases hr : m w with ⟨r, w'⟩
  rw [hr] at h
  cases r with
  | ok a => exact h
  | error e => exact hm' e w' h

end Keeps

/-! ## The states of a loop -/

variable {body : σ → Run ε W (Flow σ β)} {out : σ → β} {rounds : ℕ} {s : σ} {w w' : W}

theorem loop_again {s' : σ} {w w' : W} (h : body s w = (.ok (.again s'), w')) :
    loop body out (rounds + 1) s w = loop body out rounds s' w' := bind_of_ok h

theorem loop_stop {b : β} (h : body s w = (.ok (.stop b), w')) :
    loop body out (rounds + 1) s w = (.ok b, w') := bind_of_ok h

theorem loop_error {e : ε} (h : body s w = (.error e, w')) :
    loop body out (rounds + 1) s w = (.error e, w') := bind_of_error h

inductive Reach (body : σ → Run ε W (Flow σ β)) (s₀ : σ) (w₀ : W) : σ → W → Prop
  | start : Reach body s₀ w₀ s₀ w₀
  | again {s s' : σ} {w w' : W} (h : Reach body s₀ w₀ s w)
      (hs : body s w = (.ok (.again s'), w')) : Reach body s₀ w₀ s' w'

/-- **The loop rule, for the states a run passes through.** -/
theorem loop_reach {I : σ → W → Prop} {R : β → W → Prop} {E : ε → W → Prop} {s₀ : σ} {w₀ : W}
    (hstart : I s₀ w₀) (hbody : ∀ s w, Reach body s₀ w₀ s w → I s w → Ends
      (fun flow w' => match flow with | .again s' => I s' w' | .stop b => R b w') E (body s w))
    (hout : ∀ s w, I s w → R (out s) w) (rounds : ℕ) : Ends R E (loop body out rounds s₀ w₀) := by
  suffices h : ∀ n s w, Reach body s₀ w₀ s w → I s w → Ends R E (loop body out n s w) from
    h rounds s₀ w₀ .start hstart
  intro n
  induction n with
  | zero => exact fun s w _ hw => hout s w hw
  | succ n ih =>
    intro s w hreach hw
    have hends := hbody s w hreach hw
    rcases hr : body s w with ⟨r, w'⟩
    rw [hr] at hends
    cases r with
    | error e =>
      rw [loop_error hr]
      exact hends
    | ok flow =>
      cases flow with
      | stop b =>
        rw [loop_stop hr]
        exact hends
      | again s' =>
        rw [loop_again hr]
        exact ih s' w' (.again hreach hr) hends

/-- A loop whose rounds lower a measure goes on from every state it passes through. -/
theorem Reach.loop_eq (out : σ → β) {s₀ s : σ} {w₀ w : W} (h : Reach body s₀ w₀ s w) (μ : σ → ℕ)
    (hμ : ∀ s w s' w', body s w = (.ok (.again s'), w') → μ s' < μ s) {n : ℕ} (hn : μ s₀ < n) :
    ∃ m, μ s < m ∧ loop body out n s₀ w₀ = loop body out m s w := by
  induction h with
  | start => exact ⟨n, hn, rfl⟩
  | again _ hs ih =>
    obtain ⟨m, hm, hloop⟩ := ih
    obtain ⟨k, rfl⟩ : ∃ k, m = k + 1 := ⟨m - 1, by omega⟩
    have hlt := hμ _ _ _ _ hs
    exact ⟨k, by omega, hloop.trans (loop_again hs)⟩

/-- A loop whose rounds lower a measure gives one answer for every bound above it. -/
theorem loop_stable (μ : σ → ℕ) (hμ : ∀ s w s' w', body s w = (.ok (.again s'), w') → μ s' < μ s) :
    ∀ (n m : ℕ) (s : σ) (w : W), μ s < n → μ s < m → loop body out n s w = loop body out m s w := by
  intro n
  induction n with
  | zero => intro m s w hn; omega
  | succ n ih =>
    intro m s w hn hm
    obtain ⟨m, rfl⟩ : ∃ k, m = k + 1 := ⟨m - 1, by omega⟩
    rcases hr : body s w with ⟨r, w'⟩
    cases r with
    | error e => rw [loop_error hr, loop_error hr]
    | ok flow =>
      cases flow with
      | stop b => rw [loop_stop hr, loop_stop hr]
      | again s' =>
        have hlt := hμ s w s' w' hr
        rw [loop_again hr, loop_again hr]
        exact ih m s' w' (by omega) (by omega)

end Run

end DbgScope
