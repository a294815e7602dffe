import DbgScope.Run

/-!
# Two computations over one state

`Alike R E m m'` says that two computations go through the same states: from every state they
leave the same one, and both succeed, with values that `R` relates, or both fail, with failures
that `E` relates. A computation that records more than another one, or checks more, is compared
with it in this way.
-/

namespace DbgScope

/-- Two rounds that both go on, from related states, or both leave the loop, with related values. -/
inductive Flow.Alike {σ τ β γ : Type} (I : σ → τ → Prop) (R : β → γ → Prop) :
    Flow σ β → Flow τ γ → Prop
  | again {s : σ} {t : τ} (h : I s t) : Flow.Alike I R (.again s) (.again t)
  | stop {b : β} {c : γ} (h : R b c) : Flow.Alike I R (.stop b) (.stop c)

namespace Run

variable {ε δ W α β γ κ σ τ : Type}

/-- Two runs that end in the same state and in related ways. -/
inductive Agree (R : α → β → Prop) (E : ε → δ → Prop) : Except ε α × W → Except δ β × W → Prop
  | ok {a : α} {b : β} {w : W} (h : R a b) : Agree R E (.ok a, w) (.ok b, w)
  | error {e : ε} {d : δ} {w : W} (h : E e d) : Agree R E (.error e, w) (.error d, w)

def mapError (f : ε → δ) (m : Run ε W α) : Run δ W α := fun w =>
  (match (m w).1 with
    | .ok a => .ok a
    | .error e => .error (f e), (m w).2)

def Alike (R : α → β → Prop) (E : ε → δ → Prop) (m : Run ε W α) (m' : Run δ W β) : Prop :=
  ∀ w, Agree R E (m w) (m' w)

namespace Alike

variable {R : α → β → Prop} {S : γ → κ → Prop} {E : ε → δ → Prop}

theorem of_ok {m : Run ε W α} {m' : Run δ W β} (h : Alike R E m m') {w w' : W} {a : α}
    (ha : m w = (.ok a, w')) : ∃ b, m' w = (.ok b, w') ∧ R a b := by
  have hw := h w
  rw [ha] at hw
  generalize hr : m' w = r at hw
  cases hw with
  | ok hR => exact ⟨_, rfl, hR⟩

theorem imp {R' : α → β → Prop} {m : Run ε W α} {m' : Run δ W β} (h : Alike R E m m')
    (hR : ∀ a b, R a b → R' a b) : Alike R' E m m' := by
  intro w
  have hw := h w
  generalize m w = r, m' w = r' at hw ⊢
  cases hw with
  | ok hab => exact .ok (hR _ _ hab)
  | error he => exact .error he

theorem pure {a : α} {b : β} (h : R a b) :
    Alike R E (Pure.pure a : Run ε W α) (Pure.pure b : Run δ W β) := fun _ => .ok h

theorem fail {e : ε} {d : δ} (h : E e d) :
    Alike R E (Run.fail e : Run ε W α) (Run.fail d : Run δ W β) := fun _ => .error h

theorem refl {m : Run ε W α} {Q : α → Prop} (h : Yields m Q) :
    Alike (fun a b => a = b ∧ Q a) Eq m m := by
  intro w
  have hends := h w trivial
  rcases hm : m w with ⟨r, w'⟩
  rw [hm] at hends
  cases r with
  | ok a => exact .ok ⟨rfl, hends⟩
  | error e => exact .error rfl

theorem mapError {m : Run ε W α} {Q : α → Prop} (f : ε → δ) (h : Yields m Q) :
    Alike (fun a b => a = b ∧ Q a) (fun e d => d = f e) m (Run.mapError f m) := by
  intro w
  have hends := h w trivial
  unfold Run.mapError
  rcases hm : m w with ⟨r, w'⟩
  rw [hm] at hends
  cases r with
  | ok a => exact .ok ⟨rfl, hends⟩
  | error e => exact .error rfl

theorem bind {m : Run ε W α} {m' : Run δ W β} {f : α → Run ε W γ} {g : β → Run δ W κ}
    (hm : Alike R E m m') (hf : ∀ a b, R a b → Alike S E (f a) (g b)) :
    Alike S E (m >>= f) (m' >>= g) := by
  intro w
  have h := hm w
  rcases hr : m w with ⟨r, w₁⟩
  rcases hr' : m' w with ⟨r', w₂⟩
  rw [hr, hr'] at h
  cases h with
  | ok hR =>
    rw [bind_of_ok hr, bind_of_ok hr']
    exact hf _ _ hR w₁
  | error hE =>
    rw [bind_of_error hr, bind_of_error hr']
    exact .error hE

theorem ite {c : Prop} [Decidable c] {m₁ m₂ : Run ε W α} {m₁' m₂' : Run δ W β}
    (h : c → Alike R E m₁ m₁') (h' : ¬c → Alike R E m₂ m₂') :
    Alike R E (if c then m₁ else m₂) (if c then m₁' else m₂') := by
  by_cases hc : c
  · rw [if_pos hc, if_pos hc]
    exact h hc
  · rw [if_neg hc, if_neg hc]
    exact h' hc

theorem guard {c : Prop} [Decidable c] {e : ε} {d : δ} {m : Run ε W α} {m' : Run δ W β}
    (h : ¬c → Alike R E m m') (he : E e d := by rfl) :
    Alike R E (if c then Run.fail e else m) (if c then Run.fail d else m') :=
  ite (fun _ => fail he) h

/-- **The loop rule.** Rounds that are alike make loops that are. -/
theorem loop {body : σ → Run ε W (Flow σ α)} {body' : τ → Run δ W (Flow τ β)} {out : σ → α}
    {out' : τ → β} {I : ℕ → σ → τ → Prop}
    (hbody : ∀ n s t, I (n + 1) s t → Alike (Flow.Alike (I n) R) E (body s) (body' t))
    (hout : ∀ s t, I 0 s t → R (out s) (out' t)) :
    ∀ (rounds : ℕ) (s : σ) (t : τ), I rounds s t →
      Alike R E (Run.loop body out rounds s) (Run.loop body' out' rounds t) := by
  intro rounds
  induction rounds with
  | zero => exact fun s t h => pure (hout s t h)
  | succ rounds ih =>
    intro s t h
    refine bind (hbody rounds s t h) fun flow flow' hflow => ?_
    cases hflow with
    | again hI => exact ih _ _ hI
    | stop hR => exact pure hR

/-- **The fold rule.** -/
theorem fold {ι : Type} {body : α → ι → Run ε W α} {body' : β → ι → Run δ W β} {xs : List ι}
    (hbody : ∀ a b, ∀ x ∈ xs, R a b → Alike R E (body a x) (body' b x)) :
    ∀ (a : α) (b : β), R a b → Alike R E (Run.fold body xs a) (Run.fold body' xs b) := by
  induction xs with
  | nil => exact fun a b h => pure h
  | cons x xs ih =>
    intro a b h
    refine bind (hbody a b x List.mem_cons_self h) fun a' b' h' => ?_
    exact ih (fun a b y hy => hbody a b y (List.mem_cons_of_mem x hy)) a' b' h'

end Alike

end Run

end DbgScope
