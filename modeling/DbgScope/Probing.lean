import Mathlib.Tactic

/-!
# Linear probing with tombstones

A table of `n` slots in which an entry is put at the first free slot at or after its key's hash,
wrapping at the end. Freeing an entry leaves a tombstone: the slot is free to claim again but no
longer one that was never used. `Sound` is the invariant that makes it safe to give up a search at a
slot that was never used, and both operations keep it (`Sound.claim`, `Sound.release`).
-/

namespace DbgScope.Probing

def slotAt (n hash d : ℕ) : ℕ := (hash + d) % n

theorem slotAt_lt {n : ℕ} (hn : 0 < n) (hash d : ℕ) : slotAt n hash d < n := Nat.mod_lt _ hn

theorem slotAt_zero {n hash : ℕ} (h : hash < n) : slotAt n hash 0 = hash := Nat.mod_eq_of_lt h

theorem slotAt_succ (n hash d : ℕ) : slotAt n hash (d + 1) = (slotAt n hash d + 1) % n := by
  unfold slotAt
  rw [Nat.mod_add_mod, Nat.add_assoc]

theorem slotAt_injective {n hash d e : ℕ} (hd : d < n) (he : e < n)
    (h : slotAt n hash d = slotAt n hash e) : d = e := by
  have hmod : d ≡ e [MOD n] := Nat.ModEq.add_left_cancel' hash h
  rw [Nat.ModEq, Nat.mod_eq_of_lt hd, Nat.mod_eq_of_lt he] at hmod
  exact hmod

section Table

variable {S K : Type} (hash : K → ℕ) (n : ℕ) (unused free : S → Prop) (key : S → K)

/-- Entries are where a search for them can find them, and in one place each. -/
structure Sound (slots : ℕ → S) : Prop where
  placed : ∀ i < n, ¬ free (slots i) → ∃ d < n, slotAt n (hash (key (slots i))) d = i ∧
    ∀ e < d, ¬ unused (slots (slotAt n (hash (key (slots i))) e))
  unique : ∀ i < n, ∀ j < n, ¬ free (slots i) → ¬ free (slots j) →
    key (slots i) = key (slots j) → i = j

variable {hash n unused free key} {slots : ℕ → S}

theorem sound_of_free (h : ∀ i < n, free (slots i)) : Sound hash n unused free key slots :=
  ⟨fun i hi hfree => absurd (h i hi) hfree, fun i hi _ _ hfree => absurd (h i hi) hfree⟩

theorem Sound.claim (h : Sound hash n unused free key slots) {s : S} {d : ℕ} (hd : d < n)
    (hfirst : ∀ e < d, ¬ free (slots (slotAt n (hash (key s)) e)))
    (hused : ∀ i, ¬ free (slots i) → ¬ unused (slots i)) (hs : ¬ unused s)
    (hnew : ∀ i < n, ¬ free (slots i) → key (slots i) ≠ key s) :
    Sound hash n unused free key (Function.update slots (slotAt n (hash (key s)) d) s) := by
  set p := slotAt n (hash (key s)) d with hp
  -- a slot that was not unused is not unused now
  have hkeep : ∀ i, ¬ unused (slots i) → ¬ unused (Function.update slots p s i) := by
    intro i hi
    by_cases hip : i = p
    · rwa [hip, Function.update_self]
    · rwa [Function.update_of_ne hip]
  refine ⟨fun i hi hfree => ?_, fun i hi j hj hfi hfj hkey => ?_⟩
  · by_cases hip : i = p
    · rw [hip, Function.update_self]
      exact ⟨d, hd, hp.symm, fun e he => hkeep _ (hused _ (hfirst e he))⟩
    · rw [Function.update_of_ne hip] at hfree ⊢
      obtain ⟨e, he, hpath, hpassed⟩ := h.placed i hi hfree
      exact ⟨e, he, hpath, fun f hf => hkeep _ (hpassed f hf)⟩
  · by_cases hip : i = p <;> by_cases hjp : j = p
    · rw [hip, hjp]
    · rw [hip, Function.update_self, Function.update_of_ne hjp] at hkey
      rw [Function.update_of_ne hjp] at hfj
      exact absurd hkey.symm (hnew j hj hfj)
    · rw [hjp, Function.update_self, Function.update_of_ne hip] at hkey
      rw [Function.update_of_ne hip] at hfi
      exact absurd hkey (hnew i hi hfi)
    · rw [Function.update_of_ne hip] at hfi hkey
      rw [Function.update_of_ne hjp] at hfj hkey
      exact h.unique i hi j hj hfi hfj hkey

theorem Sound.release (h : Sound hash n unused free key slots) {slots' : ℕ → S}
    (hslots : ∀ i, slots' i = slots i ∨ free (slots' i) ∧ ¬ unused (slots' i)) :
    Sound hash n unused free key slots' := by
  have hsame : ∀ i, ¬ free (slots' i) → slots' i = slots i := by
    intro i hi
    rcases hslots i with heq | ⟨hfree, -⟩
    · exact heq
    · exact absurd hfree hi
  refine ⟨fun i hi hfree => ?_, fun i hi j hj hfi hfj hkey => ?_⟩
  · have heq := hsame i hfree
    rw [heq] at hfree ⊢
    obtain ⟨d, hd, hpath, hpassed⟩ := h.placed i hi hfree
    refine ⟨d, hd, hpath, fun e he => ?_⟩
    rcases hslots (slotAt n (hash (key (slots i))) e) with hkept | ⟨-, hused⟩
    · rw [hkept]
      exact hpassed e he
    · exact hused
  · have hieq := hsame i hfi
    have hjeq := hsame j hfj
    rw [hieq] at hfi hkey
    rw [hjeq] at hfj hkey
    exact h.unique i hi j hj hfi hfj hkey

/-- What a search for the entry at `i` meets: slots that were used and hold other keys, and then
the entry. -/
theorem Sound.path (h : Sound hash n unused free key slots) {i : ℕ} (hi : i < n)
    (hfree : ¬ free (slots i)) :
    ∃ d < n, slotAt n (hash (key (slots i))) d = i ∧
      ∀ e < d, ¬ unused (slots (slotAt n (hash (key (slots i))) e)) ∧
        (¬ free (slots (slotAt n (hash (key (slots i))) e)) →
          key (slots (slotAt n (hash (key (slots i))) e)) ≠ key (slots i)) := by
  obtain ⟨d, hd, hpath, hpassed⟩ := h.placed i hi hfree
  refine ⟨d, hd, hpath, fun e he => ⟨hpassed e he, fun hlive hkey => ?_⟩⟩
  have hsame := h.unique _ (slotAt_lt (by omega) _ _) i hi hlive hfree hkey
  have hde := slotAt_injective (by omega) hd (hsame.trans hpath.symm)
  omega

end Table

end DbgScope.Probing
