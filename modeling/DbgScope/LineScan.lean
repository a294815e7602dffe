import Mathlib.Tactic

/-!
# A pattern at the start of a line

Where a pattern that holds no newline first starts a line of an output that arrives symbol by
symbol. `lastLine` is what has arrived of the line being written; a line starts with the pattern
exactly where its `lastLine` has been the pattern (`startsLine_iff`), and `Progress` is all a reader
has to remember of the output to notice that (`progress_snoc`).
-/

namespace DbgScope.LineScan

variable {α : Type} [DecidableEq α] {newline : α} {pattern out : List α}

def lastLine (newline : α) (out : List α) : List α :=
  (out.reverse.takeWhile (· ≠ newline)).reverse

def StartsLine (newline : α) (pattern out : List α) (start : ℕ) : Prop :=
  (start = 0 ∨ out[start - 1]? = some newline) ∧ pattern <+: out.drop start

def FirstLine (newline : α) (pattern out : List α) (start : ℕ) : Prop :=
  StartsLine newline pattern out start ∧
    ∀ earlier < start, ¬ StartsLine newline pattern out earlier

def Occurs (newline : α) (pattern out : List α) : Prop :=
  ∃ start, StartsLine newline pattern out start

@[simp] theorem lastLine_nil : lastLine newline ([] : List α) = [] := rfl

theorem lastLine_snoc (symbol : α) : lastLine newline (out ++ [symbol]) =
    if symbol = newline then [] else lastLine newline out ++ [symbol] := by
  unfold lastLine
  rw [List.reverse_append, List.reverse_singleton, List.singleton_append, List.takeWhile_cons]
  by_cases h : symbol = newline
  · simp [h]
  · simp [h]

theorem exists_append_lastLine (newline : α) (out : List α) :
    ∃ before, out = before ++ lastLine newline out ∧
      (before = [] ∨ before.getLast? = some newline) := by
  induction out using List.reverseRecOn with
  | nil => exact ⟨[], rfl, .inl rfl⟩
  | append_singleton out symbol ih =>
    rw [lastLine_snoc]
    obtain ⟨before, hout, hbefore⟩ := ih
    split
    · next h => exact ⟨out ++ [symbol], by simp, .inr (by simp [h])⟩
    · refine ⟨before, ?_, hbefore⟩
      conv_lhs => rw [hout]
      rw [List.append_assoc]

theorem lastLine_append {before line : List α}
    (hbefore : before = [] ∨ before.getLast? = some newline) (hline : newline ∉ line) :
    lastLine newline (before ++ line) = line := by
  have hstart : lastLine newline before = [] := by
    rcases hbefore with rfl | hlast
    · rfl
    · obtain ⟨init, rfl⟩ := List.getLast?_eq_some_iff.mp hlast
      rw [lastLine_snoc, if_pos rfl]
  induction line using List.reverseRecOn with
  | nil => rw [List.append_nil, hstart]
  | append_singleton line symbol ih =>
    rw [List.mem_append, List.mem_singleton, not_or] at hline
    rw [← List.append_assoc, lastLine_snoc, if_neg (Ne.symm hline.2), ih hline.1]

theorem startsLine_iff (hpattern : newline ∉ pattern) {start : ℕ} :
    StartsLine newline pattern out start ↔ start + pattern.length ≤ out.length ∧
      lastLine newline (out.take (start + pattern.length)) = pattern := by
  have hlast : start ≤ out.length → (start = 0 ∨ out[start - 1]? = some newline ↔
      out.take start = [] ∨ (out.take start).getLast? = some newline) := by
    intro hstart
    rcases Nat.eq_zero_or_pos start with rfl | hpos
    · simp
    · have hne : out.take start ≠ [] := by
        rw [Ne, List.take_eq_nil_iff]
        rintro (h | rfl)
        · omega
        · simp at hstart
          omega
      rw [or_iff_right (by omega), or_iff_right hne, List.getLast?_eq_getElem?, List.length_take,
        min_eq_left hstart, List.getElem?_take, if_pos (by omega)]
  constructor
  · rintro ⟨hanchor, rest, hrest⟩
    have hlength := congrArg List.length hrest
    rw [List.length_append, List.length_drop] at hlength
    rcases Nat.lt_or_ge out.length start with hlt | hle
    · -- past the end no line starts, so the pattern is empty and the start is zero
      rcases hanchor with rfl | hget
      · omega
      · rw [List.getElem?_eq_none (by omega)] at hget
        cases hget
    · refine ⟨by omega, ?_⟩
      rw [List.take_add, ← hrest, List.take_left]
      exact lastLine_append ((hlast hle).mp hanchor) hpattern
  · rintro ⟨hfits, hline⟩
    obtain ⟨before, hsplit, hbefore⟩ :=
      exists_append_lastLine newline (out.take (start + pattern.length))
    rw [hline] at hsplit
    have hlength := congrArg List.length hsplit
    rw [List.length_take, List.length_append, min_eq_left hfits] at hlength
    rw [List.take_add] at hsplit
    obtain ⟨hstart, hpart⟩ := List.append_inj hsplit (by rw [List.length_take]; omega)
    refine ⟨(hlast (by omega)).mpr (hstart ▸ hbefore), ?_⟩
    rw [← hpart]
    exact List.take_prefix _ _

theorem startsLine_take (hpattern : newline ∉ pattern) {start length : ℕ} :
    StartsLine newline pattern (out.take length) start ↔
      StartsLine newline pattern out start ∧ start + pattern.length ≤ length := by
  rw [startsLine_iff hpattern, startsLine_iff hpattern, List.length_take, List.take_take]
  constructor
  · rintro ⟨hfits, hline⟩
    rw [min_eq_left (by omega)] at hline
    exact ⟨⟨by omega, hline⟩, by omega⟩
  · rintro ⟨⟨hfits, hline⟩, hlength⟩
    rw [min_eq_left hlength]
    exact ⟨by omega, hline⟩

theorem Occurs.append (hpattern : newline ∉ pattern) (h : Occurs newline pattern out)
    (more : List α) : Occurs newline pattern (out ++ more) := by
  obtain ⟨start, hstart⟩ := h
  have htake : (out ++ more).take out.length = out := List.take_left
  rw [← htake, startsLine_take hpattern] at hstart
  exact ⟨start, hstart.1⟩

omit [DecidableEq α] in
theorem exists_firstLine (h : Occurs newline pattern out) :
    ∃ start, FirstLine newline pattern out start := by
  classical
  exact ⟨Nat.find h, Nat.find_spec h, fun _ => Nat.find_min h⟩

/-- A beginning of the output has such a line once it reaches the end of the first one's
pattern. -/
theorem FirstLine.occurs_take_iff (hpattern : newline ∉ pattern) {start length : ℕ}
    (h : FirstLine newline pattern out start) :
    Occurs newline pattern (out.take length) ↔ start + pattern.length ≤ length := by
  constructor
  · rintro ⟨other, hother⟩
    obtain ⟨hline, hlength⟩ := (startsLine_take hpattern).mp hother
    have hle : start ≤ other := Nat.le_of_not_lt fun hlt => h.2 other hlt hline
    omega
  · exact fun hlength => ⟨start, (startsLine_take hpattern).mpr ⟨h.1, hlength⟩⟩

theorem occurs_snoc_iff (hpattern : newline ∉ pattern) (symbol : α) :
    Occurs newline pattern (out ++ [symbol]) ↔
      Occurs newline pattern out ∨ lastLine newline (out ++ [symbol]) = pattern := by
  have hwhole : ∀ length, out.length < length → (out ++ [symbol]).take length = out ++ [symbol] :=
    fun length hlength => List.take_of_length_le (by simpa using hlength)
  constructor
  · rintro ⟨start, hstart⟩
    by_cases hfits : start + pattern.length ≤ out.length
    · left
      refine ⟨start, ?_⟩
      have htake : (out ++ [symbol]).take out.length = out := List.take_left
      rw [← htake, startsLine_take hpattern]
      exact ⟨hstart, hfits⟩
    · obtain ⟨-, hline⟩ := (startsLine_iff hpattern).mp hstart
      rw [hwhole _ (by omega)] at hline
      exact .inr hline
  · rintro (h | hline)
    · exact h.append hpattern _
    · obtain ⟨before, hsplit, -⟩ :=
        exists_append_lastLine newline (out ++ [symbol])
      rw [hline] at hsplit
      have hlength := congrArg List.length hsplit
      simp only [List.length_append, List.length_singleton] at hlength
      refine ⟨before.length, (startsLine_iff hpattern).mpr ⟨by simp; omega, ?_⟩⟩
      rw [hwhole _ (by omega), hline]

/-! ## What a reader remembers -/

/-- How far the line being written has followed the pattern, or that it has left it. -/
inductive Progress (newline : α) (pattern out : List α) : ℕ → Bool → Prop
  | follows {matched : ℕ} (hmatched : matched ≤ pattern.length)
      (hline : lastLine newline out = pattern.take matched) :
      Progress newline pattern out matched false
  | left (matched : ℕ) (hline : ¬ lastLine newline out <+: pattern) :
      Progress newline pattern out matched true

theorem progress_nil : Progress newline pattern ([] : List α) 0 false :=
  .follows (Nat.zero_le _) (by simp)

theorem progress_newline : Progress newline pattern (out ++ [newline]) 0 false :=
  .follows (Nat.zero_le _) (by simp [lastLine_snoc])

theorem Progress.follow {matched : ℕ} {symbol : α}
    (h : Progress newline pattern out matched false) (hsymbol : symbol ≠ newline)
    (hnext : pattern[matched]? = some symbol) :
    Progress newline pattern (out ++ [symbol]) (matched + 1) false := by
  obtain ⟨hlt, hget⟩ := List.getElem?_eq_some_iff.mp hnext
  cases h with
  | follows _ hline =>
    refine .follows hlt ?_
    rw [lastLine_snoc, if_neg hsymbol, hline, List.take_add_one, hnext]
    rfl

theorem Progress.leave {matched : ℕ} {symbol : α}
    (h : Progress newline pattern out matched false) (hsymbol : symbol ≠ newline)
    (hnext : pattern[matched]? ≠ some symbol) (other : ℕ) :
    Progress newline pattern (out ++ [symbol]) other true := by
  cases h with
  | follows hmatched hline =>
    refine .left other fun hprefix => hnext ?_
    rw [lastLine_snoc, if_neg hsymbol, hline] at hprefix
    obtain ⟨rest, hrest⟩ := hprefix
    have hget := congrArg (·[matched]?) hrest
    rw [← hget, List.append_assoc, List.getElem?_append_right (by simp), List.length_take,
      min_eq_left hmatched, Nat.sub_self]
    rfl

theorem Progress.stay {matched : ℕ} {symbol : α}
    (h : Progress newline pattern out matched true) (hsymbol : symbol ≠ newline) :
    Progress newline pattern (out ++ [symbol]) matched true := by
  cases h with
  | left hline =>
    refine .left matched fun hprefix => hline ?_
    rw [lastLine_snoc, if_neg hsymbol] at hprefix
    exact (List.prefix_append _ _).trans hprefix

theorem Progress.lastLine_eq_iff {matched : ℕ} {skips : Bool}
    (h : Progress newline pattern out matched skips) :
    lastLine newline out = pattern ↔ skips = false ∧ matched = pattern.length := by
  cases h with
  | follows hmatched hline =>
    rw [hline, List.take_eq_self_iff]
    simp only [true_and]
    omega
  | left hline =>
    simp only [Bool.true_eq_false, false_and, iff_false]
    exact fun heq => hline (heq ▸ List.prefix_rfl)

end DbgScope.LineScan
