import DbgScope.Pool.Snapshot
import DbgScope.Tally

/-!
# What a walk complained about

`PoolDiagnostics` keeps a few complaints of each shape verbatim and counts them all. Counts, the
place of each shape and the sample are updated together by one push; `Tallied` says what they are
after any complaints, as the tally of the complaints by shape, and every push keeps it.
-/

namespace DbgScope.Pool

open Tally

namespace PoolDiagnostics

def isEmpty (diagnostics : PoolDiagnostics) : Bool := diagnostics.shapes.isEmpty

def emitted (diagnostics : PoolDiagnostics) : ℕ :=
  (diagnostics.shapes.map DiagnosticShape.total).sum

def summary (collapsed : ℕ) (shape : String) : String :=
  s!"... and {collapsed} more like `{shape}`"

def lines (diagnostics : PoolDiagnostics) : List String :=
  diagnostics.examples ++ diagnostics.shapes.filterMap fun seen =>
    if 0 < seen.total - diagnosticExamples then
      some (summary (seen.total - diagnosticExamples) seen.shape)
    else none

end PoolDiagnostics

/-- The diagnostics are the tally of these complaints by shape. -/
structure Tallied (diagnostics : PoolDiagnostics) (messages : List String) : Prop where
  shapes : diagnostics.shapes = (kinds diagnosticShape messages).map fun shape =>
    ⟨shape, total diagnosticShape messages shape⟩
  positions : diagnostics.positions = (kinds diagnosticShape messages).zipIdx
  examples : diagnostics.examples = sample diagnosticShape diagnosticExamples messages

theorem tallied_empty : Tallied .empty [] := ⟨rfl, rfl, rfl⟩

section

variable {diagnostics : PoolDiagnostics} {messages : List String} (h : Tallied diagnostics messages)
include h

/-- A shape is given a place of its own the first time it comes, with nothing counted yet. -/
theorem positionOf_tallied (message : String) :
    let placed := diagnostics.positionOf (diagnosticShape message)
    let shapes := kinds diagnosticShape (messages ++ [message])
    placed.2 = shapes.idxOf (diagnosticShape message) ∧
      placed.1.shapes = shapes.map (fun shape => ⟨shape, total diagnosticShape messages shape⟩) ∧
      placed.1.positions = shapes.zipIdx ∧ placed.1.examples = diagnostics.examples := by
  dsimp only
  unfold PoolDiagnostics.positionOf
  rw [h.positions, lookup_zipIdx, kinds_snoc]
  by_cases hseen : diagnosticShape message ∈ kinds diagnosticShape messages
  · rw [if_pos hseen, if_pos hseen]
    exact ⟨rfl, h.shapes, h.positions, rfl⟩
  · have hnone : total diagnosticShape messages (diagnosticShape message) = 0 :=
      Nat.eq_zero_of_not_pos (total_pos_iff.not.mpr hseen)
    rw [if_neg hseen, if_neg hseen]
    refine ⟨?_, ?_, ?_, rfl⟩
    · rw [List.idxOf_append, if_neg hseen, h.shapes]
      simp
    · rw [h.shapes, List.map_append, List.map_singleton, hnone]
    · rw [h.shapes, List.zipIdx_append]
      simp

/-- **Each push counts one complaint of its shape** and keeps it while its shape has room. -/
theorem push_tallied (message : String) :
    Tallied (diagnostics.push message) (messages ++ [message]) := by
  obtain ⟨hposition, hshapes, hpositions, hexamples⟩ := positionOf_tallied h message
  have hmem : diagnosticShape message ∈ kinds diagnosticShape (messages ++ [message]) :=
    mem_kinds.mpr ⟨message, by simp, rfl⟩
  have hcounted : ((diagnostics.positionOf (diagnosticShape message)).1.shapes.modify
      (diagnostics.positionOf (diagnosticShape message)).2
        fun seen => { seen with total := seen.total + 1 }) =
      (kinds diagnosticShape (messages ++ [message])).map fun shape =>
        ⟨shape, total diagnosticShape (messages ++ [message]) shape⟩ := by
    rw [hshapes, hposition, modify_idxOf hmem nodup_kinds]
    refine List.map_congr_left fun shape _ => ?_
    rw [total_snoc]
    by_cases hshape : shape = diagnosticShape message
    · rw [if_pos hshape, if_pos hshape.symm]
    · rw [if_neg hshape, if_neg (Ne.symm hshape), Nat.add_zero]
  have htotal : ((diagnostics.positionOf (diagnosticShape message)).1.shapes.modify
      (diagnostics.positionOf (diagnosticShape message)).2
        fun seen => { seen with total := seen.total + 1 })[
          (diagnostics.positionOf (diagnosticShape message)).2]?.map DiagnosticShape.total =
      some (total diagnosticShape messages (diagnosticShape message) + 1) := by
    rw [hcounted, hposition, List.getElem?_map, List.getElem?_idxOf hmem]
    simp [total_snoc]
  constructor
  · exact hcounted
  · exact hpositions
  · unfold PoolDiagnostics.push
    dsimp only
    rw [htotal, hexamples, h.examples, sample_snoc, Option.getD_some]
    by_cases hroom : total diagnosticShape messages (diagnosticShape message) < diagnosticExamples
    · rw [if_pos hroom, if_pos (Nat.succ_le_of_lt hroom)]
    · rw [if_neg hroom, if_neg (by omega), List.append_nil]

theorem extend_tallied (more : List String) :
    Tallied (diagnostics.extend more) (messages ++ more) := by
  induction more generalizing diagnostics messages with
  | nil =>
    rw [List.append_nil]
    exact h
  | cons message more ih =>
    rw [List.append_cons]
    exact ih (push_tallied h message)

/-! ## What is said of the complaints -/

/-- The shapes that had more than the sample, with how many more. -/
def collapsed (messages : List String) : List (ℕ × String) :=
  (kinds diagnosticShape messages).filterMap fun shape =>
    if 0 < total diagnosticShape messages shape - diagnosticExamples then
      some (total diagnosticShape messages shape - diagnosticExamples, shape)
    else none

omit h in
theorem mem_collapsed {count : ℕ} {shape : String} :
    (count, shape) ∈ collapsed messages ↔ 0 < count ∧
      count + total diagnosticShape (sample diagnosticShape diagnosticExamples messages) shape =
        total diagnosticShape messages shape := by
  rw [total_sample, collapsed, List.mem_filterMap]
  constructor
  · rintro ⟨other, -, hother⟩
    split at hother
    · obtain ⟨rfl, rfl⟩ := Prod.mk.inj (Option.some.inj hother)
      omega
    · cases hother
  · rintro ⟨hpos, hcount⟩
    refine ⟨shape, total_pos_iff.mp (by omega), ?_⟩
    rw [if_pos (by omega), Option.some.injEq, Prod.mk.injEq]
    exact ⟨by omega, rfl⟩

omit h in
theorem collapsed_shapes_nodup (messages : List String) :
    ((collapsed messages).map Prod.snd).Nodup := by
  have hkinds : (kinds diagnosticShape messages).Nodup := nodup_kinds
  refine hkinds.sublist ?_
  unfold collapsed
  induction kinds diagnosticShape messages with
  | nil => exact List.Sublist.refl _
  | cons shape shapes ih =>
    rw [List.filterMap_cons]
    split
    · exact ih.cons _
    · next hsome =>
      split at hsome
      · rw [← Option.some.inj hsome]
        exact ih.cons_cons _
      · cases hsome

omit h in
theorem sum_collapsed (messages : List String) : ((collapsed messages).map Prod.fst).sum =
    ((kinds diagnosticShape messages).map fun shape =>
      total diagnosticShape messages shape - diagnosticExamples).sum := by
  unfold collapsed
  induction kinds diagnosticShape messages with
  | nil => rfl
  | cons shape shapes ih =>
    rw [List.filterMap_cons, List.map_cons, List.sum_cons, ← ih]
    by_cases hmore : 0 < total diagnosticShape messages shape - diagnosticExamples
    · simp [hmore]
    · simp [Nat.eq_zero_of_not_pos hmore]

theorem lines_tallied : diagnostics.lines = diagnostics.examples ++
      (collapsed messages).map fun entry => PoolDiagnostics.summary entry.1 entry.2 := by
  unfold PoolDiagnostics.lines collapsed
  rw [h.shapes, List.filterMap_map, List.map_filterMap]
  congr 1
  refine List.filterMap_congr fun shape _ => ?_
  dsimp only [Function.comp]
  split <;> rfl

/-- What the diagnostics hold after these complaints. -/
structure LosesNoCount (diagnostics : PoolDiagnostics) (messages : List String) : Prop where
  emitted : diagnostics.emitted = messages.length
  distinct : (diagnostics.shapes.map DiagnosticShape.shape).Nodup
  inOrder : diagnostics.shapes.map DiagnosticShape.shape = (messages.map diagnosticShape).eraseDups
  totals : ∀ seen ∈ diagnostics.shapes,
    seen.total = (messages.filter (diagnosticShape · = seen.shape)).length
  examples : diagnostics.examples = sample diagnosticShape diagnosticExamples messages
  /-- Each shape with complaints that are not in the sample has one line, which counts them. -/
  lines : ∃ collapsed : List (ℕ × String),
    diagnostics.lines = diagnostics.examples ++
      collapsed.map (fun entry => PoolDiagnostics.summary entry.1 entry.2) ∧
    (collapsed.map Prod.snd).Nodup ∧
    (∀ count shape, (count, shape) ∈ collapsed ↔ 0 < count ∧
      count + (diagnostics.examples.filter (diagnosticShape · = shape)).length =
        (messages.filter (diagnosticShape · = shape)).length) ∧
    (collapsed.map Prod.fst).sum + diagnostics.examples.length = messages.length

omit h in
/-- **Diagnostics lose no count.** After any complaints, the shapes are distinct, in the order they
first came, each with exactly as many complaints as have that shape; and the lines are the sample
and one line for each shape with complaints that are not in it, whose numbers count exactly those.
-/
theorem diagnostics_lose_no_count (messages : List String) :
    LosesNoCount (PoolDiagnostics.empty.extend messages) messages := by
  have htallied := extend_tallied tallied_empty messages
  generalize PoolDiagnostics.empty.extend messages = diagnostics at htallied
  have hshapes : diagnostics.shapes.map DiagnosticShape.shape = kinds diagnosticShape messages := by
    rw [htallied.shapes, List.map_map]
    exact List.map_id _
  refine ⟨?_, ?_, hshapes, fun seen hseen => ?_, htallied.examples, collapsed messages,
    lines_tallied htallied, collapsed_shapes_nodup messages, fun count shape => ?_, ?_⟩
  · rw [PoolDiagnostics.emitted, htallied.shapes, List.map_map]
    exact sum_totals
  · rw [hshapes]
    exact nodup_kinds
  · rw [htallied.shapes] at hseen
    obtain ⟨shape, -, rfl⟩ := List.mem_map.mp hseen
    rfl
  · rw [htallied.examples]
    exact mem_collapsed
  · rw [sum_collapsed, htallied.examples, Nat.add_comm]
    exact length_sample_add (by decide)

end

/-- Ten complaints about nodes, with one of another kind in between. -/
example : (PoolDiagnostics.empty.extend (List.replicate 5 "node 1 lost" ++ ["bad size"] ++
    List.replicate 5 "node 2 lost")).lines.getLast? = some "... and 2 more like `node # lost`" := by
  decide +kernel

end DbgScope.Pool
