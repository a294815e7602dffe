import DbgScope.Engine.Basic
import DbgScope.LineScan
import DbgScope.Utf16

/-!
# The notice of a kernel connection

A kernel attach breaks in once, when the engine's output announces the connection. The output comes
in fragments cut anywhere, with other kinds of output in between. `Notice` remembers how far the
line has followed the announcement and nothing else, and this is enough (`Tracks`).
-/

namespace DbgScope.Engine

open LineScan

def debugOutputNormal : UInt32 := 1

def announcement : List UInt8 :=
  [0x43, 0x6F, 0x6E, 0x6E, 0x65, 0x63, 0x74, 0x65, 0x64, 0x20, 0x74, 0x6F, 0x20, 0x74, 0x61, 0x72,
    0x67, 0x65, 0x74, 0x20]

example : announcement = "Connected to target ".toUTF8.data.toList := by decide

def lineFeed : UInt8 := 0x0A

/-- What is remembered of the output so far. `inside` keeps the place in the announcement one that
can be read. -/
structure Notice where
  matched : ℕ
  skipLine : Bool
  fired : Bool
  inside : fired = false → matched < announcement.length

namespace Notice

def default : Notice := ⟨0, false, false, fun _ => by decide⟩

def step (notice : Notice) (h : notice.fired = false) (byte : UInt8) : Notice :=
  if byte = lineFeed then ⟨0, false, false, fun _ => by decide⟩
  else if notice.skipLine then notice
  else if byte = announcement.get ⟨notice.matched, notice.inside h⟩ then
    if hall : notice.matched + 1 = announcement.length then
      ⟨notice.matched + 1, false, true, fun hfired => by cases hfired⟩
    else
      ⟨notice.matched + 1, false, false, fun _ =>
        Nat.lt_of_le_of_ne (notice.inside h) hall⟩
  else ⟨0, true, false, fun _ => by decide⟩

def scan (notice : Notice) (h : notice.fired = false) : List UInt8 → Bool × Notice
  | [] => (false, notice)
  | byte :: rest =>
    if hnext : (notice.step h byte).fired = false then (notice.step h byte).scan hnext rest
    else (true, notice.step h byte)

def feed (notice : Notice) (mask : UInt32) (bytes : List UInt8) : Bool × Notice :=
  if h : mask = debugOutputNormal ∧ notice.fired = false then notice.scan h.2 bytes
  else (false, notice)

def answers (notice : Notice) : List (UInt32 × List UInt8) → List Bool
  | [] => []
  | (mask, bytes) :: rest =>
    (notice.feed mask bytes).1 :: (notice.feed mask bytes).2.answers rest

end Notice

def heard (fragment : UInt32 × List UInt8) : List UInt8 :=
  if fragment.1 = debugOutputNormal then fragment.2 else []

def normalOutput (fragments : List (UInt32 × List UInt8)) : List UInt8 := fragments.flatMap heard

def Fires (fragments : List (UInt32 × List UInt8)) (index : ℕ) : Prop :=
  (Notice.default.answers fragments)[index]? = some true

/-- The fragment at an index brings the byte at a position of the normal output. -/
def Carries (fragments : List (UInt32 × List UInt8)) (index position : ℕ) : Prop :=
  (normalOutput (fragments.take index)).length ≤ position ∧
    position < (normalOutput (fragments.take (index + 1))).length

/-! ## What the notice remembers -/

/-- The notice has fired where a line has started with the announcement, and remembers how far the
last line has followed it where none has. -/
structure Tracks (notice : Notice) (out : List UInt8) : Prop where
  fired : notice.fired = true ↔ Occurs lineFeed announcement out
  progress : notice.fired = false →
    Progress lineFeed announcement out notice.matched notice.skipLine

theorem lineFeed_notMem : lineFeed ∉ announcement := by decide

theorem not_occurs_nil : ¬ Occurs lineFeed announcement [] := by
  rintro ⟨start, hstart⟩
  have hfits := ((startsLine_iff lineFeed_notMem).mp hstart).1
  simp [announcement] at hfits

theorem tracks_default : Tracks .default [] where
  fired := iff_of_false (by decide) not_occurs_nil
  progress _ := progress_nil

variable {notice : Notice} {out : List UInt8} {fragments : List (UInt32 × List UInt8)} {index : ℕ}

theorem Tracks.of_progress {next : Notice} {out : List UInt8} {byte : UInt8} (h : Tracks notice out)
    (hfired : notice.fired = false)
    (hprogress : Progress lineFeed announcement (out ++ [byte]) next.matched next.skipLine)
    (hnext : next.fired = true ↔ next.skipLine = false ∧ next.matched = announcement.length) :
    Tracks next (out ++ [byte]) where
  fired := by
    have hnone : ¬ Occurs lineFeed announcement out := by
      rw [← h.fired, hfired]
      decide
    rw [occurs_snoc_iff lineFeed_notMem, or_iff_right hnone, hprogress.lastLine_eq_iff, hnext]
  progress _ := hprogress

theorem step_tracks (h : Tracks notice out) (hfired : notice.fired = false) (byte : UInt8) :
    Tracks (notice.step hfired byte) (out ++ [byte]) := by
  have hprogress := h.progress hfired
  have hinside := notice.inside hfired
  unfold Notice.step
  split
  · next hline =>
    refine h.of_progress hfired (hline ▸ progress_newline) ?_
    decide
  next hline =>
  split
  · next hskip =>
    rw [hskip] at hprogress
    refine h.of_progress hfired (hskip ▸ hprogress.stay hline) ?_
    simp [hfired, hskip]
  next hskip =>
  rw [Bool.not_eq_true] at hskip
  rw [hskip] at hprogress
  have hget : announcement[notice.matched]? =
      some (announcement.get ⟨notice.matched, hinside⟩) := List.getElem?_eq_getElem hinside
  split
  · next hbyte =>
    have hfollows := hprogress.follow hline (hbyte ▸ hget)
    split
    · next hall => exact h.of_progress hfired hfollows (by simp [hall])
    · next hall => exact h.of_progress hfired hfollows (by simp [hall])
  · next hbyte =>
    refine h.of_progress hfired (hprogress.leave hline ?_ 0) (by simp)
    rw [hget]
    exact fun heq => hbyte (Option.some.inj heq).symm

theorem scan_fires (hfired : notice.fired = false) (bytes : List UInt8) :
    (notice.scan hfired bytes).1 = (notice.scan hfired bytes).2.fired := by
  induction bytes generalizing notice with
  | nil => exact hfired.symm
  | cons byte rest ih =>
    unfold Notice.scan
    split
    · next hnext => exact ih hnext
    · next hnext => exact (Bool.not_eq_false _ ▸ hnext).symm

theorem scan_tracks (h : Tracks notice out) (hfired : notice.fired = false) (bytes : List UInt8) :
    Tracks (notice.scan hfired bytes).2 (out ++ bytes) := by
  induction bytes generalizing notice out with
  | nil =>
    rw [List.append_nil]
    exact h
  | cons byte rest ih =>
    have hstep := step_tracks h hfired byte
    rw [List.append_cons]
    unfold Notice.scan
    split
    · next hnext => exact ih hstep hnext
    · next hnext =>
      -- the rest of the fragment is not read, and cannot undo the line that was found
      rw [Bool.not_eq_false] at hnext
      have hoccurs := hstep.fired.mp hnext
      refine ⟨iff_of_true hnext (hoccurs.append lineFeed_notMem rest), fun hnot => ?_⟩
      rw [hnext] at hnot
      cases hnot

/-- A fragment fires where it is the one that brings the announcement to its end. -/
theorem feed_tracks (h : Tracks notice out) (mask : UInt32) (bytes : List UInt8) :
    Tracks (notice.feed mask bytes).2 (out ++ heard (mask, bytes)) ∧
      ((notice.feed mask bytes).1 = true ↔ ¬ Occurs lineFeed announcement out ∧
        Occurs lineFeed announcement (out ++ heard (mask, bytes))) := by
  unfold Notice.feed heard
  by_cases hmask : mask = debugOutputNormal
  · rw [if_pos hmask]
    by_cases hfired : notice.fired = false
    · rw [dif_pos ⟨hmask, hfired⟩]
      have htracks := scan_tracks h hfired bytes
      refine ⟨htracks, ?_⟩
      rw [scan_fires, htracks.fired, ← h.fired, hfired]
      simp
    · rw [dif_neg fun hboth => hfired hboth.2]
      rw [Bool.not_eq_false] at hfired
      have hoccurs := h.fired.mp hfired
      refine ⟨⟨iff_of_true hfired (hoccurs.append lineFeed_notMem bytes), fun hnot => ?_⟩, ?_⟩
      · rw [hfired] at hnot
        cases hnot
      · simp [hoccurs]
  · rw [if_neg hmask, dif_neg fun hboth => hmask hboth.1, List.append_nil]
    exact ⟨h, by simp⟩

theorem answers_iff (h : Tracks notice out) (fragments : List (UInt32 × List UInt8)) (index : ℕ) :
    (notice.answers fragments)[index]? = some true ↔
      ¬ Occurs lineFeed announcement (out ++ normalOutput (fragments.take index)) ∧
        Occurs lineFeed announcement (out ++ normalOutput (fragments.take (index + 1))) := by
  induction fragments generalizing notice out index with
  | nil => simp [Notice.answers]
  | cons fragment rest ih =>
    obtain ⟨mask, bytes⟩ := fragment
    obtain ⟨htracks, hanswer⟩ := feed_tracks h mask bytes
    cases index with
    | zero =>
      rw [Notice.answers, List.getElem?_cons_zero, Option.some.injEq, hanswer]
      simp [normalOutput]
    | succ index =>
      rw [Notice.answers, List.getElem?_cons_succ, ih htracks]
      simp [normalOutput, List.append_assoc]

/-! ## The fragment that fires -/

theorem normalOutput_take (fragments : List (UInt32 × List UInt8)) (index : ℕ) :
    normalOutput (fragments.take index) = (normalOutput fragments).take
      (normalOutput (fragments.take index)).length := by
  conv_rhs => rw [← List.take_append_drop index fragments]
  unfold normalOutput
  rw [List.flatMap_append, List.take_append_drop, List.take_left]

theorem fires_iff_of_first {start : ℕ}
    (h : FirstLine lineFeed announcement (normalOutput fragments) start) (index : ℕ) :
    Fires fragments index ↔ Carries fragments index (start + announcement.length - 1) := by
  have hpos : 0 < announcement.length := by decide
  unfold Fires Carries
  rw [answers_iff tracks_default, List.nil_append, List.nil_append,
    normalOutput_take fragments index, normalOutput_take fragments (index + 1),
    h.occurs_take_iff lineFeed_notMem, h.occurs_take_iff lineFeed_notMem,
    ← normalOutput_take, ← normalOutput_take]
  omega

theorem occurs_of_fires (h : Fires fragments index) :
    Occurs lineFeed announcement (normalOutput fragments) := by
  obtain ⟨-, hoccurs⟩ := (answers_iff tracks_default fragments index).mp h
  rw [List.nil_append] at hoccurs
  have hmore := hoccurs.append lineFeed_notMem (normalOutput (fragments.drop (index + 1)))
  rwa [normalOutput, normalOutput, ← List.flatMap_append, List.take_append_drop] at hmore

theorem normalOutput_take_mono (fragments : List (UInt32 × List UInt8)) {index other : ℕ}
    (h : index ≤ other) : (normalOutput (fragments.take index)).length ≤
      (normalOutput (fragments.take other)).length := by
  have htake := congrArg List.length (normalOutput_take (fragments.take other) index)
  rw [List.take_take, min_eq_left h, List.length_take] at htake
  omega

theorem Carries.unique {other position : ℕ} (h : Carries fragments index position)
    (hother : Carries fragments other position) : index = other := by
  obtain ⟨hlow, hhigh⟩ := h
  obtain ⟨hlow', hhigh'⟩ := hother
  rcases Nat.lt_trichotomy index other with hlt | heq | hlt
  · have hmono := normalOutput_take_mono fragments (Nat.add_one_le_of_lt hlt)
    omega
  · exact heq
  · have hmono := normalOutput_take_mono fragments (Nat.add_one_le_of_lt hlt)
    omega

theorem exists_carries {position : ℕ} (h : position < (normalOutput fragments).length) :
    ∃ index, Carries fragments index position := by
  have hreached : ∃ count, position < (normalOutput (fragments.take count)).length :=
    ⟨fragments.length, by rwa [List.take_length]⟩
  have hspec := Nat.find_spec hreached
  have hmin := Nat.find_min hreached (m := Nat.find hreached - 1)
  have hpos : Nat.find hreached ≠ 0 := by
    intro hzero
    rw [hzero] at hspec
    simp [normalOutput] at hspec
  refine ⟨Nat.find hreached - 1, Nat.le_of_not_lt (hmin (by omega)), ?_⟩
  rwa [Nat.sub_add_cancel (Nat.pos_of_ne_zero hpos)]

/-- **The notice does not depend on how the output is cut.** Over any fragments it fires at most
once, and for exactly the fragment that brings the last byte of the announcement where a line of the
normal output first starts with it. -/
theorem notice_fires_at_first_line (fragments : List (UInt32 × List UInt8)) :
    (∀ index other, Fires fragments index → Fires fragments other → index = other) ∧
    (∀ index, Fires fragments index ↔
      ∃ start, FirstLine lineFeed announcement (normalOutput fragments) start ∧
        Carries fragments index (start + announcement.length - 1)) ∧
    ∀ recut, normalOutput recut = normalOutput fragments → ∀ index, Fires fragments index →
      ∃ other position, Fires recut other ∧ Carries fragments index position ∧
        Carries recut other position := by
  have hfires : ∀ index, Fires fragments index ↔
      ∃ start, FirstLine lineFeed announcement (normalOutput fragments) start ∧
        Carries fragments index (start + announcement.length - 1) := by
    intro index
    constructor
    · intro hindex
      obtain ⟨start, hstart⟩ := exists_firstLine (occurs_of_fires hindex)
      exact ⟨start, hstart, (fires_iff_of_first hstart index).mp hindex⟩
    · rintro ⟨start, hstart, hcarries⟩
      exact (fires_iff_of_first hstart index).mpr hcarries
  refine ⟨fun index other hindex hother => ?_, hfires, fun recut hrecut index hindex => ?_⟩
  · obtain ⟨start, hstart, hcarries⟩ := (hfires index).mp hindex
    exact hcarries.unique ((fires_iff_of_first hstart other).mp hother)
  · obtain ⟨start, hstart, hcarries⟩ := (hfires index).mp hindex
    have hfits := ((startsLine_iff lineFeed_notMem).mp hstart.1).1
    have hpos : 0 < announcement.length := by decide
    obtain ⟨other, hother⟩ : ∃ other, Carries recut other (start + announcement.length - 1) :=
      exists_carries (by rw [hrecut]; omega)
    rw [← hrecut] at hstart
    exact ⟨other, _, (fires_iff_of_first hstart other).mpr hother, hcarries, hother⟩

/-- The announcement behind another line, with a warning in the middle of it. -/
def interruptedConnection : List (UInt32 × List UInt8) :=
  [(1, [0x78, 0x0A] ++ announcement.take 13), (2, [0x0A] ++ announcement),
    (1, announcement.drop 13), (1, [0x0A] ++ announcement)]

theorem notice_fires_at_first_line_interrupted :
    Fires interruptedConnection 2 ∧
      ∃ other position, Fires [(1, normalOutput interruptedConnection)] other ∧
        Carries interruptedConnection 2 position ∧
        Carries [(1, normalOutput interruptedConnection)] other position := by
  have hfires : Fires interruptedConnection 2 := by
    unfold Fires
    decide
  exact ⟨hfires, (notice_fires_at_first_line interruptedConnection).2.2
    [(1, normalOutput interruptedConnection)] (by decide) 2 hfires⟩

/-! ## The observer that breaks in -/

end DbgScope.Engine
