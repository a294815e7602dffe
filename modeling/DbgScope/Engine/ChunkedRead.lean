import DbgScope.Machine
import DbgScope.Run
import DbgScope.Engine.Basic

/-!
# A read in pieces

`read_chunked` reads a range page by page and asks before each piece whether to stop. `ReadHost` is
what it is told from outside, which may depend on everything that happened before. Over a memory
that is readable or not by whole pages, `chunkRound_cases` says what one round can do.
-/

namespace DbgScope.Engine

inductive Interruption
  | deadline (afterMs : ℕ)
  | onRequest
  deriving DecidableEq, Repr

inductive ReadError
  | shortRead (address requested actual : ℕ)
  | outOfMemory (address requested read : ℕ)
  | context (size address : ℕ) (source : HResult)
  deriving DecidableEq, Repr

structure MemoryRead where
  bytes : List UInt8
  cutShort : Option Interruption
  deriving DecidableEq

inductive ReadEvent
  | asked (answer : Option Interruption)
  | reserved (bytes : ℕ) (granted : Bool)
  | read (start len : ℕ)
  deriving DecidableEq

/-- What a read is told: whether to stop, and whether there is room. -/
structure ReadHost where
  halt : List ReadEvent → Option Interruption
  reserve : List ReadEvent → ℕ → Bool

/-- A reader fills a slice from an address: how much it says it read, and the slice after it. -/
abbrev ChunkReader := ℕ → List UInt8 → Except ReadError ℕ × List UInt8

def ReadHost.asks (host : ReadHost) : Run ReadError (List ReadEvent) (Option Interruption) :=
  fun events => (.ok (host.halt events), .asked (host.halt events) :: events)

def ReadHost.reserves (host : ReadHost) (bytes : ℕ) : Run ReadError (List ReadEvent) Bool :=
  fun events =>
    (.ok (host.reserve events bytes), .reserved bytes (host.reserve events bytes) :: events)

def ChunkReader.fill (reader : ChunkReader) (start : ℕ) (into : List UInt8) :
    Run ReadError (List ReadEvent) (Except ReadError ℕ × List UInt8) :=
  fun events => (.ok (reader start into), .read start into.length :: events)

def readChunkBytes : ℕ := 4096

/-- How many bytes the next piece covers: to the end of its page, and not past what is left. -/
def readChunkLen (address done size : ℕ) : ℕ :=
  min (size - done) (readChunkBytes - wrappingAdd address done % readChunkBytes)

def tryBuffer (host : ReadHost) (len address requested : ℕ) :
    Run ReadError (List ReadEvent) (List UInt8) := do
  let granted ← host.reserves len
  if granted then pure (List.replicate len 0) else Run.fail (.outOfMemory address requested 0)

/-- What the rounds carry: the bytes so far and the buffer each piece is read into. -/
structure ChunkState where
  bytes : List UInt8
  chunk : List UInt8

def takeChunk (host : ReadHost) (address size : ℕ) (s : ChunkState) (len : ℕ)
    (answer : Except ReadError ℕ × List UInt8) :
    Run ReadError (List ReadEvent) (Flow ChunkState MemoryRead) :=
  let done := s.bytes.length
  let chunk := answer.2 ++ s.chunk.drop len
  match answer.1 with
  | .error source => Run.fail (if 0 < done then .shortRead address size done else source)
  | .ok claimed => do
    -- a reader may claim more than it was handed
    let read := min claimed len
    let granted ← host.reserves read
    if granted then
      let bytes := s.bytes ++ chunk.take read
      if read < len then Run.fail (.shortRead address size bytes.length)
      else pure (.again ⟨bytes, chunk⟩)
    else Run.fail (.outOfMemory address size done)

def chunkRound (host : ReadHost) (reader : ChunkReader) (address size : ℕ) (s : ChunkState) :
    Run ReadError (List ReadEvent) (Flow ChunkState MemoryRead) :=
  let done := s.bytes.length
  if done < size then do
    match ← host.asks with
    | some cutShort => pure (.stop ⟨s.bytes, some cutShort⟩)
    | none =>
      match checkedAdd address done with
      | none => Run.fail (.shortRead address size done)
      | some start =>
        let len := readChunkLen address done size
        let answer ← reader.fill start (s.chunk.take len)
        takeChunk host address size s len answer
  else pure (.stop ⟨s.bytes, none⟩)

def readChunked (host : ReadHost) (reader : ChunkReader) (address size : ℕ) :
    Run ReadError (List ReadEvent) MemoryRead := do
  let chunk ← tryBuffer host (min readChunkBytes size) address size
  Run.loop (chunkRound host reader address size) (fun s => ⟨s.bytes, none⟩) (size + 1) ⟨[], chunk⟩

/-! ## Memory that is readable by pages -/

/-- What a target holds, and which of its pages fail to be read with what. -/
structure PageMemory where
  byte : ℕ → UInt8
  fault : ℕ → Option HResult

namespace PageMemory

variable (memory : PageMemory)

def bytes (start n : ℕ) : List UInt8 := (List.range n).map fun i => memory.byte (start + i)

/-- The range is below the top of the address space and on readable pages. -/
def Readable (start n : ℕ) : Prop :=
  start + n ≤ 2 ^ 64 ∧ ∀ i < n, memory.fault ((start + i) / readChunkBytes) = none

def readable : ℕ → ℕ → ℕ
  | _, 0 => 0
  | start, n + 1 =>
    if start < 2 ^ 64 ∧ memory.fault (start / readChunkBytes) = none then readable (start + 1) n + 1
    else 0

/-- One `ReadVirtual`: what can be read from the start on, or the failure of its first page. -/
def readVirtual : ChunkReader := fun start into =>
  match into, memory.fault (start / readChunkBytes) with
  | [], _ => (.ok 0, [])
  | _ :: _, some source => (.error (.context into.length start source), into)
  | _ :: _, none =>
    let n := memory.readable start into.length
    (.ok n, memory.bytes start n ++ into.drop n)

variable {memory}

@[simp] theorem length_bytes (start n : ℕ) : (memory.bytes start n).length = n := by
  simp [bytes]

theorem bytes_add (start n m : ℕ) :
    memory.bytes start (n + m) = memory.bytes start n ++ memory.bytes (start + n) m := by
  simp [bytes, List.range_add, Nat.add_assoc]

theorem Readable.mono {start n m : ℕ} (h : memory.Readable start n) (hle : m ≤ n) :
    memory.Readable start m :=
  ⟨by have := h.1; omega, fun i hi => h.2 i (by omega)⟩

theorem Readable.add {start n m : ℕ} (h : memory.Readable start n)
    (h' : memory.Readable (start + n) m) : memory.Readable start (n + m) := by
  refine ⟨by have := h'.1; omega, fun i hi => ?_⟩
  rcases Nat.lt_or_ge i n with hlt | hge
  · exact h.2 i hlt
  · have := h'.2 (i - n) (by omega)
    rwa [show start + n + (i - n) = start + i by omega] at this

theorem readable_succ {start n : ℕ} : memory.Readable start (n + 1) ↔
    (start < 2 ^ 64 ∧ memory.fault (start / readChunkBytes) = none) ∧
      memory.Readable (start + 1) n := by
  constructor
  · rintro ⟨htop, hfault⟩
    refine ⟨⟨by omega, by simpa using hfault 0 (Nat.succ_pos n)⟩, by omega, fun i hi => ?_⟩
    simpa [Nat.add_assoc, Nat.add_comm 1 i] using hfault (i + 1) (by omega)
  · rintro ⟨⟨-, hfault⟩, htop, hrest⟩
    refine ⟨by omega, fun i hi => ?_⟩
    cases i with
    | zero => exact hfault
    | succ i => simpa [Nat.add_assoc, Nat.add_comm 1 i] using hrest i (by omega)

theorem Readable.readable_eq {start n : ℕ} (h : memory.Readable start n) :
    memory.readable start n = n := by
  induction n generalizing start with
  | zero => rfl
  | succ n ih =>
    obtain ⟨hfirst, hrest⟩ := readable_succ.mp h
    rw [readable, if_pos hfirst, ih hrest]

theorem readable_eq_of_not {start n size : ℕ} (h : memory.Readable start n) (hlt : n < size)
    (hnot : ¬ memory.Readable start (n + 1)) : memory.readable start size = n := by
  induction n generalizing start size with
  | zero =>
    obtain ⟨size, rfl⟩ : ∃ k, size = k + 1 := ⟨size - 1, by omega⟩
    rw [readable, if_neg]
    rintro ⟨htop, hfault⟩
    exact hnot ⟨htop, fun i hi => by rw [Nat.lt_one_iff.mp hi, Nat.add_zero, hfault]⟩
  | succ n ih =>
    obtain ⟨size, rfl⟩ : ∃ k, size = k + 1 := ⟨size - 1, by omega⟩
    obtain ⟨hfirst, hrest⟩ := readable_succ.mp h
    have hnot' : ¬ memory.Readable (start + 1) (n + 1) := fun h' =>
      hnot (readable_succ.mpr ⟨hfirst, h'⟩)
    rw [readable, if_pos hfirst, ih hrest (by omega) hnot']

theorem readable_spec (memory : PageMemory) {start : ℕ} (hstart : start ≤ 2 ^ 64) (size : ℕ) :
    memory.Readable start (memory.readable start size) ∧
      (¬ memory.Readable start size →
        ¬ memory.Readable start (memory.readable start size + 1)) := by
  induction size generalizing start with
  | zero => exact ⟨⟨hstart, by simp [readable]⟩, fun h => absurd ⟨hstart, by simp⟩ h⟩
  | succ size ih =>
    by_cases hfirst : start < 2 ^ 64 ∧ memory.fault (start / readChunkBytes) = none
    · obtain ⟨hreadable, hnot⟩ := ih (Nat.succ_le_of_lt hfirst.1)
      rw [readable, if_pos hfirst, readable_succ, readable_succ, readable_succ]
      exact ⟨⟨hfirst, hreadable⟩, fun h h' => hnot (fun hrest => h ⟨hfirst, hrest⟩) h'.2⟩
    · rw [readable, if_neg hfirst, readable_succ, readable_succ]
      exact ⟨⟨hstart, by simp⟩, fun _ h => hfirst h.1⟩

theorem readVirtual_of_none {start : ℕ} {into : List UInt8}
    (h : memory.Readable start into.length) :
    memory.readVirtual start into = (.ok into.length, memory.bytes start into.length) := by
  cases into with
  | nil => rfl
  | cons first rest =>
    have hfirst : memory.fault (start / readChunkBytes) = none := by
      simpa using h.2 0 (Nat.succ_pos _)
    simp only [readVirtual, hfirst, h.readable_eq]
    simp

theorem readVirtual_of_some {start : ℕ} {into : List UInt8} {source : HResult}
    (hinto : 0 < into.length) (h : memory.fault (start / readChunkBytes) = some source) :
    memory.readVirtual start into = (.error (.context into.length start source), into) := by
  cases into with
  | nil => simp at hinto
  | cons first rest => simp only [readVirtual, h]

end PageMemory

/-! ## One piece -/

section Piece

variable {address done size : ℕ}

theorem readChunkLen_spec (hdone : done < size) (hstart : address + done < 2 ^ 64) :
    0 < readChunkLen address done size ∧ readChunkLen address done size ≤ size - done ∧
    readChunkLen address done size ≤ readChunkBytes ∧
    address + done + readChunkLen address done size ≤ 2 ^ 64 ∧
    ∀ i < readChunkLen address done size,
      (address + done + i) / readChunkBytes = (address + done) / readChunkBytes := by
  have hwrap : wrappingAdd address done = address + done := Nat.mod_eq_of_lt hstart
  simp only [readChunkLen, readChunkBytes, hwrap]
  refine ⟨by omega, by omega, by omega, by omega, fun i hi => by omega⟩

variable {memory : PageMemory}

theorem readable_piece (hdone : done < size) (hstart : address + done < 2 ^ 64)
    (hfault : memory.fault ((address + done) / readChunkBytes) = none) :
    memory.Readable (address + done) (readChunkLen address done size) := by
  obtain ⟨-, -, -, htop, hpage⟩ := readChunkLen_spec hdone hstart
  exact ⟨htop, fun i hi => by rw [hpage i hi, hfault]⟩

end Piece

/-! ## One round -/

section Rounds

variable {host : ReadHost} {memory : PageMemory} {address size : ℕ} {s : ChunkState}
  {events : List ReadEvent}

/-- Where the loop is: the bytes so far are the memory's, and the buffer holds a piece. -/
structure Going (memory : PageMemory) (address size : ℕ) (s : ChunkState) : Prop where
  bytes : s.bytes = memory.bytes address s.bytes.length
  readable : memory.Readable address s.bytes.length
  le : s.bytes.length ≤ size
  chunk : s.chunk.length = min readChunkBytes size

theorem Going.length_take (h : Going memory address size s) (hdone : s.bytes.length < size)
    (hstart : address + s.bytes.length < 2 ^ 64) :
    (s.chunk.take (readChunkLen address s.bytes.length size)).length =
      readChunkLen address s.bytes.length size := by
  obtain ⟨-, hleft, hpage, -, -⟩ := readChunkLen_spec hdone hstart
  rw [List.length_take, h.chunk]
  omega

theorem takeChunk_whole {len : ℕ} {slice : List UInt8} (hslice : slice.length = len) :
    takeChunk host address size s len (.ok len, slice) events =
      if host.reserve events len then
        (.ok (.again ⟨s.bytes ++ slice, slice ++ s.chunk.drop len⟩), .reserved len true :: events)
      else (.error (.outOfMemory address size s.bytes.length), .reserved len false :: events) := by
  subst hslice
  have hreserves : host.reserves slice.length events =
      (.ok (host.reserve events slice.length),
        .reserved slice.length (host.reserve events slice.length) :: events) := rfl
  simp only [takeChunk, Nat.min_self, List.take_left, Nat.lt_irrefl, if_false]
  rw [Run.bind_of_ok hreserves]
  cases host.reserve events slice.length <;> rfl

/-- **What a round can do.** -/
theorem chunkRound_cases (host : ReadHost) (h : Going memory address size s)
    (events : List ReadEvent) :
    (s.bytes.length = size ∧
      chunkRound host memory.readVirtual address size s events =
        (.ok (.stop ⟨s.bytes, none⟩), events)) ∨
    s.bytes.length < size ∧
      ((∃ cutShort, host.halt events = some cutShort ∧
        chunkRound host memory.readVirtual address size s events =
          (.ok (.stop ⟨s.bytes, some cutShort⟩), .asked (some cutShort) :: events)) ∨
      (address + s.bytes.length = 2 ^ 64 ∧
        chunkRound host memory.readVirtual address size s events =
          (.error (.shortRead address size s.bytes.length), .asked none :: events)) ∨
      address + s.bytes.length < 2 ^ 64 ∧
        ((∃ source, memory.fault ((address + s.bytes.length) / readChunkBytes) = some source ∧
          chunkRound host memory.readVirtual address size s events =
            (.error (if 0 < s.bytes.length then .shortRead address size s.bytes.length
              else .context (readChunkLen address s.bytes.length size)
                (address + s.bytes.length) source),
              .read (address + s.bytes.length) (readChunkLen address s.bytes.length size) ::
                .asked none :: events)) ∨
        memory.fault ((address + s.bytes.length) / readChunkBytes) = none ∧
          ((∃ past n, host.reserve past n = false ∧
            chunkRound host memory.readVirtual address size s events =
              (.error (.outOfMemory address size s.bytes.length), .reserved n false ::
                .read (address + s.bytes.length) (readChunkLen address s.bytes.length size) ::
                  .asked none :: events)) ∨
          ∃ chunk n, chunk.length = s.chunk.length ∧
            chunkRound host memory.readVirtual address size s events =
              (.ok (.again ⟨s.bytes ++ memory.bytes (address + s.bytes.length)
                  (readChunkLen address s.bytes.length size), chunk⟩), .reserved n true ::
                .read (address + s.bytes.length) (readChunkLen address s.bytes.length size) ::
                  .asked none :: events)))) := by
  rcases h.le.eq_or_lt with heq | hdone
  · left
    refine ⟨heq, ?_⟩
    rw [chunkRound, if_neg (by omega)]
    rfl
  right
  refine ⟨hdone, ?_⟩
  rw [chunkRound, if_pos hdone]
  cases hhalt : host.halt events with
  | some cutShort =>
    left
    refine ⟨cutShort, rfl, ?_⟩
    rw [Run.bind_of_ok (by rw [ReadHost.asks, hhalt])]
    rfl
  | none =>
    right
    rw [Run.bind_of_ok (by rw [ReadHost.asks, hhalt])]
    have htop := h.readable.1
    rcases htop.eq_or_lt with heq | hstart
    · left
      refine ⟨heq, ?_⟩
      have hwrap : checkedAdd address s.bytes.length = none := by
        simp [checkedAdd, heq]
      simp only [hwrap]
      rfl
    right
    refine ⟨hstart, ?_⟩
    have hadd : checkedAdd address s.bytes.length = some (address + s.bytes.length) :=
      if_pos hstart
    have hlen := h.length_take hdone hstart
    have hpos := (readChunkLen_spec hdone hstart).1
    have hfill : memory.readVirtual.fill (address + s.bytes.length)
        (s.chunk.take (readChunkLen address s.bytes.length size)) (.asked none :: events) =
          (.ok (memory.readVirtual (address + s.bytes.length)
            (s.chunk.take (readChunkLen address s.bytes.length size))),
            .read (address + s.bytes.length) (readChunkLen address s.bytes.length size) ::
              .asked none :: events) := by
      rw [ChunkReader.fill, hlen]
    simp only [hadd]
    rw [Run.bind_of_ok hfill]
    cases hfault : memory.fault ((address + s.bytes.length) / readChunkBytes) with
    | some source =>
      left
      refine ⟨source, rfl, ?_⟩
      rw [PageMemory.readVirtual_of_some (by omega) hfault, hlen]
      rfl
    | none =>
      right
      refine ⟨rfl, ?_⟩
      have hreadable := readable_piece hdone hstart hfault
      rw [PageMemory.readVirtual_of_none (by rw [hlen]; exact hreadable), hlen]
      rw [takeChunk_whole (memory.length_bytes _ _)]
      cases hgranted : host.reserve (.read (address + s.bytes.length)
          (readChunkLen address s.bytes.length size) :: .asked none :: events)
            (readChunkLen address s.bytes.length size) with
      | false => exact .inl ⟨_, _, hgranted, rfl⟩
      | true =>
        refine .inr ⟨_, _, ?_, rfl⟩
        rw [List.length_append, List.length_drop, PageMemory.length_bytes]
        rw [List.length_take] at hlen
        omega

/-! ## The whole read -/

/-- A transfer of a part of the range that lies in one page. -/
def ReadEvent.InPage (address size : ℕ) : ReadEvent → Prop
  | .read start len => address ≤ start ∧ start + len ≤ address + size ∧ start + len ≤ 2 ^ 64 ∧
      0 < len ∧ ∀ i < len, (start + i) / readChunkBytes = start / readChunkBytes
  | _ => True

/-- How a read that was not failed ends. -/
structure Returned (host : ReadHost) (memory : PageMemory) (address size : ℕ) (read : MemoryRead) :
    Prop where
  bytes : read.bytes = memory.bytes address read.bytes.length
  readable : memory.Readable address read.bytes.length
  whole : read.cutShort = none → read.bytes.length = size
  cut : ∀ cutShort, read.cutShort = some cutShort →
    read.bytes.length < size ∧ ∃ past, host.halt past = some cutShort

/-- How a failed read ends: at the first byte it could not have, or for want of room. -/
def Failed (host : ReadHost) (memory : PageMemory) (address size : ℕ) : ReadError → Prop
  | .shortRead at' requested actual => at' = address ∧ requested = size ∧ 0 < actual ∧
      actual < size ∧ memory.Readable address actual ∧ ¬ memory.Readable address (actual + 1)
  | .context len at' source => at' = address ∧ len = readChunkLen address 0 size ∧ 0 < size ∧
      memory.fault (address / readChunkBytes) = some source
  | .outOfMemory at' requested _ => at' = address ∧ requested = size ∧
      ∃ past n, host.reserve past n = false

/-- The events so far: transfers inside one page each, and no answer to stop. -/
structure Orderly (address size : ℕ) (events : List ReadEvent) : Prop where
  inPage : ∀ event ∈ events, event.InPage address size
  going : ∀ cutShort, .asked (some cutShort) ∉ events

/-- The events at the end: an answer to stop is the last of them. -/
structure Ended (address size : ℕ) (events : List ReadEvent) : Prop where
  inPage : ∀ event ∈ events, event.InPage address size
  last : ∀ later cutShort past, events = later ++ .asked (some cutShort) :: past → later = []

theorem Orderly.cons (event : ReadEvent) (h : Orderly address size events)
    (hevent : event.InPage address size) (hgoing : ∀ cutShort, event ≠ .asked (some cutShort)) :
    Orderly address size (event :: events) where
  inPage := List.forall_mem_cons.mpr ⟨hevent, h.inPage⟩
  going cutShort hmem := by
    rcases List.mem_cons.mp hmem with heq | hmem
    · exact hgoing cutShort heq.symm
    · exact h.going cutShort hmem

theorem Orderly.ended (h : Orderly address size events) : Ended address size events where
  inPage := h.inPage
  last later cutShort past heq := absurd (by simp [heq]) (h.going cutShort)

theorem Orderly.halted (h : Orderly address size events) (cutShort : Interruption) :
    Ended address size (.asked (some cutShort) :: events) where
  inPage := List.forall_mem_cons.mpr ⟨trivial, h.inPage⟩
  last later other past heq := by
    cases later with
    | nil => rfl
    | cons event later =>
      exact absurd (by simp [(List.cons.inj heq).2]) (h.going other)

theorem inPage_piece {done : ℕ} (hdone : done < size) (hstart : address + done < 2 ^ 64) :
    ReadEvent.InPage address size
      (.read (address + done) (readChunkLen address done size)) := by
  obtain ⟨hpos, hleft, -, htop, hpage⟩ := readChunkLen_spec hdone hstart
  exact ⟨by omega, by omega, htop, hpos, hpage⟩

theorem not_readable_of_fault {n : ℕ} {source : HResult}
    (h : memory.fault ((address + n) / readChunkBytes) = some source) :
    ¬ memory.Readable address (n + 1) := by
  intro hreadable
  have := hreadable.2 n (Nat.lt_succ_self n)
  simp [h] at this

theorem chunkRound_triple (haddress : address < 2 ^ 64) (n : ℕ) :
    Run.Triple
      (fun events => (Going memory address size s ∧ size - s.bytes.length < n + 1) ∧
        Orderly address size events)
      (chunkRound host memory.readVirtual address size s)
      (fun flow events => flow.Holds
        (fun s' => (Going memory address size s' ∧ size - s'.bytes.length < n) ∧
          Orderly address size events)
        (fun read => Returned host memory address size read ∧ Ended address size events))
      (fun e events => Failed host memory address size e ∧ Ended address size events) := by
  rintro events ⟨⟨hgoing, hrounds⟩, hevents⟩
  have hasked := hevents.cons (.asked none) trivial (by simp)
  rcases chunkRound_cases host hgoing events with ⟨hall, hround⟩ | ⟨hdone, hround⟩
  · rw [hround]
    exact ⟨⟨hgoing.bytes, hgoing.readable, fun _ => hall, by simp⟩, hevents.ended⟩
  rcases hround with ⟨cutShort, hhalt, hround⟩ | ⟨htop, hround⟩ | ⟨hstart, hround⟩
  · rw [hround]
    refine ⟨⟨hgoing.bytes, hgoing.readable, by simp, fun other hother => ⟨hdone, events, ?_⟩⟩,
      hevents.halted cutShort⟩
    rw [hhalt]
    exact hother
  · rw [hround]
    refine ⟨⟨rfl, rfl, by omega, hdone, hgoing.readable, fun h => ?_⟩, hasked.ended⟩
    have := h.1
    omega
  have hread := hasked.cons _ (inPage_piece hdone hstart) (by simp)
  rcases hround with ⟨source, hfault, hround⟩ | ⟨hfault, hround⟩
  · rw [hround]
    refine ⟨?_, hread.ended⟩
    split
    · next hpos =>
      exact ⟨rfl, rfl, hpos, hdone, hgoing.readable, not_readable_of_fault hfault⟩
    · next hpos =>
      obtain hzero : s.bytes.length = 0 := by omega
      rw [hzero] at hfault hdone ⊢
      exact ⟨rfl, rfl, hdone, hfault⟩
  rcases hround with ⟨past, m, hroom, hround⟩ | ⟨chunk, m, hchunk, hround⟩
  · rw [hround]
    exact ⟨⟨rfl, rfl, past, m, hroom⟩,
      (hread.cons (.reserved m false) trivial (by simp)).ended⟩
  · rw [hround]
    obtain ⟨hpos, hleft, -, -, -⟩ := readChunkLen_spec hdone hstart
    have hlength : (s.bytes ++ memory.bytes (address + s.bytes.length)
        (readChunkLen address s.bytes.length size)).length =
          s.bytes.length + readChunkLen address s.bytes.length size := by simp
    refine ⟨⟨⟨?_, ?_, ?_, ?_⟩, ?_⟩, hread.cons (.reserved m true) trivial (by simp)⟩
    · rw [hlength, PageMemory.bytes_add, ← hgoing.bytes]
    · rw [hlength]
      exact hgoing.readable.add (readable_piece hdone hstart hfault)
    · rw [hlength]
      omega
    · exact hchunk.trans hgoing.chunk
    · rw [hlength]
      omega

/-- **How a chunked read ends.** -/
theorem readChunked_triple (host : ReadHost) (memory : PageMemory) (size : ℕ)
    (haddress : address < 2 ^ 64) :
    Run.Triple (fun events => events = [])
      (readChunked host memory.readVirtual address size)
      (fun read events => Returned host memory address size read ∧ Ended address size events)
      (fun e events => Failed host memory address size e ∧ Ended address size events) := by
  rintro _ rfl
  have hreserves : host.reserves (min readChunkBytes size) [] =
      (.ok (host.reserve [] (min readChunkBytes size)),
        [.reserved (min readChunkBytes size) (host.reserve [] (min readChunkBytes size))]) := rfl
  have hevents : ∀ granted, Orderly address size
      [.reserved (min readChunkBytes size) granted] := fun granted =>
    Orderly.cons _ ⟨List.forall_mem_nil _, fun _ => List.not_mem_nil⟩ trivial (by simp)
  cases hgranted : host.reserve [] (min readChunkBytes size) with
  | false =>
    have hbuffer : tryBuffer host (min readChunkBytes size) address size [] =
        (.error (.outOfMemory address size 0), [.reserved (min readChunkBytes size) false]) := by
      rw [tryBuffer, Run.bind_of_ok hreserves, hgranted]
      rfl
    rw [readChunked, Run.bind_of_error hbuffer]
    exact ⟨⟨rfl, rfl, [], _, hgranted⟩, (hevents false).ended⟩
  | true =>
    have hbuffer : tryBuffer host (min readChunkBytes size) address size [] =
        (.ok (List.replicate (min readChunkBytes size) 0),
          [.reserved (min readChunkBytes size) true]) := by
      rw [tryBuffer, Run.bind_of_ok hreserves, hgranted]
      rfl
    rw [readChunked, Run.bind_of_ok hbuffer]
    refine Run.Triple.countdown (I := fun n s events =>
      (Going memory address size s ∧ size - s.bytes.length < n) ∧ Orderly address size events)
      (fun n s => (chunkRound_triple haddress n).post fun flow _ h => by cases flow <;> exact h)
      (fun s events h => ?_) (size + 1) ⟨[], List.replicate (min readChunkBytes size) 0⟩ _
      ⟨⟨⟨rfl, ?_, ?_, ?_⟩, ?_⟩, hevents true⟩
    · exact absurd h.1.2 (by omega)
    · exact ⟨by simpa using haddress.le, by simp⟩
    · simp
    · simp
    · simp

theorem readChunked_ended (host : ReadHost) (memory : PageMemory) (size : ℕ)
    (haddress : address < 2 ^ 64) :
    Ended address size (readChunked host memory.readVirtual address size []).2 :=
  ((readChunked_triple host memory size haddress [] rfl).imp
    (fun _ _ h => h.2) (fun _ _ h => h.2)).anyway

/-- Nothing stops the read and there is always room. -/
structure Undisturbed (host : ReadHost) : Prop where
  halt : ∀ past, host.halt past = none
  room : ∀ past n, host.reserve past n = true

/-- **An undisturbed read ends as the range says.** -/
theorem readChunked_undisturbed (memory : PageMemory) (size : ℕ) (hhost : Undisturbed host)
    (haddress : address < 2 ^ 64) :
    (memory.Readable address size ∧ (readChunked host memory.readVirtual address size []).1 =
      .ok ⟨memory.bytes address size, none⟩) ∨
    ¬ memory.Readable address size ∧
      ((∃ source, memory.fault (address / readChunkBytes) = some source ∧
        (readChunked host memory.readVirtual address size []).1 =
          .error (.context (readChunkLen address 0 size) address source)) ∨
      memory.fault (address / readChunkBytes) = none ∧
        (readChunked host memory.readVirtual address size []).1 =
          .error (.shortRead address size (memory.readable address size))) := by
  have hends := readChunked_triple host memory size haddress [] rfl
  rcases hrun : readChunked host memory.readVirtual address size [] with ⟨r, events⟩
  rw [hrun] at hends
  cases r with
  | ok read =>
    obtain ⟨hreturned, -⟩ := hends
    cases hcut : read.cutShort with
    | some cutShort =>
      obtain ⟨-, past, hhalt⟩ := hreturned.cut cutShort hcut
      simp [hhost.halt past] at hhalt
    | none =>
      have hsize := hreturned.whole hcut
      have hbytes := hreturned.bytes
      have hreadable := hreturned.readable
      rw [hsize] at hbytes hreadable
      refine .inl ⟨hreadable, ?_⟩
      rw [← hbytes, ← hcut]
  | error e =>
    right
    cases e with
    | shortRead start requested actual =>
      obtain ⟨⟨rfl, rfl, hpos, hlt, hreadable, hnot⟩, -⟩ := hends
      refine ⟨fun h => hnot (h.mono hlt), .inr ⟨?_, ?_⟩⟩
      · simpa using hreadable.2 0 hpos
      · rw [PageMemory.readable_eq_of_not hreadable hlt hnot]
    | context len start source =>
      obtain ⟨⟨rfl, rfl, hpos, hfault⟩, -⟩ := hends
      refine ⟨fun h => ?_, .inl ⟨source, hfault, rfl⟩⟩
      exact not_readable_of_fault (n := 0) hfault (h.mono hpos)
    | outOfMemory start requested read =>
      obtain ⟨⟨-, -, past, n, hroom⟩, -⟩ := hends
      simp [hhost.room past n] at hroom

theorem fault_of_readable (h : memory.Readable address size) (hsize : 0 < size) :
    memory.fault (address / readChunkBytes) = none := by
  simpa using h.2 0 hsize

/-- **A chunked read is one read.** The bytes returned are the target's from the start, all of them
or fewer and cut short; undisturbed, the read returns all of them exactly when the range stays below
the top of the address space on readable pages; every transfer lies in one page of the range; and
nothing follows an answer to stop. -/
theorem chunked_read_is_one_read (host : ReadHost) (memory : PageMemory) (address size : ℕ)
    (haddress : address < 2 ^ 64) :
    (∀ read, (readChunked host memory.readVirtual address size []).1 = .ok read →
      read.bytes = memory.bytes address read.bytes.length ∧
      memory.Readable address read.bytes.length ∧
      (read.cutShort = none → read.bytes.length = size) ∧
      (read.cutShort ≠ none → read.bytes.length < size)) ∧
    ((∀ past, host.halt past = none) → (∀ past n, host.reserve past n = true) →
      ((readChunked host memory.readVirtual address size []).1 =
        .ok ⟨memory.bytes address size, none⟩ ↔ memory.Readable address size) ∧
      (∀ source, 0 < size → memory.fault (address / readChunkBytes) = some source →
        (readChunked host memory.readVirtual address size []).1 =
          .error (.context (readChunkLen address 0 size) address source)) ∧
      (¬ memory.Readable address size → memory.fault (address / readChunkBytes) = none →
        (readChunked host memory.readVirtual address size []).1 =
          .error (.shortRead address size (memory.readable address size)) ∧
        memory.Readable address (memory.readable address size) ∧
        ¬ memory.Readable address (memory.readable address size + 1))) ∧
    (∀ start len, .read start len ∈ (readChunked host memory.readVirtual address size []).2 →
      address ≤ start ∧ start + len ≤ address + size ∧ start + len ≤ 2 ^ 64 ∧ 0 < len ∧
      ∀ i < len, (start + i) / readChunkBytes = start / readChunkBytes) ∧
    (∀ later cutShort past, (readChunked host memory.readVirtual address size []).2 =
      later ++ .asked (some cutShort) :: past → later = []) := by
  have hends := readChunked_triple host memory size haddress [] rfl
  refine ⟨fun read hread => ?_, fun hhalt hroom => ?_, fun start len hmem => ?_, ?_⟩
  · rcases hrun : readChunked host memory.readVirtual address size [] with ⟨r, events⟩
    rw [hrun] at hends hread
    obtain rfl : r = .ok read := hread
    refine ⟨hends.1.bytes, hends.1.readable, hends.1.whole, fun hcut => ?_⟩
    obtain ⟨cutShort, hcutShort⟩ := Option.ne_none_iff_exists'.mp hcut
    exact (hends.1.cut cutShort hcutShort).1
  · rcases readChunked_undisturbed memory size ⟨hhalt, hroom⟩ haddress with
      ⟨hreadable, hrun⟩ | ⟨hnot, ⟨source, hfault, hrun⟩ | ⟨hfault, hrun⟩⟩
    · refine ⟨iff_of_true hrun hreadable, fun source hsize hfault => ?_,
        fun h => absurd hreadable h⟩
      simp [fault_of_readable hreadable hsize] at hfault
    · refine ⟨iff_of_false (by simp [hrun]) hnot, fun other _ hother => ?_, fun _ h => ?_⟩
      · obtain rfl : source = other := Option.some.inj (hfault.symm.trans hother)
        exact hrun
      · simp [hfault] at h
    · refine ⟨iff_of_false (by simp [hrun]) hnot, fun other _ hother => ?_, fun _ _ => ?_⟩
      · simp [hfault] at hother
      · obtain ⟨hreadable, hlonger⟩ := memory.readable_spec haddress.le size
        exact ⟨hrun, hreadable, hlonger hnot⟩
  · exact (readChunked_ended host memory size haddress).inPage _ hmem
  · exact (readChunked_ended host memory size haddress).last

end Rounds

def quietHost : ReadHost := ⟨fun _ => none, fun _ _ => true⟩

def holedMemory : PageMemory :=
  ⟨fun address => UInt8.ofNat address, fun page => if page = 1 then some 0x80070000 else none⟩

theorem chunked_read_is_one_read_holed :
    holedMemory.readable 4094 4 = 2 ∧
    (readChunked quietHost holedMemory.readVirtual 4094 4 []).1 =
      .error (.shortRead 4094 4 (holedMemory.readable 4094 4)) := by
  have hnot : ¬ holedMemory.Readable 4094 4 := fun h => by
    have := h.2 2 (by decide)
    simp [holedMemory, readChunkBytes] at this
  exact ⟨by decide, (((chunked_read_is_one_read quietHost holedMemory 4094 4 (by decide)).2.1
    (fun _ => rfl) (fun _ _ => rfl)).2.2 hnot rfl).1⟩

end DbgScope.Engine
