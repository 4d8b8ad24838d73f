import Booley.Lib.Cuts
import Booley.Waves.TimeGrid

/-!
# Chunks of a VCD body

A body arrives in reads of any size and leaves in bounded chunks that start at timestamps. The
source keeps what it has read in a buffer, remembers how far it has looked for the next
timestamp, and takes back the buffers of consumed chunks.
-/
namespace Booley.Waves

open Booley.Lib

/-! ## The source -/

def newline : UInt8 := 10

def hash : UInt8 := 35

def readBlockBytes : Nat := 65536

def maxRecycledBuffers : Nat := 4

/-- A growable buffer with the room that is allocated for it. -/
structure Buffer where
  bytes : List UInt8
  capacity : Nat

structure VcdChunk where
  sequence : Nat
  startOffset : Nat
  endOffset : Nat
  bytes : List UInt8
  deriving DecidableEq, Repr

/-- What the source does not decide: how many bytes a read gives, and how much room the allocator
adds to a buffer. -/
structure Surroundings where
  readSize : Nat → Nat
  allocated : Nat → Nat → Nat

/-- The source, with the bytes that the reader has not given yet and the number of its reads. -/
structure VcdChunkSource where
  unread : List UInt8
  reads : Nat
  targetBytes : Nat
  buffer : Buffer
  nextOffset : Nat
  sequence : Nat
  eof : Bool
  boundarySearch : Nat
  recycled : List Buffer

inductive ChunkError where
  | zeroTarget
  | offsetExceeds
  | overflow
  deriving DecidableEq, Repr

def VcdChunkSource.new (body : List UInt8) (bodyOffset targetBytes : Nat) :
    Except ChunkError VcdChunkSource :=
  if targetBytes = 0 then .error .zeroTarget
  else .ok {
    unread := body
    reads := 0
    targetBytes
    buffer := ⟨[], targetBytes + readBlockBytes⟩
    nextOffset := bodyOffset
    sequence := 0
    eof := false
    boundarySearch := max targetBytes 1
    recycled := [] }

variable (around : Surroundings)

/-- Append bytes; a buffer without room for them is allocated anew. -/
def Buffer.extend (buffer : Buffer) (more : List UInt8) : Buffer where
  bytes := buffer.bytes ++ more
  capacity := around.allocated buffer.capacity (buffer.bytes.length + more.length)

def Buffer.clear (buffer : Buffer) : Buffer := { buffer with bytes := [] }

def memchr (byte : UInt8) (bytes : List UInt8) : Option Nat := bytes.findIdx? (· == byte)

/-- Look for a timestamp line from a position on. Without one, the answer is the position from
which to look once more has been read: a line that is not complete is looked at again. -/
def searchBoundary (bytes : List UInt8) (eof : Bool) (search : Nat) : Except Nat Nat :=
  if search < bytes.length then
    match memchr hash (bytes.drop search) with
    | none => .error bytes.length
    | some relative =>
      let position := search + relative
      let startsLine := bytes.getD (position - 1) 0 == newline
      let complete := eof || (memchr newline (bytes.drop position)).isSome
      if startsLine && complete then .ok position
      else if startsLine then .error position
      else searchBoundary bytes eof (position + 1)
  else .error search
termination_by bytes.length - search

/-- The next place to cut, or the position to go on looking from. -/
def nextBoundary (source : VcdChunkSource) : Except Nat Nat :=
  if source.buffer.bytes.length < source.targetBytes then .error source.boundarySearch
  else searchBoundary source.buffer.bytes source.eof source.boundarySearch

def activateRecycledBuffer (source : VcdChunkSource) : VcdChunkSource :=
  if source.targetBytes ≤ source.buffer.capacity then source
  else
    match source.recycled with
    | [] => source
    | last :: rest =>
      { source with
        buffer := last.extend around source.buffer.bytes
        recycled := rest }

/-- The number of bytes that a read gives: none at the end of input, and at least one before. -/
def bytesRead (requested : Nat) (source : VcdChunkSource) : Nat :=
  min (max 1 (around.readSize source.reads)) (min requested source.unread.length)

def readBlock (source : VcdChunkSource) : VcdChunkSource :=
  let active := activateRecycledBuffer around source
  let oldLen := active.buffer.bytes.length
  let requested := max (active.targetBytes - oldLen) readBlockBytes
  let read := bytesRead around requested active
  { active with
    unread := active.unread.drop read
    reads := active.reads + 1
    buffer :=
      { bytes := active.buffer.bytes ++ active.unread.take read
        capacity := around.allocated active.buffer.capacity (oldLen + requested) }
    eof := read == 0 }

def takeChunk (source : VcdChunkSource) (boundary : Nat) :
    Except ChunkError (VcdChunk × VcdChunkSource) :=
  let remainder := source.buffer.bytes.drop boundary
  let bytes := source.buffer.bytes.take boundary
  let endOffset := source.nextOffset + bytes.length
  if tickLimit ≤ endOffset then .error .offsetExceeds
  else if tickLimit ≤ source.sequence + 1 then .error .overflow
  else .ok ({ sequence := source.sequence, startOffset := source.nextOffset, endOffset, bytes },
    { source with
      buffer := ⟨remainder, around.allocated 0 remainder.length⟩
      sequence := source.sequence + 1
      nextOffset := endOffset
      boundarySearch := max source.targetBytes 1 })

/-- The reads that are still to come: one for each byte at most, and one that finds the end. -/
def VcdChunkSource.pending (source : VcdChunkSource) : Nat :=
  source.unread.length + if source.eof then 0 else 1

theorem unread_activate (source : VcdChunkSource) :
    (activateRecycledBuffer around source).unread = source.unread := by
  rw [activateRecycledBuffer]
  split
  · rfl
  · split <;> rfl

theorem readBlock_pending {source : VcdChunkSource} (h : source.eof = false) :
    (readBlock around source).pending < source.pending := by
  have hunread := unread_activate around source
  simp only [VcdChunkSource.pending, readBlock, hunread, h, List.length_drop, bytesRead,
    readBlockBytes]
  cases hlength : source.unread.length with
  | zero => simp
  | succ length =>
    simp only [Bool.false_eq_true, if_false]
    split <;> omega

/-- Give the next chunk. The sum of the offset and the buffer's length is an unsigned one. -/
def nextChunk (source : VcdChunkSource) : Except ChunkError (Option VcdChunk × VcdChunkSource) :=
  if tickLimit ≤ source.nextOffset + source.buffer.bytes.length then .error .overflow
  else
    match nextBoundary source with
    | .ok boundary => (takeChunk around source boundary).map fun taken => (some taken.1, taken.2)
    | .error search =>
      let searched := { source with boundarySearch := search }
      if _hmore : source.eof = true then
        if searched.buffer.bytes.isEmpty then .ok (none, searched)
        else
          (takeChunk around searched searched.buffer.bytes.length).map fun taken =>
            (some taken.1, taken.2)
      else nextChunk (readBlock around searched)
termination_by source.pending
decreasing_by
  exact readBlock_pending around (Bool.eq_false_iff.mpr _hmore)

/-- Take back the buffer of a consumed chunk. -/
def recycle (source : VcdChunkSource) (chunk : Buffer) : VcdChunkSource :=
  let bytes := (chunk.clear).extend around source.buffer.bytes
  let previous := source.buffer.clear
  { source with
    buffer := bytes
    recycled :=
      if source.targetBytes ≤ previous.capacity ∧ source.recycled.length < maxRecycledBuffers then
        previous :: source.recycled
      else source.recycled }

/-! ## Runs -/

/-- What a consumer does with the source: it asks for the next chunk, or gives back the buffer of
a chunk that it has consumed. -/
inductive Call where
  | next
  | giveBack (chunk : Buffer)

def Call.asks : Call → Bool
  | .next => true
  | .giveBack _ => false

/-- The chunks that the calls are given, in order. -/
def run (source : VcdChunkSource) : List Call → Except ChunkError (List (Option VcdChunk))
  | [] => .ok []
  | .next :: calls =>
    match nextChunk around source with
    | .error error => .error error
    | .ok (chunk, after) => (run after calls).map (chunk :: ·)
  | .giveBack chunk :: calls => run (recycle around source chunk) calls

/-! ## Places to cut -/

/-- A timestamp starts a line. -/
def startsTimestamp (previous next : UInt8) : Bool := previous == newline && next == hash

theorem memchr_none {byte : UInt8} {bytes : List UInt8} (h : memchr byte bytes = none) :
    byte ∉ bytes := by
  intro hmem
  have hnone := (List.findIdx?_eq_none_iff.mp h) byte hmem
  simp at hnone

theorem memchr_some {byte : UInt8} {bytes : List UInt8} {index : Nat}
    (h : memchr byte bytes = some index) :
    bytes[index]? = some byte ∧ ∀ earlier < index, bytes[earlier]? ≠ some byte := by
  obtain ⟨hlt, hfound, hbefore⟩ := List.findIdx?_eq_some_iff_getElem.mp h
  constructor
  · rw [List.getElem?_eq_getElem hlt]
    simpa using hfound
  · intro earlier hearlier hsame
    have hlt' : earlier < bytes.length := Nat.lt_trans hearlier hlt
    rw [List.getElem?_eq_getElem hlt'] at hsame
    exact absurd (by simpa using hsame) (by simpa using hbefore earlier hearlier)

theorem cutAt_startsTimestamp {bytes : List UInt8} {position : Nat} (hpos : 0 < position) :
    cutAt startsTimestamp bytes position = true ↔
      bytes[position - 1]? = some newline ∧ bytes[position]? = some hash := by
  rw [cutAt_iff]
  simp only [startsTimestamp, Bool.and_eq_true, beq_iff_eq]
  constructor
  · rintro ⟨-, previous, next, hprevious, hnext, rfl, rfl⟩
    exact ⟨hprevious, hnext⟩
  · rintro ⟨hprevious, hnext⟩
    exact ⟨hpos, newline, hash, hprevious, hnext, rfl, rfl⟩

/-- No place to cut was passed over. -/
def Searched (least : Nat) (bytes : List UInt8) (search : Nat) : Prop :=
  ∀ position, least ≤ position → position < search →
    position < bytes.length ∧ cutAt startsTimestamp bytes position = false

theorem not_cutAt {bytes : List UInt8} {position : Nat} (hpos : 0 < position)
    (h : ¬(bytes[position - 1]? = some newline ∧ bytes[position]? = some hash)) :
    cutAt startsTimestamp bytes position = false := by
  rw [← Bool.not_eq_true, cutAt_startsTimestamp hpos]
  exact h

theorem not_cutAt_of_length_le {bytes : List UInt8} {position : Nat}
    (h : bytes.length ≤ position) : cutAt startsTimestamp bytes position = false := by
  rw [← Bool.not_eq_true]
  intro hcut
  have hlt := lt_length_of_cutAt hcut
  omega

/-- The search moves on over bytes that start no line with a timestamp. -/
theorem Searched.extend {least search stop : Nat} {bytes : List UInt8} (hpos : 0 < least)
    (h : Searched least bytes search) (hstop : stop ≤ bytes.length)
    (hquiet : ∀ position, search ≤ position → position < stop →
      ¬(bytes[position - 1]? = some newline ∧ bytes[position]? = some hash)) :
    Searched least bytes stop := by
  intro position hleast hlt
  by_cases hsearched : position < search
  · exact h position hleast hsearched
  · exact ⟨by omega, not_cutAt (by omega) (hquiet position (by omega) hlt)⟩

/-- The next timestamp character, and nothing to cut at before it. -/
theorem Searched.found {least search relative : Nat} {bytes : List UInt8} (hpos : 0 < least)
    (h : Searched least bytes search) (hfound : memchr hash (bytes.drop search) = some relative) :
    bytes[search + relative]? = some hash ∧ Searched least bytes (search + relative) := by
  obtain ⟨hhash, hbefore⟩ := memchr_some hfound
  rw [List.getElem?_drop] at hhash
  refine ⟨hhash, h.extend hpos (Nat.le_of_lt (List.getElem?_eq_some_iff.mp hhash).1) ?_⟩
  rintro position hle hlt ⟨-, hother⟩
  refine hbefore (position - search) (by omega) ?_
  rw [List.getElem?_drop, Nat.add_sub_cancel' hle, hother]

theorem startsLine_iff {bytes : List UInt8} {position : Nat} (hlt : position < bytes.length) :
    (bytes.getD (position - 1) 0 == newline) = true ↔ bytes[position - 1]? = some newline := by
  have hbefore : position - 1 < bytes.length := by omega
  rw [List.getD_eq_getElem?_getD, List.getElem?_eq_getElem hbefore]
  simp

theorem searchBoundary_spec {bytes : List UInt8} {eof : Bool} {search least : Nat}
    (hpos : 0 < least) (hleast : least ≤ search) (h : Searched least bytes search) :
    (∀ position, searchBoundary bytes eof search = .ok position →
      IsFirstCut startsTimestamp least bytes position) ∧
    ∀ resume, searchBoundary bytes eof search = .error resume →
      least ≤ resume ∧ Searched least bytes resume ∧
        (eof = true → ∀ position, least ≤ position →
          cutAt startsTimestamp bytes position = false) := by
  fun_induction searchBoundary bytes eof search with
  | case1 search hlt hnone =>
    have hquiet : ∀ position, search ≤ position → position < bytes.length →
        ¬(bytes[position - 1]? = some newline ∧ bytes[position]? = some hash) := by
      rintro position hle - ⟨-, hhash⟩
      refine memchr_none hnone (List.mem_of_getElem? (i := position - search) ?_)
      rw [List.getElem?_drop, Nat.add_sub_cancel' hle, hhash]
    have hall := h.extend hpos (Nat.le_refl _) hquiet
    refine ⟨by simp, ?_⟩
    rintro resume ⟨⟩
    refine ⟨by omega, hall, ?_⟩
    intro _ position hposition
    by_cases hinside : position < bytes.length
    · exact (hall position hposition hinside).2
    · exact not_cutAt_of_length_le (by omega)
  | case2 search hlt relative hfound position startsLine complete hboth =>
    obtain ⟨hhash, hsearched⟩ := h.found hpos hfound
    have hinside := (List.getElem?_eq_some_iff.mp hhash).1
    have hstarts := (startsLine_iff hinside).mp (Bool.and_eq_true_iff.mp hboth).1
    refine ⟨?_, by simp⟩
    rintro _ ⟨⟩
    refine ⟨by omega, (cutAt_startsTimestamp (by omega)).mpr ⟨hstarts, hhash⟩, ?_⟩
    intro earlier hearlier hbefore
    exact (hsearched earlier hearlier hbefore).2
  | case3 search hlt relative hfound position startsLine complete hboth hstarts =>
    obtain ⟨-, hsearched⟩ := h.found hpos hfound
    refine ⟨by simp, ?_⟩
    rintro resume ⟨⟩
    refine ⟨by omega, hsearched, ?_⟩
    rintro rfl
    exact absurd (Bool.and_eq_true_iff.mpr ⟨hstarts, rfl⟩) hboth
  | case4 search hlt relative hfound position startsLine complete hboth hstarts ih =>
    obtain ⟨hhash, hsearched⟩ := h.found hpos hfound
    have hinside := (List.getElem?_eq_some_iff.mp hhash).1
    refine ih (by omega) (hsearched.extend hpos (by omega) ?_)
    rintro other hle hbefore ⟨hline, -⟩
    have hsame : other = search + relative := by omega
    rw [hsame] at hline
    exact hstarts ((startsLine_iff hinside).mpr hline)
  | case5 search hnot =>
    refine ⟨by simp, ?_⟩
    rintro resume ⟨⟩
    refine ⟨hleast, h, ?_⟩
    intro _ position hposition
    by_cases hinside : position < search
    · exact (h position hposition hinside).2
    · exact not_cutAt_of_length_le (by omega)

/-! ## What every call keeps -/

/-- The chunks of some pieces, from a sequence number and an offset on. -/
def chunkRecords (sequence offset : Nat) : List (List UInt8) → List VcdChunk
  | [] => []
  | bytes :: rest =>
    { sequence, startOffset := offset, endOffset := offset + bytes.length, bytes } ::
      chunkRecords (sequence + 1) (offset + bytes.length) rest

/-- The chunks of a body. -/
def vcdChunks (body : List UInt8) (bodyOffset targetBytes : Nat) : List VcdChunk :=
  chunkRecords 0 bodyOffset (pieces startsTimestamp targetBytes body)

/-- The source still has to give the chunks of these bytes. -/
structure Ready (source : VcdChunkSource) (bytes : List UInt8) : Prop where
  positive : 0 < source.targetBytes
  content : source.buffer.bytes ++ source.unread = bytes
  least : source.targetBytes ≤ source.boundarySearch
  searched : Searched source.targetBytes source.buffer.bytes source.boundarySearch
  ended : source.eof = true → source.unread = []
  counted : source.sequence ≤ source.nextOffset
  fits : source.nextOffset + bytes.length < tickLimit
  cleared : ∀ buffer ∈ source.recycled, buffer.bytes = []

def VcdChunkSource.remaining (source : VcdChunkSource) (bytes : List UInt8) : List VcdChunk :=
  chunkRecords source.sequence source.nextOffset
    (pieces startsTimestamp source.targetBytes bytes)

variable {around} {source : VcdChunkSource} {bytes : List UInt8}

theorem recycle_ready (h : Ready source bytes) (chunk : Buffer) :
    Ready (recycle around source chunk) bytes := by
  refine { h with content := h.content, searched := h.searched, cleared := ?_ }
  intro buffer hbuffer
  simp only [recycle] at hbuffer
  split at hbuffer
  · rcases List.mem_cons.mp hbuffer with rfl | hold
    · rfl
    · exact h.cleared buffer hold
  · exact h.cleared buffer hbuffer

/-- Reading on keeps what was searched. -/
theorem Searched.append {least search : Nat} {more : List UInt8} (h : Searched least bytes search) :
    Searched least (bytes ++ more) search := by
  intro position hleast hlt
  obtain ⟨hinside, hcut⟩ := h position hleast hlt
  refine ⟨?_, ?_⟩
  · rw [List.length_append]
    omega
  · rw [cutAt_append hinside]
    exact hcut

theorem activate_ready (h : Ready source bytes) :
    Ready (activateRecycledBuffer around source) bytes := by
  rw [activateRecycledBuffer]
  split
  · exact h
  · cases hrecycled : source.recycled with
    | nil => exact h
    | cons last rest =>
      have hlast : last.bytes = [] := h.cleared last (hrecycled ▸ List.mem_cons_self ..)
      have hbytes : (last.extend around source.buffer.bytes).bytes = source.buffer.bytes := by
        simp [Buffer.extend, hlast]
      refine { h with content := ?_, searched := ?_, cleared := ?_ }
      · dsimp only
        rw [hbytes]
        exact h.content
      · dsimp only
        rw [hbytes]
        exact h.searched
      · intro buffer hbuffer
        exact h.cleared buffer (hrecycled ▸ List.mem_cons_of_mem _ hbuffer)

theorem readBlock_ready (h : Ready source bytes) : Ready (readBlock around source) bytes := by
  have hactive := @activate_ready around source bytes h
  refine { hactive with content := ?_, searched := hactive.searched.append, ended := ?_ }
  · simp only [readBlock, List.append_assoc, List.take_append_drop]
    exact hactive.content
  · intro hend
    simp only [readBlock, bytesRead, readBlockBytes, beq_iff_eq] at hend ⊢
    have hnone : (activateRecycledBuffer around source).unread.length = 0 := by omega
    rw [List.length_eq_zero_iff.mp hnone, List.drop_nil]

/-- Taking a piece gives its chunk and leaves the later ones. -/
theorem takeChunk_ready (h : Ready source bytes) {boundary : Nat} (hpos : 0 < boundary)
    (hle : boundary ≤ source.buffer.bytes.length)
    (hpieces : pieces startsTimestamp source.targetBytes bytes =
      bytes.take boundary :: pieces startsTimestamp source.targetBytes (bytes.drop boundary)) :
    ∃ chunk after, takeChunk around source boundary = .ok (chunk, after) ∧
      Ready after (bytes.drop boundary) ∧
      source.remaining bytes = chunk :: after.remaining (bytes.drop boundary) := by
  have hcontent := h.content
  have hcounted := h.counted
  have hfits := h.fits
  have hpositive := h.positive
  have hlength : boundary ≤ bytes.length := by
    rw [← hcontent, List.length_append]
    omega
  have htake : source.buffer.bytes.take boundary = bytes.take boundary := by
    rw [← hcontent, List.take_append_of_le_length hle]
  have hdrop : source.buffer.bytes.drop boundary ++ source.unread = bytes.drop boundary := by
    rw [← hcontent, List.drop_append_of_le_length hle]
  have hsize : (bytes.take boundary).length = boundary := by
    rw [List.length_take]
    omega
  simp only [takeChunk, htake, hsize]
  rw [if_neg (by omega), if_neg (by omega)]
  refine ⟨_, _, rfl, ?_, ?_⟩
  · refine ⟨hpositive, hdrop, Nat.le_max_left .., ?_, h.ended, ?_, ?_, h.cleared⟩
    · intro position hleast hlt
      dsimp only at hleast hlt
      omega
    · dsimp only
      omega
    · dsimp only
      rw [List.length_drop]
      omega
  · simp only [VcdChunkSource.remaining, hpieces, chunkRecords, hsize]

/-- A boundary is the first place to cut all that is still to come. -/
theorem nextBoundary_ok (h : Ready source bytes) {boundary : Nat}
    (hfound : nextBoundary source = .ok boundary) :
    boundary ≤ source.buffer.bytes.length ∧
      IsFirstCut startsTimestamp source.targetBytes bytes boundary := by
  rw [nextBoundary] at hfound
  split at hfound
  · cases hfound
  · have hfirst := (searchBoundary_spec h.positive h.least h.searched).1 boundary hfound
    have hlt := lt_length_of_cutAt hfirst.cut
    refine ⟨Nat.le_of_lt hlt, hfirst.enough, ?_, ?_⟩
    · rw [← h.content, cutAt_append hlt]
      exact hfirst.cut
    · intro earlier hleast hearlier
      rw [← h.content, cutAt_append (Nat.lt_trans hearlier hlt)]
      exact hfirst.first earlier hleast hearlier

/-- Without a boundary the source goes on looking, and at the end of input there is none. -/
theorem nextBoundary_error (h : Ready source bytes) {search : Nat}
    (hnone : nextBoundary source = .error search) :
    Ready { source with boundarySearch := search } bytes ∧
      (source.eof = true → firstCut startsTimestamp source.targetBytes bytes = none) := by
  have hends : source.eof = true → source.buffer.bytes = bytes := by
    intro heof
    have hcontent := h.content
    rwa [h.ended heof, List.append_nil] at hcontent
  rw [nextBoundary] at hnone
  split at hnone
  case isTrue hshort =>
    cases hnone
    refine ⟨h, ?_⟩
    intro heof
    rw [← hends heof]
    apply firstCut_eq_none
    intro position hleast
    exact not_cutAt_of_length_le (by omega)
  case isFalse =>
    obtain ⟨hleast, hsearched, hend⟩ :=
      (searchBoundary_spec h.positive h.least h.searched).2 search hnone
    refine ⟨{ h with least := hleast, searched := hsearched }, ?_⟩
    intro heof
    rw [← hends heof]
    exact firstCut_eq_none (hend heof)

theorem remaining_readBlock (source : VcdChunkSource) (bytes : List UInt8) :
    (readBlock around source).remaining bytes = source.remaining bytes := by
  have hactive : (activateRecycledBuffer around source).remaining bytes =
      source.remaining bytes := by
    rw [activateRecycledBuffer]
    split
    · rfl
    · split <;> rfl
  exact hactive

/-- A call gives the next chunk and leaves the later ones, however the bytes arrive. -/
theorem nextChunk_ready (h : Ready source bytes) :
    ∃ after rest, nextChunk around source = .ok ((source.remaining bytes).head?, after) ∧
      Ready after rest ∧ after.remaining rest = (source.remaining bytes).tail := by
  fun_induction nextChunk around source with
  | case1 source hexceeds =>
    have hfits := h.fits
    have hlength := congrArg List.length h.content
    rw [List.length_append] at hlength
    omega
  | case2 source hfits boundary hfound =>
    obtain ⟨hle, hfirst⟩ := nextBoundary_ok h hfound
    obtain ⟨chunk, after, htaken, hready, hchunks⟩ := @takeChunk_ready around source bytes h
      boundary (pos_of_cutAt hfirst.cut) hle (pieces_of_some (firstCut_eq_some hfirst))
    exact ⟨after, _, by rw [htaken, hchunks]; rfl, hready, by rw [hchunks]; rfl⟩
  | case3 source hfits search hnone searched heof hempty =>
    obtain ⟨hready, -⟩ := nextBoundary_error h hnone
    have hbytes : bytes = [] := by
      have hcontent := hready.content
      rw [hready.ended heof, List.append_nil] at hcontent
      exact hcontent.symm.trans (List.isEmpty_iff.mp hempty)
    subst hbytes
    refine ⟨searched, [], ?_, hready, ?_⟩
    · rw [VcdChunkSource.remaining, pieces_nil]
      rfl
    · simp only [VcdChunkSource.remaining, pieces_nil]
      rfl
  | case4 source hfits search hnone searched heof hsome =>
    obtain ⟨hready, hend⟩ := nextBoundary_error h hnone
    have hsome : source.buffer.bytes ≠ [] := fun hnil => hsome (List.isEmpty_iff.mpr hnil)
    have hbytes : source.buffer.bytes = bytes := by
      have hcontent := hready.content
      rwa [hready.ended heof, List.append_nil] at hcontent
    have hpieces : pieces startsTimestamp source.targetBytes bytes =
        bytes.take source.buffer.bytes.length ::
          pieces startsTimestamp source.targetBytes (bytes.drop source.buffer.bytes.length) := by
      rw [hbytes, List.take_length, List.drop_length, pieces_nil]
      exact pieces_of_none (hbytes ▸ hsome) (hend heof)
    obtain ⟨chunk, after, htaken, hafter, hchunks⟩ := @takeChunk_ready around searched bytes hready
      source.buffer.bytes.length (List.length_pos_iff.mpr hsome) (Nat.le_refl _) hpieces
    have hsame : searched.remaining bytes = source.remaining bytes := rfl
    rw [← hsame]
    exact ⟨after, _, by rw [htaken, hchunks]; rfl, hafter, by rw [hchunks]; rfl⟩
  | case5 source hfits search hnone searched hmore ih =>
    obtain ⟨hready, -⟩ := nextBoundary_error h hnone
    have hnext := ih (readBlock_ready hready)
    rw [remaining_readBlock] at hnext
    exact hnext

/-! ## Runs -/

theorem run_ready (h : Ready source bytes) (calls : List Call) :
    run around source calls =
      .ok ((List.range (calls.countP Call.asks)).map fun i => (source.remaining bytes)[i]?) := by
  induction calls generalizing source bytes with
  | nil => rfl
  | cons call calls ih =>
    cases call with
    | next =>
      obtain ⟨after, rest, hnext, hready, hrest⟩ := @nextChunk_ready around source bytes h
      have hasked : (Call.next :: calls).countP Call.asks = calls.countP Call.asks + 1 :=
        List.countP_cons_of_pos rfl
      rw [run, hnext]
      dsimp only
      rw [ih hready, hrest, hasked, List.range_succ_eq_map]
      simp only [Except.map, List.map_cons, List.map_map, List.head?_eq_getElem?]
      congr 2
      apply List.map_congr_left
      intro i _
      exact List.getElem?_tail
    | giveBack chunk => exact ih (recycle_ready h chunk)

theorem new_ready (body : List UInt8) {bodyOffset targetBytes : Nat} (htarget : 1 ≤ targetBytes)
    (hfits : bodyOffset + body.length < tickLimit) :
    ∃ source, VcdChunkSource.new body bodyOffset targetBytes = .ok source ∧ Ready source body ∧
      source.remaining body = vcdChunks body bodyOffset targetBytes := by
  rw [VcdChunkSource.new, if_neg (by omega)]
  refine ⟨_, rfl, ⟨htarget, rfl, Nat.le_max_left .., ?_, ?_, Nat.zero_le _, hfits, ?_⟩, rfl⟩
  · intro position hleast hlt
    dsimp only at hleast hlt
    omega
  · intro heof
    cases heof
  · intro buffer hbuffer
    cases hbuffer

/-! ## The chunks of a body -/

/-- What the chunks of a body promise. -/
structure ExactChunks (body : List UInt8) (bodyOffset targetBytes : Nat)
    (chunks : List VcdChunk) : Prop where
  whole : (chunks.map VcdChunk.bytes).flatten = body
  sequence : ∀ i, ∀ h : i < chunks.length, (chunks[i]).sequence = i
  start : ∀ chunk ∈ chunks.head?, chunk.startOffset = bodyOffset
  size : ∀ chunk ∈ chunks, chunk.endOffset = chunk.startOffset + chunk.bytes.length
  contiguous : ∀ i, ∀ h : i + 1 < chunks.length,
    (chunks[i + 1]).startOffset = (chunks[i]).endOffset
  boundary : ∀ i, ∀ h : i + 1 < chunks.length,
    (chunks[i]).bytes.getLast? = some newline ∧ (chunks[i + 1]).bytes.head? = some hash
  large : ∀ i, ∀ h : i + 1 < chunks.length, targetBytes ≤ (chunks[i]).bytes.length
  /-- Where the body is cut does not depend on its offset. -/
  cuts : chunks.map VcdChunk.bytes = pieces startsTimestamp targetBytes body

theorem chunkRecords_bytes (sequence offset : Nat) (parts : List (List UInt8)) :
    (chunkRecords sequence offset parts).map VcdChunk.bytes = parts := by
  induction parts generalizing sequence offset with
  | nil => rfl
  | cons part parts ih => rw [chunkRecords, List.map_cons, ih]

theorem chunkRecords_sequence (sequence offset : Nat) (parts : List (List UInt8)) (i : Nat)
    (h : i < (chunkRecords sequence offset parts).length) :
    ((chunkRecords sequence offset parts)[i]).sequence = sequence + i := by
  induction parts generalizing sequence offset i with
  | nil => exact absurd h (Nat.not_lt_zero _)
  | cons part parts ih =>
    cases i with
    | zero => rfl
    | succ i =>
      have hrest := ih (sequence + 1) (offset + part.length) i (Nat.lt_of_succ_lt_succ h)
      simp only [chunkRecords, List.getElem_cons_succ, hrest]
      omega

theorem chunkRecords_size (sequence offset : Nat) (parts : List (List UInt8)) :
    ∀ chunk ∈ chunkRecords sequence offset parts,
      chunk.endOffset = chunk.startOffset + chunk.bytes.length := by
  induction parts generalizing sequence offset with
  | nil =>
    intro chunk hchunk
    cases hchunk
  | cons part parts ih =>
    intro chunk hchunk
    rcases List.mem_cons.mp hchunk with rfl | hrest
    · rfl
    · exact ih _ _ chunk hrest

theorem chunkRecords_contiguous (sequence offset : Nat) (parts : List (List UInt8)) (i : Nat)
    (h : i + 1 < (chunkRecords sequence offset parts).length) :
    ((chunkRecords sequence offset parts)[i + 1]).startOffset =
      ((chunkRecords sequence offset parts)[i]).endOffset := by
  induction parts generalizing sequence offset i with
  | nil => exact absurd h (Nat.not_lt_zero _)
  | cons part parts ih =>
    cases i with
    | zero =>
      cases parts with
      | nil => exact absurd h (by simp [chunkRecords])
      | cons next parts => rfl
    | succ i => exact ih (sequence + 1) (offset + part.length) i (Nat.lt_of_succ_lt_succ h)

theorem vcdChunks_exact (body : List UInt8) (bodyOffset targetBytes : Nat) :
    ExactChunks body bodyOffset targetBytes (vcdChunks body bodyOffset targetBytes) := by
  have hbytes := chunkRecords_bytes 0 bodyOffset (pieces startsTimestamp targetBytes body)
  have hmeet : ∀ i, ∀ h : i + 1 < (vcdChunks body bodyOffset targetBytes).length,
      Follows startsTimestamp targetBytes ((vcdChunks body bodyOffset targetBytes)[i]).bytes
        ((vcdChunks body bodyOffset targetBytes)[i + 1]).bytes := by
    intro i h
    have hchain := @pieces_follow _ startsTimestamp targetBytes body
    rw [← hbytes, List.isChain_iff_getElem] at hchain
    have hpair := hchain i (by rw [List.length_map]; exact h)
    rw [List.getElem_map, List.getElem_map] at hpair
    exact hpair
  refine ⟨?_, ?_, ?_, chunkRecords_size 0 bodyOffset _, chunkRecords_contiguous 0 bodyOffset _,
    ?_, fun i h => (hmeet i h).1, hbytes⟩
  · rw [vcdChunks, hbytes, pieces_flatten]
  · intro i h
    exact (chunkRecords_sequence 0 bodyOffset _ i h).trans (Nat.zero_add i)
  · intro chunk hchunk
    rw [vcdChunks] at hchunk
    cases hpieces : pieces startsTimestamp targetBytes body with
    | nil =>
      rw [hpieces] at hchunk
      cases hchunk
    | cons part parts =>
      rw [hpieces] at hchunk
      cases hchunk
      rfl
  · intro i h
    obtain ⟨-, last, hlast, head, hhead, hstarts⟩ := hmeet i h
    simp only [startsTimestamp, Bool.and_eq_true, beq_iff_eq] at hstarts
    obtain ⟨rfl, rfl⟩ := hstarts
    exact ⟨hlast, hhead⟩

/-- Where the offsets of a body fit, its chunks are exact, and they are what any consumer is given
whatever the reads are and whichever buffers it gives back; then there are no more. -/
theorem chunks_independent_of_reads (body : List UInt8) (bodyOffset targetBytes : Nat)
    (htarget : 1 ≤ targetBytes) (hfits : bodyOffset + body.length < tickLimit) :
    ∃ source chunks, VcdChunkSource.new body bodyOffset targetBytes = .ok source ∧
      ExactChunks body bodyOffset targetBytes chunks ∧
      ∀ around calls, run around source calls =
        .ok ((List.range (calls.countP Call.asks)).map fun i => chunks[i]?) := by
  obtain ⟨source, hnew, hready, hchunks⟩ := new_ready body htarget hfits
  refine ⟨source, _, hnew, vcdChunks_exact body bodyOffset targetBytes, ?_⟩
  intro around calls
  rw [run_ready hready, hchunks]

/-- Two timestamps, with a target that is reached between them. -/
theorem chunks_of_two_timestamps :
    ∃ source chunks, VcdChunkSource.new [35, 48, 10, 35, 49, 10] 100 2 = .ok source ∧
      ExactChunks [35, 48, 10, 35, 49, 10] 100 2 chunks ∧
      ∀ around calls, run around source calls =
        .ok ((List.range (calls.countP Call.asks)).map fun i => chunks[i]?) :=
  chunks_independent_of_reads [35, 48, 10, 35, 49, 10] 100 2 (by decide) (by decide)

theorem nextChunk_overflow
    (h : tickLimit ≤ source.nextOffset + source.buffer.bytes.length) :
    nextChunk around source = .error .overflow := by
  rw [nextChunk, if_pos h]

/-- A body that starts at the last offset has no chunk: its end cannot be counted. -/
theorem chunks_beyond_offsets :
    ∃ source, VcdChunkSource.new [35, 48, 10] 18446744073709551615 1 = .ok source ∧
      run ⟨fun _ => 3, fun _ length => length⟩ source [.next] = .error .overflow := by
  refine ⟨_, rfl, ?_⟩
  rw [run, nextChunk]
  simp [nextBoundary, readBlock, activateRecycledBuffer, bytesRead, readBlockBytes, tickLimit]
  rw [nextChunk_overflow (by decide)]

end Booley.Waves
