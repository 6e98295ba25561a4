import Mathlib.Data.List.DropRight
import Vigil.Proofs.Rehearsal.Reading

/-!
# How a stream ends

A stream comes to its end, or reading from it fails. In between both are read alike: line by line, and what is
behind the last line feed waits for the rest of its line. `echoes_all_but_unfinished`: if the output takes all
that it is given, what is copied through and brought as lines is all that was received, but for the unfinished
line of a stream that breaks.
-/

namespace Vigil

-- ---------------------------------------------------------------------------
-- The unfinished line
-- ---------------------------------------------------------------------------

namespace LineReader

variable {bytes front : List UInt8}

def unfinished (bytes : List UInt8) : List UInt8 := bytes.rtakeWhile (· != lineFeed)

theorem unfinished_of_not_mem (h : lineFeed ∉ bytes) : unfinished bytes = bytes := by
  rw [unfinished, List.rtakeWhile_eq_self_iff]
  intro b hb
  rw [bne_iff_ne]
  rintro rfl
  exact h hb

theorem unfinished_line (front bytes : List UInt8) :
    unfinished (front ++ lineFeed :: bytes) = unfinished bytes := by
  rw [unfinished, unfinished, List.rtakeWhile, List.rtakeWhile, List.reverse_append, List.reverse_cons,
    List.append_assoc, List.singleton_append, List.takeWhile_append]
  split
  · rename_i hall
    rw [List.takeWhile_cons_of_neg (by simp), List.append_nil]
    have hself : bytes.reverse.takeWhile (· != lineFeed) = bytes.reverse :=
      (List.takeWhile_prefix _).eq_of_length hall
    rw [hself]
  · rfl

theorem unfinished_eq_nil_iff : unfinished bytes = [] ↔ bytes = [] ∨ bytes.getLast? = some lineFeed := by
  rcases List.eq_nil_or_concat bytes with rfl | ⟨front, b, rfl⟩
  · simp [unfinished]
  · simp [unfinished, List.rtakeWhile_concat]

theorem split_flatten (bytes : List UInt8) : (split bytes).1.flatten ++ unfinished bytes = bytes := by
  induction bytes using line_induction with
  | unfinished bytes h =>
    rw [split_unfinished h, unfinished_of_not_mem h]
    rfl
  | line front bytes hfront ih =>
    rw [split_line hfront, unfinished_line, List.flatten_cons, List.append_assoc, ih, List.append_assoc]
    rfl

theorem segmented_finished (bytes : List UInt8) : Segmented (split bytes).1.flatten (split bytes).1 := by
  induction bytes using line_induction with
  | unfinished bytes h =>
    rw [split_unfinished h]
    exact segmented_segments []
  | line front bytes hfront ih =>
    rw [split_line hfront, List.flatten_cons, List.append_assoc]
    exact ih.cons hfront

end LineReader

-- ---------------------------------------------------------------------------
-- What is left behind
-- ---------------------------------------------------------------------------

namespace Rehearsal

open LineReader (lineFeed split unfinished Segmented)

variable {toStderr echoing : Bool} {script : StreamScript} {us : List ReadTurn} {st : StreamState}

/-- What a stream takes with it at its end. -/
def StreamScript.leftBehind (script : StreamScript) (received : List UInt8) : List UInt8 :=
  if script.breaks then unfinished received else []

theorem StreamScript.leftBehind_eq_nil_iff {received : List UInt8} : script.leftBehind received = [] ↔
    script.breaks = false ∨ received = [] ∨ received.getLast? = some lineFeed := by
  rw [← LineReader.unfinished_eq_nil_iff, leftBehind]
  cases script.breaks <;> simp

theorem Reads.read_whole (h : Reads toStderr (.ofScript script echoing) us st) (hend : st.due = none) :
    ∃ kept, kept ++ script.leftBehind (seenOf toStderr us).received = (seenOf toStderr us).received ∧
      Segmented kept ((seenOf toStderr us).read.map (·.1)) := by
  obtain ⟨hclosed, hnone⟩ := StreamState.closed_of_due hend
  have hsegments := h.progress.segments
  rw [hnone, List.append_nil, hclosed, Bool.false_or] at hsegments
  rw [hsegments, StreamScript.leftBehind]
  cases script.breaks with
  | true => exact ⟨_, LineReader.split_flatten _, LineReader.segmented_finished _⟩
  | false => exact ⟨_, List.append_nil _, LineReader.segmented_segments _⟩

theorem Reads.echoed_eq (h : Reads toStderr (.ofScript script true) us st)
    (htaken : ∀ p ∈ (seenOf toStderr us).read, p.2) :
    (seenOf toStderr us).echoed = ((seenOf toStderr us).read.map (·.1)).flatten := by
  have hechoed := h.progress.echoed
  have hall : (seenOf toStderr us).read.takeWhile (·.2) = (seenOf toStderr us).read :=
    List.takeWhile_eq_self_iff.mpr htaken
  rw [if_pos rfl, hall] at hechoed
  rw [hechoed, List.flatMap_def]

/-- If the output takes all that it is given, what has been copied through in the end, and brought as lines, is
all that was received, but for the unfinished line of a stream that breaks. So all of it is there just when the
stream did not break, or broke behind a line feed or before anything arrived. -/
theorem echoes_all_but_unfinished (h : Reads toStderr (.ofScript script true) us st) (hend : st.due = none)
    (htaken : ∀ p ∈ (seenOf toStderr us).read, p.2) :
    (seenOf toStderr us).echoed ++ script.leftBehind (seenOf toStderr us).received =
        (seenOf toStderr us).received ∧
      (∃ segs, Segmented (seenOf toStderr us).echoed segs ∧
        (seenOf toStderr us).lines = segs.map .ofSegment) ∧
      ((seenOf toStderr us).echoed = (seenOf toStderr us).received ↔ script.breaks = false ∨
        (seenOf toStderr us).received = [] ∨ (seenOf toStderr us).received.getLast? = some lineFeed) ∧
      ((∀ u ∈ us, ∀ p ∈ script.pieces, Lives u p) → (seenOf toStderr us).received = script.bytes) := by
  obtain ⟨kept, hwhole, hsegmented⟩ := h.read_whole hend
  have hkept : (seenOf toStderr us).echoed = kept := (h.echoed_eq htaken).trans hsegmented.whole
  have hlines : (seenOf toStderr us).lines = ((seenOf toStderr us).read.map (·.1)).map .ofSegment := by
    rw [h.progress.lines, List.map_map]
    rfl
  rw [hkept]
  refine ⟨hwhole, ⟨_, hsegmented, hlines⟩, ?_, h.received_eq hend⟩
  rw [← StreamScript.leftBehind_eq_nil_iff]
  constructor
  · intro hall
    rw [hall] at hwhole
    exact List.append_right_eq_self.mp hwhole
  · intro hnone
    rwa [hnone, List.append_nil] at hwhole

-- ---------------------------------------------------------------------------
-- A stream that breaks within a line
-- ---------------------------------------------------------------------------

def breakingOff (pieces : List (List UInt8)) : Task :=
  .start {} 100 { process := ⟨100, 100, some 0, some 0, none, some 0⟩, stdout := ⟨pieces.map (0, ·), true⟩ } 0 true 0

def lastWords : List (List UInt8) := [[0x6F, 0x6B, 0x0A, 0x62], [0x79, 0x65]]

def lastTurns : List ReadTurn × Task × Surroundings :=
  readAlone false (breakingOff lastWords) { host := {}, echo := {} } 10

theorem lastTurns_reads : Reads false (.ofScript ⟨lastWords.map (0, ·), true⟩ true) lastTurns.1
    (lastTurns.2.1.stream false) :=
  (readAlone_reads false (breakingOff lastWords) { host := {}, echo := {} } 10).1

theorem lastWords_echoed :
    ((lastTurns.2.1.stream false).due = none ∧ ∀ p ∈ (seenOf false lastTurns.1).read, p.2) ∧
      (seenOf false lastTurns.1).echoed ++ [0x62, 0x79, 0x65] = (seenOf false lastTurns.1).received ∧
      ∃ segs, Segmented (seenOf false lastTurns.1).echoed segs ∧
        (seenOf false lastTurns.1).lines = segs.map .ofSegment := by
  have hend : (lastTurns.2.1.stream false).due = none := by decide +kernel
  have htaken : ∀ p ∈ (seenOf false lastTurns.1).read, p.2 := by decide +kernel
  have hleft : StreamScript.leftBehind ⟨lastWords.map (0, ·), true⟩ (seenOf false lastTurns.1).received =
      [0x62, 0x79, 0x65] := by decide +kernel
  obtain ⟨hwhole, hlines, -⟩ := echoes_all_but_unfinished lastTurns_reads hend htaken
  rw [hleft] at hwhole
  exact ⟨⟨hend, htaken⟩, hwhole, hlines⟩

theorem lastWords_lost :
    Reads false (.ofScript ⟨lastWords.map (0, ·), true⟩ true) lastTurns.1 (lastTurns.2.1.stream false) ∧
      (lastTurns.2.1.stream false).due = none ∧ (∀ p ∈ (seenOf false lastTurns.1).read, p.2) ∧
      (seenOf false lastTurns.1).received = [0x6F, 0x6B, 0x0A, 0x62, 0x79, 0x65] ∧
      (seenOf false lastTurns.1).echoed = [0x6F, 0x6B, 0x0A] ∧
      (seenOf false lastTurns.1).lines = [.ofSegment [0x6F, 0x6B, 0x0A]] := by
  refine ⟨lastTurns_reads, ?_, ?_, ?_, ?_, ?_⟩
  · decide +kernel
  · decide +kernel
  · decide +kernel
  · decide +kernel
  · decide +kernel

end Rehearsal

end Vigil
