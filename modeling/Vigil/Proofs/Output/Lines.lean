import Vigil.Output.Stream

/-!
# The lines of a stream

`Segmented` says how the bytes of a stream fall into lines: each of them goes on up to its line feed, and only
the last one can be without. There is one way to do that, `segmented_iff`. However the bytes are cut into
pieces, a reader that is fed with the pieces finishes the lines of all bytes so far and keeps what is behind
the last of them, `feed_eq` and `split_append`.
-/

namespace Vigil.LineReader

variable {b : UInt8} {bytes front rest piece seg : List UInt8} {segs : List (List UInt8)} {r : LineReader}

-- ---------------------------------------------------------------------------
-- Cutting
-- ---------------------------------------------------------------------------

theorem split_lineFeed (bytes : List UInt8) :
    split (lineFeed :: bytes) = ([lineFeed] :: (split bytes).1, (split bytes).2) := by
  rw [split]
  exact if_pos rfl

theorem split_front (hfront : lineFeed ∉ front) (bytes : List UInt8) : split (front ++ bytes) =
    match split bytes with
    | ([], rest) => ([], front ++ rest)
    | (d :: ds, rest) => ((front ++ d) :: ds, rest) := by
  induction front with
  | nil =>
    rw [List.nil_append]
    cases split bytes with
    | mk segs rest => cases segs <;> rfl
  | cons b front ih =>
    rw [List.mem_cons, not_or] at hfront
    rw [List.cons_append, split, ih hfront.2]
    cases split bytes with
    | mk segs rest => cases segs <;> simp [Ne.symm hfront.1]

theorem split_unfinished (h : lineFeed ∉ bytes) : split bytes = ([], bytes) := by
  have hcut := split_front h []
  rw [List.append_nil] at hcut
  rw [hcut, split]
  simp

theorem split_line (hfront : lineFeed ∉ front) (bytes : List UInt8) :
    split (front ++ lineFeed :: bytes) = ((front ++ [lineFeed]) :: (split bytes).1, (split bytes).2) := by
  rw [split_front hfront, split_lineFeed]

/-- Line by line: bytes have no line feed, or there is a first one and the bytes behind it. -/
theorem line_induction {P : List UInt8 → Prop} (unfinished : ∀ bytes, lineFeed ∉ bytes → P bytes)
    (line : ∀ front bytes, lineFeed ∉ front → P bytes → P (front ++ lineFeed :: bytes)) (bytes : List UInt8) :
    P bytes := by
  obtain ⟨n, hn⟩ : ∃ n, bytes.length = n := ⟨_, rfl⟩
  induction n using Nat.strongRecOn generalizing bytes with
  | ind n ih =>
    by_cases hmem : lineFeed ∈ bytes
    · obtain ⟨front, rest, hbytes, hfront⟩ := List.eq_append_cons_of_mem hmem
      subst hbytes
      refine line front rest hfront (ih rest.length ?_ rest rfl)
      simp only [List.length_append, List.length_cons] at hn
      omega
    · exact unfinished bytes hmem

theorem not_mem_rest (bytes : List UInt8) : lineFeed ∉ (split bytes).2 := by
  induction bytes using line_induction with
  | unfinished bytes h => rwa [split_unfinished h]
  | line front bytes hfront ih => rwa [split_line hfront]

theorem split_append (bytes more : List UInt8) : split (bytes ++ more) =
    ((split bytes).1 ++ (split ((split bytes).2 ++ more)).1, (split ((split bytes).2 ++ more)).2) := by
  induction bytes using line_induction with
  | unfinished bytes h =>
    rw [split_unfinished h]
    rfl
  | line front bytes hfront ih =>
    rw [List.append_assoc, List.cons_append, split_line hfront, split_line hfront, ih]
    rfl

theorem feed_eq (hr : lineFeed ∉ r.pending) (piece : List UInt8) :
    r.feed piece = ((split (r.pending ++ piece)).1, ⟨(split (r.pending ++ piece)).2⟩) := by
  cases hcut : split piece with
  | mk segs rest => cases segs <;> simp [feed, split_front hr, hcut]

theorem length_split_le (bytes : List UInt8) : (split bytes).1.length ≤ bytes.length := by
  induction bytes using line_induction with
  | unfinished bytes h =>
    rw [split_unfinished h]
    exact Nat.zero_le _
  | line front bytes hfront ih =>
    rw [split_line hfront, List.length_append, List.length_cons, List.length_cons]
    omega

-- ---------------------------------------------------------------------------
-- Segments
-- ---------------------------------------------------------------------------

def segments (bytes : List UInt8) : List (List UInt8) := (split bytes).1 ++ finish ⟨(split bytes).2⟩

/-- The bytes fall into segments: each goes on up to its line feed, and only the last can be without. -/
structure Segmented (bytes : List UInt8) (segs : List (List UInt8)) : Prop where
  whole : segs.flatten = bytes
  nonempty : ∀ seg ∈ segs, seg ≠ []
  single : ∀ seg ∈ segs, lineFeed ∉ seg.dropLast
  finished : ∀ seg ∈ segs.dropLast, seg.getLast? = some lineFeed

theorem segments_unfinished (h : lineFeed ∉ bytes) : segments bytes = if bytes = [] then [] else [bytes] := by
  rw [segments, split_unfinished h]
  rfl

theorem segments_line (hfront : lineFeed ∉ front) (bytes : List UInt8) :
    segments (front ++ lineFeed :: bytes) = (front ++ [lineFeed]) :: segments bytes := by
  rw [segments, split_line hfront]
  rfl

theorem Segmented.cons (h : Segmented bytes segs) (hfront : lineFeed ∉ front) :
    Segmented (front ++ lineFeed :: bytes) ((front ++ [lineFeed]) :: segs) where
  whole := by simp [h.whole]
  nonempty seg hseg := by
    rcases List.mem_cons.mp hseg with rfl | hseg
    · simp
    · exact h.nonempty seg hseg
  single seg hseg := by
    rcases List.mem_cons.mp hseg with rfl | hseg
    · rwa [List.dropLast_concat]
    · exact h.single seg hseg
  finished seg hseg := by
    cases segs with
    | nil => cases hseg
    | cons first more =>
      rw [List.dropLast_cons_cons] at hseg
      rcases List.mem_cons.mp hseg with rfl | hseg
      · exact List.getLast?_concat
      · exact h.finished seg hseg

theorem segmented_segments (bytes : List UInt8) : Segmented bytes (segments bytes) := by
  induction bytes using line_induction with
  | unfinished bytes h =>
    rw [segments_unfinished h]
    split
    · rename_i hnone
      exact ⟨hnone.symm, by simp, by simp, by simp⟩
    · rename_i hsome
      refine ⟨by simp, by simpa using hsome, ?_, by simp⟩
      intro seg hseg
      rw [List.mem_singleton.mp hseg]
      exact fun hmem => h ((List.dropLast_prefix bytes).subset hmem)
  | line front bytes hfront ih =>
    rw [segments_line hfront]
    exact ih.cons hfront

theorem Segmented.tail (h : Segmented bytes (seg :: segs)) : Segmented segs.flatten segs where
  whole := rfl
  nonempty s hs := h.nonempty s (List.mem_cons_of_mem _ hs)
  single s hs := h.single s (List.mem_cons_of_mem _ hs)
  finished s hs := by
    cases segs with
    | nil => cases hs
    | cons first more => exact h.finished s (List.mem_cons_of_mem _ hs)

theorem segmented_iff : Segmented bytes segs ↔ segs = segments bytes := by
  refine ⟨fun h => ?_, fun h => h ▸ segmented_segments bytes⟩
  induction segs generalizing bytes with
  | nil =>
    rw [← h.whole]
    rfl
  | cons seg segs ih =>
    have hrest := ih h.tail
    obtain ⟨front, last, rfl⟩ : ∃ front last, seg = front ++ [last] :=
      ⟨_, _, (List.dropLast_concat_getLast (h.nonempty seg List.mem_cons_self)).symm⟩
    have hfront := h.single _ List.mem_cons_self
    rw [List.dropLast_concat] at hfront
    rw [← h.whole, List.flatten_cons, List.append_assoc, List.singleton_append]
    by_cases hlast : last = lineFeed
    · rw [hlast, segments_line hfront, ← hrest]
    · -- only the last segment can be without a line feed
      have hnone : segs = [] := by
        cases segs with
        | nil => rfl
        | cons first more => simpa [hlast] using h.finished _ List.mem_cons_self
      have hunfinished : lineFeed ∉ front ++ [last] := by simp [hfront, Ne.symm hlast]
      rw [hnone, List.flatten_nil, segments_unfinished hunfinished, if_neg (by simp)]

end Vigil.LineReader
