import Vigil.Proofs.Output.Lines
import Vigil.Proofs.Rehearsal.Tracking

/-!
# Reading a stream

The reader of a stream takes its turns whenever something is due, and between two turns anything may happen
but to the stream itself. `ReadStep` lists what a turn can do: a piece arrives, the stream comes to its end, or
a segment is copied through and brought as a line. `playFor_reads`: the streams of a rehearsal's workloads are
read in such turns. `lines_however_cut`: once nothing is due any more, the lines that were brought are the
segments of the bytes that arrived, however these were cut into pieces and whatever became of the copying.
-/

namespace Vigil

def WatchEvent.line? : WatchEvent → Option OutputLine
  | .line _ l => some l
  | _ => none

namespace Rehearsal

open LineReader (split Segmented)

-- ---------------------------------------------------------------------------
-- Turns
-- ---------------------------------------------------------------------------

structure Seen where
  received : List UInt8 := []
  lines : List OutputLine := []
  echoed : List UInt8 := []
  /-- The segments that are read, with whether the output takes them. -/
  read : List (List UInt8 × Bool) := []

structure ReadTurn where
  now : Nat
  task : Task
  around : Surroundings

namespace ReadTurn

variable (toStderr : Bool) (u : ReadTurn)

def before : StreamState := u.task.stream toStderr

def leads : Task × Surroundings := u.task.readStream u.now u.around toStderr

def after : StreamState := (u.leads toStderr).1.stream toStderr

def seen : Seen where
  received := ((u.before toStderr).pieces.take
    ((u.before toStderr).pieces.length - (u.after toStderr).pieces.length)).flatMap (·.2)
  lines := ((u.leads toStderr).1.watched.queue.drop u.task.watched.queue.length).filterMap WatchEvent.line?
  echoed := ((u.leads toStderr).2.echo.bytes toStderr).drop (u.around.echo.bytes toStderr).length
  read := (u.before toStderr).segments.head?.toList.map fun segment =>
    (segment, (u.around.echo.write toStderr segment).isSome)

end ReadTurn

/-- What a turn can do to a stream, and what is seen of it. -/
inductive ReadStep (st : StreamState) : Seen → StreamState → Prop
  | piece {time : Nat} {piece : List UInt8} {rest : List (Nat × List UInt8)} (isOpen : st.isOpen)
      (none : st.segments = []) (pieces : st.pieces = (time, piece) :: rest) :
      ReadStep st { received := piece }
        { st with
          pieces := rest
          reader := (st.reader.feed piece).2
          segments := (st.reader.feed piece).1 }
  | ends (isOpen : st.isOpen) (none : st.segments = []) :
      ReadStep st {}
        { st with
          isOpen := false
          reader := {}
          segments := if st.breaks then [] else st.reader.finish }
  | segment {segment : List UInt8} {rest : List (List UInt8)} (taken : Bool)
      (segments : st.segments = segment :: rest) :
      ReadStep st
        { lines := [.ofSegment segment]
          echoed := if st.echoing && taken then segment else []
          read := [(segment, taken)] }
        { st with segments := rest, echoing := st.echoing && taken }

theorem Echo.bytes_write {e e' : Echo} {toStderr : Bool} {segment : List UInt8}
    (h : e.write toStderr segment = some e') : e'.bytes toStderr = e.bytes toStderr ++ segment := by
  have hwritten : e'.written = (toStderr, segment) :: e.written := by
    unfold write at h
    split at h <;> cases h <;> rfl
  simp [bytes, hwritten]

namespace Task

variable (now : Nat) (t : Task) (around : Surroundings) (toStderr : Bool) (segment : List UInt8)

@[simp] theorem stream_setStream (stream : StreamState) :
    (t.setStream toStderr stream).stream toStderr = stream := by
  cases toStderr <;> rfl

@[simp] theorem stream_bring (f : Feeder) (w : Watched) :
    (t.bring f w).stream toStderr = t.stream toStderr := rfl

theorem readSegment_stream : (t.readSegment now around toStderr segment).1.stream toStderr =
    { t.stream toStderr with
      echoing := (t.stream toStderr).echoing && (around.echo.write toStderr segment).isSome } := by
  cases hechoing : (t.stream toStderr).echoing with
  | false =>
    simp only [readSegment, stream_bring, hechoing, Bool.false_eq_true, if_false, Bool.false_and]
    rw [← hechoing]
  | true =>
    cases hwrite : around.echo.write toStderr segment with
    | none => simp [readSegment, hechoing, hwrite]
    | some echo =>
      simp only [readSegment, stream_bring, hechoing, hwrite, if_true, Option.isSome_some, Bool.and_self]
      rw [← hechoing]

theorem readSegment_bytes : (t.readSegment now around toStderr segment).2.echo.bytes toStderr =
    around.echo.bytes toStderr ++
      if (t.stream toStderr).echoing && (around.echo.write toStderr segment).isSome then segment else [] := by
  cases hechoing : (t.stream toStderr).echoing with
  | false => simp [readSegment, hechoing]
  | true =>
    cases hwrite : around.echo.write toStderr segment with
    | none => simp [readSegment, hechoing, hwrite]
    | some echo => simp [readSegment, hechoing, hwrite, Echo.bytes_write hwrite]

end Task

variable {toStderr : Bool} {u : ReadTurn} {st st' : StreamState}

theorem StreamState.isOpen_of_due (hdue : st.due ≠ none) (hnone : st.segments = []) : st.isOpen := by
  cases hopen : st.isOpen with
  | true => rfl
  | false => exact absurd (by simp [due, hnone, hopen]) hdue

theorem StreamState.advance_cases (st : StreamState) (death : Option Death) :
    (∃ time piece rest, st.pieces = (time, piece) :: rest ∧ st.advance death =
      { st with
        pieces := rest
        reader := (st.reader.feed piece).2
        segments := (st.reader.feed piece).1 }) ∨
    st.advance death =
      { st with
        isOpen := false
        reader := {}
        segments := if st.breaks then [] else st.reader.finish } := by
  cases hpieces : st.pieces with
  | nil =>
    right
    simp only [advance, hpieces]
  | cons next rest =>
    obtain ⟨time, piece⟩ := next
    by_cases hearly : death.all fun d => time < d.time
    · refine .inl ⟨time, piece, rest, rfl, ?_⟩
      simp only [advance, hpieces, hearly, if_true]
    · right
      simp only [advance, hpieces, hearly, if_false, Bool.false_eq_true]

theorem ReadTurn.leads_none (hnone : (u.before toStderr).segments = []) : u.leads toStderr =
    (u.task.setStream toStderr ((u.before toStderr).advance (u.around.host.deathOf u.task.place)),
      u.around) := by
  have hsegments : (u.task.stream toStderr).segments = [] := hnone
  simp only [leads, Task.readStream, hsegments]
  rfl

theorem ReadTurn.leads_segment {segment : List UInt8} {rest : List (List UInt8)}
    (h : (u.before toStderr).segments = segment :: rest) : u.leads toStderr =
      (u.task.setStream toStderr { u.before toStderr with segments := rest }).readSegment u.now u.around
        toStderr segment := by
  have hsegments : (u.task.stream toStderr).segments = segment :: rest := h
  simp only [leads, Task.readStream, hsegments]
  rfl

theorem ReadTurn.step (hdue : (u.before toStderr).due ≠ none) :
    ReadStep (u.before toStderr) (u.seen toStderr) (u.after toStderr) := by
  cases hsegments : (u.before toStderr).segments with
  | nil =>
    have hopen := StreamState.isOpen_of_due hdue hsegments
    have hleads := ReadTurn.leads_none hsegments
    have hafter : u.after toStderr = (u.before toStderr).advance (u.around.host.deathOf u.task.place) := by
      rw [after, hleads, Task.stream_setStream]
    have hseen : u.seen toStderr =
        { received := ((u.before toStderr).pieces.take
            ((u.before toStderr).pieces.length - (u.after toStderr).pieces.length)).flatMap (·.2) } := by
      simp [seen, hsegments, hleads, Task.setStream_watched]
    rw [hseen, hafter]
    rcases StreamState.advance_cases (u.before toStderr) (u.around.host.deathOf u.task.place) with
      ⟨time, piece, rest, hpieces, hadvance⟩ | hadvance
    · have hone : (u.before toStderr).pieces.length - rest.length = 1 := by
        rw [hpieces, List.length_cons]
        omega
      have harrived : ((u.before toStderr).pieces.take 1).flatMap (·.2) = piece := by simp [hpieces]
      rw [hadvance, hone, harrived]
      exact .piece hopen hsegments hpieces
    · have harrived : ((u.before toStderr).pieces.take ((u.before toStderr).pieces.length -
          (u.before toStderr).pieces.length)).flatMap (·.2) = [] := by simp
      rw [hadvance, harrived]
      exact .ends hopen hsegments
  | cons segment rest =>
    have hleads := ReadTurn.leads_segment hsegments
    have hafter : u.after toStderr = { u.before toStderr with
        segments := rest
        echoing := (u.before toStderr).echoing && (u.around.echo.write toStderr segment).isSome } := by
      rw [after, hleads, Task.readSegment_stream, Task.stream_setStream]
    have hseen : u.seen toStderr =
        { lines := [.ofSegment segment]
          echoed := if (u.before toStderr).echoing && (u.around.echo.write toStderr segment).isSome
            then segment else []
          read := [(segment, (u.around.echo.write toStderr segment).isSome)] } := by
      have hpieces : (u.after toStderr).pieces = (u.before toStderr).pieces := by rw [hafter]
      rw [seen, hpieces, hleads, Task.readSegment_watched, Task.readSegment_bytes, Task.setStream_watched,
        Task.stream_setStream, hsegments]
      simp [Watched.bring, WatchEvent.line?]
    rw [hafter, hseen]
    exact .segment _ hsegments

-- ---------------------------------------------------------------------------
-- Between the turns
-- ---------------------------------------------------------------------------

namespace Task

variable {s : Settings} {now : Nat} {t t' : Task} {around around' : Surroundings}

theorem applyEffects_stream (now : Nat) (t : Task) (around : Surroundings) (fx : List WatchEffect) :
    (applyEffects now t around fx).1.stream = t.stream := by
  induction fx generalizing t around with
  | nil => rfl
  | cons e fx ih =>
    cases e with
    | diagnosed | signalled | paused => exact ih ..

theorem act_stream (s : Settings) (now : Nat) (t : Task) (around : Surroundings) (e : ChargeEvent) :
    (t.act s now around e).1.stream = t.stream :=
  applyEffects_stream ..

theorem notice_stream (now : Nat) (t : Task) (h : Host) : (t.notice now h).stream = t.stream := by
  unfold notice
  split
  · split <;> rfl
  · rfl

theorem setStream_other {toStderr other : Bool} (h : other ≠ toStderr) (t : Task) (stream : StreamState) :
    (t.setStream other stream).stream toStderr = t.stream toStderr := by
  cases toStderr <;> cases other <;> first | rfl | exact absurd rfl h

theorem readSegment_other {toStderr other : Bool} (h : other ≠ toStderr) (now : Nat) (t : Task)
    (around : Surroundings) (segment : List UInt8) :
    (t.readSegment now around other segment).1.stream toStderr = t.stream toStderr := by
  cases hechoing : (t.stream other).echoing with
  | false => simp [readSegment, hechoing]
  | true =>
    cases hwrite : around.echo.write other segment with
    | none => simp [readSegment, hechoing, hwrite, setStream_other h]
    | some echo => simp [readSegment, hechoing, hwrite]

theorem readStream_other {toStderr other : Bool} (h : other ≠ toStderr) (now : Nat) (t : Task)
    (around : Surroundings) : (t.readStream now around other).1.stream toStderr = t.stream toStderr := by
  simp only [readStream]
  split
  · exact setStream_other h ..
  · rw [readSegment_other h, setStream_other h]

theorem watch_stream (h : t.watch? s now around = some (t', around')) : t'.stream = t.stream := by
  obtain ⟨u, e, -, hstream, hact⟩ := watch_acts h
  have hsame := act_stream s now u around e
  rw [hact] at hsame
  exact hsame.trans hstream

theorem feedBy_stream (s : Settings) (now due : Nat) (t : Task) (around : Surroundings) (f : Feeder)
    (toStderr : Bool) : (t.feedBy s now due around f).1.stream toStderr = t.stream toStderr ∨
      f = (if toStderr then .stderr else .stdout) ∧
        t.feedBy s now due around f = t.readStream now around toStderr := by
  cases f with
  | stdout =>
    cases toStderr with
    | false => exact .inr ⟨rfl, rfl⟩
    | true => exact .inl (readStream_other (by decide) ..)
  | stderr =>
    cases toStderr with
    | false => exact .inl (readStream_other (by decide) ..)
    | true => exact .inr ⟨rfl, rfl⟩
  | meter => exact .inl rfl
  | exit =>
    simp only [feedBy]
    split
    · exact .inl rfl
    · exact .inl rfl

theorem stream_due {h : Host} {toStderr : Bool} {due : Nat}
    (hdue : t.dueOf h (if toStderr then .stderr else .stdout) = some due) :
    (t.stream toStderr).due = some due := by
  unfold dueOf at hdue
  by_cases hwaits : t.isWaiting (if toStderr then .stderr else .stdout)
  · rw [if_pos hwaits] at hdue
    cases hdue
  · rw [if_neg hwaits] at hdue
    cases toStderr <;> exact hdue

/-- Whatever happens in a task leaves a stream alone, or it is a turn of its reader. -/
theorem advance_stream (h : t.advance? s now around = some (t', around')) (toStderr : Bool) :
    t'.stream toStderr = t.stream toStderr ∨
      ∃ u : ReadTurn, u.before toStderr = t.stream toStderr ∧ (u.before toStderr).due ≠ none ∧
        u.leads toStderr = (t', around') := by
  have hnotice := notice_stream now t around.host
  unfold advance? at h
  split at h
  · cases h
  rcases Option.or_eq_some_iff.mp h with hfeed | ⟨-, hwatch⟩
  · obtain ⟨f, -, hf⟩ := List.exists_of_findSome?_eq_some hfeed
    split at hf
    · rename_i due hdue
      split at hf
      · have hstep := Option.some.inj hf
        rcases feedBy_stream s now due (t.notice now around.host) around f toStderr with hsame | ⟨rfl, hturn⟩
        · rw [hstep] at hsame
          exact .inl (hsame.trans (congrFun hnotice toStderr))
        · refine .inr ⟨⟨now, t.notice now around.host, around⟩, congrFun hnotice toStderr, ?_,
            hturn.symm.trans hstep⟩
          rw [ReadTurn.before, stream_due hdue]
          exact Option.some_ne_none due
      · cases hf
    · cases hf
  · exact .inl ((congrFun (watch_stream hwatch) toStderr).trans (congrFun hnotice toStderr))

end Task

-- ---------------------------------------------------------------------------
-- Runs
-- ---------------------------------------------------------------------------

/-- A reader's turns, from one state of its stream to another. Whatever happens between them leaves the stream
alone, and a turn only comes when something is due. -/
inductive Reads (toStderr : Bool) (st : StreamState) : List ReadTurn → StreamState → Prop
  | nil : Reads toStderr st [] st
  | snoc {us : List ReadTurn} {u : ReadTurn} (h : Reads toStderr st us (u.before toStderr))
      (due : (u.before toStderr).due ≠ none) : Reads toStderr st (us ++ [u]) (u.after toStderr)

theorem playFor_reads (steps : Nat) (setup : Setup) (toStderr : Bool) :
    ∀ t ∈ (World.playFor steps setup).tasks, ∃ script us,
      Reads toStderr (.ofScript script setup.passthrough) us (t.stream toStderr) := by
  refine (World.playFor_each ?_ steps).2
  intro w t hsetup hw hcame
  cases hcame with
  | kept mem hstream =>
    obtain ⟨script, us, h⟩ := hw _ mem
    exact ⟨script, us, hstream ▸ h⟩
  | advanced mem hadvance =>
    obtain ⟨script, us, h⟩ := hw _ mem
    rcases Task.advance_stream hadvance toStderr with hsame | ⟨u, hbefore, hdue, hleads⟩
    · exact ⟨script, us, hsame ▸ h⟩
    · have hafter : u.after toStderr = t.stream toStderr := by rw [ReadTurn.after, hleads]
      exact ⟨script, us ++ [u], hafter ▸ .snoc (hbefore ▸ h) hdue⟩
  | started pid program place =>
    refine ⟨if toStderr then program.stderr else program.stdout, [], ?_⟩
    rw [← hsetup]
    cases toStderr <;> exact .nil
  | ticked pid program place around =>
    refine ⟨if toStderr then program.stderr else program.stdout, [], ?_⟩
    rw [← hsetup, Task.tick, Task.act_stream]
    cases toStderr <;> exact .nil

def seenOf (toStderr : Bool) (us : List ReadTurn) : Seen where
  received := us.flatMap fun u => (u.seen toStderr).received
  lines := us.flatMap fun u => (u.seen toStderr).lines
  echoed := us.flatMap fun u => (u.seen toStderr).echoed
  read := us.flatMap fun u => (u.seen toStderr).read

def Seen.append (a b : Seen) : Seen :=
  ⟨a.received ++ b.received, a.lines ++ b.lines, a.echoed ++ b.echoed, a.read ++ b.read⟩

theorem seenOf_snoc (us : List ReadTurn) (u : ReadTurn) :
    seenOf toStderr (us ++ [u]) = (seenOf toStderr us).append (u.seen toStderr) := by
  simp [seenOf, Seen.append]

def StreamScript.bytes (script : StreamScript) : List UInt8 := script.pieces.flatMap (·.2)

/-- What a reader has made of a script so far. -/
structure Progress (script : StreamScript) (echoing : Bool) (seen : Seen) (st : StreamState) : Prop where
  breaks : st.breaks = script.breaks
  whole : seen.received ++ st.pieces.flatMap (·.2) = script.bytes
  segments : seen.read.map (·.1) ++ st.segments =
    if st.isOpen || script.breaks then (split seen.received).1 else LineReader.segments seen.received
  pending : st.isOpen → st.reader.pending = (split seen.received).2
  lines : seen.lines = seen.read.map fun p => .ofSegment p.1
  stillEchoing : st.echoing = (echoing && seen.read.all (·.2))
  echoed : seen.echoed = if echoing then (seen.read.takeWhile (·.2)).flatMap (·.1) else []

variable {script : StreamScript} {echoing : Bool} {seen seen' : Seen} {us : List ReadTurn}

theorem progress_start (script : StreamScript) (echoing : Bool) :
    Progress script echoing (seenOf toStderr []) (.ofScript script echoing) where
  breaks := rfl
  whole := rfl
  segments := by cases script.breaks <;> rfl
  pending _ := rfl
  lines := rfl
  stillEchoing := by simp [StreamState.ofScript, seenOf]
  echoed := by simp [seenOf]

theorem takeWhile_snoc (read : List (List UInt8 × Bool)) (segment : List UInt8) (taken : Bool) :
    ((read ++ [(segment, taken)]).takeWhile (·.2)).flatMap (·.1) =
      (read.takeWhile (·.2)).flatMap (·.1) ++ if read.all (·.2) && taken then segment else [] := by
  induction read with
  | nil => cases taken <;> simp
  | cons p read ih =>
    obtain ⟨first, ok⟩ := p
    cases ok with
    | false => simp
    | true =>
      rw [List.cons_append, List.takeWhile_cons_of_pos rfl, List.takeWhile_cons_of_pos rfl, List.flatMap_cons,
        List.flatMap_cons, ih, List.append_assoc]
      rfl

theorem Progress.step (h : Progress script echoing seen st) (hstep : ReadStep st seen' st') :
    Progress script echoing (seen.append seen') st' := by
  cases hstep with
  | @piece time piece rest hopen hnone hpieces =>
    have hpending := h.pending hopen
    have hread : seen.read.map (·.1) = (split seen.received).1 := by simpa [hopen, hnone] using h.segments
    -- the reader holds what is behind the last line feed, so what has been cut stays cut
    have hfeed : st.reader.feed piece = ((split ((split seen.received).2 ++ piece)).1,
        ⟨(split ((split seen.received).2 ++ piece)).2⟩) := by
      rw [LineReader.feed_eq (hpending ▸ LineReader.not_mem_rest _), hpending]
    exact {
      breaks := h.breaks
      whole := by
        rw [← h.whole, hpieces]
        simp [Seen.append]
      segments := by simp [Seen.append, hopen, hfeed, hread, LineReader.split_append seen.received piece]
      pending := fun _ => by simp [Seen.append, hfeed, LineReader.split_append seen.received piece]
      lines := by simp [Seen.append, h.lines]
      stillEchoing := by simp [Seen.append, h.stillEchoing]
      echoed := by simp [Seen.append, h.echoed] }
  | ends hopen hnone =>
    have hread : seen.read.map (·.1) = (split seen.received).1 := by simpa [hopen, hnone] using h.segments
    have hreader : st.reader = ⟨(split seen.received).2⟩ := congrArg LineReader.mk (h.pending hopen)
    exact {
      breaks := h.breaks
      whole := by simp [Seen.append, h.whole]
      segments := by
        rw [h.breaks, hreader]
        cases script.breaks <;> simp [Seen.append, hread, LineReader.segments]
      pending := by simp
      lines := by simp [Seen.append, h.lines]
      stillEchoing := by simp [Seen.append, h.stillEchoing]
      echoed := by simp [Seen.append, h.echoed] }
  | @segment segment rest taken hsegments =>
    have hread := h.segments
    rw [hsegments] at hread
    exact {
      breaks := h.breaks
      whole := by simp [Seen.append, h.whole]
      segments := by simpa [Seen.append] using hread
      pending := fun hopen => by simp [Seen.append, h.pending hopen]
      lines := by simp [Seen.append, h.lines]
      stillEchoing := by simp [Seen.append, h.stillEchoing, Bool.and_assoc]
      echoed := by
        simp only [Seen.append, h.echoed, h.stillEchoing]
        cases echoing with
        | false => simp
        | true => simp only [if_true, Bool.true_and, takeWhile_snoc] }

theorem Reads.progress (h : Reads toStderr (.ofScript script echoing) us st) :
    Progress script echoing (seenOf toStderr us) st := by
  induction h with
  | nil => exact progress_start script echoing
  | snoc h due ih =>
    rw [seenOf_snoc]
    exact ih.step (ReadTurn.step due)

-- ---------------------------------------------------------------------------
-- The end of a stream
-- ---------------------------------------------------------------------------

/-- How many turns there can be before nothing is due any more. -/
def StreamState.left (st : StreamState) : Nat :=
  st.segments.length + (st.pieces.flatMap (·.2)).length + st.pieces.length + if st.isOpen then 2 else 0

theorem length_feed_le (r : LineReader) (piece : List UInt8) : (r.feed piece).1.length ≤ piece.length := by
  have hcut := LineReader.length_split_le piece
  unfold LineReader.feed
  split <;> rename_i heq <;> rw [heq] at hcut
  · exact Nat.zero_le _
  · exact hcut

theorem length_finish_le (r : LineReader) : r.finish.length ≤ 1 := by
  unfold LineReader.finish
  split
  · exact Nat.zero_le 1
  · exact Nat.le_refl 1

theorem ReadStep.left_lt (h : ReadStep st seen st') : st'.left < st.left := by
  cases h with
  | @piece time piece rest hopen hnone hpieces =>
    have hfeed := length_feed_le st.reader piece
    simp only [StreamState.left, hnone, hpieces, List.length_nil, List.flatMap_cons, List.length_append,
      List.length_cons]
    omega
  | ends hopen hnone =>
    have hfinish := length_finish_le st.reader
    simp only [StreamState.left, hnone, hopen, if_true, List.length_nil, Bool.false_eq_true, if_false]
    split
    · rw [List.length_nil]
      omega
    · omega
  | segment taken hsegments =>
    simp only [StreamState.left, hsegments, List.length_cons]
    omega

theorem Reads.length_le (h : Reads toStderr st us st') : us.length + st'.left ≤ st.left := by
  induction h with
  | nil => simp
  | snoc h due ih =>
    have hless := (ReadTurn.step due).left_lt
    rw [List.length_append, List.length_singleton]
    omega

theorem ReadStep.pieces_subset (h : ReadStep st seen st') : st'.pieces ⊆ st.pieces := by
  cases h with
  | piece hopen hnone hpieces => exact fun p hp => hpieces ▸ List.mem_cons_of_mem _ hp
  | ends | segment => exact fun p hp => hp

theorem StreamState.closed_of_due (h : st.due = none) : st.isOpen = false ∧ st.segments = [] := by
  unfold due at h
  cases hsegments : st.segments with
  | cons => simp [hsegments] at h
  | nil =>
    cases hopen : st.isOpen with
    | true => simp [hsegments, hopen] at h
    | false => exact ⟨rfl, rfl⟩

def Lives (u : ReadTurn) (p : Nat × List UInt8) : Prop :=
  ∀ d ∈ u.around.host.deathOf u.task.place, p.1 < d.time

/-- A stream only ends when no pieces are left that the process lives to write. -/
theorem ReadTurn.stays_open (hopen : (u.before toStderr).isOpen)
    (hlives : ∀ p ∈ (u.before toStderr).pieces, Lives u p) :
    (u.after toStderr).isOpen ∨ (u.after toStderr).pieces = [] := by
  cases hsegments : (u.before toStderr).segments with
  | cons segment rest =>
    left
    rw [after, ReadTurn.leads_segment hsegments, Task.readSegment_stream, Task.stream_setStream]
    exact hopen
  | nil =>
    rw [after, ReadTurn.leads_none hsegments, Task.stream_setStream]
    cases hpieces : (u.before toStderr).pieces with
    | nil => simp [StreamState.advance, hpieces]
    | cons p rest =>
      obtain ⟨time, piece⟩ := p
      have hearly : (u.around.host.deathOf u.task.place).all fun d => time < d.time := by
        rw [Option.all_eq_true]
        intro d hd
        exact decide_eq_true (hlives _ (hpieces ▸ List.mem_cons_self) d hd)
      simp [StreamState.advance, hpieces, hearly, hopen]

theorem Reads.no_pieces (h : Reads toStderr (.ofScript script echoing) us st)
    (hlives : ∀ u ∈ us, ∀ p ∈ script.pieces, Lives u p) :
    (∀ p ∈ st.pieces, p ∈ script.pieces) ∧ (st.isOpen ∨ st.pieces = []) := by
  induction h with
  | nil => exact ⟨fun p hp => hp, .inl rfl⟩
  | @snoc us u h due ih =>
    obtain ⟨hsub, hopen⟩ := ih fun v hv => hlives v (List.mem_append_left _ hv)
    have hlivesNow : ∀ p ∈ (u.before toStderr).pieces, Lives u p :=
      fun p hp => hlives u (by simp) p (hsub p hp)
    have hfewer := (ReadTurn.step due).pieces_subset
    refine ⟨fun p hp => hsub p (hfewer hp), ?_⟩
    rcases hopen with hopen | hnone
    · exact ReadTurn.stays_open hopen hlivesNow
    · exact .inr (List.eq_nil_iff_forall_not_mem.mpr fun p hp => by simpa [hnone] using hfewer hp)

theorem Reads.received_eq (h : Reads toStderr (.ofScript script echoing) us st) (hend : st.due = none)
    (hlives : ∀ u ∈ us, ∀ p ∈ script.pieces, Lives u p) :
    (seenOf toStderr us).received = script.bytes := by
  have hnone : st.pieces = [] := by
    simpa [(StreamState.closed_of_due hend).1] using (h.no_pieces hlives).2
  have hwhole := h.progress.whole
  rwa [hnone, List.flatMap_nil, List.append_nil] at hwhole

variable {script' : StreamScript} {echoing' toStderr' : Bool} {us' : List ReadTurn}

/-- Once nothing is due any more, the bytes of a stream have been brought as lines, segment by segment, and what
has been copied through are the segments before the first one that was not taken. The lines are the same
however the bytes are cut into pieces, and whatever becomes of the copying. -/
theorem lines_however_cut (hwhole : script.breaks = false) (hwhole' : script'.breaks = false)
    (h : Reads toStderr (.ofScript script echoing) us st) (hend : st.due = none)
    (h' : Reads toStderr' (.ofScript script' echoing') us' st') (hend' : st'.due = none)
    (hsame : (seenOf toStderr us).received = (seenOf toStderr' us').received) :
    (seenOf toStderr us).lines = (seenOf toStderr' us').lines ∧
      Segmented (seenOf toStderr us).received ((seenOf toStderr us).read.map (·.1)) ∧
      (seenOf toStderr us).lines = (seenOf toStderr us).read.map (fun p => .ofSegment p.1) ∧
      (seenOf toStderr us).echoed =
        (if echoing then ((seenOf toStderr us).read.takeWhile (·.2)).flatMap (·.1) else []) ∧
      ((∀ u ∈ us, ∀ p ∈ script.pieces, Lives u p) → (seenOf toStderr us).received = script.bytes) := by
  have hread {script : StreamScript} {echoing toStderr : Bool} {us : List ReadTurn} {st : StreamState}
      (hwhole : script.breaks = false) (h : Reads toStderr (.ofScript script echoing) us st)
      (hend : st.due = none) :
      (seenOf toStderr us).read.map (·.1) = LineReader.segments (seenOf toStderr us).received := by
    obtain ⟨hclosed, hnone⟩ := StreamState.closed_of_due hend
    have hsegments := h.progress.segments
    rwa [hnone, List.append_nil, hclosed, hwhole] at hsegments
  have hlines : (seenOf toStderr us).lines = (seenOf toStderr us).read.map (fun p => .ofSegment p.1) :=
    h.progress.lines
  refine ⟨?_, LineReader.segmented_iff.mpr (hread hwhole h hend), hlines, h.progress.echoed, h.received_eq hend⟩
  have hmapped {read : List (List UInt8 × Bool)} : read.map (fun p => OutputLine.ofSegment p.1) =
      (read.map (·.1)).map OutputLine.ofSegment := by rw [List.map_map]; rfl
  rw [hlines, h'.progress.lines, hmapped, hmapped, hread hwhole h hend, hread hwhole' h' hend', hsame]

-- ---------------------------------------------------------------------------
-- A reader by itself
-- ---------------------------------------------------------------------------

def readAlone (toStderr : Bool) (t : Task) (around : Surroundings) : Nat → List ReadTurn × Task × Surroundings
  | 0 => ([], t, around)
  | n + 1 =>
    let (us, t, around) := readAlone toStderr t around n
    if (t.stream toStderr).due = none then (us, t, around)
    else (us ++ [⟨0, t, around⟩], t.readStream 0 around toStderr)

theorem readAlone_reads (toStderr : Bool) (t : Task) (around : Surroundings) (n : Nat) :
    Reads toStderr (t.stream toStderr) (readAlone toStderr t around n).1
        ((readAlone toStderr t around n).2.1.stream toStderr) ∧
      (((readAlone toStderr t around n).2.1.stream toStderr).due = none ∨
        (readAlone toStderr t around n).1.length = n) := by
  induction n with
  | zero => exact ⟨.nil, .inr rfl⟩
  | succ n ih =>
    rw [readAlone]
    generalize readAlone toStderr t around n = r at ih ⊢
    obtain ⟨us, t', around'⟩ := r
    obtain ⟨hreads, hend⟩ := ih
    by_cases hdue : (t'.stream toStderr).due = none
    · simp only [hdue, if_true]
      exact ⟨hreads, .inl trivial⟩
    · simp only [hdue, if_false]
      refine ⟨.snoc (u := ⟨0, t', around'⟩) hreads hdue, .inr ?_⟩
      rw [List.length_append, hend.resolve_left hdue, List.length_singleton]

/-- Every stream can be read to its end. -/
theorem readAlone_ends (toStderr : Bool) (t : Task) (around : Surroundings) :
    ((readAlone toStderr t around ((t.stream toStderr).left + 1)).2.1.stream toStderr).due = none := by
  obtain ⟨hreads, hend⟩ := readAlone_reads toStderr t around ((t.stream toStderr).left + 1)
  refine hend.resolve_right fun hlength => ?_
  have hle := hreads.length_le
  omega

def writing (pieces : List (List UInt8)) : Task :=
  .start {} 100 { process := ⟨100, 100, some 0, some 0, none, some 0⟩, stdout := ⟨pieces.map (0, ·), false⟩ } 0 true 0

def allowing (writes : Nat) : Surroundings := { host := {}, echo := { budget := some writes } }

def cut : List (List UInt8) := [[0xC3], [0xA9, 0x0D], [0x0A, 0x6F, 0x6B]]

theorem cut_read : let r := readAlone false (writing cut) (allowing 1) 10
    let r' := readAlone false (writing [cut.flatten]) (allowing 0) 10
    ((seenOf false r.1).received = (seenOf false r'.1).received ∧
      (r.2.1.stream false).due = none ∧ (r'.2.1.stream false).due = none) ∧
    (seenOf false r.1).lines = (seenOf false r'.1).lines ∧
    (seenOf false r.1).lines.map (·.redacted) = ["é", "ok"] ∧
    (seenOf false r.1).echoed = [0xC3, 0xA9, 0x0D, 0x0A] ∧ (seenOf false r'.1).echoed = [] := by
  have hsame : (seenOf false (readAlone false (writing cut) (allowing 1) 10).1).received =
      (seenOf false (readAlone false (writing [cut.flatten]) (allowing 0) 10).1).received := by decide +kernel
  have hend : ((readAlone false (writing cut) (allowing 1) 10).2.1.stream false).due = none := by decide +kernel
  have hend' : ((readAlone false (writing [cut.flatten]) (allowing 0) 10).2.1.stream false).due = none := by
    decide +kernel
  have hread : Reads false (.ofScript ⟨cut.map (0, ·), false⟩ true) _ _ :=
    (readAlone_reads false (writing cut) (allowing 1) 10).1
  have hread' : Reads false (.ofScript ⟨[cut.flatten].map (0, ·), false⟩ true) _ _ :=
    (readAlone_reads false (writing [cut.flatten]) (allowing 0) 10).1
  have hlines := (lines_however_cut rfl rfl hread hend hread' hend' hsame).1
  exact ⟨⟨hsame, hend, hend'⟩, hlines, by decide +kernel, by decide +kernel, by decide +kernel⟩

end Rehearsal

end Vigil
