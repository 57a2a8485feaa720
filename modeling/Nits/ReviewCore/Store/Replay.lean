import Nits.Logical.Program
import Nits.Logical.Window
import Nits.Protocol.Replay
import Nits.ReviewCore.Store

/-!
# Historical event pages

Short, bounded read transactions for historical event pages. A page ends at the first of
three limits: the records scanned, their stored bytes, and the bytes of the events as they
are encoded today.
-/

namespace Nits.ReviewCore

open Logical Protocol

/-- Bounds work even when a filter matches no records. -/
def REPLAY_SCAN_LIMIT : Nat := 256

/-- Normal page budget, counting both stored and re-encoded event bytes. A single larger
event gets its own page, up to `REPLAY_EVENT_BYTES`. -/
@[irreducible] def REPLAY_PAGE_BYTES : Nat := 1024 * 1024

/-- The transport's frame limit without the envelope, page metadata and punctuation. -/
@[irreducible] def REPLAY_EVENT_BYTES : Nat := 64 * 1024 * 1024 - 4096

/-- How many bytes an event takes: the record under its key, whose spelling may differ from
today's encoder, and the event as it is sent. -/
structure Encoding where
  stored : Event → Nat
  wire : Event → Nat

/-- The event is too large for any page. -/
def Encoding.Oversized (encoding : Encoding) (event : Event) : Prop :=
  REPLAY_EVENT_BYTES < encoding.stored event ∨ REPLAY_EVENT_BYTES < encoding.wire event

namespace Store

/-- The reason why an event can be in no page. -/
def exceeds (event : Event) : String :=
  s!"event {event.seq} exceeds the {REPLAY_EVENT_BYTES}-byte replay event limit"

/-- What a page's scan has read. -/
structure ReplayScan where
  events : List Event
  storedBytes : Nat
  wireBytes : Nat
  after : Seq

def ReplayScan.read (encoding : Encoding) (scan : ReplayScan) (event : Event) : ReplayScan where
  events := scan.events ++ [event]
  storedBytes := scan.storedBytes + encoding.stored event
  wireBytes := scan.wireBytes + (encoding.wire event + 1)
  after := event.seq

/-- Scan records until a limit ends the page. -/
def ReplayScan.walk (encoding : Encoding) : ReplayScan → List Event → Except StoreError ReplayScan
  | scan, [] => .ok scan
  | scan, event :: rest =>
    if scan.events ≠ [] ∧ REPLAY_PAGE_BYTES < scan.storedBytes + encoding.stored event then
      .ok scan
    else if REPLAY_EVENT_BYTES < encoding.stored event then
      .error (.replay (exceeds event))
    -- The actual wire representation is bounded too, whatever the record's spelling.
    else if REPLAY_EVENT_BYTES < encoding.wire event then
      .error (.replay (exceeds event))
    else if scan.events ≠ [] ∧ REPLAY_PAGE_BYTES < scan.wireBytes + (encoding.wire event + 1) then
      .ok scan
    else (scan.read encoding event).walk encoding rest

/-- The window a position asks for, capturing the log's head on the first call. -/
def replayBounds (store : Store) (position : ReplayPosition) : Except StoreError (Seq × Seq) :=
  let head := store.lastSeq.getD 0
  match position with
  | .start .now => .ok (head, head)
  | .start (.after seq) | .follow seq => .ok (seq, max head seq)
  | .continue cursor =>
    if head < cursor.through then
      .error (.replay s!"replay end {cursor.through} exceeds the current log head {head}")
    else .ok (cursor.after, cursor.through)

/-- Scan at most one page of the position's window. Filtering happens in the core, after
progress is recorded, so empty result pages remain resumable. -/
def replayPage (encoding : Encoding) (store : Store) (position : ReplayPosition) :
    Except StoreError ReplayPage := do
  let (after, through) ← store.replayBounds position
  if through ≤ after then
    pure ⟨through, [], .complete⟩
  else
    let records := (window Event.seq after through store.events).take REPLAY_SCAN_LIMIT
    let scan ← ReplayScan.walk encoding ⟨[], 0, 0, after⟩ records
    pure ⟨through, scan.events, if through ≤ scan.after then .complete else .more scan.after⟩

/-! ## What a scan reads -/

/-- The records of one page keep to the limits; a single event may be larger than the
page's budget. -/
structure Bounded (encoding : Encoding) (records : List Event) : Prop where
  scanned : records.length ≤ REPLAY_SCAN_LIMIT
  stored : records.length ≤ 1 ∨ (records.map encoding.stored).sum ≤ REPLAY_PAGE_BYTES
  wire : records.length ≤ 1 ∨
    (records.map fun event => encoding.wire event + 1).sum ≤ REPLAY_PAGE_BYTES
  fits : ∀ event ∈ records, ¬ encoding.Oversized event

/-- An event that no page can hold, and the records that a page's scan had read when it met
the event. A record that is too large as stored ends the page before it, so it is met first
in a page; one that grows too large when it is encoded is met in the page that has room for
its record. -/
structure Fails (encoding : Encoding) (read : List Event) (event : Event) : Prop where
  bounded : Bounded encoding read
  scanned : read.length < REPLAY_SCAN_LIMIT
  oversized : encoding.Oversized event
  alone : REPLAY_EVENT_BYTES < encoding.stored event → read = []
  room : read ≠ [] →
    (read.map encoding.stored).sum + encoding.stored event ≤ REPLAY_PAGE_BYTES

theorem pageBytes_le : REPLAY_PAGE_BYTES ≤ REPLAY_EVENT_BYTES := by
  unfold REPLAY_PAGE_BYTES REPLAY_EVENT_BYTES
  omega

namespace ReplayScan

variable {encoding : Encoding} {scan last : ReplayScan} {entries : List Event}
  {error : StoreError}

/-- The scan counts the bytes of what it has read, and stays within the page's budget from
the second event on. -/
structure Counts (encoding : Encoding) (scan : ReplayScan) : Prop where
  storedBytes : scan.storedBytes = (scan.events.map encoding.stored).sum
  wireBytes : scan.wireBytes = (scan.events.map fun event => encoding.wire event + 1).sum
  stored : scan.events.length ≤ 1 ∨ scan.storedBytes ≤ REPLAY_PAGE_BYTES
  wire : scan.events.length ≤ 1 ∨ scan.wireBytes ≤ REPLAY_PAGE_BYTES

theorem Counts.read {event : Event} (counts : Counts encoding scan)
    (stored : scan.events ≠ [] → scan.storedBytes + encoding.stored event ≤ REPLAY_PAGE_BYTES)
    (wire : scan.events ≠ [] → scan.wireBytes + (encoding.wire event + 1) ≤ REPLAY_PAGE_BYTES) :
    Counts encoding (scan.read encoding event) where
  storedBytes := by simp [ReplayScan.read, counts.storedBytes]
  wireBytes := by simp [ReplayScan.read, counts.wireBytes]
  stored := by
    by_cases first : scan.events = []
    · exact .inl (by simp [ReplayScan.read, first])
    · exact .inr (stored first)
  wire := by
    by_cases first : scan.events = []
    · exact .inl (by simp [ReplayScan.read, first])
    · exact .inr (wire first)

theorem counts_start {after : Seq} : Counts encoding ⟨[], 0, 0, after⟩ :=
  ⟨rfl, rfl, .inl (Nat.zero_le _), .inl (Nat.zero_le _)⟩

/-- A scan has read some first records, none of them oversized. -/
structure Reads (encoding : Encoding) (scan : ReplayScan) (entries : List Event)
    (last : ReplayScan) (read rest : List Event) : Prop where
  split : entries = read ++ rest
  events : last.events = scan.events ++ read
  counts : Counts encoding last
  after : last.after = (read.getLast?.map Event.seq).getD scan.after
  fits : ∀ event ∈ read, ¬ encoding.Oversized event

theorem reads_none (counts : Counts encoding scan) :
    Reads encoding scan entries scan [] entries where
  split := rfl
  events := (List.append_nil _).symm
  counts := counts
  after := rfl
  fits _ mem := absurd mem List.not_mem_nil

theorem Reads.cons {event : Event} {read rest : List Event} (fits : ¬ encoding.Oversized event)
    (reads : Reads encoding (scan.read encoding event) entries last read rest) :
    Reads encoding scan (event :: entries) last (event :: read) rest where
  split := by rw [reads.split, List.cons_append]
  events := by rw [reads.events, ReplayScan.read, List.append_assoc, List.singleton_append]
  counts := reads.counts
  after := by
    rw [reads.after, List.getLast?_cons]
    cases read.getLast? <;> rfl
  fits := by
    intro other mem
    rcases List.mem_cons.mp mem with rfl | later
    · exact fits
    · exact reads.fits other later

/-- A scan that ends a page has read at least one record if there is one. -/
theorem walk_ok (counts : Counts encoding scan) (scanned : scan.walk encoding entries = .ok last) :
    ∃ read rest, Reads encoding scan entries last read rest ∧
      (entries ≠ [] → last.events ≠ []) := by
  induction entries generalizing scan with
  | nil =>
    cases scanned
    exact ⟨[], [], reads_none counts, absurd rfl⟩
  | cons event rest ih =>
    unfold walk at scanned
    split at scanned
    next full =>
      cases scanned
      exact ⟨[], event :: rest, reads_none counts, fun _ => full.1⟩
    next room =>
    split at scanned
    · cases scanned
    next storedFits =>
    split at scanned
    · cases scanned
    next wireFits =>
    split at scanned
    next full =>
      cases scanned
      exact ⟨[], event :: rest, reads_none counts, fun _ => full.1⟩
    next wireRoom =>
    have counted : Counts encoding (scan.read encoding event) :=
      counts.read (fun some => Nat.not_lt.mp fun exceeds => room ⟨some, exceeds⟩)
        fun some => Nat.not_lt.mp fun exceeds => wireRoom ⟨some, exceeds⟩
    obtain ⟨read, left, reads, _⟩ := ih counted scanned
    refine ⟨event :: read, left, reads.cons fun oversized => oversized.elim storedFits wireFits,
      fun _ => ?_⟩
    rw [reads.events, ReplayScan.read]
    simp

/-- A scan fails only at an oversized event, which its reason names; behind other records of
the page only if the page has room for the event's record. -/
theorem walk_error (counts : Counts encoding scan)
    (scanned : scan.walk encoding entries = .error error) :
    ∃ last read event rest, Reads encoding scan entries last read (event :: rest) ∧
      (last.events ≠ [] → last.storedBytes + encoding.stored event ≤ REPLAY_PAGE_BYTES) ∧
      encoding.Oversized event ∧ error = .replay (exceeds event) := by
  induction entries generalizing scan with
  | nil => cases scanned
  | cons event rest ih =>
    unfold walk at scanned
    split at scanned
    · cases scanned
    next room =>
    have room_ : scan.events ≠ [] →
        scan.storedBytes + encoding.stored event ≤ REPLAY_PAGE_BYTES :=
      fun some => Nat.not_lt.mp fun exceeds => room ⟨some, exceeds⟩
    split at scanned
    next large =>
      cases scanned
      exact ⟨scan, [], event, rest, reads_none counts, room_, .inl large, rfl⟩
    next storedFits =>
    split at scanned
    next large =>
      cases scanned
      exact ⟨scan, [], event, rest, reads_none counts, room_, .inr large, rfl⟩
    next wireFits =>
    split at scanned
    · cases scanned
    next wireRoom =>
    have counted : Counts encoding (scan.read encoding event) :=
      counts.read room_ fun some => Nat.not_lt.mp fun exceeds => wireRoom ⟨some, exceeds⟩
    obtain ⟨last, read, large, left, reads, fails⟩ := ih counted scanned
    exact ⟨last, event :: read, large, left,
      reads.cons fun oversized => oversized.elim storedFits wireFits, fails⟩

theorem bounded_of_reads {after : Seq} {read rest : List Event}
    (reads : Reads encoding ⟨[], 0, 0, after⟩ entries last read rest)
    (short : entries.length ≤ REPLAY_SCAN_LIMIT) : Bounded encoding read := by
  have same : last.events = read := reads.events
  have stored := reads.counts.stored
  have wire := reads.counts.wire
  rw [reads.counts.storedBytes, same] at stored
  rw [reads.counts.wireBytes, same] at wire
  refine ⟨?_, stored, wire, reads.fits⟩
  rw [reads.split, List.length_append] at short
  omega

theorem fails_of_reads {after : Seq} {event : Event} {read rest : List Event}
    (reads : Reads encoding ⟨[], 0, 0, after⟩ entries last read (event :: rest))
    (short : entries.length ≤ REPLAY_SCAN_LIMIT)
    (room : last.events ≠ [] → last.storedBytes + encoding.stored event ≤ REPLAY_PAGE_BYTES)
    (oversized : encoding.Oversized event) : Fails encoding read event := by
  have same : last.events = read := reads.events
  have room_ : read ≠ [] →
      (read.map encoding.stored).sum + encoding.stored event ≤ REPLAY_PAGE_BYTES := by
    rwa [reads.counts.storedBytes, same] at room
  refine ⟨bounded_of_reads reads short, ?_, oversized, fun large => ?_, room_⟩
  · rw [reads.split, List.length_append, List.length_cons] at short
    omega
  · by_contra some
    have fits := room_ some
    have budget := pageBytes_le
    omega

end ReplayScan

/-! ## What a page holds -/

/-- A window is empty or ends at an event. -/
def Ends (store : Store) (after through : Seq) : Prop :=
  through ≤ after ∨ ∃ event ∈ store.events, event.seq = through

/-- A page holds the first records of a window, and says how far it got. -/
structure Paged (encoding : Encoding) (records : List Event) (through : Seq) (page : ReplayPage)
    (read rest : List Event) : Prop where
  split : records = read ++ rest
  events : page.events = read
  bounded : Bounded encoding read
  through : page.through = through
  complete : rest = [] → page.progress = .complete
  more : rest ≠ [] → ∃ early last, read = early ++ [last] ∧ page.progress = .more last.seq

variable {encoding : Encoding} {store : Store} {position : ReplayPosition} {after through : Seq}
  {page : ReplayPage}

/-- The last record read is the last of its window exactly if the window was read whole. -/
theorem Ends.reached {read early rest : List Event} {last : Event} (ends : store.Ends after through)
    (ordered : Ordered Event.seq store.events) (opened : after < through)
    (parts : window Event.seq after through store.events = read ++ rest)
    (ended : read = early ++ [last]) : through ≤ last.seq ↔ rest = [] := by
  have sorted : Ordered Event.seq (read ++ rest) := parts ▸ ordered.of_window after through
  have inside : last ∈ read := by rw [ended]; simp
  constructor
  · intro reached
    refine List.eq_nil_iff_forall_not_mem.mpr fun event mem => ?_
    have later : last.seq < event.seq := (ordered_append.mp sorted).2.2 last inside event mem
    have held : event ∈ window Event.seq after through store.events := by
      rw [parts]
      exact List.mem_append_right _ mem
    have within : event.seq ≤ through := (mem_window.mp held).2.2
    exact Nat.lt_irrefl _ (Nat.lt_of_lt_of_le later (Nat.le_trans within reached))
  · rintro rfl
    obtain ⟨final, mem, rfl⟩ := ends.resolve_left (Nat.not_le.mpr opened)
    have held : final ∈ window Event.seq after final.seq store.events :=
      mem_window.mpr ⟨mem, opened, Nat.le_refl _⟩
    rw [List.append_nil] at parts sorted
    have below : final.seq ≤ lastPosition Event.seq read := sorted.le_last (parts ▸ held)
    rwa [ended, lastPosition_concat] at below

theorem replayPage_ok (ordered : Ordered Event.seq store.events)
    (bounds : store.replayBounds position = .ok (after, through))
    (ends : store.Ends after through) (scanned : store.replayPage encoding position = .ok page) :
    ∃ read rest, Paged encoding (window Event.seq after through store.events) through page
      read rest := by
  simp only [replayPage, bounds, ok_bind] at scanned
  split at scanned
  next closed =>
    cases scanned
    refine ⟨[], [], window_eq_nil closed, rfl, ⟨Nat.zero_le _, .inl (Nat.zero_le _),
      .inl (Nat.zero_le _), by simp⟩, rfl, fun _ => rfl, absurd rfl⟩
  next opened =>
    obtain ⟨scan, passes, same⟩ := bind_eq_ok.mp scanned
    cases same
    obtain ⟨read, left, reads, progress⟩ := ReplayScan.walk_ok ReplayScan.counts_start passes
    have events : scan.events = read := reads.events
    have bounded : Bounded encoding read :=
      ReplayScan.bounded_of_reads reads (List.length_take_le ..)
    have parts : window Event.seq after through store.events =
        read ++ (left ++ (window Event.seq after through store.events).drop REPLAY_SCAN_LIMIT) := by
      rw [← List.append_assoc, ← reads.split, List.take_append_drop]
    have some : read ≠ [] := by
      rw [← events]
      refine progress fun none => ?_
      obtain ⟨final, mem, rfl⟩ := ends.resolve_left opened
      have held : final ∈ window Event.seq after final.seq store.events :=
        mem_window.mpr ⟨mem, Nat.not_le.mp opened, Nat.le_refl _⟩
      rcases List.take_eq_nil_iff.mp none with zero | empty
      · cases zero
      · rw [empty] at held
        cases held
    obtain ⟨early, last, rfl⟩ := List.eq_nil_or_concat' read |>.resolve_left some
    have at_ : scan.after = last.seq := by
      rw [reads.after, List.getLast?_concat]
      rfl
    have reached := ends.reached ordered (Nat.not_le.mp opened) parts rfl
    refine ⟨early ++ [last], _, parts, events, bounded, rfl, ?_, ?_⟩
    · intro whole
      rw [at_, if_pos (reached.mpr whole)]
    · intro more
      rw [at_, if_neg (fun done => more (reached.mp done))]
      exact ⟨early, last, rfl, rfl⟩

theorem replayPage_error {error : StoreError}
    (bounds : store.replayBounds position = .ok (after, through))
    (scanned : store.replayPage encoding position = .error error) :
    ∃ read event rest, window Event.seq after through store.events = read ++ event :: rest ∧
      Fails encoding read event ∧ error = .replay (exceeds event) := by
  simp only [replayPage, bounds, ok_bind] at scanned
  split at scanned
  · cases scanned
  next opened =>
    rcases passed : ReplayScan.walk encoding ⟨[], 0, 0, after⟩
        ((window Event.seq after through store.events).take REPLAY_SCAN_LIMIT) with failed | scan
    · rw [passed] at scanned
      cases scanned
      obtain ⟨last, read, event, rest, reads, room, oversized, same⟩ :=
        ReplayScan.walk_error ReplayScan.counts_start passed
      refine ⟨read, event,
        rest ++ (window Event.seq after through store.events).drop REPLAY_SCAN_LIMIT, ?_,
        ReplayScan.fails_of_reads reads (List.length_take_le ..) room oversized, same⟩
      rw [← List.cons_append, ← List.append_assoc, ← reads.split, List.take_append_drop]
    · rw [passed, ok_bind] at scanned
      cases scanned

end Store

end Nits.ReviewCore
