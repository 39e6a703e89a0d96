import Mathlib.Data.List.Basic

/-! The output of a terminal as its clients see it. A session keeps a tail of the
output and how much there has been; a client asks for the output after the position
that it has reached, and is refused where the tail does not go back so far. The
positions are counted without a bound. -/

namespace CiRunner.Terminal

abbrev Bytes := List UInt8

/-! ### Sessions -/

/-- A channel that wakes a client, with what is in it. -/
structure Watcher where
  channel : Nat
  queue : List Bytes := []

def channelSize : Nat := 32

/-- A channel that is full is left as it is. -/
def Watcher.offer (data : Bytes) (w : Watcher) : Watcher :=
  if w.queue.length < channelSize then { w with queue := w.queue ++ [data] } else w

structure Session where
  buffer : Bytes := []
  /-- All output, with what is no longer in the buffer. -/
  offset : Nat := 0
  /-- The position at the first subscription without a cursor. -/
  replayStart : Option Nat := none
  watchers : List Watcher := []
  closed : Bool := false

def maxBuffer : Nat := 64 * 1024

namespace Session

def append (s : Session) (data : Bytes) : Session :=
  if data = [] then s
  else
    let buffer := s.buffer ++ data
    { s with
      offset := s.offset + data.length
      buffer :=
        if maxBuffer * 2 < buffer.length then buffer.drop (buffer.length - maxBuffer) else buffer
      watchers := s.watchers.map (Watcher.offer data) }

def bufferStart (s : Session) : Nat := s.offset - s.buffer.length

/-- The baseline for clients without a cursor is set once. -/
def withReplayStart (s : Session) : Session :=
  { s with replayStart := some (s.replayStart.getD s.bufferStart) }

/-- The buffer, for a new channel. -/
def subscribe (s : Session) (channel : Nat) : Bytes × Session :=
  let s := s.withReplayStart
  (s.buffer, if s.closed then s else { s with watchers := ⟨channel, []⟩ :: s.watchers })

def cancel (s : Session) (channel : Nat) : Session :=
  { s with watchers := s.watchers.filter fun w => w.channel ≠ channel }

/-- The output after a cursor, the position that it goes to, and whether there is an answer. -/
def outputAfter (s : Session) (after : Option Nat) : (Bytes × Nat × Bool) × Session :=
  if s.closed then (([], s.offset, false), s)
  else
    let s := if after = none then s.withReplayStart else s
    let start := after.getD (s.replayStart.getD 0)
    if start < s.bufferStart ∨ s.offset < start then (([], s.offset, false), s)
    else ((s.buffer.drop (start - s.bufferStart), s.offset, true), s)

def closeWatchers (s : Session) : Session :=
  if s.closed then s else { s with closed := true, watchers := [] }

def closeIfIdle (s : Session) : Session :=
  if s.closed ∨ s.watchers ≠ [] then s else { s with closed := true }

/-- The writer of a channel's client takes what woke it. -/
def receive (s : Session) (channel : Nat) : Session :=
  { s with watchers := s.watchers.map fun w =>
      if w.channel = channel then { w with queue := w.queue.tail } else w }

end Session

/-! ### Clients -/

/-- The stream of one client: the cursor of its next read, and what it has got so far, from which
position on. -/
structure Client where
  channel : Nat
  cursor : Option Nat
  start : Option Nat := none
  received : Bytes := []
  deriving DecidableEq, Repr

def Client.after (c : Client) (data : Bytes) (offset : Nat) : Client :=
  { c with
    cursor := some offset
    start := some (c.start.getD (offset - data.length))
    received := c.received ++ data }

/-- A session with its clients and all that was appended to it. -/
structure System where
  session : Session := {}
  output : Bytes := []
  clients : List Client := []

inductive Event where
  | append (data : Bytes)
  /-- A client connects, without a cursor or with the one that it has from an earlier stream. -/
  | connect (cursor : Option Nat)
  | receive (i : Nat)
  | read (i : Nat)
  | disconnect (i : Nat)
  | close
  | closeIfIdle

/-- A read goes on from the cursor; one that is refused leaves the client as it is. -/
def System.read (s : System) (i : Nat) (c : Client) : System :=
  match s.session.outputAfter c.cursor with
  | ((data, offset, true), session) =>
    { s with session := session, clients := s.clients.set i (c.after data offset) }
  | (_, session) => { s with session := session }

def System.step (s : System) : Event → System
  | .append data => { s with session := s.session.append data, output := s.output ++ data }
  | .connect cursor =>
    { s with
      session := (s.session.subscribe s.clients.length).2
      clients := s.clients ++ [⟨s.clients.length, cursor, none, []⟩] }
  | .receive i => { s with session := s.session.receive i }
  | .read i => match s.clients[i]? with
    | none => s
    | some c => s.read i c
  | .disconnect i => { s with session := s.session.cancel i }
  | .close => { s with session := s.session.closeWatchers }
  | .closeIfIdle => { s with session := s.session.closeIfIdle }

/-- The system after a sequence of events. -/
def System.run (s : System) (events : List Event) : System := events.foldl System.step s

/-! ### The buffer -/

/-- The buffer is a tail of the output. -/
structure Session.Retains (s : Session) (output : Bytes) : Prop where
  offset : s.offset = output.length
  tail : s.buffer <:+ output
  bound : s.buffer.length ≤ maxBuffer * 2

variable {s s' : Session} {output : Bytes}

theorem Session.Retains.congr (h : s.Retains output) (hb : s'.buffer = s.buffer)
    (ho : s'.offset = s.offset) : s'.Retains output :=
  ⟨ho.trans h.offset, hb ▸ h.tail, hb ▸ h.bound⟩

theorem Session.Retains.append (h : s.Retains output) (data : Bytes) :
    (s.append data).Retains (output ++ data) := by
  unfold Session.append
  split
  · rename_i hdata
    rw [hdata, List.append_nil]
    exact h
  · obtain ⟨older, holder⟩ := h.tail
    have htail : s.buffer ++ data <:+ output ++ data := ⟨older, by rw [← holder, List.append_assoc]⟩
    refine ⟨?_, ?_, ?_⟩
    · rw [List.length_append, ← h.offset]
    · dsimp only
      split
      · exact (List.drop_suffix ..).trans htail
      · exact htail
    · dsimp only
      split
      · rw [List.length_drop]
        omega
      · omega

theorem Session.Retains.buffer_eq (h : s.Retains output) :
    s.buffer = output.drop s.bufferStart := by
  obtain ⟨older, holder⟩ := h.tail
  have hlength := congrArg List.length holder
  rw [List.length_append] at hlength
  have hstart : s.bufferStart = older.length := by
    rw [Session.bufferStart, h.offset]
    omega
  rw [hstart, ← holder, List.drop_left]

theorem Session.outputAfter_frame (s : Session) (after : Option Nat) :
    (s.outputAfter after).2.buffer = s.buffer ∧ (s.outputAfter after).2.offset = s.offset := by
  unfold outputAfter
  split
  · exact ⟨rfl, rfl⟩
  · dsimp only
    split <;> split <;> exact ⟨rfl, rfl⟩

theorem Session.subscribe_frame (s : Session) (channel : Nat) :
    (s.subscribe channel).2.buffer = s.buffer ∧ (s.subscribe channel).2.offset = s.offset := by
  simp only [subscribe]
  split <;> exact ⟨rfl, rfl⟩

theorem Session.closeWatchers_frame (s : Session) :
    s.closeWatchers.buffer = s.buffer ∧ s.closeWatchers.offset = s.offset := by
  unfold closeWatchers
  split <;> exact ⟨rfl, rfl⟩

theorem Session.closeIfIdle_frame (s : Session) :
    s.closeIfIdle.buffer = s.buffer ∧ s.closeIfIdle.offset = s.offset := by
  unfold closeIfIdle
  split <;> exact ⟨rfl, rfl⟩

/-- An answer is all there is after a position, which is the cursor if there is one. -/
theorem Session.Retains.outputAfter (h : s.Retains output) {after : Option Nat} {data : Bytes}
    {offset : Nat} (ho : s.outputAfter after = ((data, offset, true), s')) :
    offset = output.length ∧ ∃ start ≤ output.length, after.getD start = start ∧
      data = output.drop start := by
  unfold Session.outputAfter at ho
  split at ho
  · cases ho
  · generalize hs : (if after = none then s.withReplayStart else s) = t at ho
    have ht : t.Retains output := by
      rw [← hs]
      split
      · exact h.congr rfl rfl
      · exact h
    dsimp only at ho
    split at ho
    · cases ho
    · rename_i hrange
      cases ho
      rw [not_or, Nat.not_lt, Nat.not_lt] at hrange
      refine ⟨ht.offset, after.getD (s'.replayStart.getD 0), ht.offset ▸ hrange.2, ?_, ?_⟩
      · cases after <;> rfl
      · rw [ht.buffer_eq, List.drop_drop, Nat.add_sub_cancel' hrange.1]

/-! ### Streams -/

/-- What the client has got is the output from its first position to its cursor. -/
def Client.Gapless (c : Client) (output : Bytes) : Prop :=
  (c.start = none → c.received = []) ∧ ∀ first, c.start = some first →
    ∃ last, c.cursor = some last ∧ first ≤ last ∧ last ≤ output.length ∧
      c.received = (output.drop first).take (last - first)

theorem Client.Gapless.append {c : Client} (h : c.Gapless output) (data : Bytes) :
    c.Gapless (output ++ data) := by
  refine ⟨h.1, fun first hfirst => ?_⟩
  obtain ⟨last, hcursor, hle, hlast, hreceived⟩ := h.2 first hfirst
  refine ⟨last, hcursor, hle, ?_, ?_⟩
  · rw [List.length_append]
    omega
  · rw [List.drop_append_of_le_length (Nat.le_trans hle hlast), List.take_append_of_le_length, hreceived]
    rw [List.length_drop]
    omega

/-- A read takes the client to the end of the output. -/
theorem Client.Gapless.read {c : Client} (h : c.Gapless output) (hs : s.Retains output)
    {data : Bytes} {offset : Nat} (ho : s.outputAfter c.cursor = ((data, offset, true), s')) :
    offset = output.length ∧ ∃ first ≤ output.length, (c.after data offset).start = some first ∧
      (c.after data offset).received = output.drop first := by
  obtain ⟨rfl, start, hstart, hafter, rfl⟩ := hs.outputAfter ho
  refine ⟨rfl, ?_⟩
  rcases hc : c.start with _ | first
  · refine ⟨start, hstart, ?_, ?_⟩
    · simp only [Client.after, hc, Option.getD_none, List.length_drop]
      rw [Nat.sub_sub_self hstart]
    · simp only [Client.after, h.1 hc, List.nil_append]
  · obtain ⟨last, hcursor, hle, hlast, hreceived⟩ := h.2 first hc
    rw [hcursor, Option.getD_some] at hafter
    subst hafter
    refine ⟨first, Nat.le_trans hle hlast, ?_, ?_⟩
    · simp only [Client.after, hc, Option.getD_some]
    · simp only [Client.after, hreceived]
      have hdrop : output.drop last = (output.drop first).drop (last - first) := by
        rw [List.drop_drop, Nat.add_sub_cancel' hle]
      rw [hdrop, List.take_append_drop]

theorem Client.Gapless.after {c : Client} (h : c.Gapless output) (hs : s.Retains output)
    {data : Bytes} {offset : Nat} (ho : s.outputAfter c.cursor = ((data, offset, true), s')) :
    (c.after data offset).Gapless output := by
  obtain ⟨rfl, first, hfirst, hstart, hreceived⟩ := h.read hs ho
  refine ⟨fun hnone => ?_, fun first' hfirst' => ?_⟩
  · rw [hstart] at hnone
    cases hnone
  · rw [hstart] at hfirst'
    cases hfirst'
    refine ⟨output.length, rfl, hfirst, Nat.le_refl _, ?_⟩
    rw [hreceived, List.take_of_length_le]
    exact Nat.le_of_eq List.length_drop

/-! ### Runs -/

structure System.Inv (s : System) : Prop where
  session : s.session.Retains s.output
  clients : ∀ c ∈ s.clients, c.Gapless s.output

theorem System.Inv.read {s : System} (h : s.Inv) {i : Nat} {c : Client}
    (hc : s.clients[i]? = some c) : (s.read i c).Inv := by
  have hframe := s.session.outputAfter_frame c.cursor
  unfold System.read
  split
  · rename_i data offset session ho
    rw [ho] at hframe
    refine ⟨h.session.congr hframe.1 hframe.2, fun c' hc' => ?_⟩
    rcases List.mem_or_eq_of_mem_set hc' with hc' | rfl
    · exact h.clients c' hc'
    · exact (h.clients c (List.mem_of_getElem? hc)).after h.session ho
  · rename_i session ho
    rw [ho] at hframe
    exact ⟨h.session.congr hframe.1 hframe.2, h.clients⟩

theorem System.Inv.step {s : System} (h : s.Inv) (e : Event) : (s.step e).Inv := by
  have hkeeps {session : Session} (hframe : session.buffer = s.session.buffer ∧
      session.offset = s.session.offset) : Inv { s with session := session } :=
    ⟨h.session.congr hframe.1 hframe.2, h.clients⟩
  cases e with
  | append data => exact ⟨h.session.append data, fun c hc => (h.clients c hc).append data⟩
  | connect cursor =>
    obtain ⟨hsession, -⟩ := hkeeps (s.session.subscribe_frame s.clients.length)
    refine ⟨hsession, fun c hc => ?_⟩
    rcases List.mem_append.mp hc with hc | hc
    · exact h.clients c hc
    · rw [List.mem_singleton.mp hc]
      exact ⟨fun _ => rfl, nofun⟩
  | receive i => exact hkeeps ⟨rfl, rfl⟩
  | read i =>
    simp only [System.step]
    split
    · exact h
    · exact h.read ‹_›
  | disconnect i => exact hkeeps ⟨rfl, rfl⟩
  | close => exact hkeeps s.session.closeWatchers_frame
  | closeIfIdle => exact hkeeps s.session.closeIfIdle_frame

theorem System.inv_run (events : List Event) : (System.run {} events).Inv := by
  suffices h : ∀ s : System, s.Inv → (s.run events).Inv from
    h {} ⟨⟨rfl, List.suffix_refl _, Nat.zero_le _⟩, nofun⟩
  induction events with
  | nil => exact fun _ h => h
  | cons e events ih => exact fun s h => ih _ (h.step e)

end CiRunner.Terminal
