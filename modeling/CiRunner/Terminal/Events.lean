import CiRunner.Json
import CiRunner.Terminal.Session

/-! The events of a terminal's stream. Each read that finds output sends it as one
JSON string, so the text arrives unchanged where every read finds whole characters;
a read between the bytes of a character sends it as two that are none. -/

namespace CiRunner.Terminal

open Utf8

/-- An event of the stream: the position after it, and a JSON string. -/
structure TerminalEvent where
  id : Nat
  data : List Char
  deriving DecidableEq, Repr

def writeTerminalEvent (data : Bytes) (offset : Nat) : TerminalEvent := ⟨offset, Json.marshal data⟩

/-- The output that a read of the client finds, if it is answered with any. -/
def System.finds (s : System) (i : Nat) : Option (Bytes × Nat) :=
  match s.clients[i]? with
  | none => none
  | some c => match s.session.outputAfter c.cursor with
    | ((data, offset, true), _) => if data = [] then none else some (data, offset)
    | _ => none

/-- What is written to the stream of client `i`. -/
def System.writes (s : System) (i : Nat) : Event → List (Bytes × Nat)
  | .read j => if j = i then (s.finds i).toList else []
  | _ => []

/-- All that is written to the stream of client `i` as the events happen. -/
def System.written (s : System) (i : Nat) : List Event → List (Bytes × Nat)
  | [] => []
  | e :: events => s.writes i e ++ (s.step e).written i events

/-- The events on the stream of client `i`. -/
def emitted (i : Nat) (events : List Event) : List TerminalEvent :=
  (System.written {} i events).map fun p => writeTerminalEvent p.1 p.2

/-- Every read of client `i` finds output that ends with a whole character. -/
def System.ReadsWhole (s : System) (i : Nat) : List Event → Prop
  | [] => True
  | e :: events => (e = .read i → Valid s.output) ∧ (s.step e).ReadsWhole i events

theorem System.written_append (s : System) (i : Nat) (events events' : List Event) :
    s.written i (events ++ events') = s.written i events ++ (s.run events).written i events' := by
  induction events generalizing s with
  | nil => rfl
  | cons e events ih =>
    simp only [List.cons_append, written, ih, List.append_assoc]
    rfl

theorem System.readsWhole_append (s : System) (i : Nat) (events events' : List Event) :
    s.ReadsWhole i (events ++ events') ↔
      s.ReadsWhole i events ∧ (s.run events).ReadsWhole i events' := by
  induction events generalizing s with
  | nil => simp [ReadsWhole, run]
  | cons e events ih =>
    simp only [List.cons_append, ReadsWhole, ih, and_assoc]
    rfl

/-! ### What a client has got -/

/-- What was written to the stream of a client makes up what it has got, in whole characters where
its stream goes back to the beginning. -/
structure Client.Streams (c : Client) (pieces : List Bytes) : Prop where
  unread : c.start = none → pieces = []
  received : pieces.flatten = c.received
  whole : c.start = some 0 → ∀ p ∈ pieces, Valid p

theorem Client.Streams.valid {c : Client} {pieces : List Bytes} (h : c.Streams pieces)
    (hstart : c.start = some 0) : Valid c.received := by
  rw [← h.received]
  exact valid_flatten (h.whole hstart)

/-- A read that is answered goes on from what the client has. -/
theorem Client.Streams.after {c : Client} {pieces : List Bytes} {s s' : Session} {output data : Bytes}
    {offset : Nat} (h : c.Streams pieces) (hgap : c.Gapless output) (hs : s.Retains output)
    (hwhole : Valid output) (ho : s.outputAfter c.cursor = ((data, offset, true), s')) :
    (c.after data offset).Streams (pieces ++ if data = [] then [] else [data]) := by
  obtain ⟨-, first, -, hfirst, hreceived⟩ := hgap.read hs ho
  have hdata : (if data = [] then [] else [data]).flatten = data := by
    split
    · rename_i h
      exact h.symm
    · exact List.append_nil data
  refine ⟨fun hnone => ?_, ?_, fun hstart p hp => ?_⟩
  · rw [hfirst] at hnone
    cases hnone
  · rw [List.flatten_append, hdata, h.received]
    rfl
  · have hzero : first = 0 := Option.some.inj (hfirst.symm.trans hstart)
    have hall : c.received ++ data = output := by rw [hzero] at hreceived; exact hreceived
    have hbefore : Valid c.received := by
      rcases hc : c.start with _ | f
      · rw [← h.received, h.unread hc]
        exact ⟨[], rfl⟩
      · refine h.valid ?_
        simp only [Client.after, hc, Option.getD_some] at hstart
        exact hc.trans hstart
    rcases List.mem_append.mp hp with hp | hp
    · rcases hc : c.start with _ | f
      · rw [h.unread hc] at hp
        cases hp
      · simp only [Client.after, hc, Option.getD_some] at hstart
        exact h.whole (hc.trans hstart) p hp
    · split at hp
      · cases hp
      · rw [List.mem_singleton.mp hp]
        exact hbefore.of_append (hall ▸ hwhole)

/-! ### Runs -/

/-- What was written to the stream of client `i`, which may not be there yet. -/
structure System.Streaming (s : System) (i : Nat) (pieces : List Bytes) : Prop where
  absent : s.clients[i]? = none → pieces = []
  present : ∀ c, s.clients[i]? = some c → c.Streams pieces

variable {s : System} {i : Nat} {pieces : List Bytes}

theorem System.Streaming.congr {s' : System} (h : s.Streaming i pieces)
    (hc : s'.clients[i]? = s.clients[i]?) : s'.Streaming i pieces :=
  ⟨fun h' => h.absent (hc ▸ h'), fun c h' => h.present c (hc ▸ h')⟩

theorem System.Streaming.connect (h : s.Streaming i pieces) (cursor : Option Nat) :
    (s.step (.connect cursor)).Streaming i pieces := by
  have hclients : (s.step (.connect cursor)).clients =
      s.clients ++ [⟨s.clients.length, cursor, none, []⟩] := rfl
  by_cases hi : i < s.clients.length
  · exact h.congr (by rw [hclients, List.getElem?_append_left hi])
  · have hnone := h.absent (List.getElem?_eq_none (Nat.not_lt.mp hi))
    refine ⟨fun _ => hnone, fun c hc => ?_⟩
    rw [hclients, List.getElem?_append_right (Nat.not_lt.mp hi)] at hc
    have hnew : c = ⟨s.clients.length, cursor, none, []⟩ := by
      rcases hn : i - s.clients.length with _ | n
      · rw [hn] at hc
        exact (Option.some.inj hc).symm
      · rw [hn] at hc
        cases hc
    rw [hnew, hnone]
    exact ⟨fun _ => rfl, rfl, fun _ p hp => by cases hp⟩

theorem System.Streaming.read_self (hs : s.Inv) (h : s.Streaming i pieces) (hwhole : Valid s.output) :
    (s.step (.read i)).Streaming i (pieces ++ (s.finds i).toList.map Prod.fst) := by
  rcases hc : s.clients[i]? with _ | c
  · simp only [System.step, System.finds, hc, Option.toList_none, List.map_nil, List.append_nil]
    exact h
  · have hlt : i < s.clients.length := (List.getElem?_eq_some_iff.mp hc).1
    rcases ho : s.session.outputAfter c.cursor with ⟨⟨data, offset, answered⟩, session⟩
    cases answered with
    | false =>
      simp only [System.step, System.finds, System.read, hc, ho, Option.toList_none, List.map_nil,
        List.append_nil]
      exact h.congr rfl
    | true =>
      have hafter := (h.present c hc).after (hs.clients c (List.mem_of_getElem? hc)) hs.session
        hwhole ho
      have hpieces : (if data = [] then none else some (data, offset)).toList.map Prod.fst =
          if data = [] then [] else [data] := by
        split <;> rfl
      simp only [System.step, System.finds, System.read, hc, ho, hpieces]
      refine ⟨fun hnone => ?_, fun c' hc' => ?_⟩
      · simp [hlt] at hnone
      · rw [List.getElem?_set_self hlt] at hc'
        cases hc'
        exact hafter

theorem System.Streaming.step (hs : s.Inv) (h : s.Streaming i pieces) (e : Event)
    (hwhole : e = .read i → Valid s.output) :
    (s.step e).Streaming i (pieces ++ (s.writes i e).map Prod.fst) := by
  have hsame {s' : System} (hc : s'.clients = s.clients) : s'.Streaming i (pieces ++ []) := by
    rw [List.append_nil]
    exact h.congr (by rw [hc])
  cases e with
  | append | receive | disconnect | close | closeIfIdle => exact hsame rfl
  | connect cursor =>
    have hconnect := h.connect cursor
    rw [← List.append_nil pieces] at hconnect
    exact hconnect
  | read j =>
    by_cases hij : j = i
    · subst hij
      simp only [System.writes, if_true]
      exact h.read_self hs (hwhole rfl)
    · simp only [System.writes, if_neg hij, List.map_nil, List.append_nil]
      refine h.congr ?_
      simp only [System.step]
      split
      · rfl
      · unfold System.read
        split
        · exact List.getElem?_set_ne hij
        · rfl

theorem streaming_run (i : Nat) (events : List Event) (h : System.ReadsWhole {} i events) :
    (System.run {} events).Streaming i ((System.written {} i events).map Prod.fst) := by
  induction events using List.reverseRecOn with
  | nil => exact ⟨fun _ => rfl, nofun⟩
  | append_singleton events e ih =>
    obtain ⟨hevents, he, -⟩ := (System.readsWhole_append {} i events [e]).mp h
    have hrun : System.run {} (events ++ [e]) = (System.run {} events).step e := List.foldl_append
    have hstep := (ih hevents).step (System.inv_run events) e he
    rw [hrun, System.written_append, List.map_append]
    simp only [System.written, List.append_nil]
    exact hstep

/-- The strings of the events on a stream that goes from the beginning of the output to its end
make up the text of the output, if every read finds whole characters. -/
theorem terminal_text_unchanged (events : List Event) (i : Nat) (c : Client) (text : List Char)
    (htext : (System.run {} events).output = encode text)
    (hwhole : System.ReadsWhole {} i events)
    (hclient : (System.run {} events).clients[i]? = some c) (hstart : c.start = some 0)
    (hend : c.cursor = some (System.run {} events).output.length) :
    ∃ strings : List (List Char),
      (emitted i events).map (fun e => Json.unmarshal e.data) = strings.map some ∧
      strings.flatten = text := by
  have hstreams := (streaming_run i events hwhole).present c hclient
  have hreceived : c.received = (System.run {} events).output := by
    have hgap := (System.inv_run events).clients c (List.mem_of_getElem? hclient)
    obtain ⟨last, hcursor, -, -, hreceived⟩ := hgap.2 0 hstart
    have hlast : last = (System.run {} events).output.length :=
      Option.some.inj (hcursor.symm.trans hend)
    rw [hreceived, hlast, List.drop_zero, Nat.sub_zero, List.take_length]
  refine ⟨((System.written {} i events).map Prod.fst).map decode, ?_, ?_⟩
  · simp [emitted, writeTerminalEvent, Json.unmarshal_marshal, Function.comp_def]
  · rw [← List.flatMap_def, ← decode_flatten (hstreams.whole hstart), hstreams.received, hreceived,
      htext, decode_encode]

/-- Two characters of two bytes each, in three appends and two reads. -/
theorem terminal_text_unchanged_whole :
    ∃ strings : List (List Char),
      (emitted 0 [.append [0xC3, 0xA9], .connect none, .read 0, .append [0xC3], .append [0xB6],
        .read 0]).map (fun e => Json.unmarshal e.data) = strings.map some ∧
      strings.flatten = ['é', 'ö'] := by
  refine terminal_text_unchanged _ 0 ⟨0, some 4, some 0, [0xC3, 0xA9, 0xC3, 0xB6]⟩ ['é', 'ö']
    (by decide +kernel) ?_ (by decide) rfl (by decide)
  have hone : Valid [0xC3, 0xA9] := ⟨['é'], by decide +kernel⟩
  have htwo : Valid [0xC3, 0xA9, 0xC3, 0xB6] := ⟨['é', 'ö'], by decide +kernel⟩
  exact ⟨nofun, nofun, fun _ => hone, nofun, nofun, fun _ => htwo, trivial⟩

/-- A read between the two bytes of a character sends two replacement characters. -/
theorem terminal_text_changed :
    (System.run {} [.append [0xC3], .connect none, .read 0, .append [0xA9], .read 0]).output =
      encode ['é'] ∧
    (System.run {} [.append [0xC3], .connect none, .read 0, .append [0xA9], .read 0]).clients =
      [⟨0, some 2, some 0, [0xC3, 0xA9]⟩] ∧
    (emitted 0 [.append [0xC3], .connect none, .read 0, .append [0xA9], .read 0]).map
      (fun e => Json.unmarshal e.data) = [some [replacement], some [replacement]] := by
  decide +kernel

end CiRunner.Terminal
