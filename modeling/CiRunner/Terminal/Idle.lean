import CiRunner.Terminal.Session

/-! The closing of terminals that nobody watches. A stream that leaves arms a timer, which fires at
some later time and closes the session unless it was watched in between. Timers are never stopped,
and sessions are also closed on request. The steps are those under the locks of the source. -/

namespace CiRunner.Terminal

/-! ### Sessions of a hub -/

/-- What is left to do for one who has taken a session out of the hub. -/
inductive Closing where
  | watchers
  | terminal
  deriving DecidableEq, Repr

structure HubSession where
  session : Session := {}
  idleSince : Nat
  inHub : Bool := true
  /-- Those who have taken the session and are about to close it. -/
  closing : List Closing := []
  /-- How often the terminal was closed. -/
  terminalCloses : Nat := 0

namespace HubSession

def append (s : HubSession) (data : Bytes) : HubSession :=
  { s with session := s.session.append data }

def subscribe (s : HubSession) (channel : Nat) : HubSession :=
  { s with session := (s.session.subscribe channel).2 }

/-- The last watcher that leaves notes the time. -/
def cancel (s : HubSession) (channel now : Nat) : HubSession :=
  if channel ∈ s.session.watchers.map Watcher.channel then
    { s with
      session := s.session.cancel channel
      idleSince := if (s.session.cancel channel).watchers.isEmpty then now else s.idleSince }
  else s

def closeSessionIfIdle (s : HubSession) (idleBefore : Nat) : HubSession :=
  if s.inHub = false then s
  else if s.session.closed ∨ ¬ s.session.watchers.isEmpty ∨ idleBefore < s.idleSince then s
  else
    { s with
      inHub := false
      session := { s.session with closed := true }
      closing := s.closing ++ [.terminal] }

/-- A request to close takes the session out of the hub, if it is there. -/
def take (s : HubSession) : HubSession :=
  if s.inHub then { s with inHub := false, closing := s.closing ++ [.watchers] } else s

/-- The next step of one who has taken the session. -/
def proceed (s : HubSession) (k : Nat) : HubSession :=
  match s.closing[k]? with
  | none => s
  | some .watchers =>
    { s with session := s.session.closeWatchers, closing := s.closing.set k .terminal }
  | some .terminal =>
    { s with closing := s.closing.eraseIdx k, terminalCloses := s.terminalCloses + 1 }

end HubSession

/-! ### The hub -/

inductive Stage where
  | watching
  | leaving
  | gone
  deriving DecidableEq, Repr

/-- A client of a session; its channel is its number. -/
structure Stream where
  session : Nat
  stage : Stage := .watching
  deriving DecidableEq, Repr

structure Timer where
  session : Nat
  idleBefore : Nat
  fired : Bool := false
  deriving DecidableEq, Repr

structure Hub where
  sessions : List HubSession := []
  streams : List Stream := []
  timers : List Timer := []
  /-- The last time that was read. -/
  clock : Nat := 0

inductive HubEvent where
  | add (now : Nat)
  | append (id : Nat) (data : Bytes)
  | subscribe (id : Nat)
  /-- A stream ends: it cancels its subscription and then arms a timer. -/
  | cancel (stream now : Nat)
  | armStream (stream now : Nat)
  /-- A timer that is armed for a new session. -/
  | arm (id now : Nat)
  | fire (timer : Nat)
  | take (id : Nat)
  | takeAll
  | proceed (id k : Nat)
  deriving DecidableEq

namespace Hub

def armTimer (hub : Hub) (id now : Nat) : Hub :=
  { hub with timers := hub.timers ++ [⟨id, now, false⟩], clock := now }

/-- One step, with times that are read only later than the last one. -/
def step (hub : Hub) : HubEvent → Option Hub
  | .add now =>
    if hub.clock < now then
      some { hub with sessions := hub.sessions ++ [{ idleSince := now }], clock := now }
    else none
  | .append id data => some { hub with sessions := hub.sessions.modify id (·.append data) }
  | .subscribe id =>
    if id < hub.sessions.length then
      some { hub with
        sessions := hub.sessions.modify id (·.subscribe hub.streams.length)
        streams := hub.streams ++ [⟨id, .watching⟩] }
    else none
  | .cancel i now =>
    match hub.streams[i]? with
    | some ⟨id, .watching⟩ =>
      if hub.clock < now then
        some { hub with
          sessions := hub.sessions.modify id (·.cancel i now)
          streams := hub.streams.set i ⟨id, .leaving⟩
          clock := now }
      else none
    | _ => none
  | .armStream i now =>
    match hub.streams[i]? with
    | some ⟨id, .leaving⟩ =>
      if hub.clock < now then
        some ({ hub with streams := hub.streams.set i ⟨id, .gone⟩ }.armTimer id now)
      else none
    | _ => none
  | .arm id now =>
    if id < hub.sessions.length ∧ hub.clock < now then some (hub.armTimer id now) else none
  | .fire i =>
    match hub.timers[i]? with
    | some ⟨id, idleBefore, false⟩ =>
      some { hub with
        sessions := hub.sessions.modify id (·.closeSessionIfIdle idleBefore)
        timers := hub.timers.set i ⟨id, idleBefore, true⟩ }
    | _ => none
  | .take id => some { hub with sessions := hub.sessions.modify id HubSession.take }
  | .takeAll => some { hub with sessions := hub.sessions.map HubSession.take }
  | .proceed id k => some { hub with sessions := hub.sessions.modify id (·.proceed k) }

def run (hub : Hub) (events : List HubEvent) : Option Hub := events.foldlM step hub

theorem run_cons (hub : Hub) (e : HubEvent) (events : List HubEvent) :
    hub.run (e :: events) = (hub.step e).bind (·.run events) := rfl

theorem run_append (hub : Hub) (events events' : List HubEvent) :
    hub.run (events ++ events') = (hub.run events).bind (·.run events') :=
  List.foldlM_append

end Hub

/-! ### What a step does -/

/-- The steps of the hub, one for each event that can happen. -/
inductive Hub.Step (hub : Hub) : HubEvent → Hub → Prop
  | add {now : Nat} (hnow : hub.clock < now) : Step hub (.add now)
      { hub with sessions := hub.sessions ++ [{ idleSince := now }], clock := now }
  | append (id : Nat) (data : Bytes) : Step hub (.append id data)
      { hub with sessions := hub.sessions.modify id (·.append data) }
  | subscribe (id : Nat) : Step hub (.subscribe id)
      { hub with
        sessions := hub.sessions.modify id (·.subscribe hub.streams.length)
        streams := hub.streams ++ [⟨id, .watching⟩] }
  | cancel {i id now : Nat} (hstream : hub.streams[i]? = some ⟨id, .watching⟩)
      (hnow : hub.clock < now) : Step hub (.cancel i now)
      { hub with
        sessions := hub.sessions.modify id (·.cancel i now)
        streams := hub.streams.set i ⟨id, .leaving⟩
        clock := now }
  | armStream {i id now : Nat} (hstream : hub.streams[i]? = some ⟨id, .leaving⟩)
      (hnow : hub.clock < now) : Step hub (.armStream i now)
      ({ hub with streams := hub.streams.set i ⟨id, .gone⟩ }.armTimer id now)
  | arm {id now : Nat} (hnow : hub.clock < now) : Step hub (.arm id now) (hub.armTimer id now)
  | fire {i id idleBefore : Nat} (htimer : hub.timers[i]? = some ⟨id, idleBefore, false⟩) :
      Step hub (.fire i)
      { hub with
        sessions := hub.sessions.modify id (·.closeSessionIfIdle idleBefore)
        timers := hub.timers.set i ⟨id, idleBefore, true⟩ }
  | take (id : Nat) : Step hub (.take id)
      { hub with sessions := hub.sessions.modify id HubSession.take }
  | takeAll : Step hub .takeAll { hub with sessions := hub.sessions.map HubSession.take }
  | proceed (id k : Nat) : Step hub (.proceed id k)
      { hub with sessions := hub.sessions.modify id (·.proceed k) }

theorem Hub.step_cases {hub hub' : Hub} {e : HubEvent} (h : hub.step e = some hub') :
    hub.Step e hub' := by
  unfold Hub.step at h
  cases e with
  | append | take | takeAll | proceed =>
    cases h
    constructor
  | add | subscribe =>
    dsimp only at h
    split at h
    · cases h
      constructor <;> assumption
    · cases h
  | arm =>
    dsimp only at h
    split at h
    · rename_i hguard
      cases h
      exact .arm hguard.2
    · cases h
  | fire =>
    dsimp only at h
    split at h
    · cases h
      constructor
      assumption
    · cases h
  | cancel | armStream =>
    dsimp only at h
    split at h
    · split at h
      · cases h
        constructor <;> assumption
      · cases h
    · cases h

/-- The steps of a session other than a subscription, where times are read after the given one. -/
inductive Quiet (clock : Nat) : HubSession → HubSession → Prop
  | keep (s : HubSession) : Quiet clock s s
  | append (s : HubSession) (data : Bytes) : Quiet clock s (s.append data)
  | cancel (s : HubSession) (channel : Nat) {now : Nat} (hnow : clock < now) :
      Quiet clock s (s.cancel channel now)
  | idle (s : HubSession) (idleBefore : Nat) : Quiet clock s (s.closeSessionIfIdle idleBefore)
  | take (s : HubSession) : Quiet clock s s.take
  | proceed (s : HubSession) (k : Nat) : Quiet clock s (s.proceed k)

theorem modify_quiet {clock id : Nat} {sessions : List HubSession} {s : HubSession}
    (hs : sessions[id]? = some s) (j : Nat) {f : HubSession → HubSession}
    (hf : Quiet clock s (f s)) :
    ∃ s', (sessions.modify j f)[id]? = some s' ∧ Quiet clock s s' := by
  rw [List.getElem?_modify, hs]
  by_cases hj : j = id
  · exact ⟨f s, by simp [hj], hf⟩
  · exact ⟨s, by simp [hj], .keep s⟩

theorem step_session {hub hub' : Hub} {e : HubEvent} {id : Nat} {s : HubSession}
    (h : hub.step e = some hub') (hs : hub.sessions[id]? = some s) :
    ∃ s', hub'.sessions[id]? = some s' ∧
      ((∃ channel, e = .subscribe id ∧ s' = s.subscribe channel) ∨ Quiet hub.clock s s') := by
  have hquiet : ∀ {sessions : List HubSession},
      (∃ s', sessions[id]? = some s' ∧ Quiet hub.clock s s') →
      ∃ s', sessions[id]? = some s' ∧
        ((∃ channel, e = .subscribe id ∧ s' = s.subscribe channel) ∨ Quiet hub.clock s s') :=
    fun ⟨s', hs', hstep⟩ => ⟨s', hs', .inr hstep⟩
  cases Hub.step_cases h with
  | add =>
    refine hquiet ⟨s, ?_, .keep s⟩
    rw [List.getElem?_append_left (List.getElem?_eq_some_iff.mp hs).1, hs]
  | append j data => exact hquiet (modify_quiet hs j (.append s data))
  | subscribe j =>
    by_cases hj : j = id
    · subst hj
      exact ⟨s.subscribe hub.streams.length, by simp [hs], .inl ⟨_, rfl, rfl⟩⟩
    · exact ⟨s, by simp [hs, hj], .inr (.keep s)⟩
  | cancel _ hnow => exact hquiet (modify_quiet hs _ (.cancel s _ hnow))
  | armStream | arm => exact hquiet ⟨s, hs, .keep s⟩
  | fire => exact hquiet (modify_quiet hs _ (.idle s _))
  | take j => exact hquiet (modify_quiet hs j (.take s))
  | takeAll => exact hquiet ⟨s.take, by simp [hs], .take s⟩
  | proceed j k => exact hquiet (modify_quiet hs j (.proceed s k))

theorem clock_le_of_step {hub hub' : Hub} {e : HubEvent} (h : hub.step e = some hub') :
    hub.clock ≤ hub'.clock := by
  cases Hub.step_cases h with
  | add hnow | cancel _ hnow | armStream _ hnow | arm hnow => exact Nat.le_of_lt hnow
  | append | subscribe | fire | take | takeAll | proceed => exact Nat.le_refl _

/-! ### Watched since a time -/

namespace HubSession

/-- The session is closed, is watched or was watched after the given time. -/
def WatchedAfter (s : HubSession) (time : Nat) : Prop :=
  s.session.closed = true ∨ s.session.watchers ≠ [] ∨ time < s.idleSince

/-- The session is closed, or its last watcher left at the given time. -/
def IdleFrom (s : HubSession) (time : Nat) : Prop :=
  s.session.closed = true ∨ s.session.watchers = [] ∧ s.idleSince = time

/-- A session is closed by one who has taken it, and is either in the hub, or about to be closed by
one, or closed once. -/
structure Sound (s : HubSession) : Prop where
  inHub_not_closed : s.inHub = true → s.session.closed = false
  once : s.terminalCloses + s.closing.length + (if s.inHub then 1 else 0) = 1

theorem closed_append (s : Session) (data : Bytes) : (s.append data).closed = s.closed := by
  unfold Session.append
  split <;> rfl

theorem watchers_append (s : Session) (data : Bytes) :
    (s.append data).watchers = [] ↔ s.watchers = [] := by
  unfold Session.append
  split
  · rfl
  · exact List.map_eq_nil_iff

theorem WatchedAfter.subscribe {s : HubSession} {time : Nat} (channel : Nat) :
    (s.subscribe channel).WatchedAfter time := by
  unfold WatchedAfter HubSession.subscribe Session.subscribe Session.withReplayStart
  by_cases hclosed : s.session.closed = true
  · simp [hclosed]
  · simp [hclosed]

theorem closed_closeWatchers (s : Session) : s.closeWatchers.closed = true := by
  unfold Session.closeWatchers
  split
  · assumption
  · rfl

theorem session_closeSessionIfIdle (s : HubSession) (idleBefore : Nat) :
    s.closeSessionIfIdle idleBefore = s ∨
      (s.closeSessionIfIdle idleBefore).session.closed = true := by
  unfold closeSessionIfIdle
  split
  · exact .inl rfl
  · split
    · exact .inl rfl
    · exact .inr rfl

theorem session_take (s : HubSession) :
    s.take.session = s.session ∧ s.take.idleSince = s.idleSince := by
  unfold take
  split <;> exact ⟨rfl, rfl⟩

theorem session_proceed (s : HubSession) (k : Nat) :
    (s.proceed k).session.closed = true ∨
      (s.proceed k).session = s.session ∧ (s.proceed k).idleSince = s.idleSince := by
  unfold proceed
  split
  · exact .inr ⟨rfl, rfl⟩
  · exact .inl (closed_closeWatchers s.session)
  · exact .inr ⟨rfl, rfl⟩

theorem WatchedAfter.quiet {s s' : HubSession} {time clock : Nat} (h : s.WatchedAfter time)
    (hstep : Quiet clock s s') (htime : time ≤ clock) : s'.WatchedAfter time := by
  cases hstep with
  | keep => exact h
  | append data =>
    exact h.imp (closed_append s.session data).trans (Or.imp_left (mt (watchers_append ..).mp))
  | cancel channel hnow =>
    unfold cancel
    split
    · refine h.imp_right fun _ => ?_
      by_cases hempty : (s.session.cancel channel).watchers = []
      · simp only [hempty, List.isEmpty_nil, if_true]
        exact .inr (Nat.lt_of_le_of_lt htime hnow)
      · exact .inl hempty
    · exact h
  | idle idleBefore =>
    obtain heq | hclosed := session_closeSessionIfIdle s idleBefore
    · rw [heq]
      exact h
    · exact .inl hclosed
  | take =>
    unfold WatchedAfter
    rw [(session_take s).1, (session_take s).2]
    exact h
  | proceed k =>
    obtain hclosed | ⟨hsession, hidle⟩ := session_proceed s k
    · exact .inl hclosed
    · unfold WatchedAfter
      rw [hsession, hidle]
      exact h

theorem IdleFrom.quiet {s s' : HubSession} {time clock : Nat} (h : s.IdleFrom time)
    (hstep : Quiet clock s s') : s'.IdleFrom time := by
  cases hstep with
  | keep => exact h
  | append data =>
    exact h.imp (closed_append s.session data).trans (And.imp_left (watchers_append ..).mpr)
  | cancel channel hnow =>
    unfold cancel
    split
    · rename_i hmem
      refine h.imp_right fun hidle => ?_
      rw [hidle.1] at hmem
      cases hmem
    · exact h
  | idle idleBefore =>
    obtain heq | hclosed := session_closeSessionIfIdle s idleBefore
    · rw [heq]
      exact h
    · exact .inl hclosed
  | take =>
    unfold IdleFrom
    rw [(session_take s).1, (session_take s).2]
    exact h
  | proceed k =>
    obtain hclosed | ⟨hsession, hidle⟩ := session_proceed s k
    · exact .inl hclosed
    · unfold IdleFrom
      rw [hsession, hidle]
      exact h

theorem Sound.quiet {s s' : HubSession} {clock : Nat} (h : s.Sound) (hstep : Quiet clock s s') :
    s'.Sound := by
  have honce := h.once
  cases hstep with
  | keep => exact h
  | append data =>
    exact ⟨fun hin => (closed_append s.session data).trans (h.inHub_not_closed hin), h.once⟩
  | cancel channel hnow =>
    unfold cancel
    split
    · exact ⟨h.inHub_not_closed, h.once⟩
    · exact h
  | idle idleBefore =>
    unfold closeSessionIfIdle
    split
    · exact h
    · rename_i hin
      split
      · exact h
      · refine ⟨fun hin => (by cases hin), ?_⟩
        simp only [Bool.not_eq_false] at hin
        simp only [hin, if_true] at honce
        simp only [List.length_append, List.length_singleton, Bool.false_eq_true, if_false]
        omega
  | take =>
    unfold take
    split
    · rename_i hin
      refine ⟨fun hin => (by cases hin), ?_⟩
      simp only [hin, if_true] at honce
      simp only [List.length_append, List.length_singleton, Bool.false_eq_true, if_false]
      omega
    · exact h
  | proceed k =>
    unfold proceed
    split
    · exact h
    · rename_i hk
      have hlt := (List.getElem?_eq_some_iff.mp hk).1
      have hout : s.inHub = false := by
        by_contra hin
        simp only [Bool.not_eq_false] at hin
        simp only [hin, if_true] at honce
        omega
      exact ⟨fun hin => by simp [hout] at hin, by simpa using honce⟩
    · rename_i hk
      have hlt := (List.getElem?_eq_some_iff.mp hk).1
      refine ⟨h.inHub_not_closed, ?_⟩
      simp only [List.length_eraseIdx, hlt, if_true]
      omega

theorem Sound.subscribe {s : HubSession} (h : s.Sound) (channel : Nat) :
    (s.subscribe channel).Sound := by
  refine ⟨fun hin => ?_, h.once⟩
  have hclosed := h.inHub_not_closed hin
  unfold HubSession.subscribe Session.subscribe Session.withReplayStart
  simp [hclosed]

end HubSession

/-! ### Runs -/

theorem run_cons_eq_some {hub hub' : Hub} {e : HubEvent} {events : List HubEvent}
    (h : hub.run (e :: events) = some hub') :
    ∃ next, hub.step e = some next ∧ next.run events = some hub' := by
  rw [Hub.run_cons] at h
  exact Option.bind_eq_some_iff.mp h

theorem watchedAfter_of_run {hub hub' : Hub} {events : List HubEvent} {id time : Nat}
    {s : HubSession} (h : hub.run events = some hub') (htime : time ≤ hub.clock)
    (hs : hub.sessions[id]? = some s) (hwatched : s.WatchedAfter time) :
    ∃ s', hub'.sessions[id]? = some s' ∧ s'.WatchedAfter time := by
  induction events generalizing hub s with
  | nil =>
    cases h
    exact ⟨s, hs, hwatched⟩
  | cons e events ih =>
    obtain ⟨next, hstep, hrun⟩ := run_cons_eq_some h
    obtain ⟨s', hs', ⟨channel, -, rfl⟩ | hquiet⟩ := step_session hstep hs
    · exact ih hrun (Nat.le_trans htime (clock_le_of_step hstep)) hs' (.subscribe channel)
    · exact ih hrun (Nat.le_trans htime (clock_le_of_step hstep)) hs' (hwatched.quiet hquiet htime)

theorem idleFrom_of_run {hub hub' : Hub} {events : List HubEvent} {id time : Nat}
    {s : HubSession} (h : hub.run events = some hub') (hnone : .subscribe id ∉ events)
    (hs : hub.sessions[id]? = some s) (hidle : s.IdleFrom time) :
    ∃ s', hub'.sessions[id]? = some s' ∧ s'.IdleFrom time := by
  induction events generalizing hub s with
  | nil =>
    cases h
    exact ⟨s, hs, hidle⟩
  | cons e events ih =>
    rw [List.mem_cons, not_or] at hnone
    obtain ⟨next, hstep, hrun⟩ := run_cons_eq_some h
    obtain ⟨s', hs', ⟨channel, he, -⟩ | hquiet⟩ := step_session hstep hs
    · exact absurd he.symm hnone.1
    · exact ih hrun hnone.2 hs' (hidle.quiet hquiet)

theorem length_sessions_of_step {hub hub' : Hub} {e : HubEvent} (h : hub.step e = some hub') :
    hub'.sessions.length = hub.sessions.length ∨
      ∃ now, hub'.sessions = hub.sessions ++ [{ idleSince := now }] := by
  cases Hub.step_cases h with
  | add => exact .inr ⟨_, rfl⟩
  | append | subscribe | cancel | fire | take | proceed => exact .inl (List.length_modify ..)
  | takeAll => exact .inl (List.length_map ..)
  | armStream | arm => exact .inl rfl

theorem sound_of_step {hub hub' : Hub} {e : HubEvent} (h : hub.step e = some hub')
    (hsound : ∀ (id : Nat) (s : HubSession), hub.sessions[id]? = some s → s.Sound) {id : Nat}
    {s' : HubSession} (hs' : hub'.sessions[id]? = some s') : s'.Sound := by
  cases hs : hub.sessions[id]? with
  | some s =>
    obtain ⟨s'', hs'', ⟨channel, -, rfl⟩ | hquiet⟩ := step_session h hs
    · cases hs'.symm.trans hs''
      exact (hsound id s hs).subscribe channel
    · cases hs'.symm.trans hs''
      exact (hsound id s hs).quiet hquiet
  | none =>
    obtain hlength | ⟨now, hnew⟩ := length_sessions_of_step h
    · have hlt := (List.getElem?_eq_some_iff.mp hs').1
      rw [List.getElem?_eq_none_iff] at hs
      omega
    · rw [hnew, List.getElem?_append_right (List.getElem?_eq_none_iff.mp hs)] at hs'
      obtain ⟨-, rfl⟩ := List.mem_singleton.mp (List.mem_of_getElem? hs')
      exact ⟨fun _ => rfl, rfl⟩

/-- In every run each session is closed at most once. -/
theorem sound_of_run {hub : Hub} {events : List HubEvent} (h : Hub.run {} events = some hub)
    {id : Nat} {s : HubSession} (hs : hub.sessions[id]? = some s) : s.Sound := by
  suffices hall : ∀ start : Hub, (∀ (id : Nat) (s : HubSession), start.sessions[id]? = some s →
      s.Sound) → start.run events = some hub → s.Sound from
    hall {} (fun id s hs => by cases hs) h
  clear h
  induction events with
  | nil =>
    intro start hsound hrun
    cases hrun
    exact hsound id s hs
  | cons e events ih =>
    intro start hsound hrun
    obtain ⟨next, hstep, hrun⟩ := run_cons_eq_some hrun
    exact ih next (fun id s hs => sound_of_step hstep hsound hs) hrun

/-! ### Timers -/

theorem timer_of_step {hub hub' : Hub} {e : HubEvent} {i : Nat} {t : Timer}
    (h : hub.step e = some hub') (ht : hub.timers[i]? = some t) :
    ∃ fired, hub'.timers[i]? = some { t with fired := fired } := by
  have hlt := (List.getElem?_eq_some_iff.mp ht).1
  have harm : ∀ t' : Timer, (hub.timers ++ [t'])[i]? = some t := by
    intro t'
    rw [List.getElem?_append_left hlt, ht]
  cases Hub.step_cases h with
  | add | append | subscribe | cancel | take | takeAll | proceed => exact ⟨t.fired, ht⟩
  | armStream | arm => exact ⟨t.fired, harm _⟩
  | @fire j id idleBefore htimer =>
    by_cases hij : j = i
    · subst hij
      cases htimer.symm.trans ht
      exact ⟨true, by simp [hlt]⟩
    · exact ⟨t.fired, by simp [hij, ht]⟩

theorem timer_of_run {hub hub' : Hub} {events : List HubEvent} {i : Nat} {t : Timer}
    (h : hub.run events = some hub') (ht : hub.timers[i]? = some t) :
    ∃ fired, hub'.timers[i]? = some { t with fired := fired } := by
  induction events generalizing hub t with
  | nil =>
    cases h
    exact ⟨t.fired, ht⟩
  | cons e events ih =>
    obtain ⟨next, hstep, hrun⟩ := run_cons_eq_some h
    obtain ⟨fired, ht'⟩ := timer_of_step hstep ht
    obtain ⟨fired', ht''⟩ := ih hrun ht'
    exact ⟨fired', ht''⟩

/-- The step arms a timer for a session, at the given time. -/
def Hub.Arms (hub : Hub) (e : HubEvent) (hub' : Hub) (id now : Nat) : Prop :=
  hub.step e = some hub' ∧ hub'.timers = hub.timers ++ [⟨id, now, false⟩]

theorem Hub.Arms.spec {hub hub' : Hub} {e : HubEvent} {id now : Nat} (h : hub.Arms e hub' id now) :
    hub'.clock = now ∧ hub'.sessions = hub.sessions ∧ hub.clock < now := by
  obtain ⟨hstep, htimers⟩ := h
  have hlength := congrArg List.length htimers
  rw [List.length_append, List.length_singleton] at hlength
  cases Hub.step_cases hstep with
  | add | append | subscribe | cancel | fire | take | takeAll | proceed => simp at hlength
  | armStream _ hnow | arm hnow =>
    cases List.append_cancel_left htimers
    exact ⟨rfl, rfl, hnow⟩

theorem fire_spec {hub hub' : Hub} {i : Nat} {t : Timer} (h : hub.step (.fire i) = some hub')
    (ht : hub.timers[i]? = some t) :
    hub'.sessions = hub.sessions.modify t.session (·.closeSessionIfIdle t.idleBefore) := by
  cases Hub.step_cases h with
  | fire htimer =>
    cases htimer.symm.trans ht
    rfl

theorem stream_of_step {hub hub' : Hub} {e : HubEvent} {i : Nat} {stream : Stream}
    (h : hub.step e = some hub') (hstream : hub.streams[i]? = some stream) :
    ∃ stage, hub'.streams[i]? = some { stream with stage := stage } := by
  have hlt := (List.getElem?_eq_some_iff.mp hstream).1
  have hset : ∀ {j id : Nat} {stage : Stage}, hub.streams[j]? = some ⟨id, stage⟩ → ∀ stage',
      ∃ stage'', (hub.streams.set j ⟨id, stage'⟩)[i]? = some { stream with stage := stage'' } := by
    intro j id stage hj stage'
    by_cases hij : j = i
    · subst hij
      cases hj.symm.trans hstream
      exact ⟨stage', by simp [hlt]⟩
    · exact ⟨stream.stage, by simp [hij, hstream]⟩
  cases Hub.step_cases h with
  | add | append | arm | fire | take | takeAll | proceed => exact ⟨stream.stage, hstream⟩
  | subscribe =>
    refine ⟨stream.stage, ?_⟩
    rw [List.getElem?_append_left hlt, hstream]
  | cancel hj | armStream hj => exact hset hj _

theorem stream_of_run {hub hub' : Hub} {events : List HubEvent} {i : Nat} {stream : Stream}
    (h : hub.run events = some hub') (hstream : hub.streams[i]? = some stream) :
    ∃ stage, hub'.streams[i]? = some { stream with stage := stage } := by
  induction events generalizing hub stream with
  | nil =>
    cases h
    exact ⟨stream.stage, hstream⟩
  | cons e events ih =>
    obtain ⟨next, hstep, hrun⟩ := run_cons_eq_some h
    obtain ⟨stage, hstream'⟩ := stream_of_step hstep hstream
    obtain ⟨stage', hstream''⟩ := ih hrun hstream'
    exact ⟨stage', hstream''⟩

theorem clock_le_of_run {hub hub' : Hub} {events : List HubEvent}
    (h : hub.run events = some hub') : hub.clock ≤ hub'.clock := by
  induction events generalizing hub with
  | nil =>
    cases h
    exact Nat.le_refl _
  | cons e events ih =>
    obtain ⟨next, hstep, hrun⟩ := run_cons_eq_some h
    exact Nat.le_trans (clock_le_of_step hstep) (ih hrun)

/-! ### Idle closing -/

namespace HubSession

theorem WatchedAfter.closeSessionIfIdle {s : HubSession} {time : Nat} (h : s.WatchedAfter time) :
    s.closeSessionIfIdle time = s := by
  unfold HubSession.closeSessionIfIdle
  split
  · rfl
  · refine if_pos (h.imp_right (Or.imp_left fun hne => ?_))
    simpa using hne

theorem IdleFrom.closeSessionIfIdle {s : HubSession} {time idleBefore : Nat} (h : s.IdleFrom time)
    (hsound : s.Sound) (hlt : time < idleBefore) :
    (s.closeSessionIfIdle idleBefore).inHub = false ∧
      (s.inHub = true → (s.closeSessionIfIdle idleBefore).session.closed = true) := by
  unfold HubSession.closeSessionIfIdle
  by_cases hin : s.inHub = false
  · simp [hin]
  · rw [Bool.not_eq_false] at hin
    have hopen := hsound.inHub_not_closed hin
    obtain hclosed | ⟨hempty, rfl⟩ := h
    · rw [hopen] at hclosed
      cases hclosed
    · simp [hin, hopen, hempty, Nat.lt_asymm hlt]

theorem idleFrom_cancel {s : HubSession} {channel now : Nat} (hsome : s.session.watchers ≠ [])
    (hnone : (s.cancel channel now).session.watchers = []) : (s.cancel channel now).IdleFrom now := by
  refine .inr ⟨hnone, ?_⟩
  unfold cancel at hnone ⊢
  split at hnone
  · rename_i hmem
    rw [if_pos hmem]
    dsimp only at hnone ⊢
    rw [hnone]
    rfl
  · exact absurd hnone hsome

end HubSession

namespace Hub

def Watched (hub : Hub) (id : Nat) : Prop :=
  ∃ s, hub.sessions[id]? = some s ∧ s.session.watchers ≠ []

/-- The session is one of the hub's. -/
def Contains (hub : Hub) (id : Nat) : Prop := ∃ s, hub.sessions[id]? = some s ∧ s.inHub = true

def Closed (hub : Hub) (id : Nat) : Prop :=
  ∃ s, hub.sessions[id]? = some s ∧ s.session.closed = true

end Hub

/-- A timer that closes a session finds one that had no watcher since it was armed. -/
theorem not_watched_of_fire {hub₀ hub₁ hub₂ hub₃ : Hub} {e : HubEvent} {after : List HubEvent}
    {id now : Nat} (harm : hub₀.Arms e hub₁ id now) (hafter : hub₁.run after = some hub₂)
    (hfire : hub₂.step (.fire hub₀.timers.length) = some hub₃) (hbefore : hub₂.Contains id)
    (hclosed : ¬ hub₃.Contains id) {first : List HubEvent} {hub : Hub} (hfirst : first <+: after)
    (hrun : hub₁.run first = some hub) : ¬ hub.Watched id := by
  rintro ⟨s, hs, hwatched⟩
  obtain ⟨rest, rfl⟩ := hfirst
  rw [Hub.run_append, hrun] at hafter
  have hclock : now ≤ hub.clock := harm.spec.1 ▸ clock_le_of_run hrun
  obtain ⟨s', hs', hwatched'⟩ := watchedAfter_of_run hafter hclock hs (.inr (.inl hwatched))
  have htimer : hub₁.timers[hub₀.timers.length]? = some ⟨id, now, false⟩ := by
    simp [harm.2]
  obtain ⟨fired, htimer⟩ := timer_of_run hrun htimer
  obtain ⟨fired, htimer⟩ := timer_of_run hafter htimer
  obtain ⟨s'', hs'', hin⟩ := hbefore
  cases hs'.symm.trans hs''
  refine hclosed ⟨s', ?_, hin⟩
  rw [fire_spec hfire htimer]
  simp [hs', hwatched'.closeSessionIfIdle]

theorem leaves_of_cancel {hub hub' : Hub} {id stream left : Nat}
    (h : hub.step (.cancel stream left) = some hub') (hwatched : hub.Watched id)
    (hlast : ¬ hub'.Watched id) :
    hub'.streams[stream]? = some ⟨id, .leaving⟩ ∧
      ∃ s, hub'.sessions[id]? = some s ∧ s.IdleFrom left := by
  obtain ⟨s, hs, hsome⟩ := hwatched
  cases Hub.step_cases h with
  | @cancel _ id' _ hstream hnow =>
    have hid : id' = id := by
      by_contra hne
      exact hlast ⟨s, by simp [hs, hne], hsome⟩
    subst hid
    have hlt := (List.getElem?_eq_some_iff.mp hstream).1
    have hs' : (hub.sessions.modify id' (·.cancel stream left))[id']? =
        some (s.cancel stream left) := by simp [hs]
    have hempty : (s.cancel stream left).session.watchers = [] := by
      by_contra hne
      exact hlast ⟨_, hs', hne⟩
    exact ⟨by simp [hlt], _, hs', HubSession.idleFrom_cancel hsome hempty⟩

/-- The timer that the last watcher arms when it leaves closes the session, if nobody subscribes
again before it fires. -/
theorem closed_of_fire {before mid after : List HubEvent} {hub₀ hub₁ hub₂ hub₃ hub₄ hub₅ : Hub}
    {id stream left now : Nat} (hbefore : Hub.run {} before = some hub₀)
    (hcancel : hub₀.step (.cancel stream left) = some hub₁) (hwatched : hub₀.Watched id)
    (hlast : ¬ hub₁.Watched id) (hmid : hub₁.run mid = some hub₂)
    (harm : hub₂.step (.armStream stream now) = some hub₃) (hafter : hub₃.run after = some hub₄)
    (hnone : .subscribe id ∉ mid ++ after)
    (hfire : hub₄.step (.fire hub₂.timers.length) = some hub₅) :
    ¬ hub₅.Contains id ∧ (hub₄.Contains id → hub₅.Closed id) := by
  have hrun : Hub.run {} (before ++ .cancel stream left :: (mid ++ .armStream stream now :: after)) =
      some hub₄ := by
    rw [Hub.run_append, hbefore, Option.bind_some, Hub.run_cons, hcancel, Option.bind_some,
      Hub.run_append, hmid, Option.bind_some, Hub.run_cons, harm, Option.bind_some, hafter]
  rw [List.mem_append, not_or] at hnone
  obtain ⟨hstream, s₁, hs₁, hidle⟩ := leaves_of_cancel hcancel hwatched hlast
  obtain ⟨s₂, hs₂, hidle⟩ := idleFrom_of_run hmid hnone.1 hs₁ hidle
  obtain ⟨stage, hstream⟩ := stream_of_run hmid hstream
  have hclock : left ≤ hub₂.clock := by
    refine Nat.le_trans ?_ (clock_le_of_run hmid)
    cases Hub.step_cases hcancel
    exact Nat.le_refl _
  cases Hub.step_cases harm with
  | armStream hstream' hnow =>
    cases hstream.symm.trans hstream'
    obtain ⟨s₄, hs₄, hidle⟩ := idleFrom_of_run hafter hnone.2 hs₂ hidle
    have htimer : (hub₂.timers ++ [⟨id, now, false⟩])[hub₂.timers.length]? =
        some ⟨id, now, false⟩ := by simp
    obtain ⟨fired, htimer⟩ := timer_of_run hafter htimer
    have hs₅ : hub₅.sessions[id]? = some (s₄.closeSessionIfIdle now) := by
      rw [fire_spec hfire htimer]
      simp [hs₄]
    obtain ⟨hout, hclosed⟩ := hidle.closeSessionIfIdle (sound_of_run hrun hs₄)
      (Nat.lt_of_le_of_lt hclock hnow)
    constructor
    · rintro ⟨s₅, hs₅', hin⟩
      cases hs₅.symm.trans hs₅'
      rw [hout] at hin
      cases hin
    · rintro ⟨s₄', hs₄', hin⟩
      cases hs₄.symm.trans hs₄'
      exact ⟨_, hs₅, hclosed hin⟩

/-- In every run: a timer closes a session only if it had no watcher since the timer was armed; the
timer that the last watcher arms when it leaves closes the session, if it is still one of the hub's
and nobody subscribed again; and no terminal is closed twice. -/
theorem idle_timers_close_unwatched :
    (∀ (before after : List HubEvent) (e : HubEvent) (hub₀ hub₁ hub₂ hub₃ : Hub) (id now : Nat),
      Hub.run {} before = some hub₀ → hub₀.Arms e hub₁ id now → hub₁.run after = some hub₂ →
      hub₂.step (.fire hub₀.timers.length) = some hub₃ →
      hub₂.Contains id → ¬ hub₃.Contains id →
      ∀ (first : List HubEvent) (hub : Hub), first <+: after → hub₁.run first = some hub →
        ¬ hub.Watched id) ∧
    (∀ (before mid after : List HubEvent) (hub₀ hub₁ hub₂ hub₃ hub₄ hub₅ : Hub)
      (id stream left now : Nat),
      Hub.run {} before = some hub₀ → hub₀.step (.cancel stream left) = some hub₁ →
      hub₀.Watched id → ¬ hub₁.Watched id → hub₁.run mid = some hub₂ →
      hub₂.step (.armStream stream now) = some hub₃ → hub₃.run after = some hub₄ →
      .subscribe id ∉ mid ++ after → hub₄.step (.fire hub₂.timers.length) = some hub₅ →
      ¬ hub₅.Contains id ∧ (hub₄.Contains id → hub₅.Closed id)) ∧
    ∀ (events : List HubEvent) (hub : Hub), Hub.run {} events = some hub →
      ∀ s ∈ hub.sessions, s.terminalCloses ≤ 1 := by
  refine ⟨?_, ?_, ?_⟩
  · intro before after e hub₀ hub₁ hub₂ hub₃ id now _ harm hafter hfire hin hout first hub hfirst
      hrun
    exact not_watched_of_fire harm hafter hfire hin hout hfirst hrun
  · intro before mid after hub₀ hub₁ hub₂ hub₃ hub₄ hub₅ id stream left now hbefore hcancel
      hwatched hlast hmid harm hafter hnone hfire
    exact closed_of_fire hbefore hcancel hwatched hlast hmid harm hafter hnone hfire
  · intro events hub hrun s hs
    obtain ⟨id, hid⟩ := List.getElem?_of_mem hs
    have honce := (sound_of_run hrun hid).once
    omega

theorem idle_timers_close_unwatched_left :
    ∃ hub, Hub.run {} [.add 1, .subscribe 0, .cancel 0 2, .armStream 0 3, .fire 0] = some hub ∧
      ¬ hub.Contains 0 := by
  refine ⟨_, rfl, ?_⟩
  refine (idle_timers_close_unwatched.2.1 [.add 1, .subscribe 0] [] [] _ _ _ _ _ _ 0 0 2 3 rfl rfl
    ?_ ?_ rfl rfl rfl (by decide) rfl).1
  · exact ⟨_, rfl, by simp [HubSession.subscribe, Session.subscribe, Session.withReplayStart]⟩
  · rintro ⟨s, hs, hwatched⟩
    cases hs
    exact hwatched rfl

end CiRunner.Terminal
