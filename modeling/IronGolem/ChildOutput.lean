import IronGolem.ChannelSafety

/-!
The lines of the child on their way to the reader. The lines the child wrote are the lines handled
followed by the lines unread, as long as the reader does not stop before the end of the output. It
stops early on a line that does not fit its buffer and on a pipe that was closed over unread lines.
-/
namespace IronGolem.ChildOutput

open List GoChannels RuntimeClient ClientSteps ClientControl PendingLedger ChannelSafety
  TransitionRuns

def maxScanTokenSize : ℕ := 1024 * 1024

/-- A complete line of the child: its length in bytes and what it says if it is read. -/
structure ChildLine where
  bytes : ℕ
  content : Line

def ChildLine.scanned (l : ChildLine) : Line :=
  if maxScanTokenSize ≤ l.bytes then .tooLong else l.content

def written : Act → Option Line
  | .env (.childWrites l) => some l
  | _ => none

def handled : Act → Option Line
  | .reader .ignore => some .ignored
  | .reader .tooLong => some .tooLong
  | .reader (.dropEvent evt) | .reader (.sendEvent _ evt _) => some (.event evt)
  | .reader (.takeTerminal r _) | .reader (.noWaiter r) | .reader (.rejected r) =>
    some (.terminal r)
  | _ => none

def inHand : ReaderPc → List Line
  | .handling l => [l]
  | .eventHeld _ evt => [.event evt]
  | _ => []

variable (s : Sys)

def unread : List Line := inHand s.reader ++ s.child.stdout

def eventsFor (id : String) (lines : List Line) : List EventNotification :=
  lines.filterMap fun l => match l with
    | .event evt => if evt.requestID = id then some evt else none
    | _ => none

def sentEvents (c : ℕ) : List EventNotification :=
  ((s.calls c).events.map Chan.sent).getD []

def receivedEvents (c : ℕ) : List EventNotification :=
  ((s.calls c).events.map fun ch => ch.sent.take ch.received).getD []

/-- No line exceeds the buffer, no line is left at the end, and an execute call gets its own kind.
-/
def Readable : Act → Prop
  | .reader .tooLong => False
  | .reader .endOfInput => s.child.stdout = []
  | .reader (.sendEvent _ _ ch) => ch.closed = false
  | .reader (.takeTerminal r c) => (s.calls c).kind = .execute → r.kind = .execute
  | _ => True

instance (s : Sys) (a : Act) : Decidable (Readable s a) := by
  unfold Readable
  split <;> infer_instance

/-- How the child and the two goroutines on its output are related. -/
structure Piped (s : Sys) : Prop where
  fresh : s.child.wait = .off → s.sup.pc = .launch ∨ s.sup.pc = .settingRunning
  gone : s.child.stdoutClosed = true ∨ s.child.wait = .returned → s.child.alive = false

/-- A reader that has ended leaves nothing unread, unless it was the reader of an earlier child. -/
def Drained : Prop :=
  s.reader = .exited → s.child.wait = .off ∨ (s.child.stdout = [] ∧ s.child.alive = false)

theorem Piped.of_same {s t : Sys} (hs : Piped s) (hchild : t.child = s.child)
    (hsup : t.sup = s.sup) : Piped t := by
  refine ⟨?_, ?_⟩
  · rw [hchild, hsup]
    exact hs.fresh
  · rw [hchild]
    exact hs.gone

theorem envTo_piped {s t : Sys} {a : EnvAct} (hs : Piped s) (h : EnvTo s a t) : Piped t := by
  cases h with
  | cancelCtx => exact hs.of_same rfl rfl
  | childExits => exact ⟨hs.fresh, fun _ => rfl⟩
  | childWrites => exact ⟨hs.fresh, hs.gone⟩
  | waitReturns hwait hdead => exact ⟨by simp, fun _ => by simpa [Child.closePipes] using hdead⟩

theorem supTo_piped {cfg : Config} {s t : Sys} {a : SupAct} (hs : Piped s)
    (h : SupTo cfg s a t) : Piped t := by
  have hkeep : s.sup.pc ≠ .launch → s.sup.pc ≠ .settingRunning → s.child.wait ≠ .off := by
    intro hlaunch hrunning hoff
    exact (hs.fresh hoff).elim hlaunch hrunning
  cases h with
  | launch hpc hcmd => exact ⟨by simp, fun hgone => hs.gone (hgone.imp id (by simp))⟩
  | launchNil => exact hs.of_same rfl rfl
  | childExited hpc hwait =>
    have hdead := hs.gone (.inr hwait)
    exact ⟨fun hoff => absurd hoff (hkeep (by simp [hpc]) (by simp [hpc])), fun _ => hdead⟩
  | ctxDone hpc | stopped hpc =>
    exact ⟨fun hoff => absurd hoff (hkeep (by simp [hpc]) (by simp [hpc])), fun _ => rfl⟩
  | spawn hpc => exact ⟨fun _ => .inr rfl, by simp [nextChild]⟩
  | spawnFails hpc | setRunning hpc => exact ⟨fun _ => .inl rfl, hs.gone⟩
  | swap why order hpc | reaped why hpc | joinWriter hpc | joinReader hpc | crashDelivered hpc
  | delivered why hwhy hpc | countLast hpc | count hpc | setDead hpc | setRestarting hpc
  | timer hpc | backoffStop hpc | backoffCtx hpc | setClosed hpc =>
    exact ⟨fun hoff => absurd hoff (hkeep (by simp [hpc]) (by simp [hpc])), hs.gone⟩

theorem readerTo_piped {s t : Sys} {a : ReaderAct} (hs : Piped s) (h : ReaderTo s a t) :
    Piped t := by
  have hsup : t.sup = s.sup := by rw [h.frame]
  cases h with
  | scan => exact ⟨hs.fresh, hs.gone⟩
  | _ => exact hs.of_same rfl hsup

variable (cfg : Config) {s t : Sys} {a : Act}

/-- A child that nobody waits for is being launched, and one whose output ended is dead. -/
theorem step_piped (hs : Piped s) (h : step cfg s a = some t) : Piped t := by
  cases (step_to cfg s t a h).2 with
  | call c a hto | close a hto | writer a hto | deliver p a hto =>
    exact hs.of_same (by rw [hto.frame]) (by rw [hto.frame])
  | reader a hto => exact readerTo_piped hs hto
  | sup a hto => exact supTo_piped hs hto
  | env a hto => exact envTo_piped hs hto

variable {acts : List Act}

theorem run_piped (h : run (step cfg) init acts = some s) : Piped s := by
  refine invariant (step cfg) Piped ?_ ?_ h
  · exact ⟨fun _ => .inl rfl, by simp [init, nextChild]⟩
  · exact fun s a t hs hstep => step_piped cfg hs hstep

theorem drained_of_same (hs : Drained s) (hreader : t.reader = s.reader)
    (hchild : t.child = s.child) : Drained t := by
  unfold Drained
  rw [hreader, hchild]
  exact hs

theorem supTo_drained {cfg : Config} {a : SupAct} (hs : Drained s)
    (h : SupTo cfg s a t) : Drained t := by
  cases h with
  | launch => exact fun hexited => nomatch hexited
  | spawn => exact fun _ => .inl rfl
  | ctxDone | stopped => exact fun hexited => (hs hexited).imp id fun h => ⟨h.1, rfl⟩
  | childExited => exact hs
  | _ => exact drained_of_same hs rfl rfl

theorem envTo_drained {a : EnvAct} (hs : Drained s) (h : EnvTo s a t) : Drained t := by
  intro hexited
  cases h with
  | cancelCtx => exact hs hexited
  | childExits => exact (hs hexited).imp id fun h => ⟨h.1, rfl⟩
  | childWrites l halive =>
    left
    rcases hs hexited with hoff | ⟨-, hdead⟩
    · exact hoff
    · rw [hdead] at halive
      cases halive
  | waitReturns hwait hdead =>
    right
    rcases hs hexited with hoff | hdone
    · rw [hoff] at hwait
      cases hwait
    · exact hdone

theorem readerTo_drained {a : ReaderAct} (hp : Piped s) (hs : Drained s)
    (hguard : Readable s (.reader a)) (h : ReaderTo s a t) : Drained t := by
  cases h with
  | tooLong => exact absurd hguard id
  | endOfInput hpc hend =>
    refine fun _ => .inr ⟨hguard, ?_⟩
    rcases hend with hclosed | ⟨hdead, -⟩
    · exact hp.gone (.inl hclosed)
    · simpa using hdead
  | sendEventPanics => exact drained_of_same hs rfl rfl
  | _ => exact fun hexited => nomatch hexited

theorem step_drained (hp : Piped s) (hs : Drained s)
    (hguard : Readable s a) (h : step cfg s a = some t) : Drained t := by
  cases (step_to cfg s t a h).2 with
  | call c a hto | close a hto | writer a hto | deliver p a hto =>
    exact drained_of_same hs (by rw [hto.frame]) (by rw [hto.frame])
  | reader a hto => exact readerTo_drained hp hs hguard hto
  | sup a hto => exact supTo_drained hs hto
  | env a hto => exact envTo_drained hs hto

theorem unread_of_same (hreader : t.reader = s.reader) (hchild : t.child = s.child) :
    unread t = unread s := by
  unfold unread
  rw [hreader, hchild]

/-- The reader takes the lines in the order in which the child wrote them. -/
theorem readerTo_unread {a : ReaderAct} (hguard : Readable s (.reader a))
    (h : ReaderTo s a t) : unread s = (handled (.reader a)).toList ++ unread t := by
  cases h with
  | tooLong => exact absurd hguard id
  | sendEventPanics c evt ch hpc hevents hclosed =>
    rw [hguard] at hclosed
    cases hclosed
  | scan l rest hpc hout => simp [unread, inHand, handled, hpc, hout]
  | endOfInput hpc | ignore hpc | lookupEvent evt c hpc | dropEvent evt hpc
  | sendEvent c evt ch hpc | sendEventFull c evt ch hpc | takeTerminal r c hpc | noWaiter r hpc
  | rejected r hpc | swap text order hpc | delivered hpc =>
    simp [unread, inHand, handled, hpc, Sys.setCall, Sys.setJob]

/-- The supervisor loses no line: the reader has ended before a child is replaced. -/
theorem supTo_unread {cfg : Config} {a : SupAct} (hc : Control s) (hp : Piped s)
    (hs : Drained s) (h : SupTo cfg s a t) : unread t = unread s := by
  cases h with
  | launch hpc =>
    rcases (hc.launch hpc).2 with hr | hr <;> simp [unread, inHand, hr]
  | spawn hpc =>
    -- the reader of the last child has ended, so the pipe that is dropped is empty
    have hexited := (hc.joined (by rw [hpc]; rfl)).2
    rcases hs hexited with hoff | ⟨hempty, -⟩
    · have hfresh := hp.fresh hoff
      simp [hpc] at hfresh
    · simp [unread, inHand, hexited, hempty, nextChild]
  | childExited | ctxDone | stopped => rfl
  | _ => exact unread_of_same rfl rfl

theorem step_unread (hc : Control s) (hp : Piped s)
    (hs : Drained s) (hguard : Readable s a) (h : step cfg s a = some t) :
    unread s ++ (written a).toList = (handled a).toList ++ unread t := by
  cases (step_to cfg s t a h).2 with
  | call c a hto | close a hto | writer a hto | deliver p a hto =>
    rw [unread_of_same (s := s) (t := t) (by rw [hto.frame]) (by rw [hto.frame])]
    exact append_nil _
  | reader a hto =>
    rw [← readerTo_unread hguard hto]
    exact append_nil _
  | sup a hto =>
    rw [supTo_unread hc hp hs hto]
    exact append_nil _
  | env a hto =>
    cases hto with
    | childWrites l => simp [unread, written, handled]
    | _ => exact append_nil _

/-- Every line a child wrote was handled, in order, or is still to be read. -/
theorem run_lines
    (hmeets : Meets (step cfg) Readable init acts) (h : run (step cfg) init acts = some s) :
    Drained s ∧ acts.filterMap written = acts.filterMap handled ++ unread s := by
  refine history_invariant (step cfg) Readable (fun s => Control s ∧ Piped s)
    (fun acts s => Drained s ∧ acts.filterMap written = acts.filterMap handled ++ unread s)
    ?_ ?_ ?_ s hmeets h
  · refine ⟨?_, rfl⟩
    intro hexited
    cases hexited
  · exact fun acts s hrun => ⟨(run_control cfg acts hrun).1, run_piped cfg hrun⟩
  · rintro acts s a t ⟨hc, hp⟩ ⟨hs, hlines⟩ hguard hstep
    refine ⟨step_drained cfg hp hs hguard hstep, ?_⟩
    have hflow := step_unread cfg hc hp hs hguard hstep
    rw [filterMap_append, filterMap_append, hlines, append_assoc, append_assoc]
    exact congrArg (acts.filterMap handled ++ ·) hflow

variable {c : ℕ}

/-- The map of pending calls has a call under its own id only. -/
theorem newID_of_lookup {cfg : Config} {id : String} (ho : Owned cfg (ledger s))
    (h : s.pending.lookup id = some c) : id = cfg.newID c := by
  obtain ⟨pre, post, hpending, -⟩ := lookup_eq_some_iff.mp h
  exact ho.keys (id, c) (by simp [ledger, hpending])

/-- The event in the reader's hands carries the id of the request it was looked up for. -/
def HoldsTarget (cfg : Config) (s : Sys) : Prop :=
  ∀ c evt, s.reader = .eventHeld c evt → evt.requestID = cfg.newID c

theorem run_holdsTarget (acts : List Act) {s : Sys}
    (h : run (step cfg) init acts = some s) : HoldsTarget cfg s := by
  refine relative_invariant (step cfg) (fun s => Owned cfg (ledger s)) (HoldsTarget cfg) ?_
    (run_owned cfg) ?_ h
  · intro c evt hr
    cases hr
  · intro s a t ho hs hstep c evt ht
    rcases eventHeld_cases hstep ht with hr | ⟨htarget, -⟩
    · exact hs c evt hr
    · exact newID_of_lookup ho (Option.filter_eq_some_iff.mp htarget).1

theorem sentEvents_of_same (h : (t.calls c).events = (s.calls c).events) :
    sentEvents t c = sentEvents s c := by
  unfold sentEvents
  rw [h]

theorem callTo_sentEvents {cfg : Config} {d : ℕ} {a : CallAct}
    (h : CallTo cfg s d a t) : (sentEvents t c).Sublist (sentEvents s c) := by
  by_cases hd : c = d
  · subst hd
    cases h with
    | begin kind hpc =>
      have hnew : sentEvents (s.setCall c (newCall kind)) c = [] := by
        cases kind <;> simp [sentEvents, Sys.setCall, newCall, Chan.empty]
      rw [hnew]
      exact nil_sublist _
    | takeEvent ch hevents =>
      have hsame : sentEvents (s.setCall c { s.calls c with events := some ch.receive }) c =
          sentEvents s c := by
        simp [sentEvents, Sys.setCall, hevents, Chan.receive]
      rw [hsame]
    | _ => rw [sentEvents_of_same (s := s) (c := c) (by simp [Sys.setPc, Sys.setCall])]
  · rw [sentEvents_of_same]
    cases h <;> simp [Sys.setPc, Sys.setCall, hd]

theorem deliverTo_sentEvents {p : Party} {a : DeliverAct} (c : ℕ)
    (h : DeliverTo s p a t) : sentEvents t c = sentEvents s c := by
  cases h with
  | sendPanics | closeDonePanics | closeEventsPanics => rfl
  | send d rest | closeDone d rest =>
    apply sentEvents_of_same
    by_cases hd : c = d <;> simp [Sys.setJob, Sys.setCall, hd]
  | closeEvents d rest ch hdelivering htodo hstage hevents =>
    by_cases hd : c = d
    · subst hd
      simp [sentEvents, Sys.setJob, Sys.setCall, hevents]
    · exact sentEvents_of_same (by simp [Sys.setJob, Sys.setCall, hd])

theorem eventsFor_append (id : String) (lines more : List Line) :
    eventsFor id (lines ++ more) = eventsFor id lines ++ eventsFor id more :=
  filterMap_append

/-- The events sent to a request, and those among the unread lines that it may still get. -/
def offered (cfg : Config) (s : Sys) (c : ℕ) : List EventNotification :=
  sentEvents s c ++ eventsFor (cfg.newID c) (unread s)

theorem offered_sublist {lines : List Line} (hsent : (sentEvents t c).Sublist (sentEvents s c))
    (hunread : (unread t).Sublist (unread s ++ lines)) :
    (offered cfg t c).Sublist (offered cfg s c ++ eventsFor (cfg.newID c) lines) := by
  unfold offered
  rw [append_assoc, ← eventsFor_append]
  exact hsent.append (hunread.filterMap _)

theorem offered_sendEvent (c d : ℕ) {evt : EventNotification}
    {ch : Chan EventNotification} (hs : HoldsTarget cfg s) (hpc : s.reader = .eventHeld d evt)
    (hevents : (s.calls d).events = some ch) :
    offered cfg { s.setCall d { s.calls d with
      events := some { ch with sent := ch.sent ++ [evt] } } with reader := .scanning } c =
        offered cfg s c := by
  have hid := hs d evt hpc
  by_cases hd : c = d
  · subst hd
    simp [offered, sentEvents, unread, inHand, eventsFor, Sys.setCall, hpc, hevents, hid]
  · have hne : cfg.newID d ≠ cfg.newID c := fun h => hd (cfg.newID_injective h).symm
    simp [offered, sentEvents, unread, inHand, eventsFor, Sys.setCall, hpc, hid, hd, hne]

theorem readerTo_offered {cfg : Config} {a : ReaderAct} (c : ℕ)
    (hs : HoldsTarget cfg s) (h : ReaderTo s a t) :
    (offered cfg t c).Sublist (offered cfg s c) := by
  have hless : t.calls = s.calls → (unread t).Sublist (unread s) →
      (offered cfg t c).Sublist (offered cfg s c) := by
    intro hcalls hunread
    have hsent : sentEvents t c = sentEvents s c := sentEvents_of_same (by rw [hcalls])
    have hsub := offered_sublist cfg (s := s) (t := t) (c := c) (hsent ▸ List.Sublist.refl _)
      (by rw [append_nil]; exact hunread)
    simpa [eventsFor] using hsub
  cases h with
  | sendEvent d evt ch hpc hevents => rw [offered_sendEvent cfg c d hs hpc hevents]
  | sendEventPanics => exact List.Sublist.refl _
  | scan l rest hpc hout => exact hless rfl (by simp [unread, inHand, hpc, hout])
  | endOfInput hpc | ignore hpc | tooLong hpc | lookupEvent evt d hpc | dropEvent evt hpc
  | sendEventFull d evt ch hpc | takeTerminal r d hpc | noWaiter r hpc | rejected r hpc
  | swap text order hpc | delivered hpc =>
    exact hless rfl (by simp [unread, inHand, hpc, Sys.setJob])

theorem supTo_unread_sublist {cfg : Config} {a : SupAct} (h : SupTo cfg s a t) :
    (unread t).Sublist (unread s) := by
  cases h with
  | launch => exact sublist_append_right _ _
  | spawn => exact (List.Sublist.refl _).append (nil_sublist _)
  | _ => exact List.Sublist.refl _

/-- A step offers a call no event but those its own line brings. -/
theorem step_offered (c : ℕ) (hs : HoldsTarget cfg s)
    (h : step cfg s a = some t) : (offered cfg t c).Sublist
      (offered cfg s c ++ eventsFor (cfg.newID c) (written a).toList) := by
  cases (step_to cfg s t a h).2 with
  | call d a hto =>
    refine offered_sublist cfg (callTo_sentEvents hto) ?_
    rw [unread_of_same (by rw [hto.frame]) (by rw [hto.frame])]
    exact sublist_append_left _ _
  | close a hto | writer a hto =>
    rw [hto.frame]
    exact sublist_append_left _ _
  | deliver p a hto =>
    refine offered_sublist cfg ?_ ?_
    · rw [deliverTo_sentEvents c hto]
    · rw [unread_of_same (by rw [hto.frame]) (by rw [hto.frame])]
      exact sublist_append_left _ _
  | reader a hto => exact (readerTo_offered c hs hto).trans (sublist_append_left _ _)
  | sup a hto =>
    refine offered_sublist cfg ?_ ?_
    · rw [sentEvents_of_same (s := s) (t := t) (c := c) (by rw [hto.frame])]
    · exact (supTo_unread_sublist hto).trans (sublist_append_left _ _)
  | env a hto =>
    refine offered_sublist cfg ?_ ?_
    · rw [sentEvents_of_same (s := s) (t := t) (c := c) (by rw [hto.frame])]
    · cases hto with
      | childWrites l => simp [unread, written]
      | _ => exact sublist_append_left _ _

/-- The events sent to a call are among those written for its id, in their order. -/
theorem run_events (c : ℕ) (h : run (step cfg) init acts = some s) :
    (sentEvents s c).Sublist (eventsFor (cfg.newID c) (acts.filterMap written)) := by
  have hoffered : (offered cfg s c).Sublist (eventsFor (cfg.newID c) (acts.filterMap written)) := by
    refine history_invariant (step cfg) (fun _ _ => True) (HoldsTarget cfg)
      (fun acts s => (offered cfg s c).Sublist
        (eventsFor (cfg.newID c) (acts.filterMap written))) (List.Sublist.refl _)
      (run_holdsTarget cfg) ?_ s (fun _ _ _ _ _ _ => trivial) h
    intro acts s a t hs hoff _ hstep
    rw [filterMap_append, eventsFor_append]
    exact (step_offered cfg c hs hstep).trans (hoff.append_right _)
  exact (sublist_append_left _ _).trans hoffered

theorem receivedEvents_sublist (c : ℕ) : (receivedEvents s c).Sublist (sentEvents s c) := by
  unfold receivedEvents sentEvents
  cases (s.calls c).events with
  | none => exact List.Sublist.refl _
  | some ch => exact take_sublist _ _

end IronGolem.ChildOutput
