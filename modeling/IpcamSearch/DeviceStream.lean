import IpcamSearch.SearchDeviceLoop
import IpcamSearch.TimerRuns
import IpcamSearch.Timestamps

/-! Everything that a device sends between its boot and its end, whatever arrives and
whenever its timer fires. -/

set_option autoImplicit false

namespace IpcamSearch.SearchDeviceLoop

open Memory Message SearchDevice EventLoop WireRoundTrip

def logoutMsg (device : Device) (now : Nat) (ipcamName : Block 64) : MsgBuf :=
  device.withStartup (device.newMsg .logout now ipcamName)

/-- What the device does between two waits for its poll or its clock. -/
inductive Deed where
  | heartbeat
  | event (event : FileEvent)

namespace Deed

def event? : Deed → Option FileEvent
  | .event handled => some handled
  | .heartbeat => none

def beats : Deed → Nat
  | .event _ => 0
  | .heartbeat => 1

/-- The signal that ends the program. -/
def ends : Deed → Bool
  | .event (.signal _ _) => true
  | _ => false

end Deed

/-- The answer to a query goes to its sender, with the port of the PC tools. -/
def FileEvent.answer (device : Device) : FileEvent → List Outgoing
  | .server _ _ none _ => []
  | .server now buf (some (datagram, peer)) _ =>
      let msg := parseMsg (recvfrom buf datagram).1 (recvfrom buf datagram).2
      if IpcamSearchMsgType.ofByte? msg.header.type = some .queryAlive then
        [⟨(ackMsg device now deviceName msg.header.dealId).bytes,
          { peer with sinPort := PC_SERVER_PORT }⟩]
      else []
  | .signal now _ => [broadcastMsg PC_SERVER_PORT (logoutMsg device now deviceName).bytes]

/-- The device as its network sees it. -/
structure Speaker where
  beats : Nat
  sent : List Outgoing

namespace Speaker

variable (device : Device) (now builtAt : Nat)

def start : Speaker where
  beats := 0
  sent := [broadcastMsg PC_SERVER_PORT (loginMsg device now deviceName).bytes]

def act (speaker : Speaker) : Deed → Speaker
  | .heartbeat => {
      beats := speaker.beats + 1
      sent := speaker.sent ++
        [broadcastMsg PC_SERVER_PORT (heartbeatMsg device builtAt deviceName speaker.beats).bytes] }
  | .event event => {
      beats := speaker.beats
      sent := speaker.sent ++ event.answer device }

def after (deeds : List Deed) : Speaker := deeds.foldl (act device builtAt) (start device now)

@[simp] theorem after_append (deeds : List Deed) (deed : Deed) :
    after device now builtAt (deeds ++ [deed]) =
      (after device now builtAt deeds).act device builtAt deed := by
  simp [after]

theorem beats_after (deeds : List Deed) :
    (after device now builtAt deeds).beats = (deeds.map Deed.beats).sum := by
  induction deeds using List.reverseRecOn with
  | nil => rfl
  | append_singleton deeds deed ih =>
      rw [after_append, List.map_append, List.sum_append, ← ih]
      cases deed <;> rfl

end Speaker

/-- The program has done these deeds. -/
structure Does (host : Host) (now builtAt : Nat) (deeds : List Deed)
    (eventLoop : AeEventLoop TimeProc) (app : App) : Prop where
  one : ∃ due, eventLoop.timeEventHead = [⟨0, due, .sendHeartbeatMsg⟩]
  clientData : Starts app.clientData
    (heartbeatMsg host.device builtAt deviceName (deeds.map Deed.beats).sum).bytes
  intact : app.faults = 0
  sent : app.sent = (Speaker.after host.device now builtAt deeds).sent
  exited : app.exited = deeds.any Deed.ends
  last : deeds.Pairwise fun earlier _ => earlier.ends = false

section Steps

variable {host : Host} {now builtAt : Nat} {deeds : List Deed} {eventLoop : AeEventLoop TimeProc}
  {app : App}

theorem heartbeatMsg_next (device : Device) (ipcamName : Block 64) (earlier : Nat) :
    counted (heartbeatMsg device builtAt ipcamName earlier)
        ((heartbeatMsg device builtAt ipcamName earlier).header.heartbeatNum + 1) =
      heartbeatMsg device builtAt ipcamName (earlier + 1) := by
  have next : UInt32.ofNat earlier + 1 = UInt32.ofNat (earlier + 1) := by
    rw [UInt32.ofNat_add]
    rfl
  exact congrArg (counted _) next

theorem sendHeartbeatMsg_does (does : Does host now builtAt deeds eventLoop app) :
    ∃ clientData, sendHeartbeatMsg eventLoop app = ((HEARTBEAT_CYCLE : Int) * 1000, eventLoop,
        { app.send (broadcastMsg PC_SERVER_PORT (heartbeatMsg host.device builtAt deviceName
            (deeds.map Deed.beats).sum).bytes) with clientData := clientData }) ∧
      Starts clientData (heartbeatMsg host.device builtAt deviceName
        ((deeds.map Deed.beats).sum + 1)).bytes := by
  obtain ⟨clientData, sent, starts⟩ := sendHeartbeatMsg_spec does.clientData
  rw [heartbeatMsg_next] at starts
  refine ⟨clientData, ?_, starts⟩
  simp only [sendHeartbeatMsg, sent]

theorem Does.last_append (does : Does host now builtAt deeds eventLoop app)
    (running : app.exited = false) (deed : Deed) :
    (deeds ++ [deed]).Pairwise fun earlier _ => earlier.ends = false := by
  have none := does.exited.symm.trans running
  rw [List.any_eq_false] at none
  refine List.pairwise_append.mpr ⟨does.last, List.pairwise_singleton _ _, ?_⟩
  exact fun earlier member _ _ => Bool.eq_false_iff.mpr (none earlier member)

/-- The only timer is set again when it fires, and the next heartbeat is sent. -/
theorem fire_does (does : Does host now builtAt deeds eventLoop app) (running : app.exited = false)
    {te : AeTimeEvent TimeProc} (listed : te ∈ eventLoop.timeEventHead) :
    ∃ after appAfter, fire host.clock TimeProc.call te eventLoop app = .ok (after, appAfter) ∧
      appAfter.exited = false ∧
      Does host now builtAt (deeds ++ [.heartbeat]) after appAfter := by
  obtain ⟨due, one⟩ := does.one
  rw [one, List.mem_singleton] at listed
  subst listed
  obtain ⟨clientData, called, starts⟩ := sendHeartbeatMsg_does does
  let later := (host.clock eventLoop.clockReads).add (HEARTBEAT_CYCLE * 1000)
  let after : AeEventLoop TimeProc := {
    timeEventNextId := eventLoop.timeEventNextId
    timeEventHead := [⟨0, later, .sendHeartbeatMsg⟩]
    clockReads := eventLoop.clockReads + 1 }
  let appAfter : App := {
    app.send (broadcastMsg PC_SERVER_PORT
      (heartbeatMsg host.device builtAt deviceName (deeds.map Deed.beats).sum).bytes) with
    clientData := clientData }
  have fired : fire host.clock TimeProc.call ⟨0, due, .sendHeartbeatMsg⟩ eventLoop app =
      .ok (after, appAfter) := by
    simp only [fire, TimeProc.call, called]
    rw [if_pos (by decide)]
    simp only [writeWhen, aeAddMillisecondsToNow, aeGetTime, one]
    rfl
  refine ⟨after, appAfter, fired, running, ⟨later, rfl⟩, ?_, does.intact, ?_, ?_, ?_⟩
  · rw [List.map_append, List.sum_append]
    exact starts
  · rw [Speaker.after_append, Speaker.act, Speaker.beats_after, ← does.sent]
    rfl
  · rw [List.any_append, ← does.exited]
    exact (Bool.or_false _).symm
  · exact does.last_append running _

/-- A file event sends its answer and nothing else. -/
theorem handle_answers (host : Host) (event : FileEvent) (eventLoop : AeEventLoop TimeProc)
    (app : App) : event.handle host eventLoop app = (eventLoop, { app with
      sent := app.sent ++ event.answer host.device
      exited := app.exited || (Deed.event event).ends }) := by
  have silent : app = { app with sent := app.sent ++ [], exited := app.exited || false } := by
    rw [List.append_nil, Bool.or_false]
  cases event with
  | server time buf received reply =>
      cases received with
      | none => exact congrArg _ silent
      | some arrived =>
          obtain ⟨datagram, peer⟩ := arrived
          by_cases query : IpcamSearchMsgType.ofByte?
              (parseMsg (recvfrom buf datagram).1 (recvfrom buf datagram).2).header.type =
                some .queryAlive
          · simp only [FileEvent.handle, recvMsgFromPc, getIpcamName_zeros, ok_bind,
              SearchDevice.recvMsgFromPc, ipcamDealMsgFunc, query, replayAliveMsg_spec,
              FileEvent.answer, if_true, Deed.ends, Bool.or_false]
            rfl
          · have ignored : recvMsgFromPc host time buf (some (datagram, peer)) reply = .ok none := by
              simp only [recvMsgFromPc, getIpcamName_zeros, ok_bind, SearchDevice.recvMsgFromPc,
                ipcamDealMsgFunc]
              rfl
            simp only [FileEvent.handle, ignored, FileEvent.answer, if_neg query]
            exact congrArg _ silent
  | signal time buf =>
      simp only [FileEvent.handle, releaseExit, getIpcamName_zeros, ok_bind, sendLogoutMsg_spec,
        Deed.ends, Bool.or_true]
      rfl

/-- A file event of the running program. -/
theorem handle_does (does : Does host now builtAt deeds eventLoop app)
    (running : app.exited = false) (event : FileEvent) :
    Does host now builtAt (deeds ++ [.event event]) (event.handle host eventLoop app).1
      (event.handle host eventLoop app).2 := by
  rw [handle_answers]
  refine ⟨does.one, ?_, does.intact, ?_, ?_, does.last_append running _⟩
  · rw [List.map_append, List.sum_append]
    exact does.clientData
  · rw [Speaker.after_append, Speaker.act, does.sent]
  · rw [List.any_append, ← does.exited]
    exact congrArg (app.exited || ·) (Bool.or_false _).symm

theorem follower : Follower host.clock TimeProc.call (FileEvent.handle host) App.exited id some
    Deed.event? (Does host now builtAt) where
  timeless := fun _ kept =>
    ⟨kept.one, kept.clientData, kept.intact, kept.sent, kept.exited, kept.last⟩
  handled := fun kept running event => ⟨[.event event], rfl, handle_does kept running event⟩
  fired := by
    intro deeds eventLoop app te kept running listed
    obtain ⟨after, appAfter, fired, runs, keeps⟩ := fire_does kept running listed
    exact ⟨after, appAfter, .heartbeat, fired, runs, rfl, keeps⟩

theorem start_does {buf heartbeat : Block MAX_MSG_LEN}
    (started : start host now builtAt buf heartbeat = .ok (eventLoop, app)) :
    Does host now builtAt [] eventLoop app := by
  obtain ⟨clientData, packed, starts⟩ :=
    host.device.packWithStartup_spec heartbeat (host.device.newMsg .heartbeat builtAt deviceName)
  simp only [start, getIpcamName_zeros, ok_bind, broadcastLoginMsg_spec, heartbeatBuffer, packed]
    at started
  cases started
  exact ⟨⟨_, rfl⟩, starts, rfl, rfl, rfl, List.Pairwise.nil⟩

/-- Everything that the device has sent is its LOGIN and then, deed after deed, the next
numbered heartbeat or the answer to what arrived. The LOGOUT comes last. -/
theorem device_stream {events : List FileEvent}
    (reached : Reached host now builtAt eventLoop app events) :
    ∃ deeds, deeds.filterMap Deed.event? <+: events ∧
      (app.exited = false → deeds.filterMap Deed.event? = events) ∧ app.faults = 0 ∧
      app.sent = (Speaker.after host.device now builtAt deeds).sent ∧
      app.exited = deeds.any Deed.ends ∧
      (deeds.Pairwise fun earlier _ => earlier.ends = false) ∧
      ∃ due, eventLoop.timeEventHead = [⟨0, due, .sendHeartbeatMsg⟩] := by
  obtain ⟨deeds, does, part, whole⟩ :=
    follower.run_follows (fun _ _ ⟨_, _, started⟩ => start_does started) reached
  rw [List.nil_append] at does
  rw [List.filterMap_some] at part whole
  exact ⟨deeds, part, whole, does.intact, does.sent, does.exited, does.last, does.one⟩

end Steps

/-- The sample device, with a clock that moves five seconds between two readings. -/
def sampleHost : Host where
  clock reads := ⟨5 * reads, 0⟩
  device := sampleDevice

def sampleArrival : FileEvent :=
  .server 105 (Block.zeros MAX_MSG_LEN) (some (sampleQuery.bytes, ⟨Block.zeros 4, 6755⟩))
    (Block.zeros MAX_MSG_LEN)

/-- A query is answered, and then the first heartbeat is sent. -/
theorem reached_sample : ∃ eventLoop app,
    Reached sampleHost 100 100 eventLoop app [sampleArrival] ∧
      app.sent = broadcastMsg PC_SERVER_PORT (loginMsg sampleDevice 100 deviceName).bytes ::
        sampleArrival.answer sampleDevice ++
        [broadcastMsg PC_SERVER_PORT (heartbeatMsg sampleDevice 100 deviceName 0).bytes] := by
  obtain ⟨clientData, packed, starts⟩ := sampleDevice.packWithStartup_spec
    (Block.zeros MAX_MSG_LEN) (sampleDevice.newMsg .heartbeat 100 deviceName)
  obtain ⟨next, beaten, _⟩ := sendHeartbeatMsg_spec starts
  let login := broadcastMsg PC_SERVER_PORT (loginMsg sampleDevice 100 deviceName).bytes
  let heartbeat := broadcastMsg PC_SERVER_PORT (heartbeatMsg sampleDevice 100 deviceName 0).bytes
  have started : start sampleHost 100 100 (Block.zeros MAX_MSG_LEN) (Block.zeros MAX_MSG_LEN) =
      .ok (⟨1, [⟨0, ⟨10, 0⟩, .sendHeartbeatMsg⟩], 1⟩, ⟨clientData, [login], false, 0⟩) := by
    simp only [start, getIpcamName_zeros, ok_bind, broadcastLoginMsg_spec, heartbeatBuffer,
      sampleHost, packed]
    rfl
  have fired (sent : List Outgoing) : fire sampleHost.clock TimeProc.call
      ⟨0, ⟨10, 0⟩, .sendHeartbeatMsg⟩ ⟨1, [⟨0, ⟨10, 0⟩, .sendHeartbeatMsg⟩], 3⟩
      ⟨clientData, sent, false, 0⟩ =
      .ok (⟨1, [⟨0, ⟨25, 0⟩, .sendHeartbeatMsg⟩], 4⟩, ⟨next, sent ++ [heartbeat], false, 0⟩) := by
    simp only [fire, TimeProc.call, sendHeartbeatMsg, beaten]
    rfl
  have passed (sent : List Outgoing) : processTimeEvents sampleHost.clock TimeProc.call 4
      ⟨1, [⟨0, ⟨10, 0⟩, .sendHeartbeatMsg⟩], 2⟩ ⟨clientData, sent, false, 0⟩ =
      .ok (1, ⟨1, [⟨0, ⟨25, 0⟩, .sendHeartbeatMsg⟩], 5⟩, ⟨next, sent ++ [heartbeat], false, 0⟩) := by
    show (fire sampleHost.clock TimeProc.call _ _ _ >>= _) = _
    rw [fired]
    rfl
  have iterated : aeProcessEvents sampleHost.clock TimeProc.call (FileEvent.handle sampleHost)
      App.exited 4 ([sampleArrival].map id) ⟨1, [⟨0, ⟨10, 0⟩, .sendHeartbeatMsg⟩], 1⟩
      ⟨clientData, [login], false, 0⟩ =
      .ok (2, ⟨1, [⟨0, ⟨25, 0⟩, .sendHeartbeatMsg⟩], 5⟩,
        ⟨next, [login] ++ sampleArrival.answer sampleDevice ++ [heartbeat], false, 0⟩) := by
    simp only [aeProcessEvents, List.map_cons, List.map_nil, id, dispatch, handle_answers]
    show (processTimeEvents sampleHost.clock TimeProc.call 4
      ⟨1, [⟨0, ⟨10, 0⟩, .sendHeartbeatMsg⟩], 2⟩
      ⟨clientData, [login] ++ sampleArrival.answer sampleDevice, false, 0⟩ >>= _) = _
    rw [passed]
    rfl
  exact ⟨_, _, .round (.start ⟨_, _, started⟩) rfl 4 [sampleArrival] iterated, rfl⟩

theorem device_stream_sample : ∃ (app : App) (deeds : List Deed),
    deeds.filterMap Deed.event? <+: [sampleArrival] ∧ app.faults = 0 ∧
      app.sent = (Speaker.after sampleDevice 100 100 deeds).sent := by
  obtain ⟨eventLoop, app, reached, _⟩ := reached_sample
  obtain ⟨deeds, part, _, intact, sent, _⟩ := device_stream reached
  exact ⟨app, deeds, part, intact, sent⟩

/-- The type byte of a heartbeat. -/
def Outgoing.isHeartbeat (outgoing : Outgoing) : Bool :=
  outgoing.bytes.head? = some IpcamSearchMsgType.heartbeat.toByte

/-- What the spacing of the heartbeats rests on: one timer, and one heartbeat sent for each
of its expiries. -/
structure Beats (device : Device) (builtAt : Nat) (eventLoop : AeEventLoop TimeProc) (app : App)
    (log : List (Expiry TimeProc)) : Prop where
  one : ∃ due, eventLoop.timeEventHead = [⟨0, due, .sendHeartbeatMsg⟩]
  clientData : ∃ earlier, Starts app.clientData (heartbeatMsg device builtAt deviceName earlier).bytes
  counted : app.sent.countP Outgoing.isHeartbeat = log.length

def heartbeatLead : TimeProc → Nat
  | .sendHeartbeatMsg => HEARTBEAT_CYCLE * 1000

section Spacing

variable {host : Host} {now builtAt : Nat} {eventLoop : AeEventLoop TimeProc} {app : App}

theorem call_returns (timeProc : TimeProc) (id : Int) (eventLoop : AeEventLoop TimeProc)
    (app : App) : (timeProc.call id eventLoop app).1 = HEARTBEAT_CYCLE * 1000 ∧
      (timeProc.call id eventLoop app).2.1 = eventLoop := by
  cases timeProc with
  | sendHeartbeatMsg =>
      simp only [TimeProc.call, sendHeartbeatMsg]
      cases SearchDevice.sendHeartbeatMsg app.clientData with
      | ok sent => exact ⟨rfl, rfl⟩
      | error fault => exact ⟨rfl, rfl⟩

theorem call_client :
    Client host.clock TimeProc.call heartbeatLead (HEARTBEAT_CYCLE * 1000) 0 where
  edits := by
    intro timeProc id eventLoop app
    rw [(call_returns timeProc id eventLoop app).2]
    exact .same
  reads := by
    intro timeProc id eventLoop app
    rw [(call_returns timeProc id eventLoop app).2]
    exact le_rfl
  repeats := by
    intro timeProc id eventLoop app _
    rw [(call_returns timeProc id eventLoop app).1]
    exact ⟨le_rfl, le_rfl⟩
  listed := by
    intro timeProc id eventLoop app _ listed
    rwa [(call_returns timeProc id eventLoop app).2]

theorem answer_quiet (device : Device) (event : FileEvent) :
    (event.answer device).countP Outgoing.isHeartbeat = 0 := by
  cases event with
  | server time buf received reply =>
      cases received with
      | none => rfl
      | some arrived =>
          simp only [FileEvent.answer]
          split
          · rfl
          · rfl
  | signal time buf => rfl

theorem fire_beats {log : List (Expiry TimeProc)} (beats : Beats host.device builtAt eventLoop app log)
    {te : AeTimeEvent TimeProc} (listed : te ∈ eventLoop.timeEventHead) {reading : Nat}
    {after : AeEventLoop TimeProc} {appAfter : App}
    (fired : fire host.clock TimeProc.call te eventLoop app = .ok (after, appAfter)) :
    Beats host.device builtAt after appAfter (log ++ [⟨te.id, te.timeProc, reading⟩]) := by
  obtain ⟨due, one⟩ := beats.one
  rw [one, List.mem_singleton] at listed
  subst listed
  obtain ⟨earlier, starts⟩ := beats.clientData
  obtain ⟨clientData, sent, startsAfter⟩ := sendHeartbeatMsg_spec starts
  rw [heartbeatMsg_next] at startsAfter
  simp only [fire, TimeProc.call, sendHeartbeatMsg, sent] at fired
  rw [if_pos (by decide)] at fired
  simp only [writeWhen, aeAddMillisecondsToNow, aeGetTime, one] at fired
  cases fired
  refine ⟨⟨_, rfl⟩, ⟨earlier + 1, startsAfter⟩, ?_⟩
  simp only [App.send, List.countP_append, beats.counted, List.length_append]
  rfl

theorem beats_keeps : KeepsChain host.clock TimeProc.call (FileEvent.handle host) heartbeatLead
    (fun _ => true) (Beats host.device builtAt) where
  edits := by
    intro event eventLoop app
    rw [handle_answers]
    exact .same
  reading := fun kept => ⟨kept.one, kept.clientData, kept.counted⟩
  handled := by
    intro eventLoop app log event kept
    rw [handle_answers]
    refine ⟨kept.one, kept.clientData, ?_⟩
    rw [List.countP_append, answer_quiet, kept.counted, Nat.add_zero]
  expiry := fun kept listed fired => fire_beats kept listed fired
  only := by
    intro eventLoop app log te other kept listed otherListed _ _
    obtain ⟨due, one⟩ := kept.one
    rw [one, List.mem_singleton] at listed otherListed
    rw [listed, otherListed]

/-- Each heartbeat is sent by an expiry of its own. By a steady clock these lie at least a
cycle apart, and the first at least a cycle behind the boot. -/
theorem heartbeats_apart (steady : Steady host.clock) {events : List FileEvent}
    (reached : Reached host now builtAt eventLoop app events) :
    ∃ log, Logged host.clock TimeProc.call (FileEvent.handle host) App.exited
        (fun eventLoop app =>
          ∃ buf heartbeat, start host now builtAt buf heartbeat = .ok (eventLoop, app))
        eventLoop app log ∧
      app.sent.countP Outgoing.isHeartbeat = log.length ∧
      (log.Pairwise fun earlier later => (host.clock earlier.reading).millis +
        HEARTBEAT_CYCLE * 1000 ≤ (host.clock later.reading).millis) ∧
      ∀ beat ∈ log, (host.clock 0).millis + HEARTBEAT_CYCLE * 1000 ≤
        (host.clock beat.reading).millis := by
  obtain ⟨log, logged⟩ := (runs_iff_logged _ _ _ _ _).mp reached.runs
  have begins : ∀ eventLoop app,
      (∃ buf heartbeat, start host now builtAt buf heartbeat = .ok (eventLoop, app)) →
      Edits host.clock heartbeatLead (aeCreateEventLoop TimeProc) eventLoop ∧
        Beats host.device builtAt eventLoop app [] := by
    rintro eventLoop app ⟨buf, heartbeat, started⟩
    have does := start_does started
    have created := started
    simp only [start, getIpcamName_zeros, ok_bind, broadcastLoginMsg_spec] at created
    obtain ⟨clientData, _, created⟩ := of_bind_ok created
    cases created
    exact ⟨.create .same _ _ le_rfl, does.one, ⟨0, does.clientData⟩, rfl⟩
  have ticking := logged_ticking call_client beats_keeps steady begins logged
  have apart := ticking.apart.apart
  rw [List.filter_eq_self.mpr fun _ _ => rfl] at apart
  exact ⟨log, logged, ticking.program.counted, apart,
    fun beat member => ticking.apart.behindStart beat member rfl⟩

end Spacing

theorem heartbeats_apart_sample : ∃ eventLoop app, ∃ log : List (Expiry TimeProc),
    Reached sampleHost 100 100 eventLoop app [sampleArrival] ∧ log.length = 1 ∧
      app.sent.countP Outgoing.isHeartbeat = log.length ∧
      ∀ beat ∈ log, (sampleHost.clock 0).millis + HEARTBEAT_CYCLE * 1000 ≤
        (sampleHost.clock beat.reading).millis := by
  have steady : Steady sampleHost.clock := by
    refine ⟨fun _ => ⟨le_rfl, show (0 : Int) < 1000 by decide⟩, fun reading => ?_⟩
    simp only [sampleHost, AeTime.millis]
    omega
  obtain ⟨eventLoop, app, reached, sent⟩ := reached_sample
  obtain ⟨log, _, counted, _, behind⟩ := heartbeats_apart steady reached
  refine ⟨eventLoop, app, log, reached, ?_, counted, behind⟩
  rw [← counted, sent, List.countP_append, List.countP_cons, answer_quiet]
  rfl

end IpcamSearch.SearchDeviceLoop
