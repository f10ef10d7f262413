import IpcamSearch.FileDispatch
import IpcamSearch.SearchPcLoop

/-! `main` of `ipcam_search_pcv2.c` with its event table and epoll. Procedures that leave the
table alone make the round with the table one with a plain list of file events. -/

set_option autoImplicit false

namespace IpcamSearch.FileEvents

open Memory EventLoop Run

variable {Proc Data Apidata Input TimeProc App FileEvent : Type}

/-- The procedures never change the table, and are told as file events. -/
structure Plain (procs : FileProcs Proc Data Apidata Input TimeProc App)
    (fileProc : FileEvent → AeEventLoop TimeProc → App → AeEventLoop TimeProc × App)
    (event : Proc → Input → FileEvent) : Prop where
  ops : ∀ call input files eventLoop app, procs.ops call input files eventLoop app = []
  act : ∀ call input files eventLoop app,
    procs.act call input files eventLoop app = fileProc (event call.proc input) eventLoop app

def readerOf (files : Files Proc Data Apidata) (event : AeFiredEvent) : List Proc :=
  let fe := files.events event.fd
  if (fe.mask ∩ event.mask).readable then fe.rfileProc.toList else []

variable [DecidableEq Proc]

def writerOf (files : Files Proc Data Apidata) (event : AeFiredEvent) : List Proc :=
  let fe := files.events event.fd
  if (fe.mask ∩ event.mask).writable ∧
    ((fe.mask ∩ event.mask).readable = false ∨ fe.wfileProc ≠ fe.rfileProc) then fe.wfileProc.toList
  else []

/-- The file events that the procedures of the polled descriptors stand for. -/
def polledOf (event : Proc → Input → FileEvent) (files : Files Proc Data Apidata)
    (fired : List (AeFiredEvent × Input)) : List FileEvent :=
  fired.flatMap fun (found, input) =>
    (readerOf files found ++ writerOf files found).map (event · input)

theorem dispatch_append
    (fileProc : FileEvent → AeEventLoop TimeProc → App → AeEventLoop TimeProc × App)
    (exited : App → Bool) (first second : List FileEvent) (eventLoop : AeEventLoop TimeProc)
    (app : App) :
    dispatch fileProc exited (first ++ second) eventLoop app =
      dispatch fileProc exited second (dispatch fileProc exited first eventLoop app).1
        (dispatch fileProc exited first eventLoop app).2 := by
  induction first generalizing eventLoop app with
  | nil => rfl
  | cons event first ih =>
      rw [List.cons_append, dispatch, dispatch]
      cases ended : exited app with
      | true =>
          cases second with
          | nil => simp [dispatch]
          | cons => simp [dispatch, ended]
      | false =>
          simp only [Bool.false_eq_true, if_false]
          exact ih _ _

section Rounds

variable (api : AeApi Apidata) {procs : FileProcs Proc Data Apidata Input TimeProc App}
  {fileProc : FileEvent → AeEventLoop TimeProc → App → AeEventLoop TimeProc × App}
  {event : Proc → Input → FileEvent} {tracks : Interest → Apidata → Prop}
  {state : LoopState Proc Data Apidata TimeProc App}

/-- The state is that of the plain dispatch over these file events. -/
def Dispatched (procs : FileProcs Proc Data Apidata Input TimeProc App)
    (fileProc : FileEvent → AeEventLoop TimeProc → App → AeEventLoop TimeProc × App)
    (state : LoopState Proc Data Apidata TimeProc App) (polled : List FileEvent)
    (after : LoopState Proc Data Apidata TimeProc App) : Prop :=
  after.files = state.files ∧
    (after.eventLoop, after.app) = dispatch fileProc procs.exited polled state.eventLoop state.app

omit [DecidableEq Proc] in
theorem callProc_plain (plain : Plain procs fileProc event)
    (running : procs.exited state.app = false) (proc : Proc) (found : AeFiredEvent) (input : Input) :
    ∃ after, callProc api procs (some proc) found input state = .ok after ∧
      Dispatched procs fileProc state [event proc input] after := by
  refine ⟨state.called procs ⟨proc, found.fd, (state.files.events found.fd).clientData, found.mask⟩
    input state.files, ?_, rfl, ?_⟩
  · simp only [callProc, plain.ops]
    rfl
  · simp only [LoopState.called, plain.act, dispatch, running]
    rfl

omit [DecidableEq Proc] in
theorem callReader_plain (plain : Plain procs fileProc event) (settled : Settled tracks state.files)
    (running : procs.exited state.app = false) (found : AeFiredEvent) (input : Input) :
    ∃ after, callReader api procs found input state = .ok after ∧
      Dispatched procs fileProc state ((readerOf state.files found).map (event · input)) after := by
  rw [callReader, readerOf]
  split
  · next fires =>
      obtain ⟨proc, stored⟩ := settled.reader fires
      rw [stored]
      exact callProc_plain api plain running proc found input
  · exact ⟨state, rfl, rfl, rfl⟩

theorem callWriter_plain (plain : Plain procs fileProc event) (settled : Settled tracks state.files)
    (running : procs.exited state.app = false) (found : AeFiredEvent) (input : Input) :
    ∃ after, callWriter api procs ((state.files.events found.fd).mask ∩ found.mask).readable found
        input state = .ok after ∧
      Dispatched procs fileProc state ((writerOf state.files found).map (event · input)) after := by
  rw [callWriter, writerOf]
  split
  · next fires =>
      obtain ⟨proc, stored⟩ := settled.writer fires.1
      rw [stored]
      exact callProc_plain api plain running proc found input
  · exact ⟨state, rfl, rfl, rfl⟩

omit [DecidableEq Proc] in
theorem Dispatched.trans {polled later : List FileEvent}
    {middle after : LoopState Proc Data Apidata TimeProc App}
    (first : Dispatched procs fileProc state polled middle)
    (second : Dispatched procs fileProc middle later after) :
    Dispatched procs fileProc state (polled ++ later) after := by
  refine ⟨second.1.trans first.1, ?_⟩
  rw [second.2, dispatch_append, ← first.2]

omit [DecidableEq Proc] in
theorem Dispatched.ended {middle : LoopState Proc Data Apidata TimeProc App} {polled : List FileEvent}
    (first : Dispatched procs fileProc state polled middle)
    (ended : procs.exited middle.app = true) (later : List FileEvent) :
    Dispatched procs fileProc state (polled ++ later) middle := by
  refine first.trans ⟨rfl, ?_⟩
  cases later with
  | nil => rfl
  | cons => simp [dispatch, ended]

theorem dispatchEvent_plain (plain : Plain procs fileProc event)
    (settled : Settled tracks state.files) (running : procs.exited state.app = false)
    (found : AeFiredEvent) (input : Input) :
    ∃ after, dispatchEvent api procs found input state = .ok after ∧
      Dispatched procs fileProc state
        ((readerOf state.files found ++ writerOf state.files found).map (event · input)) after := by
  obtain ⟨middle, read, first⟩ := callReader_plain api plain settled running found input
  rw [List.map_append]
  simp only [dispatchEvent, read, ok_bind]
  cases ended : procs.exited middle.app with
  | true => exact ⟨middle, rfl, first.ended ended _⟩
  | false =>
      rw [← first.1] at settled
      obtain ⟨after, wrote, second⟩ :=
        callWriter_plain api plain settled ended found input
      rw [first.1] at wrote second
      exact ⟨after, wrote, first.trans second⟩

theorem dispatchFired_plain (plain : Plain procs fileProc event)
    (settled : Settled tracks state.files) (fired : List (AeFiredEvent × Input)) :
    ∃ after, dispatchFired api procs fired state = .ok after ∧
      Dispatched procs fileProc state (polledOf event state.files fired) after := by
  induction fired generalizing state with
  | nil => exact ⟨state, rfl, rfl, rfl⟩
  | cons first fired ih =>
      obtain ⟨found, input⟩ := first
      rw [dispatchFired]
      cases ended : procs.exited state.app with
      | true =>
          have nothing : Dispatched procs fileProc state [] state := ⟨rfl, rfl⟩
          exact ⟨state, rfl, nothing.ended ended _⟩
      | false =>
          obtain ⟨middle, dispatched, here⟩ :=
            dispatchEvent_plain api plain settled ended found input
          rw [← here.1] at settled
          obtain ⟨after, rest, there⟩ := ih settled
          rw [here.1] at there
          rw [dispatched]
          refine ⟨after, rest, ?_⟩
          rw [polledOf, List.flatMap_cons]
          exact here.trans there

/-- With procedures that leave the table alone, a round is the plain round over the file events
that were polled. -/
theorem round_plain {clock : Nat → AeTime}
    {call : TimeProc → Int → AeEventLoop TimeProc → App → Int × AeEventLoop TimeProc × App}
    (plain : Plain procs fileProc event) (settled : Settled tracks state.files) (fuel : Nat)
    (fired : List (AeFiredEvent × Input)) :
    (aeProcessEvents api procs clock call AE_ALL_EVENTS fuel fired state).map
        (fun after => (after.2.files, after.2.eventLoop, after.2.app)) =
      (EventLoop.aeProcessEvents clock call fileProc procs.exited fuel
        (polledOf event state.files fired) state.eventLoop state.app).map
        fun after => (state.files, after.2.1, after.2.2) := by
  have waits : awaitNearest clock AE_ALL_EVENTS state.eventLoop =
      if state.eventLoop.timeEventHead.isEmpty then state.eventLoop
      else (aeGetTime clock state.eventLoop).2 := by
    rw [awaitNearest]
    cases state.eventLoop.timeEventHead.isEmpty <;> rfl
  have polls : pollFired AE_ALL_EVENTS state.files fired = fired := if_pos (.inr rfl)
  obtain ⟨middle, dispatched, same, plainly⟩ := @dispatchFired_plain _ _ _ _ _ _ _ _ api procs fileProc
    event tracks { state with eventLoop := awaitNearest clock AE_ALL_EVENTS state.eventLoop } plain
    settled fired
  unfold aeProcessEvents EventLoop.aeProcessEvents
  rw [if_neg (by decide), polls]
  simp only [dispatched, ok_bind]
  rw [← waits]
  generalize dispatch fileProc procs.exited (polledOf event state.files fired)
    (awaitNearest clock AE_ALL_EVENTS state.eventLoop) state.app = result at plainly
  subst plainly
  cases ended : procs.exited middle.app with
  | true => exact congrArg (fun files => Except.ok (files, middle.eventLoop, middle.app)) same
  | false =>
      cases processTimeEvents clock call fuel middle.eventLoop middle.app with
      | error fault => rfl
      | ok passed => exact congrArg (fun files => Except.ok (files, passed.2)) same

end Rounds

end IpcamSearch.FileEvents

namespace IpcamSearch.SearchPcLoop

open Memory IpcamList Message SearchPc EventLoop FileEvents Run

inductive FileProc where
  | dealcmd
  | dealnet
deriving DecidableEq

/-- What a call of `fgets` or of `recvfrom` finds. -/
structure Incoming where
  piece : Option (List UInt8)
  buf : Block MAX_MSG_LEN
  received : Option (List UInt8 × SockaddrIn)

def FileProc.event : FileProc → Incoming → FileEvent
  | dealcmd, incoming => .stdin incoming.piece
  | dealnet, incoming => .server incoming.buf incoming.received

def FileEvent.proc : FileEvent → FileProc
  | stdin _ => .dealcmd
  | server _ _ => .dealnet

def STDIN_FILENO : Nat := 0

/-- The descriptor that the procedure is registered for. -/
def FileProc.fd (pcServerFd : Nat) : FileProc → Nat
  | dealcmd => STDIN_FILENO
  | dealnet => pcServerFd

section

variable (host : Host) (accepts : Nat → Bool) (pcServerFd : Nat)

def fileProcs : FileProcs FileProc Unit EpollSet Incoming TimeProc App where
  ops _ _ _ _ _ := []
  act call incoming _ eventLoop app := (call.proc.event incoming).handle host eventLoop app
  exited := App.exited

abbrev PcState := LoopState FileProc Unit EpollSet TimeProc App

/-- `main` before it enters the loop, on a socket that it has opened. An assertion that fails ends
it with `none`. -/
def startFiles (heap : IpcamHeap) : Except Fault (Option PcState) := do
  if pcServerFd = 0 then return none
  let files := createFiles (epollApi accepts)
  let (ret, files) ←
    aeCreateFileEvent (epollApi accepts) files STDIN_FILENO AE_READABLE FileProc.dealcmd ()
  if ret = AE_ERR then return none
  let (ret, files) ←
    aeCreateFileEvent (epollApi accepts) files pcServerFd AE_READABLE FileProc.dealnet ()
  if ret = AE_ERR then return none
  let (eventLoop, app) ← start host heap
  return some { files := files, eventLoop := eventLoop, app := app, calls := [] }

/-- An iteration of `aeMain`, until the process exits. -/
def iterateFiles (state : PcState) (poll : Nat × List (AeFiredEvent × Incoming)) :
    Except Fault PcState :=
  roundStep (epollApi accepts) (fileProcs host) host.clock (TimeProc.call host) state
    ⟨AE_ALL_EVENTS, poll.1, poll.2⟩

end

def interestOf (pcServerFd : Nat) : Interest :=
  fun fd => if fd = STDIN_FILENO ∨ fd = pcServerFd then AE_READABLE else AE_NONE

/-- The table as `main` fills it. -/
structure Wired (pcServerFd : Nat) (files : Files FileProc Unit EpollSet) : Prop where
  apart : pcServerFd ≠ STDIN_FILENO
  agrees : Agrees EpollTracks (interestOf pcServerFd) files
  stored : ∀ proc : FileProc, (files.events (proc.fd pcServerFd)).rfileProc = some proc

theorem create_stores {Proc Data Apidata : Type} {api : AeApi Apidata}
    {files after : Files Proc Data Apidata} {fd : Nat} {mask : Mask} {proc : Proc} {clientData : Data}
    {ret : Int} (created : aeCreateFileEvent api files fd mask proc clientData = .ok (ret, after))
    (accepted : ret ≠ AE_ERR) :
    ret = AE_OK ∧ (mask.readable = true → (after.events fd).rfileProc = some proc) ∧
      ∀ other, other ≠ fd → after.events other = files.events other := by
  rw [aeCreateFileEvent] at created
  split at created
  · cases created
    exact absurd rfl accepted
  · cases added : api.addEvent files.interest files.apidata fd mask with
    | error fault =>
        rw [added] at created
        cases created
    | ok outcome =>
        rw [added] at created
        cases outcome with
        | none =>
            cases created
            exact absurd rfl accepted
        | some apidata =>
            cases created
            refine ⟨rfl, fun reads => ?_, fun other apart => Function.update_of_ne apart _ _⟩
            simp only [Function.update_self, if_pos reads]

theorem create_wires {accepts : Nat → Bool} {interest : Interest}
    {files after : Files FileProc Unit EpollSet} {fd : Nat} {proc : FileProc} {ret : Int}
    (agrees : Agrees EpollTracks interest files)
    (created : aeCreateFileEvent (epollApi accepts) files fd AE_READABLE proc () = .ok (ret, after))
    (accepted : ret ≠ AE_ERR) :
    Agrees EpollTracks (Function.update interest fd (interest fd ∪ AE_READABLE)) after ∧
      (after.events fd).rfileProc = some proc ∧
      ∀ other, other ≠ fd → after.events other = files.events other := by
  obtain ⟨done, stores, others⟩ := create_stores created accepted
  obtain ⟨code, next, same, codes, kept⟩ :=
    @create_spec _ _ _ _ _ _ _ _ _ fd AE_READABLE (epoll_laws accepts) agrees (by decide)
      (.inl trivial) proc ()
  rw [same] at created
  cases created
  refine ⟨?_, stores rfl, others⟩
  rwa [interestStep, if_pos (codes.mp done)] at kept

theorem interestOf_twice (pcServerFd : Nat) :
    Function.update (Function.update (fun _ => AE_NONE) STDIN_FILENO (AE_NONE ∪ AE_READABLE))
      pcServerFd (Function.update (fun _ => AE_NONE) STDIN_FILENO (AE_NONE ∪ AE_READABLE) pcServerFd ∪
        AE_READABLE) = interestOf pcServerFd := by
  funext fd
  by_cases server : fd = pcServerFd
  · subst server
    rw [Function.update_self, interestOf, if_pos (.inr rfl)]
    by_cases stdin : fd = STDIN_FILENO
    · subst stdin
      rw [Function.update_self]
      rfl
    · rw [Function.update_of_ne stdin]
      rfl
  · rw [Function.update_of_ne server, interestOf]
    by_cases stdin : fd = STDIN_FILENO
    · subst stdin
      rw [Function.update_self, if_pos (.inl rfl)]
      rfl
    · rw [Function.update_of_ne stdin, if_neg (not_or.mpr ⟨stdin, server⟩)]

/-- The assertions of `main` hold exactly when the table is the one it wants. -/
theorem startFiles_wired {host : Host} {accepts : Nat → Bool} {pcServerFd : Nat} {heap : IpcamHeap}
    {state : PcState} (begun : startFiles host accepts pcServerFd heap = .ok (some state)) :
    Wired pcServerFd state.files ∧ start host heap = .ok (state.eventLoop, state.app) := by
  rw [startFiles] at begun
  by_cases opened : pcServerFd = 0
  · rw [if_pos opened] at begun
    cases begun
  · rw [if_neg opened] at begun
    obtain ⟨⟨code, middle⟩, stdin, begun⟩ := of_bind_ok begun
    by_cases taken : code = AE_ERR
    · simp only [if_pos taken] at begun
      cases begun
    · simp only [if_neg taken] at begun
      obtain ⟨⟨ret, files⟩, server, begun⟩ := of_bind_ok begun
      by_cases takenToo : ret = AE_ERR
      · simp only [if_pos takenToo] at begun
        cases begun
      · simp only [if_neg takenToo] at begun
        obtain ⟨⟨eventLoop, app⟩, started, begun⟩ := of_bind_ok begun
        cases begun
        obtain ⟨agreesMiddle, storedFirst, _⟩ :=
          create_wires (createFiles_agrees (epoll_laws accepts)) stdin taken
        obtain ⟨agrees, storedSecond, others⟩ := create_wires agreesMiddle server takenToo
        rw [interestOf_twice] at agrees
        refine ⟨⟨opened, agrees, fun proc => ?_⟩, started⟩
        cases proc with
        | dealcmd =>
            exact (congrArg AeFileEvent.rfileProc (others _ (Ne.symm opened))).trans storedFirst
        | dealnet => exact storedSecond

section Polls

variable {pcServerFd : Nat} {files : Files FileProc Unit EpollSet} {ready : Nat → Mask}
  {reported : List EpollEvent}

theorem FileProc.fd_injective (apart : pcServerFd ≠ STDIN_FILENO) {first second : FileProc}
    (same : first.fd pcServerFd = second.fd pcServerFd) : first = second := by
  cases first with
  | dealcmd =>
      cases second with
      | dealcmd => rfl
      | dealnet => exact absurd same.symm apart
  | dealnet =>
      cases second with
      | dealcmd => exact absurd same apart
      | dealnet => rfl

theorem Wired.mask (wired : Wired pcServerFd files) (fd : Nat) :
    (files.events fd).mask = interestOf pcServerFd fd := congrFun wired.agrees.table fd

theorem interestOf_fd (pcServerFd : Nat) (proc : FileProc) :
    interestOf pcServerFd (proc.fd pcServerFd) = AE_READABLE := by
  cases proc with
  | dealcmd => exact if_pos (.inl rfl)
  | dealnet => exact if_pos (.inr rfl)

theorem interestOf_other {fd : Nat} (other : ∀ proc : FileProc, fd ≠ proc.fd pcServerFd) :
    interestOf pcServerFd fd = AE_NONE := by
  refine if_neg fun known => ?_
  rcases known with stdin | server
  · exact other .dealcmd stdin
  · exact other .dealnet server

/-- No descriptor is registered for writing. -/
theorem Wired.writerOf (wired : Wired pcServerFd files) (found : AeFiredEvent) :
    writerOf files found = [] := by
  refine if_neg fun writes => ?_
  have none : (interestOf pcServerFd found.fd).writable = false := by
    rw [interestOf]
    split <;> rfl
  rw [wired.mask, Mask.inter_writable, none] at writes
  cases writes.1

theorem Wired.readerOf_fd (wired : Wired pcServerFd files) (owner : FileProc) (mask : Mask) :
    readerOf files ⟨owner.fd pcServerFd, mask⟩ = if mask.readable then [owner] else [] := by
  simp only [readerOf, wired.mask, interestOf_fd, wired.stored owner]
  rfl

theorem Wired.readerOf_other (wired : Wired pcServerFd files) {fd : Nat}
    (other : ∀ proc : FileProc, fd ≠ proc.fd pcServerFd) (mask : Mask) :
    readerOf files ⟨fd, mask⟩ = [] := by
  simp only [readerOf, wired.mask, interestOf_other other]
  rfl

/-- What is reported of a descriptor leads to a call exactly if it is ready for reading. -/
theorem Wired.count_readerOf (wired : Wired pcServerFd files) {found : AeFiredEvent}
    (reports : found.mask = interestOf pcServerFd found.fd ∩ ready found.fd) (proc : FileProc) :
    (readerOf files found).count proc =
      if found = ⟨proc.fd pcServerFd, AE_READABLE⟩ then 1 else 0 := by
  obtain ⟨fd, mask⟩ := found
  by_cases known : ∃ owner : FileProc, fd = owner.fd pcServerFd
  · obtain ⟨owner, rfl⟩ := known
    rw [wired.readerOf_fd]
    rw [interestOf_fd] at reports
    cases reads : (ready (owner.fd pcServerFd)).readable with
    | true =>
        have full : mask = AE_READABLE :=
          reports.trans (Mask.ext_bits (by rw [Mask.inter_readable, reads]; rfl) rfl)
        subst full
        rw [if_pos (by decide), List.count_singleton]
        by_cases same : owner = proc
        · subst same
          simp
        · have apart : owner.fd pcServerFd ≠ proc.fd pcServerFd :=
            fun equal => same (FileProc.fd_injective wired.apart equal)
          simp [same, apart]
    | false =>
        have empty : mask = AE_NONE :=
          reports.trans (Mask.ext_bits (by rw [Mask.inter_readable, reads]; rfl) rfl)
        subst empty
        rw [if_neg (by decide), List.count_nil, if_neg]
        intro same
        cases congrArg AeFiredEvent.mask same
  · have other : ∀ owner : FileProc, fd ≠ owner.fd pcServerFd :=
      fun owner same => known ⟨owner, same⟩
    rw [wired.readerOf_other other, List.count_nil, if_neg]
    intro same
    exact other proc (congrArg AeFiredEvent.fd same)

theorem Wired.polledOf_procs (wired : Wired pcServerFd files)
    (fired : List (AeFiredEvent × Incoming)) :
    (polledOf FileProc.event files fired).map FileEvent.proc =
      (fired.map Prod.fst).flatMap (readerOf files) := by
  have told (proc : FileProc) (incoming : Incoming) : (proc.event incoming).proc = proc := by
    cases proc <;> rfl
  simp [polledOf, List.map_flatMap, List.flatMap_map, wired.writerOf, Function.comp_def, told]

/-- Each poll leads to one call of a procedure if its descriptor is ready, and else to none. -/
theorem Wired.count_polled (wired : Wired pcServerFd files)
    (report : EpollReport files.apidata ready reported) {fired : List (AeFiredEvent × Incoming)}
    (found : fired.map Prod.fst = epollFired reported) (proc : FileProc) :
    ((polledOf FileProc.event files fired).map FileEvent.proc).count proc =
      if (ready (proc.fd pcServerFd)).readable then 1 else 0 := by
  have counted (entries : List AeFiredEvent) (reports : ∀ entry ∈ entries,
      entry.mask = interestOf pcServerFd entry.fd ∩ ready entry.fd) :
      (entries.flatMap (readerOf files)).count proc =
        entries.count ⟨proc.fd pcServerFd, AE_READABLE⟩ := by
    induction entries with
    | nil => rfl
    | cons entry entries ih =>
        obtain ⟨here, there⟩ := List.forall_mem_cons.mp reports
        rw [List.flatMap_cons, List.count_append, wired.count_readerOf here, ih there, List.count_cons]
        simp [Nat.add_comm]
  have distinct : (epollFired reported).Nodup := by
    refine List.Nodup.of_map AeFiredEvent.fd ?_
    rw [epollFired, List.map_map]
    exact report.distinct
  have member : ⟨proc.fd pcServerFd, AE_READABLE⟩ ∈ epollFired reported ↔
      (ready (proc.fd pcServerFd)).readable = true := by
    rw [mem_epollFired wired.agrees report (by decide), interestOf_fd]
    constructor
    · intro same
      have both := congrArg Mask.readable same
      rw [Mask.inter_readable, Bool.eq_iff_iff] at both
      exact (Bool.and_eq_true _ _ ▸ both.mp rfl).2
    · intro reads
      exact Mask.ext_bits (by rw [Mask.inter_readable, reads]; rfl) rfl
  rw [wired.polledOf_procs, found,
    counted _ fun _ listed => epollFired_mask wired.agrees report listed, distinct.count]
  exact if_congr member rfl rfl

end Polls

theorem fileProcs_plain (host : Host) :
    Plain (fileProcs host) (FileEvent.handle host) FileProc.event :=
  ⟨fun _ _ _ _ _ => rfl, fun _ _ _ _ _ => rfl⟩

section Main

variable {host : Host} {accepts : Nat → Bool} {pcServerFd : Nat} {state final : PcState}

/-- A round on the table is an iteration on the file events that were polled. -/
theorem round_iterates (wired : Wired pcServerFd state.files) (fuel : Nat)
    (fired : List (AeFiredEvent × Incoming)) :
    (FileEvents.aeProcessEvents (epollApi accepts) (fileProcs host) host.clock (TimeProc.call host)
        AE_ALL_EVENTS fuel fired state).map
        (fun after => (after.2.files, after.2.eventLoop, after.2.app)) =
      (iterate host fuel (polledOf FileProc.event state.files fired) state.eventLoop state.app).map
        fun after => (state.files, after.2.1, after.2.2) :=
  round_plain _ (fileProcs_plain host) ⟨_, wired.agrees⟩ fuel fired

theorem iterateFiles_reachable (wired : Wired pcServerFd state.files)
    (reached : Reachable host state.eventLoop state.app) {poll : Nat × List (AeFiredEvent × Incoming)}
    (iterated : iterateFiles host accepts state poll = .ok final) :
    Wired pcServerFd final.files ∧ Reachable host final.eventLoop final.app := by
  rw [iterateFiles, roundStep] at iterated
  cases ended : (fileProcs host).exited state.app with
  | true =>
      rw [ended, if_pos rfl] at iterated
      cases iterated
      exact ⟨wired, reached⟩
  | false =>
      rw [ended, if_neg Bool.false_ne_true] at iterated
      obtain ⟨⟨count, after⟩, processed, same⟩ := of_bind_ok iterated
      cases same
      have told := @round_iterates host accepts _ _ wired poll.1 poll.2
      rw [processed] at told
      obtain ⟨⟨polled, eventLoop, app⟩, ran, same⟩ := of_map_ok told.symm
      obtain ⟨files, rest⟩ := Prod.mk.inj same
      obtain ⟨rfl, rfl⟩ := Prod.mk.inj rest
      exact ⟨files ▸ wired, reached.iterate ended poll.1 _ ran⟩

end Main

end IpcamSearch.SearchPcLoop
