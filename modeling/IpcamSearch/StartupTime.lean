import IpcamSearch.Library.Run
import IpcamSearch.WireRoundTrip

/-! The startup time that the PC records for one boot of a device. A LOGIN carries the
time of its sending there, the other two messages carry `STARTUP_TIME`. -/

set_option autoImplicit false

namespace IpcamSearch.StartupTime

open Memory IpcamList Message SearchPc SearchDevice KeyedList Run WireRoundTrip

/-- The clock readings of one boot, in the order in which `main` takes them. -/
structure Boot where
  device : Device
  loginTime : Nat
  heartbeatTime : Nat
  loggedIn : device.startupTime ≤ loginTime
  heartbeatBuilt : loginTime ≤ heartbeatTime

/-- The datagrams that a boot can send. An answer is sent from the event loop. -/
inductive Sent (boot : Boot) where
  | login
  | heartbeat (earlier : Nat)
  | ackAlive (recvMsg : IpcamSearchMsg) (sender : SockaddrIn) (now : Nat)
      (answered : boot.heartbeatTime ≤ now)

/-- A datagram on its way, with the name and the send buffer it was made of, the
address it comes from and the buffer that receives it. -/
structure Delivery (boot : Boot) where
  sent : Sent boot
  ipcamName : Block 64
  sendBuf : Block MAX_MSG_LEN
  peer : SockaddrIn
  recvBuf : Block MAX_MSG_LEN

namespace Delivery

variable {boot : Boot} (delivery : Delivery boot)

def bytes : Except Fault (List UInt8) :=
  match delivery.sent with
  | .login => broadcastLoginMsg boot.device boot.loginTime delivery.ipcamName delivery.sendBuf
  | .heartbeat earlier => do
      let clientData ←
        heartbeatBuffer boot.device boot.heartbeatTime delivery.ipcamName delivery.sendBuf
      heartbeatAfter clientData earlier
  | .ackAlive recvMsg sender now _ => do
      let (bytes, _) ←
        replayAliveMsg boot.device now delivery.ipcamName delivery.sendBuf recvMsg sender
      return bytes

/-- The number that the datagram brings for the startup time. -/
def stampOf : Nat :=
  match delivery.sent with
  | .login => boot.loginTime
  | _ => boot.device.startupTime

def msg : MsgBuf :=
  match delivery.sent with
  | .login => loginMsg boot.device boot.loginTime delivery.ipcamName
  | .heartbeat earlier =>
      heartbeatMsg boot.device boot.heartbeatTime delivery.ipcamName earlier
  | .ackAlive recvMsg _ now _ => ackMsg boot.device now delivery.ipcamName recvMsg.dealId

theorem bytes_msg : delivery.bytes = .ok delivery.msg.bytes := by
  obtain ⟨sent, ipcamName, sendBuf, peer, recvBuf⟩ := delivery
  cases sent with
  | login => exact broadcastLoginMsg_spec boot.device boot.loginTime ipcamName sendBuf
  | heartbeat earlier =>
      obtain ⟨clientData, packed, sent⟩ :=
        heartbeat_sent boot.device boot.heartbeatTime ipcamName sendBuf earlier
      simp only [bytes, packed, ok_bind, sent]
      rfl
  | ackAlive recvMsg sender now answered =>
      simp only [bytes, replayAliveMsg_spec, ok_bind]
      rfl

theorem registering : Registering delivery.msg := by
  obtain ⟨sent, ipcamName, sendBuf, peer, recvBuf⟩ := delivery
  cases sent with
  | login => exact loginMsg_registering boot.device boot.loginTime ipcamName
  | heartbeat earlier =>
      exact heartbeatMsg_registering boot.device boot.heartbeatTime ipcamName earlier
  | ackAlive recvMsg sender now answered =>
      exact ackMsg_registering boot.device now ipcamName recvMsg.dealId

def announcement : Announcement := ⟨delivery.msg, delivery.peer, delivery.registering⟩

theorem announcement_camera : delivery.announcement.camera =
    recordOf boot.device delivery.ipcamName delivery.peer (UInt32.ofNat delivery.stampOf) := by
  obtain ⟨sent, ipcamName, sendBuf, peer, recvBuf⟩ := delivery
  cases sent with
  | login => exact loginMsg_announced boot.device boot.loginTime ipcamName peer
  | heartbeat earlier =>
      exact heartbeatMsg_announced boot.device boot.heartbeatTime ipcamName peer earlier
  | ackAlive recvMsg sender now answered =>
      exact ackMsg_announced boot.device now ipcamName peer recvMsg.dealId

theorem announcement_mac : delivery.announcement.mac = boot.device.ipcamMac :=
  congrArg Camera.mac delivery.announcement_camera

end Delivery

section

variable (allocator : Allocator IpcamNode) {boot : Boot} {heap : IpcamHeap} {ipcamDev : Pointer}
  {cameras : List Camera}

def deliver (ipcamDev : Pointer) (heap : IpcamHeap) (delivery : Delivery boot) :
    Except Fault IpcamHeap := do
  let bytes ← delivery.bytes
  dealnet allocator ipcamDev heap delivery.recvBuf (some (bytes, delivery.peer))

def enter (cameras : List Camera) (delivery : Delivery boot) : List Camera :=
  enrol cameras delivery.announcement

theorem deliver_spec (represented : Represents heap ipcamDev cameras) (delivery : Delivery boot) :
    ∃ after, deliver allocator ipcamDev heap delivery = .ok after ∧
      Represents after ipcamDev (enter cameras delivery) := by
  simp only [deliver, delivery.bytes_msg, ok_bind, dealnet_whole]
  exact receive_spec allocator represented delivery.announcement

/-- The record of the device after some of its datagrams: the first of them decides
everything but the flag, unless the device was known before. -/
theorem enter_run (cameras : List Camera) (first : Delivery boot) (rest : List (Delivery boot)) :
    ∃ record, lookup Camera.mac ((first :: rest).foldl enter cameras) boot.device.ipcamMac =
        some record ∧
      record.nodeInfo = ((lookup Camera.mac cameras boot.device.ipcamMac).elim
        first.announcement.camera Camera.revive).nodeInfo := by
  induction rest using List.reverseRecOn with
  | nil =>
      refine ⟨_, (lookup_enrol cameras first.announcement _).trans (if_pos first.announcement_mac),
        rfl⟩
  | append_singleton rest last ih =>
      obtain ⟨record, found, same⟩ := ih
      refine ⟨record.revive, ?_, same⟩
      rw [← List.cons_append, List.foldl_append]
      refine (lookup_enrol _ last.announcement _).trans ((if_pos last.announcement_mac).trans ?_)
      rw [found]
      rfl

def ShowsStartup (boot : Boot) (ipcamDev : Pointer) (heap : IpcamHeap) : Prop :=
  ∃ record, recordByMac heap ipcamDev boot.device.ipcamMac = .ok (some record) ∧
    record.nodeInfo.startupTime.toNat = boot.device.startupTime

/-- The device is unknown and the datagram brings `STARTUP_TIME`, or it is known with
`STARTUP_TIME` from before. -/
def StartsWell (boot : Boot) (ipcamDev : Pointer) (heap : IpcamHeap) (first : Delivery boot) :
    Prop :=
  recordByMac heap ipcamDev boot.device.ipcamMac = .ok none ∧
      first.stampOf % 2 ^ 32 = boot.device.startupTime ∨
    ShowsStartup boot ipcamDev heap

theorem showsStartup_run_iff (represented : Represents heap ipcamDev cameras)
    (first : Delivery boot) (rest : List (Delivery boot)) :
    ∃ after, run (deliver allocator ipcamDev) heap (first :: rest) = .ok after ∧
      (ShowsStartup boot ipcamDev after ↔ StartsWell boot ipcamDev heap first) := by
  obtain ⟨after, ran, represents⟩ := run_simulates (Represents · ipcamDev)
    (fun _ _ delivery holds => deliver_spec allocator holds delivery) represented (first :: rest)
  obtain ⟨record, found, same⟩ := enter_run cameras first rest
  have shown := (recordByMac_spec represents boot.device.ipcamMac).trans (congrArg Except.ok found)
  have before := recordByMac_spec represented boot.device.ipcamMac
  refine ⟨after, ran, ?_⟩
  have recorded : ShowsStartup boot ipcamDev after ↔
      record.nodeInfo.startupTime.toNat = boot.device.startupTime := by
    constructor
    · rintro ⟨other, listed, startup⟩
      cases listed.symm.trans shown
      exact startup
    · exact fun startup => ⟨record, shown, startup⟩
  rw [recorded, same, StartsWell, ShowsStartup, before]
  cases known : lookup Camera.mac cameras boot.device.ipcamMac with
  | none =>
      rw [Option.elim_none, first.announcement_camera]
      simp [recordOf]
  | some old => simp [Camera.revive]

/-- From the first delivery on the list shows `STARTUP_TIME` exactly when that delivery
met an unknown device and brought it, or met a record that has it. -/
theorem startup_time_iff (represented : Represents heap ipcamDev cameras)
    (first : Delivery boot) (rest : List (Delivery boot)) :
    (∀ earlier later, first :: rest = earlier ++ later → earlier ≠ [] →
      ∃ after, run (deliver allocator ipcamDev) heap earlier = .ok after ∧
        ShowsStartup boot ipcamDev after) ↔ StartsWell boot ipcamDev heap first := by
  constructor
  · intro always
    obtain ⟨after, ran, shows⟩ := always [first] rest rfl (List.cons_ne_nil _ _)
    obtain ⟨other, again, decides⟩ := showsStartup_run_iff allocator represented first []
    cases ran.symm.trans again
    exact decides.mp shows
  · intro well earlier later split nonempty
    cases earlier with
    | nil => exact absurd rfl nonempty
    | cons head front =>
        rw [List.cons_append, List.cons.injEq] at split
        obtain ⟨rfl, _⟩ := split
        obtain ⟨after, ran, decides⟩ := showsStartup_run_iff allocator represented first front
        exact ⟨after, ran, decides.mpr well⟩

end

/-- A boot that sends its LOGIN one second after it took `STARTUP_TIME`. -/
def slowBoot : Boot where
  device := sampleDevice
  loginTime := 101
  heartbeatTime := 101
  loggedIn := by decide
  heartbeatBuilt := by decide

def slowDelivery (sent : Sent slowBoot) : Delivery slowBoot where
  sent := sent
  ipcamName := Block.zeros 64
  sendBuf := Block.zeros 512
  peer := ⟨Block.zeros 4, 6755⟩
  recvBuf := Block.zeros 512

theorem startup_time_iff_slowBoot :
    (∀ earlier later, [slowDelivery (.heartbeat 0), slowDelivery .login] = earlier ++ later →
      earlier ≠ [] → ∃ after, run (deliver Allocator.bump (some 1))
        ((∅ : IpcamHeap).insert 1 default) earlier = .ok after ∧
        ShowsStartup slowBoot (some 1) after) ↔
    StartsWell slowBoot (some 1) ((∅ : IpcamHeap).insert 1 default)
      (slowDelivery (.heartbeat 0)) :=
  startup_time_iff Allocator.bump (represents_header 1 default rfl) _ [slowDelivery .login]

/-- The two orders of one LOGIN and one heartbeat leave different startup times. -/
theorem login_first_differs :
    ∃ loginFirst heartbeatFirst,
      run (deliver Allocator.bump (some 1)) ((∅ : IpcamHeap).insert 1 default)
        [slowDelivery .login, slowDelivery (.heartbeat 0)] = .ok loginFirst ∧
      run (deliver Allocator.bump (some 1)) ((∅ : IpcamHeap).insert 1 default)
        [slowDelivery (.heartbeat 0), slowDelivery .login] = .ok heartbeatFirst ∧
      ¬ ShowsStartup slowBoot (some 1) loginFirst ∧
      ShowsStartup slowBoot (some 1) heartbeatFirst := by
  have created := represents_header 1 default rfl
  have unknown : recordByMac ((∅ : IpcamHeap).insert 1 default) (some 1) sampleDevice.ipcamMac =
      .ok none := recordByMac_spec created sampleDevice.ipcamMac
  obtain ⟨loginFirst, ranLogin, shownLogin⟩ := showsStartup_run_iff Allocator.bump created
    (slowDelivery .login) [slowDelivery (.heartbeat 0)]
  obtain ⟨heartbeatFirst, ranHeartbeat, shownHeartbeat⟩ := showsStartup_run_iff Allocator.bump
    created (slowDelivery (.heartbeat 0)) [slowDelivery .login]
  refine ⟨loginFirst, heartbeatFirst, ranLogin, ranHeartbeat, ?_,
    shownHeartbeat.mpr (.inl ⟨unknown, by decide⟩)⟩
  rw [shownLogin]
  rintro (⟨_, stamp⟩ | ⟨record, known, _⟩)
  · exact absurd stamp (by decide)
  · cases unknown.symm.trans known

end IpcamSearch.StartupTime
