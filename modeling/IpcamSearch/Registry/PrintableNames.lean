import IpcamSearch.DeleteByKey
import IpcamSearch.Library.Run
import IpcamSearch.StaleBytes

/-! Names without a terminator. Every handler copies the 64 name bytes of a message as
they are, and `list_ipcam` prints them as a string. -/

set_option autoImplicit false

namespace IpcamSearch.Registry

open Memory IpcamList Message SearchPc KeyedList Run ReceivedBytes

/-- What the PC tool does to its list: any datagram over any old contents of the
buffer, the two list parts of the watch timer and the renew command. -/
inductive TrafficEvent where
  | receive (buf : Block MAX_MSG_LEN) (arrived : Option (List UInt8 × SockaddrIn))
  | watchClear
  | watchTest
  | renew

def trafficStep (allocator : Allocator IpcamNode) (ipcamDev : Pointer) (heap : IpcamHeap) :
    TrafficEvent → Except Fault IpcamHeap
  | .receive buf arrived => dealnet allocator ipcamDev heap buf arrived
  | .watchClear => clearAllDevOnline heap ipcamDev
  | .watchTest => testThenClear heap ipcamDev
  | .renew => do
      let (_, heap) ← deleteIpcamAllNode heap ipcamDev
      return heap

/-- The messages that end in a registration, with every extension length that the
handlers survive. -/
def Stores (msg : MsgBuf) : Prop :=
  IpcamSearchMsgType.ofByte? msg.header.type = some .login ∧ msg.header.extenLen ≤ 76 ∨
    (IpcamSearchMsgType.ofByte? msg.header.type = some .heartbeat ∨
      IpcamSearchMsgType.ofByte? msg.header.type = some .ackAlive) ∧ 10 ≤ msg.header.extenLen

/-- The name is a string inside its array. -/
def Terminated (ipcamName : Block 64) : Prop := 0 ∈ ipcamName.toList

instance (ipcamName : Block 64) : Decidable (Terminated ipcamName) :=
  inferInstanceAs (Decidable (0 ∈ ipcamName.toList))

def NamesTerminated (cameras : List Camera) : Prop :=
  ∀ camera ∈ cameras, Terminated camera.nodeInfo.ipcamName

/-- Every stored name is a string, and the list can be shown. -/
def Printable (ipcamDev : Pointer) (heap : IpcamHeap) : Prop :=
  ∃ cameras, Represents heap ipcamDev cameras ∧ NamesTerminated cameras ∧
    ∃ rows, listIpcam heap ipcamDev = .ok rows

/-- A camera that the list does not have yet brings a string for its name. -/
def NewNameTerminated (msg : MsgBuf) (cameras : List Camera) : Prop :=
  carriedMac msg ∉ cameras.map Camera.mac → Terminated msg.header.ipcamName

/-- The handler stays inside its objects with this list, and stores no other name than a
string. -/
def Harmless (msg : MsgBuf) (cameras : List Camera) : Prop :=
  match IpcamSearchMsgType.ofByte? msg.header.type with
  | some .login => msg.header.extenLen ≤ 76 ∧ NewNameTerminated msg cameras
  | some .logout => Deletable msg.extenMsg cameras
  | some .heartbeat => 10 ≤ msg.header.extenLen ∧ NewNameTerminated msg cameras
  | some .ackAlive => 10 ≤ msg.header.extenLen ∧ NewNameTerminated msg cameras
  | _ => True

def HarmlessEvent (ipcamDev : Pointer) (heap : IpcamHeap) : TrafficEvent → Prop
  | .receive buf (some (datagram, _)) =>
      ∀ cameras, Represents heap ipcamDev cameras → Harmless (received datagram buf) cameras
  | _ => True

theorem listRow_ok {camera : Camera} (terminated : Terminated camera.nodeInfo.ipcamName) :
    ∃ row, listRow camera = .ok row := by
  have printed : printString camera.nodeInfo.ipcamName.toList =
      .ok (camera.nodeInfo.ipcamName.toList.takeWhile fun byte => byte ≠ 0) := if_pos terminated
  simp only [listRow, printed, ok_bind]
  exact ⟨_, rfl⟩

theorem listIpcam_ok {heap : IpcamHeap} {ipcamDev : Pointer} {cameras : List Camera}
    (represented : Represents heap ipcamDev cameras) (terminated : NamesTerminated cameras) :
    ∃ rows, listIpcam heap ipcamDev = .ok rows := by
  rw [listIpcam_spec represented]
  clear represented
  induction cameras with
  | nil => exact ⟨[], rfl⟩
  | cons camera cameras ih =>
      obtain ⟨row, shown⟩ := listRow_ok (terminated camera List.mem_cons_self)
      obtain ⟨rows, others⟩ := ih fun other member => terminated other (List.mem_cons_of_mem _ member)
      refine ⟨row :: rows, ?_⟩
      rw [List.mapM_cons, shown, others]
      rfl

theorem listRow_fault {camera : Camera} (missing : ¬ Terminated camera.nodeInfo.ipcamName) :
    listRow camera = .error .outOfBounds := by
  have unprinted : printString camera.nodeInfo.ipcamName.toList = .error .outOfBounds :=
    if_neg missing
  simp only [listRow, unprinted, error_bind]

/-- A name without a terminator makes `list_ipcam` read on behind it. -/
theorem listIpcam_fault {heap : IpcamHeap} {ipcamDev : Pointer} {cameras : List Camera}
    (represented : Represents heap ipcamDev cameras) (missing : ¬ NamesTerminated cameras) :
    listIpcam heap ipcamDev = .error .outOfBounds := by
  rw [listIpcam_spec represented]
  clear represented
  induction cameras with
  | nil => exact absurd (fun _ member => absurd member List.not_mem_nil) missing
  | cons camera cameras ih =>
      rw [List.mapM_cons]
      by_cases first : Terminated camera.nodeInfo.ipcamName
      · obtain ⟨row, shown⟩ := listRow_ok first
        rw [shown, ih fun others => missing (List.forall_mem_cons.mpr ⟨first, others⟩)]
        rfl
      · rw [listRow_fault first]
        rfl

theorem listIpcam_names {heap : IpcamHeap} {ipcamDev : Pointer} {cameras : List Camera}
    (represented : Represents heap ipcamDev cameras) {rows : List ListRow}
    (listed : listIpcam heap ipcamDev = .ok rows) : NamesTerminated cameras := by
  by_contra missing
  cases (listIpcam_fault represented missing).symm.trans listed

theorem printable_iff {heap : IpcamHeap} {ipcamDev : Pointer} {cameras : List Camera}
    (represented : Represents heap ipcamDev cameras) :
    Printable ipcamDev heap ↔ NamesTerminated cameras := by
  constructor
  · rintro ⟨others, representsOthers, terminated, _⟩
    cases represented.unique representsOthers
    exact terminated
  · exact fun terminated => ⟨cameras, represented, terminated, listIpcam_ok represented terminated⟩

section Steps

variable {cameras : List Camera}

theorem terminated_map {update : Camera → Camera}
    (keeps : ∀ camera, (update camera).nodeInfo = camera.nodeInfo)
    (terminated : NamesTerminated cameras) : NamesTerminated (cameras.map update) := by
  intro camera member
  obtain ⟨old, inside, rfl⟩ := List.mem_map.mp member
  rw [keeps]
  exact terminated old inside

theorem terminated_modifyFirst (mac : Mac) :
    NamesTerminated (modifyFirst Camera.mac Camera.revive mac cameras) ↔
      NamesTerminated cameras := by
  induction cameras with
  | nil => exact Iff.rfl
  | cons camera cameras ih =>
      unfold modifyFirst
      split
      · simp only [NamesTerminated, List.forall_mem_cons]
        exact Iff.rfl
      · simp only [NamesTerminated, List.forall_mem_cons] at ih ⊢
        exact and_congr Iff.rfl ih

theorem terminated_announce (camera : Camera) :
    NamesTerminated (announce camera cameras) ↔ NamesTerminated cameras ∧
      (camera.mac ∉ cameras.map Camera.mac → Terminated camera.nodeInfo.ipcamName) := by
  unfold announce touch
  split
  · next known =>
      rw [terminated_modifyFirst]
      exact (and_iff_left fun unknown => absurd known unknown).symm
  · next unknown =>
      simp only [NamesTerminated, List.forall_mem_cons, unknown, not_false_eq_true, forall_const]
      exact and_comm

variable (allocator : Allocator IpcamNode) {heap : IpcamHeap} {ipcamDev : Pointer}

theorem dealMsgFunc_stores (represented : Represents heap ipcamDev cameras) {msg : MsgBuf}
    (stores : Stores msg) (sender : SockaddrIn) :
    ∃ after, dealMsgFunc allocator ipcamDev heap msg sender = .ok after ∧
      Represents after ipcamDev (announce (announced msg sender) cameras) := by
  rcases stores with ⟨login, short⟩ | ⟨type, enough⟩
  · rw [dealMsgFunc_login allocator heap ipcamDev login short sender]
    exact registerNode_spec allocator represented (carriedInfo msg sender)
  · rw [dealMsgFunc_extension allocator heap ipcamDev type enough sender]
    exact registerNode_spec allocator represented (carriedInfo msg sender)

/-- A registering message goes through, and the list can be shown afterwards exactly if a new
name is a string. -/
theorem stores_printable_iff (represented : Represents heap ipcamDev cameras)
    (terminated : NamesTerminated cameras) {msg : MsgBuf} (stores : Stores msg)
    (sender : SockaddrIn) :
    NewNameTerminated msg cameras ↔
      ∃ after, dealMsgFunc allocator ipcamDev heap msg sender = .ok after ∧
        Printable ipcamDev after := by
  obtain ⟨after, dealt, represents⟩ := dealMsgFunc_stores allocator represented stores sender
  have names : Printable ipcamDev after ↔ NewNameTerminated msg cameras := by
    rw [printable_iff represents, terminated_announce, and_iff_right terminated]
    exact Iff.rfl
  rw [← names, dealt]
  exact ⟨fun printable => ⟨after, rfl, printable⟩, fun ⟨_, same, printable⟩ => by
    cases same
    exact printable⟩

theorem not_ok_of_fault {outcome : Except Fault IpcamHeap} {fault : Fault}
    (failed : outcome = .error fault) : ¬ ∃ after, outcome = .ok after ∧ Printable ipcamDev after := by
  rintro ⟨after, same, _⟩
  cases failed.symm.trans same

theorem dealMsgFunc_printable_iff (represented : Represents heap ipcamDev cameras)
    (terminated : NamesTerminated cameras) (msg : MsgBuf) (sender : SockaddrIn) :
    Harmless msg cameras ↔
      ∃ after, dealMsgFunc allocator ipcamDev heap msg sender = .ok after ∧
        Printable ipcamDev after := by
  have ignored (unhandled : Unhandled msg) : ∃ after,
      dealMsgFunc allocator ipcamDev heap msg sender = .ok after ∧ Printable ipcamDev after :=
    ⟨heap, dealMsgFunc_unhandled allocator heap ipcamDev unhandled sender,
      (printable_iff represented).mpr terminated⟩
  have extension (type : IpcamSearchMsgType.ofByte? msg.header.type = some .heartbeat ∨
      IpcamSearchMsgType.ofByte? msg.header.type = some .ackAlive) :
      10 ≤ msg.header.extenLen ∧ NewNameTerminated msg cameras ↔ ∃ after,
        dealMsgFunc allocator ipcamDev heap msg sender = .ok after ∧ Printable ipcamDev after := by
    by_cases enough : 10 ≤ msg.header.extenLen
    · rw [and_iff_right enough]
      exact stores_printable_iff allocator represented terminated (.inr ⟨type, enough⟩) sender
    · exact iff_of_false (fun both => enough both.1) (not_ok_of_fault
        (dealMsgFunc_extension_short allocator heap ipcamDev type (UInt8.not_le.mp enough) sender))
  unfold Harmless
  cases type : IpcamSearchMsgType.ofByte? msg.header.type with
  | none => exact iff_of_true trivial (ignored (by simp [Unhandled, type]))
  | some label =>
      cases label with
      | login =>
          simp only
          by_cases short : msg.header.extenLen ≤ 76
          · rw [and_iff_right short]
            exact stores_printable_iff allocator represented terminated (.inl ⟨type, short⟩) sender
          · exact iff_of_false (fun both => short both.1) (not_ok_of_fault
              (dealMsgFunc_login_overrun allocator heap ipcamDev type (UInt8.not_le.mp short) sender))
      | logout =>
          simp only [dealMsgFunc, type]
          by_cases deletable : Deletable msg.extenMsg cameras
          · obtain ⟨ret, after, deleted, represents⟩ :=
              deleteIpcamNodeByMac_deletable represented deletable
            refine iff_of_true deletable ⟨after, by rw [deleted]; rfl, (printable_iff represents).mpr ?_⟩
            exact fun camera member => terminated camera (List.mem_of_mem_filter member)
          · obtain ⟨fault, failed⟩ := deleteIpcamNodeByMac_fault represented deletable
            exact iff_of_false deletable (not_ok_of_fault (by rw [failed]; rfl))
      | heartbeat => exact extension (.inl type)
      | ackAlive => exact extension (.inr type)
      | queryAlive | dhcp | ackDhcp | setIp | ackIp =>
          exact iff_of_true trivial (ignored (by simp [Unhandled, type]))

/-- One step from a list that can be shown. -/
theorem trafficStep_printable_iff (event : TrafficEvent) (printable : Printable ipcamDev heap) :
    HarmlessEvent ipcamDev heap event ↔
      ∃ after, trafficStep allocator ipcamDev heap event = .ok after ∧ Printable ipcamDev after := by
  obtain ⟨cameras, represented, terminated, _⟩ := id printable
  cases event with
  | receive buf arrived =>
      cases arrived with
      | none => exact iff_of_true trivial ⟨heap, rfl, printable⟩
      | some datagram =>
          refine Iff.trans ?_ (dealMsgFunc_printable_iff allocator represented terminated
            (received datagram.1 buf) datagram.2)
          refine ⟨fun allowed => allowed cameras represented, fun harmless others representsOthers => ?_⟩
          cases represented.unique representsOthers
          exact harmless
  | watchClear =>
      obtain ⟨after, cleared, represents⟩ := clearAllDevOnline_spec represented
      exact iff_of_true trivial ⟨after, cleared, (printable_iff represents).mpr
        (terminated_map (fun _ => rfl) terminated)⟩
  | watchTest =>
      obtain ⟨after, tested, represents⟩ := testThenClear_spec represented
      exact iff_of_true trivial ⟨after, tested, (printable_iff represents).mpr
        (terminated_map (fun _ => rfl) (terminated_map (fun _ => rfl) terminated))⟩
  | renew =>
      obtain ⟨after, deleted, represents⟩ := deleteIpcamAllNode_spec represented
      exact iff_of_true trivial ⟨after, by rw [trafficStep, deleted]; rfl,
        (printable_iff represents).mpr fun _ member => absurd member List.not_mem_nil⟩

end Steps

/-- A run goes through and every list that it reaches can be shown, exactly when each of its
messages is harmless to the list that it meets. -/
theorem stored_names_printable_iff (allocator : Allocator IpcamNode) {start : IpcamHeap}
    {ipcamDev : Pointer} (created : createEmptyIpcamLink allocator ∅ = .ok (start, ipcamDev))
    (events : List TrafficEvent) :
    ((∃ final, run (trafficStep allocator ipcamDev) start events = .ok final) ∧
        Throughout (trafficStep allocator ipcamDev) start (Printable ipcamDev) events) ↔
      EachAllowed (trafficStep allocator ipcamDev) start (HarmlessEvent ipcamDev) events := by
  obtain ⟨heap, link, made, represented⟩ := createEmptyIpcamLink_spec allocator ∅
  cases made.symm.trans created
  have initially : Printable ipcamDev start :=
    (printable_iff represented).mpr fun _ member => absurd member List.not_mem_nil
  exact keeps_through_iff initially
    (fun _ event printable => trafficStep_printable_iff allocator event printable) events

def loginRun : List TrafficEvent :=
  [.receive (filled 0) (some ((cameraLogin 1 anyPeer).msg.bytes, anyPeer))]

theorem loginRun_harmless :
    EachAllowed (trafficStep Allocator.bump (some 1)) ((∅ : IpcamHeap).insert 1 default)
      (HarmlessEvent (some 1)) loginRun := by
  intro earlier event later heap split _
  obtain ⟨-, same⟩ | ⟨_, _, impossible⟩ := List.cons_eq_append_iff.mp split
  · cases same
    have whole : received (cameraLogin 1 anyPeer).msg.bytes (filled 0) = (cameraLogin 1 anyPeer).msg :=
      (recvfrom_starts _ _).parse _
    intro cameras _
    rw [whole]
    exact ⟨by decide, fun _ => by decide⟩
  · cases (List.append_eq_nil_iff.mp impossible.symm).2

theorem stored_names_printable_iff_login :
    (∃ final, run (trafficStep Allocator.bump (some 1)) ((∅ : IpcamHeap).insert 1 default) loginRun =
      .ok final) ∧ Throughout (trafficStep Allocator.bump (some 1))
        ((∅ : IpcamHeap).insert 1 default) (Printable (some 1)) loginRun :=
  (stored_names_printable_iff Allocator.bump rfl loginRun).mpr loginRun_harmless

/-- A LOGIN whose name fills its array. -/
def unterminatedLogin : MsgBuf where
  header := { (cameraLogin 1 anyPeer).msg.header with ipcamName := List.Vector.replicate 64 65 }
  extenMsg := (cameraLogin 1 anyPeer).msg.extenMsg
  sized := rfl

def unterminatedRun : List TrafficEvent :=
  [.receive (filled 0) (some (unterminatedLogin.bytes, anyPeer))]

theorem unterminated_name_listed :
    (∃ heap, run (trafficStep Allocator.bump (some 1)) ((∅ : IpcamHeap).insert 1 default)
        unterminatedRun = .ok heap ∧ listIpcam heap (some 1) = .error .outOfBounds) ∧
    ¬ Throughout (trafficStep Allocator.bump (some 1)) ((∅ : IpcamHeap).insert 1 default)
      (Printable (some 1)) unterminatedRun := by
  have empty : Represents ((∅ : IpcamHeap).insert 1 default) (some 1) [] :=
    represents_header 1 default rfl
  obtain ⟨heap, dealt, represents⟩ := dealMsgFunc_stores Allocator.bump empty
    (.inl ⟨rfl, by decide⟩ : Stores unterminatedLogin) anyPeer
  have ran : run (trafficStep Allocator.bump (some 1)) ((∅ : IpcamHeap).insert 1 default)
      unterminatedRun = .ok heap := by
    rw [unterminatedRun, run_single, trafficStep, dealnet_whole, dealt]
  have overrun : listIpcam heap (some 1) = .error .outOfBounds := by
    rw [listIpcam_spec represents]
    rfl
  refine ⟨⟨heap, ran, overrun⟩, fun throughout => ?_⟩
  obtain ⟨_, _, _, rows, shown⟩ := throughout _ [] heap (List.append_nil _).symm ran
  cases overrun.symm.trans shown

end IpcamSearch.Registry
