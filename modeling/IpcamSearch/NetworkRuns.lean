import IpcamSearch.NetworkEffects
import IpcamSearch.Registry.PrintableNames

/-! What the list of the PC tool has to do with the cameras of its network, in every run. -/

set_option autoImplicit false

namespace IpcamSearch.Network

open Memory IpcamList Message SearchPc SearchDeviceLoop WireRoundTrip KeyedList Run

namespace Handled

/-- It brings the MAC into the list. -/
def Registers (mac : Mac) : Handled → Prop
  | packet arrived => Registering arrived.message ∧ carriedMac arrived.message = mac
  | renew => False

/-- It takes the MAC out of the list. -/
def Removes (mac : Mac) : Handled → Prop
  | packet arrived => arrived.IsLogout ∧ Alike mac (carriedMac arrived.message)
  | renew => True

end Handled

section Runs

variable {Id : Type} (site : Site Id) (ipcamDev : Pointer)

/-- The MAC came into the list and stayed there. -/
abbrev ListedIn (net : Net Id) (mac : Mac) : Prop :=
  Since (Handled.Registers mac) (Handled.Removes mac) net.handled

/-- The list and where its records come from. -/
structure Kept (net : Net Id) (cameras : List Camera) : Prop where
  represents : Represents net.heap ipcamDev cameras
  unique : (cameras.map Camera.mac).Nodup
  listed : ∀ mac, mac ∈ cameras.map Camera.mac ↔
    Since (Handled.Registers mac) (Handled.Removes mac) net.handled
  known : ∀ camera ∈ cameras, ∃ id, ∃ packet ∈ net.packets, Speaks site id packet ∧
    Registering packet.message ∧ camera.nodeInfo = carriedInfo packet.message packet.sender

structure Sound (net : Net Id) : Prop where
  honest : Honest site net
  kept : ∃ cameras, Kept site ipcamDev net cameras

variable {site} {ipcamDev} {net after : Net Id} {event : NetEvent Id} {cameras : List Camera}

theorem Effect.honest (honest : Honest site net) (effect : Effect site ipcamDev net event after) :
    Honest site after := by
  cases effect with
  | idle => exact honest
  | spoken id running packet holds speaks answers _ =>
      exact ⟨holds, honest.sent.append (.inr ⟨id, speaks, answers⟩)⟩
  | asked packet asks => exact ⟨honest.running, honest.sent.append (.inl asks)⟩
  | renewed port packet asks heap _ => exact ⟨honest.running, honest.sent.append (.inl asks)⟩
  | ticked | arrived => exact ⟨honest.running, honest.sent⟩

theorem Kept.sends (kept : Kept site ipcamDev net cameras) (running : Id → Option Running)
    (packet : Packet) :
    Kept site ipcamDev { net with running := running, packets := net.packets ++ [packet] } cameras := by
  refine ⟨kept.represents, kept.unique, kept.listed, fun camera member => ?_⟩
  obtain ⟨id, source, inside, origin⟩ := kept.known camera member
  exact ⟨id, source, List.mem_append_left _ inside, origin⟩

theorem Kept.register (kept : Kept site ipcamDev net cameras) {id : Id} {packet : Packet}
    (member : packet ∈ net.packets) (speaks : Speaks site id packet)
    (registering : Registering packet.message) {heap : IpcamHeap}
    (represents : Represents heap ipcamDev
      (announce (announced packet.message packet.sender) cameras)) :
    Kept site ipcamDev { net with heap := heap, handled := net.handled ++ [Handled.packet packet] }
      (announce (announced packet.message packet.sender) cameras) := by
  refine ⟨represents, touch_nodup revive_mac _ kept.unique, fun mac => ?_, fun camera inside => ?_⟩
  · have stays : ¬ (Handled.packet packet).Removes mac :=
      fun removes => not_logout_of_registering registering removes.1
    rw [announce, mem_keys_touch revive_mac, kept.listed, since_append]
    refine or_congr ?_ (iff_and_self.mpr fun _ => stays)
    exact ⟨fun same => ⟨registering, same.symm⟩, fun carried => carried.2.symm⟩
  · rcases mem_touch inside with rfl | ⟨old, known, rfl⟩ | known
    · exact ⟨id, packet, member, speaks, registering, rfl⟩
    · exact kept.known old known
    · exact kept.known camera known

theorem Kept.logout (kept : Kept site ipcamDev net cameras) {packet : Packet}
    (logout : packet.IsLogout) {heap : IpcamHeap} {left : List Camera}
    (represents : Represents heap ipcamDev left) (part : left.Sublist cameras)
    (stays : ∀ camera, camera ∈ left ↔
      camera ∈ cameras ∧ ¬ Alike camera.mac (carriedMac packet.message)) :
    Kept site ipcamDev { net with heap := heap, handled := net.handled ++ [Handled.packet packet] }
      left := by
  refine ⟨represents, kept.unique.sublist (part.map _), fun mac => ?_,
    fun camera inside => kept.known camera (part.subset inside)⟩
  have silent : ¬ (Handled.packet packet).Registers mac :=
    fun registers => not_logout_of_registering registers.1 logout
  rw [since_append, ← kept.listed, or_iff_right silent]
  simp only [List.mem_map, stays]
  constructor
  · rintro ⟨camera, ⟨inside, apart⟩, rfl⟩
    exact ⟨fun removes => apart removes.2, camera, inside, rfl⟩
  · rintro ⟨stay, camera, inside, rfl⟩
    exact ⟨camera, ⟨inside, fun alike => stay ⟨logout, alike⟩⟩, rfl⟩

theorem Effect.kept (kept : Kept site ipcamDev net cameras)
    (effect : Effect site ipcamDev net event after) :
    ∃ camerasAfter, Kept site ipcamDev after camerasAfter := by
  cases effect with
  | idle => exact ⟨cameras, kept⟩
  | spoken id running packet _ _ _ _ => exact ⟨cameras, kept.sends running packet⟩
  | asked packet _ => exact ⟨cameras, kept.sends net.running packet⟩
  | renewed port packet _ heap empty =>
      refine ⟨[], empty, List.nodup_nil, fun mac => ?_, fun _ member => absurd member List.not_mem_nil⟩
      rw [since_append]
      simp [Handled.Registers, Handled.Removes]
  | ticked heap update keeps updated =>
      have keepsMac (camera : Camera) : (update camera).mac = camera.mac :=
        congrArg IpcamInfo.mac (keeps camera)
      refine ⟨cameras.map update, updated cameras kept.represents, ?_, ?_, fun camera member => ?_⟩
      · rw [keys_map keepsMac]
        exact kept.unique
      · rw [keys_map keepsMac]
        exact kept.listed
      · obtain ⟨old, inside, rfl⟩ := List.mem_map.mp member
        rw [keeps]
        exact kept.known old inside
  | arrived index buf packet found id speaks heap dealt =>
      obtain ⟨device, _, told⟩ := speaks.told
      rcases told.kind with registering | logout
      · obtain ⟨known, ran, represents⟩ :=
          dealMsgFunc_registering site.allocator kept.represents registering packet.sender
        cases ran.symm.trans dealt
        exact ⟨_, kept.register (List.mem_of_getElem? found) speaks registering represents⟩
      · obtain ⟨ret, deleted⟩ := (dealt_logout site.allocator logout packet.sender heap).mp dealt
        obtain ⟨left, represents, part, stays⟩ :=
          logout_leaves kept.represents (exten_names speaks) deleted
        exact ⟨left, kept.logout logout represents part stays⟩

theorem sound_start {heap : IpcamHeap} (empty : Represents heap ipcamDev []) :
    Sound site ipcamDev (netStart heap) := by
  refine ⟨⟨fun _ _ runs => (nomatch runs), always_nil _⟩, [], empty, List.nodup_nil, fun mac => ?_,
    fun _ member => absurd member List.not_mem_nil⟩
  exact iff_of_false List.not_mem_nil (not_occurs_nil _)

variable [DecidableEq Id]

theorem Sound.specified (sound : Sound site ipcamDev net) (event : NetEvent Id) :
    Specified site ipcamDev net event := by
  obtain ⟨cameras, kept⟩ := sound.kept
  exact netStep_specified sound.honest kept.represents event

theorem Sound.step (sound : Sound site ipcamDev net)
    (stepped : netStep site ipcamDev net event = .ok after) : Sound site ipcamDev after := by
  have effect := (sound.specified event).effect after stepped
  obtain ⟨cameras, kept⟩ := sound.kept
  exact ⟨effect.honest sound.honest, effect.kept kept⟩

theorem sound_run {heap : IpcamHeap} (empty : Represents heap ipcamDev []) {events : List (NetEvent Id)}
    (ran : run (netStep site ipcamDev) (netStart heap) events = .ok net) : Sound site ipcamDev net :=
  run_keeps (sound_start empty) (fun _ _ _ sound stepped => sound.step stepped) ran

theorem Sound.goes (sound : Sound site ipcamDev net) (survives : Survives site ipcamDev net event) :
    ∃ after, netStep site ipcamDev net event = .ok after :=
  (sound.specified event).survives.mp survives

theorem arrival_listed {index : Nat} {packet : Packet} {buf : Block MAX_MSG_LEN}
    (found : net.packets[index]? = some packet) (reaches : packet.Reaches site.pcAddress PC_SERVER_PORT)
    (registering : Registering packet.message)
    (stepped : netStep site ipcamDev net (.arrival index buf) = .ok after) :
    ListedIn after (carriedMac packet.message) := by
  simp only [netStep, found, if_pos reaches] at stepped
  obtain ⟨heap, _, same⟩ := of_bind_ok stepped
  cases same
  exact since_append.mpr (.inl ⟨registering, rfl⟩)

end Runs

section Sample

/-- One camera, and the PC that looks for it. -/
def sampleSite : Site Unit where
  allocator := Allocator.bump
  pid := 7
  pcAddress := Block.ofList 4 [10, 0, 0, 1]
  address _ := Block.ofList 4 [10, 0, 0, 2]
  ipcamMac _ := sampleDevice.ipcamMac

def sampleHeap : IpcamHeap := (∅ : IpcamHeap).insert 1 default

theorem sampleHeap_empty : Represents sampleHeap (some 1) [] := represents_header 1 default rfl

def sampleBoot : NetEvent Unit :=
  .boot () sampleDevice 100 100 40000 (Block.zeros MAX_MSG_LEN) (Block.zeros MAX_MSG_LEN)

def sampleLogin : Packet where
  bytes := (loginMsg sampleDevice 100 deviceName).bytes
  sender := ⟨sampleSite.address (), 40000⟩
  target := ⟨limitedBroadcast, PC_SERVER_PORT⟩

theorem sample_booted : ∃ net, run (netStep sampleSite (some 1)) (netStart sampleHeap) [sampleBoot] =
    .ok net ∧ net.packets = [sampleLogin] ∧ (net.running ()).isSome := by
  obtain ⟨clientData, _, booted⟩ := @booted_announces _ sampleSite (some 1) (netStart sampleHeap) _ ()
    rfl sampleDevice 100 100 40000 (Block.zeros MAX_MSG_LEN) (Block.zeros MAX_MSG_LEN)
  exact ⟨_, (run_single _ _ sampleBoot).trans booted, rfl, rfl⟩

def sampleLoginRun : List (NetEvent Unit) :=
  [sampleBoot, .arrival 0 (Block.zeros MAX_MSG_LEN)]

theorem sample_listed : ∃ net, run (netStep sampleSite (some 1)) (netStart sampleHeap) sampleLoginRun =
    .ok net ∧ ListedIn net (sampleSite.ipcamMac ()) := by
  obtain ⟨booted, ran, packets, _⟩ := sample_booted
  have message : sampleLogin.message = loginMsg sampleDevice 100 deviceName :=
    Packet.message_whole rfl
  have survives : Survives sampleSite (some 1) booted (.arrival 0 (Block.zeros MAX_MSG_LEN)) := by
    intro packet cameras found _ logout _
    rw [packets] at found
    cases found
    rw [Packet.IsLogout, message] at logout
    cases logout
  obtain ⟨net, stepped⟩ := (sound_run sampleHeap_empty ran).goes survives
  refine ⟨net, ?_, ?_⟩
  · have split : sampleLoginRun = [sampleBoot] ++ [.arrival 0 (Block.zeros MAX_MSG_LEN)] := rfl
    rw [split, run_append_event, ran]
    exact stepped
  · have found : booted.packets[0]? = some sampleLogin := by
      rw [packets]
      rfl
    have registering : Registering sampleLogin.message :=
      message ▸ loginMsg_registering sampleDevice 100 deviceName
    have listed := arrival_listed found ⟨rfl, .inr rfl⟩ registering stepped
    have mac : carriedMac sampleLogin.message = sampleSite.ipcamMac () :=
      message ▸ carriedMac_withMac sampleDevice _
    rwa [mac] at listed

def sampleQuestion : List (NetEvent Unit) :=
  [sampleBoot, .search 40001, .query () 1 105 40002 (Block.zeros MAX_MSG_LEN) (Block.zeros MAX_MSG_LEN)]

theorem sample_answered : ∃ net earlier answer,
    run (netStep sampleSite (some 1)) (netStart sampleHeap) sampleQuestion = .ok net ∧
      net.packets = earlier ++ [answer] ∧ answer.IsAnswer := by
  obtain ⟨booted, ran, packets, runs⟩ := sample_booted
  let asked : Net Unit := booted.send sampleSite.pcAddress 40001
    (broadcastMsg IPCAM_SERVER_PORT (searchIpcam sampleSite.pid))
  have searched : run (netStep sampleSite (some 1)) (netStart sampleHeap) [sampleBoot, .search 40001] =
      .ok asked := by
    have split : [sampleBoot, NetEvent.search 40001] = [sampleBoot] ++ [NetEvent.search 40001] := rfl
    rw [split, run_append_event, ran]
    rfl
  obtain ⟨running, here⟩ := Option.isSome_iff_exists.mp runs
  have second : asked.packets[1]? = some ⟨searchIpcam sampleSite.pid, ⟨sampleSite.pcAddress, 40001⟩,
      (broadcastMsg IPCAM_SERVER_PORT (searchIpcam sampleSite.pid)).target⟩ := by
    simp only [asked, Net.send, packets]
    rfl
  obtain ⟨answer, isAnswer, _, _, _, _, stepped⟩ := @query_answered _ sampleSite (some 1) asked _
    (sound_run sampleHeap_empty searched).honest () running here 1 _ second
    (search_asks sampleSite 40001) 105 40002 (Block.zeros MAX_MSG_LEN) (Block.zeros MAX_MSG_LEN)
  refine ⟨{ asked with packets := asked.packets ++ [answer] }, asked.packets, answer, ?_, rfl,
    isAnswer⟩
  have split : sampleQuestion = [sampleBoot, .search 40001] ++
      [.query () 1 105 40002 (Block.zeros MAX_MSG_LEN) (Block.zeros MAX_MSG_LEN)] := rfl
  rw [split, run_append_event, searched]
  exact stepped

end Sample

section Results

variable {Id : Type} [DecidableEq Id] {site : Site Id} {ipcamDev : Pointer} {net : Net Id}
  {heap : IpcamHeap} {events : List (NetEvent Id)}

/-- Each record has the MAC, the address and the name of one camera of the network, and the
startup time of a packet that this camera sent. So the list can always be shown. -/
theorem network_records (empty : Represents heap ipcamDev [])
    (ran : run (netStep site ipcamDev) (netStart heap) events = .ok net) :
    ∃ cameras, Represents net.heap ipcamDev cameras ∧
      (∀ camera ∈ cameras, ∃ id, ∃ packet ∈ net.packets, Speaks site id packet ∧
        camera.nodeInfo = {
          ipaddr := site.address id
          mac := site.ipcamMac id
          ipcamName := deviceName
          startupTime := carriedStartupTime packet.message }) ∧
      ∃ rows, listIpcam net.heap ipcamDev = .ok rows := by
  obtain ⟨cameras, kept⟩ := (sound_run empty ran).kept
  have sources : ∀ camera ∈ cameras, ∃ id, ∃ packet ∈ net.packets, Speaks site id packet ∧
      camera.nodeInfo = {
        ipaddr := site.address id
        mac := site.ipcamMac id
        ipcamName := deviceName
        startupTime := carriedStartupTime packet.message } := by
    intro camera member
    obtain ⟨id, packet, inside, speaks, _, info⟩ := kept.known camera member
    obtain ⟨device, own, told⟩ := speaks.told
    refine ⟨id, packet, inside, speaks, info.trans ?_⟩
    rw [carriedInfo, speaks.sender, told.mac, own, told.ipcamName]
  refine ⟨cameras, kept.represents, sources, Registry.listIpcam_ok kept.represents ?_⟩
  intro camera member
  obtain ⟨_, _, _, _, info⟩ := sources camera member
  rw [info]
  exact (by decide : 0 ∈ deviceName.toList)

theorem network_records_sample : ∃ net cameras camera rows,
    run (netStep sampleSite (some 1)) (netStart sampleHeap) sampleLoginRun = .ok net ∧
    Represents net.heap (some 1) cameras ∧ camera ∈ cameras ∧
    camera.nodeInfo.ipaddr = sampleSite.address () ∧ camera.nodeInfo.ipcamName = deviceName ∧
    listIpcam net.heap (some 1) = .ok rows := by
  obtain ⟨net, ran, stays⟩ := sample_listed
  obtain ⟨known, kept⟩ := (sound_run sampleHeap_empty ran).kept
  obtain ⟨cameras, represents, sources, rows, shown⟩ := network_records sampleHeap_empty ran
  cases kept.represents.unique represents
  obtain ⟨camera, member, _⟩ := List.mem_map.mp ((kept.listed _).mpr stays)
  obtain ⟨_, _, _, _, info⟩ := sources camera member
  exact ⟨net, known, camera, rows, ran, represents, member, by rw [info], by rw [info], shown⟩

/-- No camera speaks to the PC before it is asked, except when it starts, when its timer fires
and when it ends: each ACK_ALIVE goes to the PC alone, and a query was sent before it. -/
theorem network_answers (empty : Represents heap ipcamDev [])
    (ran : run (netStep site ipcamDev) (netStart heap) events = .ok net) :
    Always (fun earlier packet => packet.IsAnswer →
      (∃ id, Speaks site id packet) ∧ packet.target = ⟨site.pcAddress, PC_SERVER_PORT⟩ ∧
        ∃ query ∈ earlier, Asks site query) net.packets := by
  intro earlier packet later split isAnswer
  rcases (sound_run empty ran).honest.sent earlier packet later split with asks | ⟨id, speaks, answers⟩
  · have message := Packet.message_whole (asks.bytes.trans (queryMsg_bytes site).symm)
    have query : IpcamSearchMsgType.ofByte? packet.message.header.type = some .queryAlive := by
      rw [message]
      exact IpcamSearchMsgType.ofByte?_toByte .queryAlive
    cases query.symm.trans isAnswer
  · exact ⟨⟨id, speaks⟩, answers isAnswer⟩

theorem network_answers_sample : ∃ (net : Net Unit) (earlier : List Packet) (answer : Packet),
    run (netStep sampleSite (some 1)) (netStart sampleHeap) sampleQuestion = .ok net ∧
    net.packets = earlier ++ [answer] ∧
    answer.target = ⟨sampleSite.pcAddress, PC_SERVER_PORT⟩ ∧
    ∃ query ∈ earlier, Asks sampleSite query := by
  obtain ⟨net, earlier, answer, ran, packets, isAnswer⟩ := sample_answered
  obtain ⟨_, target, asked⟩ := network_answers sampleHeap_empty ran earlier answer [] packets isAnswer
  exact ⟨net, earlier, answer, ran, packets, target, asked⟩

end Results

end IpcamSearch.Network
