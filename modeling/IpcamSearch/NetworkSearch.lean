import IpcamSearch.NetworkRuns

/-! A search on a network that loses datagrams, repeats them and delivers them in any order:
which cameras the list of the PC tool holds in the end. -/

set_option autoImplicit false

namespace IpcamSearch.Network

open Memory IpcamList Message SearchPc SearchDeviceLoop WireRoundTrip KeyedList Run

/-- An event of the time after a search. No camera starts or ends, the list is not deleted
again, and of the packets only those from this number on arrive at the PC. -/
def NetEvent.During {Id : Type} (base : Nat) : NetEvent Id → Prop
  | .arrival index _ => base ≤ index
  | event => event.Steady

theorem NetEvent.During.steady {Id : Type} {base : Nat} {event : NetEvent Id}
    (during : event.During base) : event.Steady := by
  cases event with
  | arrival => trivial
  | boot | heartbeat | query | signal | search | renew | tick => exact during

section Search

variable {Id : Type} (site : Site Id)

/-- From this number on the packets are queries and messages of the running cameras. -/
def FreshFrom (base : Nat) (net : Net Id) : Prop :=
  ∀ index packet, base ≤ index → net.packets[index]? = some packet →
    Asks site packet ∨
      ∃ id, (net.running id).isSome ∧ Speaks site id packet ∧ Registering packet.message

/-- How the network goes on during a search. -/
structure GoesOn (before after : Net Id) : Prop where
  running : ∀ id, (after.running id).isSome = (before.running id).isSome
  packets : before.packets <+: after.packets
  keeps : ∀ mac, ListedIn before mac → ListedIn after mac
  only : ∀ mac, ListedIn after mac →
    ListedIn before mac ∨ ∃ id, (before.running id).isSome ∧ site.ipcamMac id = mac

variable {site}

theorem GoesOn.refl (net : Net Id) : GoesOn site net net :=
  ⟨fun _ => rfl, List.prefix_rfl, fun _ => id, fun _ => .inl⟩

theorem GoesOn.trans {first second third : Net Id} (before : GoesOn site first second)
    (after : GoesOn site second third) : GoesOn site first third := by
  refine ⟨fun id => (after.running id).trans (before.running id),
    before.packets.trans after.packets, fun mac listed => after.keeps mac (before.keeps mac listed),
    fun mac listed => ?_⟩
  rcases after.only mac listed with earlier | ⟨id, runs, own⟩
  · exact before.only mac earlier
  · exact .inr ⟨id, before.running id ▸ runs, own⟩

variable {ipcamDev : Pointer} {base : Nat} {net after : Net Id} {event : NetEvent Id}

theorem FreshFrom.sends (fresh : FreshFrom site base net) {running : Id → Option Running}
    (same : ∀ id, (running id).isSome = (net.running id).isSome) {packet : Packet}
    (sent : Asks site packet ∨
      ∃ id, (net.running id).isSome ∧ Speaks site id packet ∧ Registering packet.message) :
    FreshFrom site base { net with running := running, packets := net.packets ++ [packet] } := by
  intro index other late found
  have either : Asks site other ∨
      ∃ id, (net.running id).isSome ∧ Speaks site id other ∧ Registering other.message := by
    by_cases old : index < net.packets.length
    · exact fresh index other late ((List.getElem?_append_left old).symm.trans found)
    · rw [List.getElem?_append_right (Nat.not_lt.mp old)] at found
      rw [List.mem_singleton.mp (List.mem_of_getElem? found)]
      exact sent
  refine either.imp_right ?_
  rintro ⟨id, runs, origin⟩
  exact ⟨id, (same id).trans runs, origin⟩

theorem goesOn_sends (net : Net Id) {running : Id → Option Running}
    (same : ∀ id, (running id).isSome = (net.running id).isSome) (packet : Packet) :
    GoesOn site net { net with running := running, packets := net.packets ++ [packet] } :=
  ⟨same, List.prefix_append _ _, fun _ => id, fun _ => .inl⟩

theorem goesOn_arrived (heap : IpcamHeap) {id : Id} (runs : (net.running id).isSome)
    {packet : Packet} (speaks : Speaks site id packet) (registering : Registering packet.message) :
    GoesOn site net
      { net with heap := heap, handled := net.handled ++ [Handled.packet packet] } := by
  obtain ⟨device, own, told⟩ := speaks.told
  refine ⟨fun _ => rfl, List.prefix_rfl, fun mac listed => ?_, fun mac listed => ?_⟩
  · exact since_append.mpr
      (.inr ⟨fun removes => not_logout_of_registering registering removes.1, listed⟩)
  · rcases since_append.mp listed with ⟨_, carried⟩ | ⟨_, earlier⟩
    · exact .inr ⟨id, runs, own.symm.trans (told.mac.symm.trans carried)⟩
    · exact .inl earlier

theorem registering_of_fresh (fresh : FreshFrom site base net) {index : Nat} (late : base ≤ index)
    {packet : Packet} (found : net.packets[index]? = some packet) {address : Block 4}
    (reaches : packet.Reaches address PC_SERVER_PORT) :
    ∃ id, (net.running id).isSome ∧ Speaks site id packet ∧ Registering packet.message := by
  rcases fresh index packet late found with asks | spoken
  · have port := reaches.1
    rw [asks.target] at port
    exact absurd port (by decide)
  · exact spoken

/-- One event of a search. -/
theorem effect_goesOn (fresh : FreshFrom site base net) (during : event.During base)
    (effect : Effect site ipcamDev net event after) :
    FreshFrom site base after ∧ GoesOn site net after := by
  cases effect with
  | idle => exact ⟨fresh, .refl net⟩
  | spoken id running packet _ speaks _ quiet =>
      obtain ⟨runs, registering, same⟩ := quiet during.steady
      exact ⟨fresh.sends same (.inr ⟨id, runs, speaks, registering⟩), goesOn_sends net same packet⟩
  | asked packet asks =>
      exact ⟨fresh.sends (fun _ => rfl) (.inl asks), goesOn_sends net (fun _ => rfl) packet⟩
  | renewed => exact during.elim
  | ticked => exact ⟨fresh, fun _ => rfl, List.prefix_rfl, fun _ => id, fun _ => .inl⟩
  | arrived index buf packet found id speaks heap dealt =>
      obtain ⟨other, runs, spoken, registering⟩ := @registering_of_fresh _ site base net fresh index
        during packet found packet.target.sinAddr ⟨speaks.port, .inl rfl⟩
      exact ⟨fresh, goesOn_arrived heap runs spoken registering⟩

/-- What is still there when the network has gone on. -/
theorem GoesOn.packet {before : Net Id} (goesOn : GoesOn site before net) {index : Nat}
    {packet : Packet} (found : before.packets[index]? = some packet) :
    net.packets[index]? = some packet := by
  obtain ⟨added, grown⟩ := goesOn.packets
  obtain ⟨inside, _⟩ := List.getElem?_eq_some_iff.mp found
  rw [← grown, List.getElem?_append_left inside, found]

variable [DecidableEq Id]

theorem search_step (sound : Sound site ipcamDev net) (fresh : FreshFrom site base net)
    (during : event.During base) :
    ∃ after, netStep site ipcamDev net event = .ok after ∧ Sound site ipcamDev after ∧
      FreshFrom site base after ∧ GoesOn site net after := by
  have survives : Survives site ipcamDev net event := by
    cases event with
    | arrival index buf =>
        intro packet cameras found reaches logout _
        obtain ⟨_, _, _, registering⟩ := registering_of_fresh fresh during found reaches
        exact absurd logout (not_logout_of_registering registering)
    | boot | heartbeat | query | signal | search | renew | tick => trivial
  have specified := sound.specified event
  obtain ⟨after, stepped⟩ := specified.survives.mp survives
  exact ⟨after, stepped, sound.step stepped,
    effect_goesOn fresh during (specified.effect after stepped)⟩

theorem search_run (sound : Sound site ipcamDev net) (fresh : FreshFrom site base net)
    {events : List (NetEvent Id)} (during : ∀ event ∈ events, event.During base) :
    ∃ after, run (netStep site ipcamDev) net events = .ok after ∧ Sound site ipcamDev after ∧
      FreshFrom site base after ∧ GoesOn site net after := by
  induction events generalizing net with
  | nil => exact ⟨net, rfl, sound, fresh, .refl net⟩
  | cons event events ih =>
      obtain ⟨middle, stepped, soundMiddle, freshMiddle, before⟩ :=
        search_step sound fresh (during event List.mem_cons_self)
      obtain ⟨after, ran, soundAfter, freshAfter, behind⟩ := ih soundMiddle freshMiddle
        fun other member => during other (List.mem_cons_of_mem _ member)
      refine ⟨after, ?_, soundAfter, freshAfter, before.trans behind⟩
      rw [run_cons, stepped]
      exact ran

/-- The camera takes the query with this number, and its answer arrives at the PC. -/
def AnswerArrives (site : Site Id) (ipcamDev : Pointer) (asked : Net Id) (base : Nat)
    (events : List (NetEvent Id)) (id : Id) : Prop :=
  ∃ first now port buf reply before middle arrivalBuf last,
    events = first ++ .query id base now port buf reply ::
      (middle ++ .arrival before.packets.length arrivalBuf :: last) ∧
    run (netStep site ipcamDev) asked first = .ok before

theorem answer_listed (sound : Sound site ipcamDev net) (fresh : FreshFrom site base net)
    {events : List (NetEvent Id)} (during : ∀ event ∈ events, event.During base) {query : Packet}
    (asks : Asks site query) (found : net.packets[base]? = some query) {id : Id}
    (runs : (net.running id).isSome) (arrives : AnswerArrives site ipcamDev net base events id)
    (ran : run (netStep site ipcamDev) net events = .ok after) :
    ListedIn after (site.ipcamMac id) := by
  obtain ⟨first, now, port, buf, reply, before, middle, arrivalBuf, last, rfl, ranFirst⟩ := arrives
  simp only [List.forall_mem_append, List.forall_mem_cons] at during
  obtain ⟨duringFirst, _, duringMiddle, duringArrival, duringLast⟩ := during
  -- the camera still runs when it takes the query
  obtain ⟨_, same, soundBefore, freshBefore, goesFirst⟩ := search_run sound fresh duringFirst
  cases ranFirst.symm.trans same
  have stillRuns := (goesFirst.running id).trans runs
  obtain ⟨running, here⟩ := Option.isSome_iff_exists.mp stillRuns
  obtain ⟨answer, _, speaks, _, registering, reaches, answered⟩ := @query_answered _ site ipcamDev
    before _ soundBefore.honest id running here base query (goesFirst.packet found) asks now port
    buf reply
  -- the answer is in the network when it arrives
  have freshAnswered := freshBefore.sends (fun _ => rfl) (.inr ⟨id, stillRuns, speaks, registering⟩)
  obtain ⟨waiting, ranMiddle, soundWaiting, freshWaiting, goesMiddle⟩ :=
    search_run (soundBefore.step answered) freshAnswered duringMiddle
  have waits : waiting.packets[before.packets.length]? = some answer :=
    goesMiddle.packet List.getElem?_concat_length
  obtain ⟨arrived, stepped, soundArrived, freshArrived, _⟩ :=
    search_step soundWaiting freshWaiting duringArrival
  obtain ⟨final, ranLast, _, _, goesLast⟩ := search_run soundArrived freshArrived duringLast
  have ranAll : run (netStep site ipcamDev) net (first ++ .query id base now port buf reply ::
      (middle ++ .arrival before.packets.length arrivalBuf :: last)) = .ok final := by
    simp only [run_append, run_cons, ranFirst, answered, ranMiddle, stepped, ranLast, ok_bind]
  cases ranAll.symm.trans ran
  obtain ⟨device, own, told⟩ := speaks.told
  have listed := goesLast.keeps _ (arrival_listed waits reaches registering stepped)
  rwa [told.mac, own] at listed

/-- After a renewed search the program goes on whatever is lost, repeated or reordered. Its list
holds running cameras only, and every running camera that takes the query and whose answer arrives. -/
theorem search_finds {heap : IpcamHeap} (empty : Represents heap ipcamDev [])
    {earlier : List (NetEvent Id)}
    (ran : run (netStep site ipcamDev) (netStart heap) earlier = .ok net) (port : UInt16)
    {events : List (NetEvent Id)} (during : ∀ event ∈ events, event.During net.packets.length) :
    ∃ asked after cameras, netStep site ipcamDev net (.renew port) = .ok asked ∧
      run (netStep site ipcamDev) asked events = .ok after ∧
      Represents after.heap ipcamDev cameras ∧ (cameras.map Camera.mac).Nodup ∧
      (∀ camera ∈ cameras, ∃ id, (net.running id).isSome ∧ camera.mac = site.ipcamMac id) ∧
      ∀ id, (net.running id).isSome →
        AnswerArrives site ipcamDev asked net.packets.length events id →
        site.ipcamMac id ∈ cameras.map Camera.mac := by
  have sound := sound_run empty ran
  obtain ⟨known, kept⟩ := sound.kept
  obtain ⟨query, cleared, asks, _, asked⟩ := @renewed_asks _ site ipcamDev net _ _ kept.represents port
  have fresh : FreshFrom site net.packets.length { net with
      packets := net.packets ++ [query]
      heap := cleared
      handled := net.handled ++ [Handled.renew] } := by
    intro index packet late found
    rw [List.getElem?_append_right late] at found
    rw [List.mem_singleton.mp (List.mem_of_getElem? found)]
    exact .inl asks
  obtain ⟨after, went, soundAfter, _, goesOn⟩ := search_run (sound.step asked) fresh during
  obtain ⟨cameras, keptAfter⟩ := soundAfter.kept
  refine ⟨_, after, cameras, asked, went, keptAfter.represents, keptAfter.unique, ?_, ?_⟩
  · intro camera member
    have listed := (keptAfter.listed camera.mac).mp (List.mem_map_of_mem member)
    rcases goesOn.only camera.mac listed with before | ⟨id, runs, own⟩
    · exact absurd (since_append.mp before) (by simp [Handled.Registers, Handled.Removes])
    · exact ⟨id, runs, own.symm⟩
  · intro id runs arrives
    rw [keptAfter.listed]
    exact answer_listed (sound.step asked) fresh during asks List.getElem?_concat_length runs arrives
      went

end Search

def sampleEvents : List (NetEvent Unit) :=
  [.query () 1 105 40002 (Block.zeros MAX_MSG_LEN) (Block.zeros MAX_MSG_LEN),
    .arrival 2 (Block.zeros MAX_MSG_LEN)]

/-- The only camera answers the search and is found. -/
theorem search_finds_sample : ∃ net asked after : Net Unit, ∃ cameras,
    run (netStep sampleSite (some 1)) (netStart sampleHeap) [sampleBoot] = .ok net ∧
    netStep sampleSite (some 1) net (.renew 40001) = .ok asked ∧
    run (netStep sampleSite (some 1)) asked sampleEvents = .ok after ∧
    Represents after.heap (some 1) cameras ∧
    sampleSite.ipcamMac () ∈ cameras.map Camera.mac := by
  obtain ⟨net, ran, packets, runs⟩ := sample_booted
  have one : net.packets.length = 1 := by rw [packets, List.length_singleton]
  have during : ∀ event ∈ sampleEvents, event.During net.packets.length := by
    have late : 1 ≤ 2 := by decide
    rw [one]
    exact List.forall_mem_cons.mpr ⟨trivial, List.forall_mem_singleton.mpr late⟩
  obtain ⟨asked, after, cameras, renewed, went, represents, _, _, finds⟩ :=
    search_finds sampleHeap_empty ran 40001 during
  refine ⟨net, asked, after, cameras, ran, renewed, went, represents, finds () runs ?_⟩
  have two : asked.packets.length = 2 := by
    simp only [netStep] at renewed
    obtain ⟨_, _, same⟩ := of_bind_ok renewed
    cases same
    rw [Net.send, List.length_append, one]
    rfl
  refine ⟨[], 105, 40002, Block.zeros MAX_MSG_LEN, Block.zeros MAX_MSG_LEN, asked, [],
    Block.zeros MAX_MSG_LEN, [], ?_, rfl⟩
  rw [one, two]
  rfl

end IpcamSearch.Network
