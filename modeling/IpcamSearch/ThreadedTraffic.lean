import IpcamSearch.ThreadedRuns

/-! The threads under datagrams that register a camera or that nobody acts on, with any lines
and any sleeps. -/

set_option autoImplicit false

namespace IpcamSearch.ThreadedTool

open Memory IpcamList Message SearchPc SearchPcLoop Console KeyedList Run Threads HeapProgram Registry ReceivedBytes

section Regions

variable {msg : MsgBuf} (sender : SockaddrIn)

theorem ofMsg_stores (stores : Stores msg) :
    Region.ofMsg msg sender = .ok [.register (carriedInfo msg sender)] := by
  rcases stores with ⟨login, short⟩ | ⟨heartbeat | ackAlive, enough⟩
  · simp only [Region.ofMsg, login, remoteOfLogin_spec sender login short, ok_bind]
    rfl
  · have other := not_login_of_extension (.inl heartbeat)
    simp only [Region.ofMsg, heartbeat, remoteOfExtension_spec sender other enough, ok_bind]
    rfl
  · have other := not_login_of_extension (.inr ackAlive)
    simp only [Region.ofMsg, ackAlive, remoteOfExtension_spec sender other enough, ok_bind]
    rfl

theorem ofMsg_unhandled (unhandled : Unhandled msg) : Region.ofMsg msg sender = .ok [] := by
  unfold Unhandled at unhandled
  unfold Region.ofMsg
  cases type : IpcamSearchMsgType.ofByte? msg.header.type with
  | none => rfl
  | some label =>
      rw [type] at unhandled
      cases label <;> first | rfl | exact absurd (by decide) unhandled

end Regions

def ToolInput.Registers : ToolInput → Prop
  | datagram buf bytes _ =>
      Unhandled (received bytes buf) ∨
        Stores (received bytes buf) ∧ Terminated (received bytes buf).header.ipcamName
  | _ => True

def Region.Registers : Region → Prop
  | register remoteIpcamInfo => Terminated remoteIpcamInfo.ipcamName
  | logout _ => False
  | _ => True

theorem ofCommand_registers (cmdString : List UInt8) :
    ∀ region ∈ Region.ofCommand cmdString, region.Registers := by
  unfold Region.ofCommand
  split <;> simp [Region.Registers]

theorem regions_registers {input : ToolInput} (registers : input.Registers) :
    ∃ regions, input.regions = .ok regions ∧ ∀ region ∈ regions, region.Registers := by
  cases input with
  | line piece =>
      refine ⟨_, rfl, fun region member => ?_⟩
      obtain ⟨cmdString, _, among⟩ := List.mem_flatMap.mp member
      exact ofCommand_registers cmdString region among
  | datagram buf bytes peer =>
      rcases registers with unhandled | ⟨stores, terminated⟩
      · exact ⟨[], ofMsg_unhandled peer unhandled, List.forall_mem_nil _⟩
      · exact ⟨_, ofMsg_stores peer stores, List.forall_mem_singleton.mpr terminated⟩
  | wake => exact ⟨_, rfl, by simp [Region.Registers]⟩

section Cameras

variable {regions : List Region}

theorem names_inOrder (registers : ∀ region ∈ regions, region.Registers) :
    NamesTerminated (Region.inOrder regions).1 := by
  induction regions using List.reverseRecOn with
  | nil => exact fun _ member => absurd member List.not_mem_nil
  | append_singleton regions region ih =>
      have earlier := ih fun other member => registers other (List.mem_append_left _ member)
      have last := registers region (by simp)
      rw [inOrder_append]
      cases region with
      | register remoteIpcamInfo => exact (terminated_announce _).mpr ⟨earlier, fun _ => last⟩
      | logout => cases last
      | renew => exact fun _ member => absurd member List.not_mem_nil
      | list => exact earlier
      | clear | test => exact terminated_map (fun _ => rfl) earlier

theorem fine_of_registers (registers : ∀ region ∈ regions, region.Registers) :
    Region.Fine regions := by
  intro earlier region later split
  cases region with
  | register | renew | clear | test => trivial
  | logout extenMsg => exact (registers (.logout extenMsg) (by simp [split])).elim
  | list => exact names_inOrder fun other member => registers other (by simp [split, member])

/-- A camera with the MAC was registered, and no renew command came after it. -/
def RegisteredSinceRenew (regions : List Region) (mac : Mac) : Prop :=
  Since (fun region => ∃ remoteIpcamInfo, region = .register remoteIpcamInfo ∧ remoteIpcamInfo.mac = mac)
    (fun region => region = .renew) regions

theorem inOrder_registered (registers : ∀ region ∈ regions, region.Registers) (mac : Mac) :
    mac ∈ (Region.inOrder regions).1.map Camera.mac ↔ RegisteredSinceRenew regions mac := by
  induction regions using List.reverseRecOn with
  | nil => exact iff_of_false List.not_mem_nil (not_occurs_nil _)
  | append_singleton regions region ih =>
      have before := ih fun other member => registers other (List.mem_append_left _ member)
      have last := registers region (by simp)
      rw [inOrder_append, RegisteredSinceRenew, since_append, ← RegisteredSinceRenew, ← before]
      cases region with
      | register remoteIpcamInfo =>
          refine (mem_keys_touch revive_mac _ _ _).trans (or_congr ?_ ?_)
          · simp [eq_comm]
          · simp
      | logout => cases last
      | renew => simp [Region.react, Region.effect]
      | list => simp [Region.react, Region.effect]
      | clear => simp [Region.react, Region.effect, keys_map clear_mac]
      | test => simp [Region.react, Region.effect, keys_map test_mac]

/-- Every table shows the cameras at one moment. -/
theorem tables_inOrder {rows : List ListRow} (shown : some rows ∈ (Region.inOrder regions).2) :
    ∃ earlier later, regions = earlier ++ .list :: later ∧
      rows = (Region.inOrder earlier).1.map rowOf := by
  induction regions using List.reverseRecOn with
  | nil => cases shown
  | append_singleton regions region ih =>
      rw [inOrder_append] at shown
      rcases List.mem_append.mp shown with before | here
      · obtain ⟨earlier, later, split, same⟩ := ih before
        exact ⟨earlier, later ++ [region], by simp [split], same⟩
      · cases region with
        | list =>
            have same := List.mem_singleton.mp here
            cases same
            exact ⟨regions, [], rfl, rfl⟩
        | register | logout | renew | clear | test => simp [Region.shows] at here

end Cameras

theorem registers_entered {allocator : Allocator IpcamNode} {ipcamDev : Pointer} {heap : IpcamHeap}
    {events : List (ThreadEvent ToolThread ToolInput)} {machine : ToolMachine}
    (ran : runThreads allocator ipcamDev heap events = .ok machine)
    (registers : ∀ input : ToolInput, .feed input ∈ events → input.Registers) :
    ∀ region ∈ machine.entered.map Prod.snd, region.Registers := by
  refine entered_fed ran ?_ ?_
  · intro thread region member
    cases thread with
    | dealConsoleInput | recvMsgFromIpcam => cases member
    | maintainIpcamLink => rw [List.mem_singleton.mp member]; trivial
  · intro input regions fed found
    obtain ⟨others, same, all⟩ := regions_registers (registers input fed)
    cases same.symm.trans found
    exact all

/-- Such threads never go wrong. -/
theorem threads_run {allocator : Allocator IpcamNode} {ipcamDev : Pointer} {heap : IpcamHeap}
    (empty : Represents heap ipcamDev []) {events : List (ThreadEvent ToolThread ToolInput)}
    (registers : ∀ input : ToolInput, .feed input ∈ events → input.Registers) :
    ∃ machine, runThreads allocator ipcamDev heap events = .ok machine := by
  cases ran : runThreads allocator ipcamDev heap events with
  | ok machine => exact ⟨machine, rfl⟩
  | error fault =>
      obtain ⟨earlier, event, later, machine, split, before, outside | inside⟩ := serial_fault ran
      · obtain ⟨input, rfl, failed⟩ := outside
        obtain ⟨regions, found, _⟩ := regions_registers (registers input (by simp [split]))
        cases failed.symm.trans found
      · rw [serialStep_tool] at inside
        have entered := registers_entered before fun input member => registers input (by simp [split, member])
        obtain ⟨final, through⟩ :=
          (@regions_run allocator ipcamDev heap empty _).1.mpr (fine_of_registers entered)
        cases through.symm.trans inside

/-- The first camera logs in while `maintain_ipcam_link` is in its region, and then the list is
shown. -/
def loginAtClear : List (ThreadEvent ToolThread ToolInput) :=
  [.enter .maintainIpcamLink,
    .feed (.datagram (Block.zeros MAX_MSG_LEN) (cameraLogin 1 ⟨Block.zeros 4, 6755⟩).msg.bytes
      ⟨Block.zeros 4, 6755⟩),
    .enter .recvMsgFromIpcam] ++ List.replicate 3 (.act .maintainIpcamLink) ++
  .enter .recvMsgFromIpcam :: List.replicate 12 (.act .recvMsgFromIpcam) ++
  .feed (.line [0x6c, newline]) :: .enter .dealConsoleInput ::
    List.replicate 8 (.act .dealConsoleInput)

theorem loginAtClear_registers :
    ∀ input : ToolInput, .feed input ∈ loginAtClear → input.Registers := by
  intro input member
  have either : input = .datagram (Block.zeros MAX_MSG_LEN)
      (cameraLogin 1 ⟨Block.zeros 4, 6755⟩).msg.bytes ⟨Block.zeros 4, 6755⟩ ∨
        input = .line [0x6c, newline] := by
    simpa [loginAtClear] using member
  rcases either with rfl | rfl
  · have whole : received (cameraLogin 1 ⟨Block.zeros 4, 6755⟩).msg.bytes (Block.zeros MAX_MSG_LEN) =
        (cameraLogin 1 ⟨Block.zeros 4, 6755⟩).msg := (recvfrom_starts _ _).parse _
    rw [ToolInput.Registers, whole]
    exact .inr ⟨.inl ⟨rfl, by decide⟩, by decide⟩
  · trivial

end IpcamSearch.ThreadedTool
