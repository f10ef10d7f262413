import IpcamSearch.FileEvents
import IpcamSearch.Library.Run

/-! The event table, its greatest descriptor and the kernel's view of it agree after any
registrations and deletions. -/

set_option autoImplicit false

namespace IpcamSearch.FileEvents

open Memory EventLoop Run

variable {Proc Data Apidata : Type}

/-- A call by a program. A registration is for something. -/
inductive FileOp (Proc Data : Type) where
  | create (fd : Nat) (mask : Mask) (nonempty : mask ≠ AE_NONE) (proc : Proc) (clientData : Data)
  | delete (fd : Nat) (mask : Mask)

/-- A registration is of a descriptor that fits, or is refused for its size. -/
def FileOp.Fits (fits : Nat → Prop) : FileOp Proc Data → Prop
  | create fd _ _ _ _ => fits fd ∨ AE_SETSIZE ≤ fd
  | delete _ _ => True

def fileStep (api : AeApi Apidata) (files : Files Proc Data Apidata) :
    FileOp Proc Data → Except Fault (Files Proc Data Apidata)
  | .create fd mask _ proc clientData => do
      let (_, files) ← aeCreateFileEvent api files fd mask proc clientData
      return files
  | .delete fd mask => aeDeleteFileEvent api files fd mask

/-- What is registered for, when the descriptors that `takes` holds of can be. -/
def interestStep (takes : Interest → Nat → Bool) (interest : Interest) :
    FileOp Proc Data → Interest
  | .create fd mask _ _ _ =>
      if fd < AE_SETSIZE ∧ takes interest fd then
        Function.update interest fd (interest fd ∪ mask)
      else interest
  | .delete fd mask => Function.update interest fd (interest fd \ mask)

/-- How one of the interfaces to the kernel behaves: it takes some descriptors, refuses some
and does not survive those that do not fit. -/
structure ApiLaws (api : AeApi Apidata) (takes : Interest → Nat → Bool) (fits : Nat → Prop)
    (tracks : Interest → Apidata → Prop) : Prop where
  created : tracks (fun _ => AE_NONE) api.create
  taken : ∀ {interest apidata fd mask}, tracks interest apidata → mask ≠ AE_NONE → fits fd →
    takes interest fd = true → ∃ after, api.addEvent interest apidata fd mask = .ok (some after) ∧
      tracks (Function.update interest fd (interest fd ∪ mask)) after
  refused : ∀ {interest apidata fd mask}, tracks interest apidata → mask ≠ AE_NONE → fits fd →
    takes interest fd = false → api.addEvent interest apidata fd mask = .ok none
  overrun : ∀ {interest apidata fd mask}, mask ≠ AE_NONE → ¬ fits fd →
    api.addEvent interest apidata fd mask = .error .outOfBounds
  deleted : ∀ {interest apidata fd} mask, tracks interest apidata → interest fd ≠ AE_NONE →
    ∃ after, api.delEvent (Function.update interest fd (interest fd \ mask)) apidata fd mask =
        .ok after ∧ tracks (Function.update interest fd (interest fd \ mask)) after

/-- The greatest registered descriptor, or -1. -/
structure Greatest (interest : Interest) (maxfd : Int) : Prop where
  bound : ∀ fd : Nat, interest fd ≠ AE_NONE → (fd : Int) ≤ maxfd
  attained : maxfd = -1 ∨ ∃ fd : Nat, maxfd = fd ∧ interest fd ≠ AE_NONE

/-- The table says what is registered, and so does the kernel. -/
structure Agrees (tracks : Interest → Apidata → Prop) (interest : Interest)
    (files : Files Proc Data Apidata) : Prop where
  table : files.interest = interest
  inside : ∀ fd, interest fd ≠ AE_NONE → fd < AE_SETSIZE
  greatest : Greatest interest files.maxfd
  tracked : tracks interest files.apidata
  readers : ∀ fd, (interest fd).readable = true → (files.events fd).rfileProc.isSome
  writers : ∀ fd, (interest fd).writable = true → (files.events fd).wfileProc.isSome

section Maxfd

variable {interest : Interest} {maxfd : Int} {fd : Nat}

theorem lastBelow_spec (interest : Interest) (bound : Nat) :
    (∀ fd < bound, interest fd ≠ AE_NONE → (fd : Int) ≤ lastBelow interest bound) ∧
      (lastBelow interest bound = -1 ∨
        ∃ fd < bound, lastBelow interest bound = fd ∧ interest fd ≠ AE_NONE) := by
  induction bound with
  | zero => exact ⟨fun _ below => absurd below (Nat.not_lt_zero _), .inl rfl⟩
  | succ bound ih =>
      rw [lastBelow]
      by_cases here : interest bound ≠ AE_NONE
      · rw [if_pos here]
        refine ⟨fun fd below _ => ?_, .inr ⟨bound, Nat.lt_succ_self _, rfl, here⟩⟩
        exact Int.ofNat_le.mpr (Nat.le_of_lt_succ below)
      · rw [if_neg here]
        refine ⟨fun fd below registered => ?_, ih.2.imp_right ?_⟩
        · rcases Nat.lt_succ_iff_lt_or_eq.mp below with less | same
          · exact ih.1 fd less registered
          · exact absurd (same ▸ registered) here
        · rintro ⟨fd, below, last⟩
          exact ⟨fd, Nat.lt_succ_of_lt below, last⟩

theorem Greatest.add (greatest : Greatest interest maxfd) (fd : Nat) {mask : Mask}
    (nonempty : mask ≠ AE_NONE) :
    Greatest (Function.update interest fd mask) (if maxfd < fd then fd else maxfd) := by
  refine ⟨fun other registered => ?_, ?_⟩
  · by_cases same : other = fd
    · subst same
      split <;> omega
    · rw [Function.update_of_ne same] at registered
      have bound := greatest.bound other registered
      split <;> omega
  · by_cases greater : maxfd < fd
    · rw [if_pos greater]
      exact .inr ⟨fd, rfl, by rwa [Function.update_self]⟩
    · rw [if_neg greater]
      rcases greatest.attained with none | ⟨other, top, registered⟩
      · omega
      · by_cases same : other = fd
        · subst same
          exact .inr ⟨other, top, by rwa [Function.update_self]⟩
        · exact .inr ⟨other, top, by rwa [Function.update_of_ne same]⟩

/-- The search downwards is only made when the greatest descriptor goes. -/
theorem Greatest.remove (greatest : Greatest interest maxfd) (registered : interest fd ≠ AE_NONE)
    (mask : Mask) :
    Greatest (Function.update interest fd mask)
      (if (fd : Int) = maxfd ∧ mask = AE_NONE then lastBelow (Function.update interest fd mask) fd
        else maxfd) := by
  by_cases goes : (fd : Int) = maxfd ∧ mask = AE_NONE
  · rw [if_pos goes]
    obtain ⟨top, empty⟩ := goes
    obtain ⟨bound, attained⟩ := lastBelow_spec (Function.update interest fd mask) fd
    refine ⟨fun other left => bound other ?_ left, attained.imp_right ?_⟩
    · have apart : other ≠ fd := by
        rintro rfl
        rw [Function.update_self] at left
        exact left empty
      rw [Function.update_of_ne apart] at left
      have below := greatest.bound other left
      omega
    · rintro ⟨other, _, last⟩
      exact ⟨other, last⟩
  · rw [if_neg goes]
    have here := greatest.bound fd registered
    refine ⟨fun other left => ?_, ?_⟩
    · by_cases same : other = fd
      · rwa [same]
      · rw [Function.update_of_ne same] at left
        exact greatest.bound other left
    · rcases greatest.attained with none | ⟨other, top, left⟩
      · omega
      · refine .inr ⟨other, top, ?_⟩
        by_cases same : other = fd
        · subst same
          rw [Function.update_self]
          exact fun empty => goes ⟨top.symm, empty⟩
        · rwa [Function.update_of_ne same]

end Maxfd

theorem interest_update (files : Files Proc Data Apidata) (fd : Nat) (fe : AeFileEvent Proc Data)
    (maxfd : Int) (apidata : Apidata) :
    Files.interest { maxfd := maxfd, events := Function.update files.events fd fe, apidata := apidata } =
      Function.update files.interest fd fe.mask := by
  funext other
  by_cases same : other = fd
  · subst same
    simp [Files.interest]
  · simp [Files.interest, same]

section Steps

variable {api : AeApi Apidata} {takes : Interest → Nat → Bool} {fits : Nat → Prop}
  {tracks : Interest → Apidata → Prop} {interest : Interest} {files : Files Proc Data Apidata}
  {fd : Nat} {mask : Mask}

theorem Agrees.unknown (agrees : Agrees tracks interest files) (outside : AE_SETSIZE ≤ fd) :
    interest fd = AE_NONE := by
  by_contra registered
  exact absurd (agrees.inside fd registered) (Nat.not_lt.mpr outside)

theorem create_agrees (agrees : Agrees tracks interest files) (nonempty : mask ≠ AE_NONE)
    (inside : fd < AE_SETSIZE) (proc : Proc) (clientData : Data) {apidata : Apidata}
    (tracked : tracks (Function.update interest fd (interest fd ∪ mask)) apidata) :
    Agrees tracks (Function.update interest fd (interest fd ∪ mask)) {
      maxfd := if files.maxfd < fd then fd else files.maxfd
      events := Function.update files.events fd {
        mask := (files.events fd).mask ∪ mask
        rfileProc := if mask.readable then some proc else (files.events fd).rfileProc
        wfileProc := if mask.writable then some proc else (files.events fd).wfileProc
        clientData := some clientData }
      apidata := apidata } where
  table := by
    rw [interest_update, agrees.table]
    exact congrArg (Function.update interest fd <| · ∪ mask) (congrFun agrees.table fd)
  inside other registered := by
    by_cases same : other = fd
    · rwa [same]
    · rw [Function.update_of_ne same] at registered
      exact agrees.inside other registered
  greatest := agrees.greatest.add fd (Mask.union_ne_none nonempty)
  tracked := tracked
  readers other reads := by
    by_cases same : other = fd
    · subst same
      simp only [Function.update_self, Mask.union_readable, Bool.or_eq_true] at reads ⊢
      rcases reads with before | now
      · split
        · rfl
        · exact agrees.readers other before
      · rw [if_pos now]
        rfl
    · simp only [Function.update_of_ne same] at reads ⊢
      exact agrees.readers other reads
  writers other writes := by
    by_cases same : other = fd
    · subst same
      simp only [Function.update_self, Mask.union_writable, Bool.or_eq_true] at writes ⊢
      rcases writes with before | now
      · split
        · rfl
        · exact agrees.writers other before
      · rw [if_pos now]
        rfl
    · simp only [Function.update_of_ne same] at writes ⊢
      exact agrees.writers other writes

/-- What a registration returns, and what it leaves registered. -/
theorem create_spec (laws : ApiLaws api takes fits tracks) (agrees : Agrees tracks interest files)
    (nonempty : mask ≠ AE_NONE) (fitting : fits fd ∨ AE_SETSIZE ≤ fd) (proc : Proc)
    (clientData : Data) :
    ∃ code after, aeCreateFileEvent api files fd mask proc clientData = .ok (code, after) ∧
      (code = AE_OK ↔ fd < AE_SETSIZE ∧ takes interest fd = true) ∧
      Agrees tracks (interestStep takes interest (.create fd mask nonempty proc clientData)) after := by
  have refusal : AE_ERR ≠ AE_OK := by decide
  by_cases inside : fd < AE_SETSIZE
  · have fitsHere := fitting.resolve_right (Nat.not_le.mpr inside)
    have tracked := agrees.tracked
    cases took : takes interest fd with
    | true =>
        obtain ⟨apidata, added, tracksAfter⟩ := laws.taken tracked nonempty fitsHere took
        have kept := create_agrees agrees nonempty inside proc clientData tracksAfter
        have next : interestStep takes interest (.create fd mask nonempty proc clientData) =
            Function.update interest fd (interest fd ∪ mask) := if_pos ⟨inside, took⟩
        rw [← next] at kept
        refine ⟨AE_OK, _, ?_, iff_of_true rfl ⟨inside, rfl⟩, kept⟩
        simp only [aeCreateFileEvent, if_neg (Nat.not_le.mpr inside), agrees.table, added, ok_bind]
        rfl
    | false =>
        have added := laws.refused tracked nonempty fitsHere took
        refine ⟨AE_ERR, files, ?_, iff_of_false refusal (by simp), ?_⟩
        · simp only [aeCreateFileEvent, if_neg (Nat.not_le.mpr inside), agrees.table, added, ok_bind]
          rfl
        · rwa [interestStep, if_neg (by simp [took])]
  · refine ⟨AE_ERR, files, ?_, iff_of_false refusal (fun both => inside both.1), ?_⟩
    · simp only [aeCreateFileEvent, if_pos (Nat.not_lt.mp inside)]
      rfl
    · rwa [interestStep, if_neg (fun both => inside both.1)]

theorem create_overrun (laws : ApiLaws api takes fits tracks) (nonempty : mask ≠ AE_NONE)
    (outside : ¬ (fits fd ∨ AE_SETSIZE ≤ fd)) (proc : Proc) (clientData : Data) :
    aeCreateFileEvent api files fd mask proc clientData = .error .outOfBounds := by
  rw [not_or] at outside
  simp only [aeCreateFileEvent, if_neg outside.2, laws.overrun nonempty outside.1, error_bind]

theorem delete_agrees (agrees : Agrees tracks interest files) (registered : interest fd ≠ AE_NONE)
    (mask : Mask) {apidata : Apidata}
    (tracked : tracks (Function.update interest fd (interest fd \ mask)) apidata) :
    Agrees tracks (Function.update interest fd (interest fd \ mask)) {
      maxfd :=
        if (fd : Int) = files.maxfd ∧ interest fd \ mask = AE_NONE then
          lastBelow (Function.update interest fd (interest fd \ mask)) fd
        else files.maxfd
      events := Function.update files.events fd
        { files.events fd with mask := interest fd \ mask }
      apidata := apidata } where
  table := by rw [interest_update, agrees.table]
  inside other left := by
    by_cases same : other = fd
    · exact same ▸ agrees.inside fd registered
    · rw [Function.update_of_ne same] at left
      exact agrees.inside other left
  greatest := agrees.greatest.remove registered (interest fd \ mask)
  tracked := tracked
  readers other reads := by
    by_cases same : other = fd
    · subst same
      simp only [Function.update_self, Mask.sdiff_readable, Bool.and_eq_true] at reads ⊢
      exact agrees.readers other reads.1
    · simp only [Function.update_of_ne same] at reads ⊢
      exact agrees.readers other reads
  writers other writes := by
    by_cases same : other = fd
    · subst same
      simp only [Function.update_self, Mask.sdiff_writable, Bool.and_eq_true] at writes ⊢
      exact agrees.writers other writes.1
    · simp only [Function.update_of_ne same] at writes ⊢
      exact agrees.writers other writes

theorem delete_spec (laws : ApiLaws api takes fits tracks) (agrees : Agrees tracks interest files)
    (fd : Nat) (mask : Mask) :
    ∃ after, aeDeleteFileEvent api files fd mask = .ok after ∧
      Agrees tracks (Function.update interest fd (interest fd \ mask)) after := by
  have unchanged (unknown : interest fd = AE_NONE) :
      Function.update interest fd (interest fd \ mask) = interest := by
    rw [unknown, Mask.none_sdiff, ← unknown, Function.update_eq_self]
  have here : (files.events fd).mask = interest fd := congrFun agrees.table fd
  by_cases inside : fd < AE_SETSIZE
  · by_cases unknown : interest fd = AE_NONE
    · refine ⟨files, ?_, by rwa [unchanged unknown]⟩
      simp only [aeDeleteFileEvent, if_neg (Nat.not_le.mpr inside), here, if_pos unknown]
      rfl
    · obtain ⟨apidata, deleted, tracked⟩ := laws.deleted mask agrees.tracked unknown
      refine ⟨_, ?_, delete_agrees agrees unknown mask tracked⟩
      simp only [aeDeleteFileEvent, if_neg (Nat.not_le.mpr inside), here, if_neg unknown,
        interest_update, agrees.table, deleted, ok_bind]
      rfl
  · have outside := Nat.not_lt.mp inside
    refine ⟨files, ?_, by rwa [unchanged (agrees.unknown outside)]⟩
    simp only [aeDeleteFileEvent, if_pos outside]
    rfl

/-- The rule for both interfaces: which runs go through, and what they leave. -/
theorem files_run (laws : ApiLaws api takes fits tracks) (agrees : Agrees tracks interest files)
    (ops : List (FileOp Proc Data)) :
    ((∃ after, run (fileStep api) files ops = .ok after) ↔ ∀ op ∈ ops, op.Fits fits) ∧
      ∀ after, run (fileStep api) files ops = .ok after →
        Agrees tracks (ops.foldl (interestStep takes) interest) after := by
  refine run_simulates_where (fun files interest => Agrees tracks interest files) (FileOp.Fits fits)
    ?_ ?_ agrees ops
  · intro files interest op agrees fitting
    cases op with
    | create fd mask nonempty proc clientData =>
        obtain ⟨code, after, created, _, kept⟩ :=
          create_spec laws agrees nonempty fitting proc clientData
        refine ⟨after, ?_, kept⟩
        simp only [fileStep, created, ok_bind]
        rfl
    | delete fd mask => exact delete_spec laws agrees fd mask
  · intro files interest op agrees outside
    cases op with
    | create fd mask nonempty proc clientData =>
        refine ⟨.outOfBounds, ?_⟩
        simp only [fileStep, create_overrun laws nonempty outside, error_bind]
    | delete fd mask => exact absurd trivial outside

theorem createFiles_agrees (laws : ApiLaws api takes fits tracks) :
    Agrees tracks (fun _ => AE_NONE) (createFiles api : Files Proc Data Apidata) := by
  refine ⟨rfl, fun fd registered => absurd rfl registered,
    ⟨fun fd registered => absurd rfl registered, .inl rfl⟩, laws.created, fun fd reads => ?_,
    fun fd writes => ?_⟩
  · cases reads
  · cases writes

end Steps

section Epoll

variable (accepts : Nat → Bool)

/-- The kernel has exactly the registered descriptors in its list. -/
def EpollTracks (interest : Interest) (epfd : EpollSet) : Prop :=
  ∀ fd, epfd fd = if interest fd = AE_NONE then none else some (interest fd)

/-- A descriptor can be registered when the kernel accepts it or has it already. -/
def epollTakes (interest : Interest) (fd : Nat) : Bool :=
  accepts fd || decide (interest fd ≠ AE_NONE)

theorem EpollTracks.update {interest : Interest} {epfd : EpollSet} (tracks : EpollTracks interest epfd)
    (fd : Nat) (mask : Mask) :
    EpollTracks (Function.update interest fd mask)
      (Function.update epfd fd (if mask = AE_NONE then none else some mask)) := by
  intro other
  by_cases same : other = fd
  · subst same
    simp only [Function.update_self]
  · simp only [Function.update_of_ne same]
    exact tracks other

theorem epoll_laws : ApiLaws (epollApi accepts) (epollTakes accepts) (fun _ => True) EpollTracks where
  created _ := rfl
  taken := by
    intro interest epfd fd mask tracks nonempty _ takes
    have merged : mask ∪ interest fd = interest fd ∪ mask :=
      Mask.ext_bits (Bool.or_comm _ _) (Bool.or_comm _ _)
    have updated := tracks.update fd (interest fd ∪ mask)
    rw [if_neg (Mask.union_ne_none nonempty)] at updated
    refine ⟨_, ?_, updated⟩
    have here := tracks fd
    by_cases new : interest fd = AE_NONE
    · have accepted : accepts fd = true := by simpa [epollTakes, new] using takes
      rw [if_pos new] at here
      simp only [epollApi, if_pos new, epollCtl, merged, accepted, here]
      rfl
    · rw [if_neg new] at here
      simp only [epollApi, if_neg new, epollCtl, merged, here]
      rfl
  refused := by
    intro interest epfd fd mask tracks _ _ refuses
    simp only [epollTakes, Bool.or_eq_false_iff, decide_eq_false_iff_not, not_not] at refuses
    simp only [epollApi, if_pos refuses.2, epollCtl, refuses.1]
    rfl
  overrun := by
    intro _ _ _ _ _ outside
    exact absurd trivial outside
  deleted := by
    intro interest epfd fd mask tracks registered
    have here := tracks fd
    rw [if_neg registered] at here
    refine ⟨_, ?_, tracks.update fd (interest fd \ mask)⟩
    by_cases gone : interest fd \ mask = AE_NONE
    · simp only [epollApi, Function.update_self, gone, Mask.none_sdiff, ne_eq, not_true_eq_false,
        if_false, if_true, epollCtl, here]
      rfl
    · simp only [epollApi, Function.update_self, Mask.sdiff_twice, gone, if_false, ne_eq,
        not_false_eq_true, if_true, epollCtl, here]
      rfl

end Epoll

section Select

/-- The sets have exactly the registered descriptors, which all fit into them. -/
structure SelectTracks (interest : Interest) (sets : FdSets) : Prop where
  reads : ∀ fd, sets.rfds fd = (interest fd).readable
  writes : ∀ fd, sets.wfds fd = (interest fd).writable
  fitting : ∀ fd, interest fd ≠ AE_NONE → fd < FD_SETSIZE

variable {mask : Mask} {fd : Nat}

theorem writeFds_fits (sets : FdSets) (fitting : fd < FD_SETSIZE) (value : Bool) :
    writeFds mask sets fd value = .ok {
      rfds := if mask.readable then Function.update sets.rfds fd value else sets.rfds
      wfds := if mask.writable then Function.update sets.wfds fd value else sets.wfds } := by
  cases mask with
  | mk readable writable =>
      simp only [writeFds, writeFd, if_pos fitting]
      cases readable <;> cases writable <;> rfl

theorem writeFds_overrun (sets : FdSets) (nonempty : mask ≠ AE_NONE) (outside : ¬ fd < FD_SETSIZE)
    (value : Bool) : writeFds mask sets fd value = .error .outOfBounds := by
  cases mask with
  | mk readable writable =>
      simp only [writeFds, writeFd, if_neg outside]
      cases readable with
      | true => rfl
      | false =>
          cases writable with
          | true => rfl
          | false => exact absurd rfl nonempty

/-- The bit of a descriptor is written where the mask has it. -/
theorem bit_updated {set : FdSet} {was : Nat → Bool} (same : ∀ other, set other = was other)
    {bit value after : Bool} (agrees : (if bit then value else was fd) = after) (other : Nat) :
    (if bit then Function.update set fd value else set) other = Function.update was fd after other := by
  by_cases here : other = fd
  · subst here
    rw [Function.update_self, ← agrees]
    cases bit with
    | true => exact Function.update_self _ _ _
    | false => exact same other
  · rw [Function.update_of_ne here]
    cases bit with
    | true => exact (Function.update_of_ne here _ _).trans (same other)
    | false => exact same other

theorem writeFds_tracks {interest : Interest} {sets : FdSets} (tracks : SelectTracks interest sets)
    (fitting : fd < FD_SETSIZE) {value : Bool} {after : Mask}
    (readable : (if mask.readable then value else (interest fd).readable) = after.readable)
    (writable : (if mask.writable then value else (interest fd).writable) = after.writable) :
    ∃ setsAfter, writeFds mask sets fd value = .ok setsAfter ∧
      SelectTracks (Function.update interest fd after) setsAfter := by
  have apply (field : Mask → Bool) (other : Nat) : Function.update (field ∘ interest) fd (field after)
      other = field (Function.update interest fd after other) :=
    (Function.apply_update (fun _ => field) interest fd after other).symm
  refine ⟨_, writeFds_fits sets fitting value, ?_, ?_, ?_⟩
  · intro other
    exact (bit_updated tracks.reads readable other).trans (apply Mask.readable other)
  · intro other
    exact (bit_updated tracks.writes writable other).trans (apply Mask.writable other)
  · intro other registered
    by_cases here : other = fd
    · exact here ▸ fitting
    · rw [Function.update_of_ne here] at registered
      exact tracks.fitting other registered

theorem set_bit (bit was : Bool) : (if bit then true else was) = (was || bit) := by
  cases bit <;> cases was <;> rfl

theorem clear_bit (bit was : Bool) : (if bit then false else was) = (was && !bit) := by
  cases bit <;> cases was <;> rfl

theorem select_laws :
    ApiLaws selectApi (fun _ _ => true) (fun fd => fd < FD_SETSIZE) SelectTracks where
  created := ⟨fun _ => rfl, fun _ => rfl, fun _ registered => absurd rfl registered⟩
  taken := by
    intro interest sets fd mask tracks _ fitting _
    obtain ⟨after, written, tracksAfter⟩ := @writeFds_tracks mask fd interest sets tracks fitting true
      (interest fd ∪ mask) (set_bit _ _) (set_bit _ _)
    refine ⟨after, ?_, tracksAfter⟩
    simp only [selectApi, written, ok_bind]
    rfl
  refused := by
    intro _ _ _ _ _ _ _ refuses
    cases refuses
  overrun := by
    intro interest sets fd mask nonempty outside
    simp only [selectApi, writeFds_overrun sets nonempty outside, error_bind]
  deleted := by
    intro interest sets fd mask tracks registered
    exact @writeFds_tracks mask fd interest sets tracks (tracks.fitting fd registered) false
      (interest fd \ mask) (clear_bit _ _) (clear_bit _ _)

end Select

theorem epoll_run (accepts : Nat → Bool) {interest : Interest} {files : Files Proc Data EpollSet}
    (agrees : Agrees EpollTracks interest files) (ops : List (FileOp Proc Data)) :
    ∃ after, run (fileStep (epollApi accepts)) files ops = .ok after ∧
      Agrees EpollTracks (ops.foldl (interestStep (epollTakes accepts)) interest) after := by
  obtain ⟨exactly, matched⟩ := files_run (epoll_laws accepts) agrees ops
  obtain ⟨after, ran⟩ := exactly.mpr fun op _ => by
    cases op with
    | create => exact .inl trivial
    | delete => trivial
  exact ⟨after, ran, matched after ran⟩

/-- With `ae_epoll.c` no registration and no deletion goes wrong. The table, the greatest
descriptor and the kernel's list always hold what is registered, and each registered event
has its procedure. -/
theorem epoll_exact (accepts : Nat → Bool) (ops : List (FileOp Proc Data)) :
    ∃ files, run (fileStep (epollApi accepts)) (createFiles (epollApi accepts)) ops = .ok files ∧
      Agrees EpollTracks (ops.foldl (interestStep (epollTakes accepts)) fun _ => AE_NONE) files :=
  epoll_run accepts (createFiles_agrees (epoll_laws accepts)) ops

end IpcamSearch.FileEvents
