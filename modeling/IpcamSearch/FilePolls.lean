import IpcamSearch.FileEventsProperties
import Mathlib.Data.Finset.Card
import Mathlib.Data.Finset.Range

/-! What `epoll_wait` and `select` report of the registered descriptors. -/

set_option autoImplicit false

namespace IpcamSearch.FileEvents

open Memory EventLoop Run

variable {Proc Data : Type}

structure AeFiredEvent where
  fd : Nat
  mask : Mask
deriving DecidableEq

/-- An event of `epoll_wait`, with its bits `EPOLLIN` and `EPOLLOUT`. -/
structure EpollEvent where
  fd : Nat
  events : Mask

/-- What `epoll_wait` may answer when these bits are ready: no descriptor twice, no bit that
was not asked for, and nothing is left out as long as there is room. A descriptor with an error
is reported without any bit. -/
structure EpollReport (epfd : EpollSet) (ready : Nat → Mask) (reported : List EpollEvent) : Prop where
  room : reported.length ≤ AE_SETSIZE
  distinct : (reported.map EpollEvent.fd).Nodup
  asked : ∀ e ∈ reported, ∃ events, epfd e.fd = some events ∧ e.events = events ∩ ready e.fd
  whole : reported.length < AE_SETSIZE → ∀ fd events, epfd fd = some events →
    events ∩ ready fd ≠ AE_NONE → fd ∈ reported.map EpollEvent.fd

/-- The `fired` of `aeApiPoll` in `ae_epoll.c`. -/
def epollFired (reported : List EpollEvent) : List AeFiredEvent :=
  reported.map fun e => ⟨e.fd, e.events⟩

/-- The sets after `select`. -/
def selectSets (sets : FdSets) (nfds : Nat) (ready : Nat → Mask) : FdSets where
  rfds fd := decide (fd < nfds) && (sets.rfds fd && (ready fd).readable)
  wfds fd := decide (fd < nfds) && (sets.wfds fd && (ready fd).writable)

/-- The `fired` of `aeApiPoll` in `ae_select.c`. When anything is ready, every registered
descriptor is in it. -/
def selectFired (files : Files Proc Data FdSets) (ready : Nat → Mask) : List AeFiredEvent :=
  let nfds := (files.maxfd + 1).toNat
  let sets := selectSets files.apidata nfds ready
  if (List.range nfds).any fun fd => sets.rfds fd || sets.wfds fd then
    ((List.range nfds).filter fun j => decide (files.interest j ≠ AE_NONE)).map fun j =>
      ⟨j, files.interest j ∩ ⟨sets.rfds j, sets.wfds j⟩⟩
  else []

section Epoll

variable {interest : Interest} {files : Files Proc Data EpollSet} {ready : Nat → Mask}
  {reported : List EpollEvent}

/-- There is always room, since fewer descriptors than `AE_SETSIZE` can be registered beside
one that is left out. -/
theorem epoll_whole (agrees : Agrees EpollTracks interest files)
    (report : EpollReport files.apidata ready reported) {fd : Nat}
    (asks : interest fd ∩ ready fd ≠ AE_NONE) : fd ∈ reported.map EpollEvent.fd := by
  have registered : interest fd ≠ AE_NONE := by
    intro none
    rw [none] at asks
    exact asks rfl
  have listed : files.apidata fd = some (interest fd) := by
    rw [agrees.tracked fd, if_neg registered]
  by_cases room : reported.length < AE_SETSIZE
  · exact report.whole room fd (interest fd) listed asks
  · have inside : (reported.map EpollEvent.fd).toFinset ⊆ Finset.range AE_SETSIZE := by
      intro other member
      obtain ⟨e, reportedHere, rfl⟩ := List.mem_map.mp (List.mem_toFinset.mp member)
      obtain ⟨events, asked, _⟩ := report.asked e reportedHere
      rw [agrees.tracked e.fd] at asked
      refine Finset.mem_range.mpr (agrees.inside e.fd fun none => ?_)
      rw [if_pos none] at asked
      cases asked
    have full : (Finset.range AE_SETSIZE).card ≤ (reported.map EpollEvent.fd).toFinset.card := by
      rw [Finset.card_range, List.toFinset_card_of_nodup report.distinct, List.length_map]
      exact Nat.not_lt.mp room
    have all := Finset.eq_of_subset_of_card_le inside full
    rw [← List.mem_toFinset, all]
    exact Finset.mem_range.mpr (agrees.inside fd registered)

theorem epollFired_mask (agrees : Agrees EpollTracks interest files)
    (report : EpollReport files.apidata ready reported) {found : AeFiredEvent}
    (member : found ∈ epollFired reported) : found.mask = interest found.fd ∩ ready found.fd := by
  obtain ⟨e, reportedHere, rfl⟩ := List.mem_map.mp member
  obtain ⟨events, asked, same⟩ := report.asked e reportedHere
  rw [agrees.tracked e.fd] at asked
  by_cases none : interest e.fd = AE_NONE
  · rw [if_pos none] at asked
    cases asked
  · rw [if_neg none] at asked
    cases asked
    exact same

theorem mem_epollFired (agrees : Agrees EpollTracks interest files)
    (report : EpollReport files.apidata ready reported) {fd : Nat} {mask : Mask}
    (nonempty : mask ≠ AE_NONE) :
    ⟨fd, mask⟩ ∈ epollFired reported ↔ mask = interest fd ∩ ready fd := by
  constructor
  · exact fun member => epollFired_mask agrees report member
  · rintro rfl
    obtain ⟨e, member, rfl⟩ := List.mem_map.mp (epoll_whole agrees report nonempty)
    have found : ⟨e.fd, e.events⟩ ∈ epollFired reported := List.mem_map.mpr ⟨e, member, rfl⟩
    have same : e.events = interest e.fd ∩ ready e.fd := epollFired_mask agrees report found
    rwa [same] at found

end Epoll

section Select

variable {interest : Interest} {files : Files Proc Data FdSets}

/-- `select` looks at every registered descriptor. -/
theorem below_nfds (agrees : Agrees SelectTracks interest files) {fd : Nat}
    (registered : interest fd ≠ AE_NONE) : fd < (files.maxfd + 1).toNat := by
  have bound := agrees.greatest.bound fd registered
  omega

theorem selectSets_bits (agrees : Agrees SelectTracks interest files) (ready : Nat → Mask) {fd : Nat}
    (registered : interest fd ≠ AE_NONE) :
    (⟨(selectSets files.apidata (files.maxfd + 1).toNat ready).rfds fd,
      (selectSets files.apidata (files.maxfd + 1).toNat ready).wfds fd⟩ : Mask) =
        interest fd ∩ ready fd := by
  have below := decide_eq_true (below_nfds agrees registered)
  apply Mask.ext_bits
  · simp only [selectSets, below, Bool.true_and, agrees.tracked.reads, Mask.inter_readable]
  · simp only [selectSets, below, Bool.true_and, agrees.tracked.writes, Mask.inter_writable]

theorem mem_selectFired (agrees : Agrees SelectTracks interest files) (ready : Nat → Mask) {fd : Nat}
    {mask : Mask} (nonempty : mask ≠ AE_NONE) :
    ⟨fd, mask⟩ ∈ selectFired files ready ↔ mask = interest fd ∩ ready fd := by
  have both (fd : Nat) (registered : interest fd ≠ AE_NONE) :
      interest fd ∩ ⟨(selectSets files.apidata (files.maxfd + 1).toNat ready).rfds fd,
        (selectSets files.apidata (files.maxfd + 1).toNat ready).wfds fd⟩ =
          interest fd ∩ ready fd := by
    rw [selectSets_bits agrees ready registered]
    exact Mask.ext_bits (Bool.and_self_left _ _) (Bool.and_self_left _ _)
  rw [selectFired, agrees.table]
  constructor
  · intro member
    split at member
    · obtain ⟨j, inside, same⟩ := List.mem_map.mp member
      cases same
      exact both _ (of_decide_eq_true (List.mem_filter.mp inside).2)
    · exact absurd member List.not_mem_nil
  · intro same
    have registered : interest fd ≠ AE_NONE := by
      intro none
      rw [same, none] at nonempty
      exact nonempty rfl
    have within := List.mem_range.mpr (below_nfds agrees registered)
    have bits := selectSets_bits agrees ready registered
    rw [← same] at bits
    have any : ((List.range (files.maxfd + 1).toNat).any fun fd =>
        (selectSets files.apidata (files.maxfd + 1).toNat ready).rfds fd ||
          (selectSets files.apidata (files.maxfd + 1).toNat ready).wfds fd) = true := by
      refine List.any_eq_true.mpr ⟨fd, within, ?_⟩
      rw [Bool.or_eq_true]
      exact Mask.ne_none_iff.mp (bits ▸ nonempty)
    rw [if_pos any]
    refine List.mem_map.mpr ⟨fd, List.mem_filter.mpr ⟨within, decide_eq_true registered⟩, ?_⟩
    rw [both fd registered, same]

theorem selectFired_distinct (files : Files Proc Data FdSets) (ready : Nat → Mask) :
    ((selectFired files ready).map AeFiredEvent.fd).Nodup := by
  rw [selectFired]
  split
  · rw [List.map_map]
    exact (List.nodup_range.filter _).map fun _ _ same => same
  · exact List.nodup_nil

theorem selectFired_room (agrees : Agrees SelectTracks interest files) (ready : Nat → Mask) :
    (selectFired files ready).length ≤ AE_SETSIZE := by
  have top : files.maxfd + 1 ≤ AE_SETSIZE := by
    rcases agrees.greatest.attained with none | ⟨fd, last, registered⟩
    · rw [none]
      decide
    · have inside := agrees.inside fd registered
      omega
  rw [selectFired]
  split
  · rw [List.length_map]
    have within := List.length_filter_le (fun j => decide (files.interest j ≠ AE_NONE))
      (List.range (files.maxfd + 1).toNat)
    rw [List.length_range] at within
    omega
  · exact Nat.zero_le _

end Select

/-- Registrations that both interfaces can take. -/
def FileOp.Common (accepts : Nat → Bool) : FileOp Proc Data → Prop
  | create fd _ _ _ _ => fd < FD_SETSIZE ∧ accepts fd = true
  | delete _ _ => True

theorem common_interest {accepts : Nat → Bool} {ops : List (FileOp Proc Data)}
    (common : ∀ op ∈ ops, op.Common accepts) (interest : Interest) :
    ops.foldl (interestStep (epollTakes accepts)) interest =
      ops.foldl (interestStep fun _ _ => true) interest := by
  induction ops generalizing interest with
  | nil => rfl
  | cons op ops ih =>
      obtain ⟨first, rest⟩ := List.forall_mem_cons.mp common
      have step : interestStep (epollTakes accepts) interest op =
          interestStep (fun _ _ => true) interest op := by
        cases op with
        | create fd mask nonempty proc clientData =>
            have takes : epollTakes accepts interest fd = true := by
              rw [epollTakes, first.2, Bool.true_or]
            rw [interestStep, interestStep, takes]
        | delete fd mask => rfl
      rw [List.foldl_cons, List.foldl_cons, step, ih rest]

end IpcamSearch.FileEvents
