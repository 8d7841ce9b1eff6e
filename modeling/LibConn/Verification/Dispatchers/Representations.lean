import LibConn.Verification.Dispatchers.InterestTable

/-! # The three representations

For each dispatcher: what its state must be to represent a table, which calls keep it so,
and that a run keeps it exactly when all its calls do. -/

namespace LibConn

open LibConn.Run

/-! ## poll -/

/-- One entry for each descriptor of the table, with its mask, in any order. -/
structure Entries (table : InterestTable) (fds : List PollFd) : Prop where
  once : (fds.map PollFd.fd).Nodup
  mem_iff : ∀ entry, entry ∈ fds ↔ table entry.fd ≠ 0 ∧ entry.events = pollEvents (table entry.fd)

def PollRepresents (s : DispatcherSystem PollDispatcher) : Prop :=
  Entries s.table s.disp.fds

/-- `poll_add` is called for absent descriptors only, unless it fails for want of memory
where it would not add interest; `poll_del` is called for all of a mask. -/
def PollGuard (realloc : ℕ → Bool) (s : DispatcherSystem PollDispatcher) (c : DispatcherCall) :
    Prop :=
  match c.op with
  | .add => s.table c.fd = 0 ∨
      pollGrow realloc s.disp = none ∧ s.table c.fd ||| c.event = s.table c.fd
  | .update => True
  | .del => s.table c.fd &&& ~~~c.event = 0

section Entries

variable {table : InterestTable} {disp : PollDispatcher} {fds rest : List PollFd} {fd : ℤ}
  {entry : PollFd}

theorem Entries.perm (h : Entries table fds) (hperm : rest.Perm fds) : Entries table rest where
  once := (hperm.map PollFd.fd).nodup_iff.mpr h.once
  mem_iff entry := hperm.mem_iff.trans (h.mem_iff entry)

theorem Entries.mem_fd (h : Entries table fds) : fd ∈ fds.map PollFd.fd ↔ table fd ≠ 0 := by
  rw [List.mem_map]
  constructor
  · rintro ⟨entry, hmem, rfl⟩
    exact ((h.mem_iff entry).mp hmem).1
  · intro hne
    exact ⟨⟨fd, pollEvents (table fd)⟩, (h.mem_iff _).mpr ⟨hne, rfl⟩, rfl⟩

/-- Without its first entry the list is one for the table without that descriptor. -/
theorem Entries.tail (h : Entries table (entry :: rest)) :
    Entries (Function.update table entry.fd 0) rest := by
  have hnodup : entry.fd ∉ rest.map PollFd.fd ∧ (rest.map PollFd.fd).Nodup :=
    List.nodup_cons.mp h.once
  refine ⟨hnodup.2, fun other => ?_⟩
  rcases eq_or_ne other.fd entry.fd with heq | hne
  · rw [heq, Function.update_self]
    refine iff_of_false (fun hmem => hnodup.1 ?_) (fun hother => hother.1 rfl)
    exact List.mem_map.mpr ⟨other, hmem, heq⟩
  · rw [Function.update_of_ne hne, ← h.mem_iff other, List.mem_cons]
    refine ⟨Or.inr, fun hmem => hmem.resolve_left ?_⟩
    rintro rfl
    exact hne rfl

theorem Entries.cons (h : Entries table fds) (habsent : table fd = 0) {mask : Mask}
    (hmask : mask ≠ 0) :
    Entries (Function.update table fd mask) (⟨fd, pollEvents mask⟩ :: fds) := by
  refine ⟨List.nodup_cons.mpr ⟨fun hmem => h.mem_fd.mp hmem habsent, h.once⟩, fun other => ?_⟩
  rw [List.mem_cons, h.mem_iff other]
  rcases eq_or_ne other.fd fd with rfl | hne
  · rw [Function.update_self]
    constructor
    · rintro (hother | ⟨hne, -⟩)
      · rw [hother]
        exact ⟨hmask, rfl⟩
      · exact absurd habsent hne
    · rintro ⟨-, hevents⟩
      left
      rw [← hevents]
  · rw [Function.update_of_ne hne]
    refine ⟨fun hmem => hmem.resolve_left ?_, Or.inr⟩
    rintro rfl
    exact hne rfl

theorem pollFind_eq_none (h : Entries table disp.fds) (hfind : pollFind disp fd = none) :
    table fd = 0 := by
  by_contra hne
  obtain ⟨entry, hmem, heq⟩ := List.mem_map.mp (h.mem_fd.mpr hne)
  have hnone := List.findIdx?_eq_none_iff.mp hfind entry hmem
  simp [heq] at hnone

theorem pollFind_eq_some {i : ℕ} (hfind : pollFind disp fd = some i) :
    ∃ hi : i < disp.fds.length, disp.fds[i].fd = fd := by
  obtain ⟨hi, hfd, -⟩ := List.findIdx?_eq_some_iff_getElem.mp hfind
  exact ⟨hi, by simpa using hfd⟩

theorem Entries.eraseIdx {i : ℕ} (h : Entries table disp.fds)
    (hfind : pollFind disp fd = some i) :
    i < disp.fds.length ∧ Entries (Function.update table fd 0) (disp.fds.eraseIdx i) := by
  obtain ⟨hi, hfd⟩ := pollFind_eq_some hfind
  have hcons : Entries table (disp.fds[i] :: disp.fds.eraseIdx i) :=
    h.perm (List.getElem_cons_eraseIdx_perm hi)
  have htail := hcons.tail
  rw [hfd] at htail
  exact ⟨hi, htail⟩

theorem Entries.length_lt (h : Entries table fds) (hok : table.Ok) (h0 : 0 ≤ fd)
    (hlt : fd < fdSetsize) (habsent : table fd = 0) : fds.length < fdSetsize := by
  have hnodup : (fd :: fds.map PollFd.fd).Nodup :=
    List.nodup_cons.mpr ⟨fun hmem => h.mem_fd.mp hmem habsent, h.once⟩
  have hrange : ∀ other ∈ fd :: fds.map PollFd.fd, 0 ≤ other ∧ other < fdSetsize := by
    intro other hother
    rcases List.mem_cons.mp hother with rfl | hmem
    · exact ⟨h0, hlt⟩
    · exact hok.range other (h.mem_fd.mp hmem)
  have hsub : fd :: fds.map PollFd.fd ⊆ (List.range fdSetsize).map Int.ofNat := by
    intro other hother
    obtain ⟨hother0, hotherlt⟩ := hrange other hother
    refine List.mem_map.mpr ⟨other.toNat, List.mem_range.mpr (by omega), ?_⟩
    exact Int.toNat_of_nonneg hother0
  have hle := (List.subperm_of_subset hnodup hsub).length_le
  simp only [List.length_cons, List.length_map, List.length_range] at hle
  omega

end Entries

/-- What `poll_dispatcher` keeps while it represents its table. -/
structure PollInvariant (s : DispatcherSystem PollDispatcher) : Prop where
  ok : s.table.Ok
  entries : PollRepresents s
  capacity : s.disp.fds_capacity = fdSetsize

section PollSteps

variable {realloc : ℕ → Bool} {s t : DispatcherSystem PollDispatcher} {c : DispatcherCall}

theorem pollGrow_of_lt {disp : PollDispatcher} (h : disp.fds.length < disp.fds_capacity) :
    pollGrow realloc disp = some disp :=
  if_neg (Nat.not_le.mpr h)

theorem pollGrow_eq {disp disp' : PollDispatcher} (h : pollGrow realloc disp = some disp') :
    disp'.fds = disp.fds := by
  rw [pollGrow] at h
  dsimp only at h
  split_ifs at h <;> cases h <;> rfl

theorem PollInvariant.step (h : PollInvariant s) (hg : PollGuard realloc s c)
    (hstep : s.step (pollDispatcher realloc) c = some t) : PollInvariant t := by
  obtain ⟨hlegal, rfl⟩ := DispatcherSystem.step_eq hstep
  have hok := h.ok.call hlegal
  obtain ⟨h0, hlt, hevent, hpresent⟩ := hlegal
  have hfd : ¬ c.fd < 0 := Int.not_lt.mpr h0
  have hentries : Entries s.table s.disp.fds := h.entries
  obtain ⟨op, fd, event⟩ := c
  cases op with
  | add =>
      simp only [EventDispatcher.call, pollDispatcher, pollAdd, if_neg hfd]
      rcases hg with habsent | ⟨hnone, hsame⟩
      · have hroom : s.disp.fds.length < s.disp.fds_capacity := by
          rw [h.capacity]
          exact hentries.length_lt h.ok h0 hlt habsent
        rw [pollGrow_of_lt hroom]
        refine ⟨hok, ?_, h.capacity⟩
        have hcons : Entries (Function.update s.table fd event)
            (⟨fd, pollEvents event⟩ :: s.disp.fds) :=
          hentries.cons habsent hevent.ne_zero
        have htable : s.table.call ⟨.add, fd, event⟩ = Function.update s.table fd event := by
          simp [InterestTable.call, habsent]
        change Entries (s.table.call ⟨.add, fd, event⟩) (s.disp.fds ++ [⟨fd, pollEvents event⟩])
        rw [htable]
        exact hcons.perm (List.perm_append_singleton _ _)
      · rw [hnone]
        refine ⟨hok, ?_, h.capacity⟩
        have htable : s.table.call ⟨.add, fd, event⟩ = s.table := by
          simp only [InterestTable.call]
          rw [hsame, Function.update_eq_self]
        change Entries (s.table.call ⟨.add, fd, event⟩) s.disp.fds
        rwa [htable]
  | update =>
      simp only [EventDispatcher.call, pollDispatcher, pollUpdate, if_neg hfd]
      cases hfind : pollFind s.disp fd with
      | none => exact absurd (pollFind_eq_none hentries hfind) (hpresent rfl)
      | some i =>
          obtain ⟨hi, herase⟩ := hentries.eraseIdx hfind
          refine ⟨hok, ?_, h.capacity⟩
          have hcons : Entries (Function.update (Function.update s.table fd 0) fd event)
              (⟨fd, pollEvents event⟩ :: s.disp.fds.eraseIdx i) :=
            herase.cons (Function.update_self ..) hevent.ne_zero
          rw [Function.update_idem] at hcons
          exact hcons.perm (List.set_perm_cons_eraseIdx hi _)
  | del =>
      simp only [EventDispatcher.call, pollDispatcher, pollDel, if_neg hfd]
      have htable : s.table.call ⟨.del, fd, event⟩ = Function.update s.table fd 0 := by
        simp only [InterestTable.call]
        exact congrArg (Function.update s.table fd) hg
      cases hfind : pollFind s.disp fd with
      | none =>
          refine ⟨hok, ?_, h.capacity⟩
          change Entries (s.table.call ⟨.del, fd, event⟩) s.disp.fds
          rw [htable, ← pollFind_eq_none hentries hfind, Function.update_eq_self]
          exact hentries
      | some i =>
          obtain ⟨hi, herase⟩ := hentries.eraseIdx hfind
          refine ⟨hok, ?_, h.capacity⟩
          change Entries (s.table.call ⟨.del, fd, event⟩) (moveLast s.disp.fds i)
          rw [htable]
          exact herase.perm (moveLast_perm hi)

theorem PollInvariant.guard (h : PollInvariant s)
    (hstep : s.step (pollDispatcher realloc) c = some t) (ht : PollRepresents t) :
    PollGuard realloc s c := by
  obtain ⟨hlegal, rfl⟩ := DispatcherSystem.step_eq hstep
  have hsmall := (h.ok.call hlegal).small c.fd
  obtain ⟨h0, hlt, hevent, hpresent⟩ := hlegal
  have hfd : ¬ c.fd < 0 := Int.not_lt.mpr h0
  have hentries : Entries s.table s.disp.fds := h.entries
  obtain ⟨op, fd, event⟩ := c
  cases op with
  | add =>
      by_cases habsent : s.table fd = 0
      · exact .inl habsent
      right
      rw [PollRepresents] at ht
      simp only [EventDispatcher.call, pollDispatcher, pollAdd, if_neg hfd] at ht
      cases hgrow : pollGrow realloc s.disp with
      | none =>
          refine ⟨rfl, ?_⟩
          rw [hgrow] at ht
          have hmem : (⟨fd, pollEvents (s.table fd)⟩ : PollFd) ∈ s.disp.fds :=
            (hentries.mem_iff _).mpr ⟨habsent, rfl⟩
          have hevents := ((ht.mem_iff ⟨fd, pollEvents (s.table fd)⟩).mp hmem).2
          simp only [InterestTable.call, Function.update_self] at hevents hsmall
          exact (pollEvents_inj (h.ok.small fd) hsmall hevents).symm
      | some disp =>
          rw [hgrow] at ht
          have honce : ((disp.fds ++ [(⟨fd, pollEvents event⟩ : PollFd)]).map PollFd.fd).Nodup :=
            ht.once
          rw [pollGrow_eq hgrow, List.map_append] at honce
          have hmem : fd ∈ s.disp.fds.map PollFd.fd := hentries.mem_fd.mpr habsent
          exact absurd rfl
            ((List.nodup_append.mp honce).2.2 fd hmem fd (List.mem_singleton_self fd))
  | update => trivial
  | del =>
      rw [PollRepresents] at ht
      simp only [EventDispatcher.call, pollDispatcher, pollDel, if_neg hfd] at ht
      cases hfind : pollFind s.disp fd with
      | none =>
          have habsent := pollFind_eq_none hentries hfind
          simp [PollGuard, habsent]
      | some i =>
          obtain ⟨hi, herase⟩ := hentries.eraseIdx hfind
          by_contra hne
          rw [hfind] at ht
          have htable : s.table.call ⟨.del, fd, event⟩ fd ≠ 0 := by
            simp only [InterestTable.call, Function.update_self]
            exact hne
          have hmem : fd ∈ (moveLast s.disp.fds i).map PollFd.fd := ht.mem_fd.mpr htable
          have hmem' : fd ∈ (s.disp.fds.eraseIdx i).map PollFd.fd :=
            ((moveLast_perm hi).map PollFd.fd).mem_iff.mp hmem
          exact herase.mem_fd.mp hmem' (Function.update_self ..)

end PollSteps

theorem poll_along_iff (realloc : ℕ → Bool) (run : List DispatcherCall) :
    Along (DispatcherSystem.step (pollDispatcher realloc)) PollRepresents (.start pollInit) run ↔
      Meets (DispatcherSystem.step (pollDispatcher realloc)) (PollGuard realloc)
        (.start pollInit) run := by
  have hstart : PollInvariant (.start pollInit) := by
    refine ⟨InterestTable.ok_start, ⟨List.nodup_nil, fun entry => ?_⟩, rfl⟩
    exact iff_of_false List.not_mem_nil fun h => h.1 rfl
  apply along_iff_meets (fun s h => h.entries) _ _ run hstart
  · exact fun s c t h hg hstep => h.step hg hstep
  · exact fun s c t h hstep ht => h.guard hstep ht

/-! ## select -/

/-- The two sets hold the descriptors that the table has with the bit, and `max_fd` is not
below any of them. -/
structure SelectRepresents (s : DispatcherSystem SelectDispatcher) : Prop where
  read : ∀ fd, s.disp.read_fds fd = true ↔ s.table fd &&& eventRead ≠ 0
  write : ∀ fd, s.disp.write_fds fd = true ↔ s.table fd &&& eventWrite ≠ 0
  max_fd : ∀ fd, s.table fd ≠ 0 → fd ≤ s.disp.max_fd

/-- `select_update` is not asked to take interest away. -/
def SelectGuard (s : DispatcherSystem SelectDispatcher) (c : DispatcherCall) : Prop :=
  c.op = .update → s.table c.fd &&& ~~~c.event = 0

section SelectSteps

variable {disp : SelectDispatcher} {fd : ℤ} {event : Mask}

theorem fdSet_of_isSet (set : FdSet) (fd : ℤ) (bit : Prop) [Decidable bit] :
    (if bit then (if set fd = true then set else Function.update set fd true) else set) =
      Function.update set fd (set fd || decide bit) := by
  by_cases hbit : bit
  · by_cases hset : set fd = true
    · rw [if_pos hbit, if_pos hset, hset, Bool.true_or, ← hset, Function.update_eq_self]
    · rw [if_pos hbit, if_neg hset, decide_eq_true hbit, Bool.or_true]
  · rw [if_neg hbit, decide_eq_false hbit, Bool.or_false, Function.update_eq_self]

theorem fdClr_eq (set : FdSet) (fd : ℤ) (bit : Prop) [Decidable bit] :
    (if bit then Function.update set fd false else set) =
      Function.update set fd (set fd && !decide bit) := by
  by_cases hbit : bit
  · rw [if_pos hbit, decide_eq_true hbit, Bool.not_true, Bool.and_false]
  · rw [if_neg hbit, decide_eq_false hbit, Bool.not_false, Bool.and_true, Function.update_eq_self]

theorem selectDel_eq :
    selectDel disp fd event = some
      { disp with
        read_fds := Function.update disp.read_fds fd
          (disp.read_fds fd && !decide (event &&& eventRead ≠ 0))
        write_fds := Function.update disp.write_fds fd
          (disp.write_fds fd && !decide (event &&& eventWrite ≠ 0)) } := by
  rw [← fdClr_eq, ← fdClr_eq, selectDel]
  refine congrArg some ?_
  split_ifs <;> rfl

theorem selectAdd_eq (h : fd < fdSetsize) :
    selectAdd disp fd event = some
      { max_fd := if fd > disp.max_fd then fd else disp.max_fd
        read_fds := Function.update disp.read_fds fd
          (disp.read_fds fd || decide (event &&& eventRead ≠ 0))
        write_fds := Function.update disp.write_fds fd
          (disp.write_fds fd || decide (event &&& eventWrite ≠ 0)) } := by
  rw [← fdSet_of_isSet, ← fdSet_of_isSet, selectAdd, if_neg (Int.not_le.mpr h)]
  refine congrArg some ?_
  split_ifs <;> rfl

variable {s t : DispatcherSystem SelectDispatcher} {c : DispatcherCall}

theorem SelectRepresents.add (h : SelectRepresents s) (hok : s.table.Ok)
    (hlegal : DispatcherCall.Legal s.table ⟨.add, fd, event⟩) :
    SelectRepresents
      { table := s.table.call ⟨.add, fd, event⟩
        disp := selectDispatcher.call s.disp ⟨.add, fd, event⟩ } := by
  obtain ⟨-, hlt, hevent, -⟩ := hlegal
  have hsmall := hok.small fd
  simp only [EventDispatcher.call, selectDispatcher]
  rw [selectAdd_eq hlt, Option.getD_some]
  refine ⟨fun other => ?_, fun other => ?_, fun other hne => ?_⟩
  · rcases eq_or_ne other fd with rfl | hother
    · simp only [InterestTable.call, Function.update_self, Bool.or_eq_true, decide_eq_true_eq]
      rw [h.read other, hsmall.or_and_ne_zero hevent (.inl rfl)]
    · simp only [InterestTable.call, Function.update_of_ne hother]
      exact h.read other
  · rcases eq_or_ne other fd with rfl | hother
    · simp only [InterestTable.call, Function.update_self, Bool.or_eq_true, decide_eq_true_eq]
      rw [h.write other, hsmall.or_and_ne_zero hevent (.inr rfl)]
    · simp only [InterestTable.call, Function.update_of_ne hother]
      exact h.write other
  · dsimp only
    rcases eq_or_ne other fd with rfl | hother
    · split_ifs <;> omega
    · simp only [InterestTable.call, Function.update_of_ne hother] at hne
      have hmax := h.max_fd other hne
      split_ifs <;> omega

theorem SelectRepresents.del (h : SelectRepresents s) (hok : s.table.Ok)
    (hlegal : DispatcherCall.Legal s.table ⟨.del, fd, event⟩) :
    SelectRepresents
      { table := s.table.call ⟨.del, fd, event⟩
        disp := selectDispatcher.call s.disp ⟨.del, fd, event⟩ } := by
  obtain ⟨-, -, hevent, -⟩ := hlegal
  have hsmall := hok.small fd
  simp only [EventDispatcher.call, selectDispatcher]
  rw [selectDel_eq, Option.getD_some]
  refine ⟨fun other => ?_, fun other => ?_, fun other hne => ?_⟩
  · rcases eq_or_ne other fd with rfl | hother
    · simp only [InterestTable.call, Function.update_self, Bool.and_eq_true,
        Bool.not_eq_true', decide_eq_false_iff_not, not_not]
      rw [h.read other, hsmall.andNot_and_ne_zero hevent (.inl rfl)]
    · simp only [InterestTable.call, Function.update_of_ne hother]
      exact h.read other
  · rcases eq_or_ne other fd with rfl | hother
    · simp only [InterestTable.call, Function.update_self, Bool.and_eq_true,
        Bool.not_eq_true', decide_eq_false_iff_not, not_not]
      rw [h.write other, hsmall.andNot_and_ne_zero hevent (.inr rfl)]
    · simp only [InterestTable.call, Function.update_of_ne hother]
      exact h.write other
  · apply h.max_fd other
    rcases eq_or_ne other fd with rfl | hother
    · simp only [InterestTable.call, Function.update_self] at hne
      intro habsent
      simp [habsent] at hne
    · simpa only [InterestTable.call, Function.update_of_ne hother] using hne

/-- What `select_dispatcher` keeps while it represents its table. -/
structure SelectInvariant (s : DispatcherSystem SelectDispatcher) : Prop where
  ok : s.table.Ok
  represents : SelectRepresents s

theorem SelectInvariant.step (h : SelectInvariant s) (hg : SelectGuard s c)
    (hstep : s.step selectDispatcher c = some t) : SelectInvariant t := by
  obtain ⟨hlegal, rfl⟩ := DispatcherSystem.step_eq hstep
  refine ⟨h.ok.call hlegal, ?_⟩
  obtain ⟨op, fd, event⟩ := c
  cases op with
  | add => exact h.represents.add h.ok hlegal
  | update =>
      -- a table entry that `event` covers is updated as by adding `event`
      have hevent : s.table fd ||| event = event :=
        (h.ok.small fd).or_of_covered hlegal.2.2.1 (hg rfl)
      have hadd : SelectRepresents
          { table := s.table.call ⟨.add, fd, event⟩
            disp := selectDispatcher.call s.disp ⟨.add, fd, event⟩ } :=
        h.represents.add h.ok ⟨hlegal.1, hlegal.2.1, hlegal.2.2.1, nofun⟩
      simp only [InterestTable.call, hevent] at hadd
      exact hadd
  | del => exact h.represents.del h.ok hlegal

theorem SelectInvariant.guard (h : SelectInvariant s) (hstep : s.step selectDispatcher c = some t)
    (ht : SelectRepresents t) : SelectGuard s c := by
  obtain ⟨hlegal, rfl⟩ := DispatcherSystem.step_eq hstep
  obtain ⟨op, fd, event⟩ := c
  rintro ⟨⟩
  obtain ⟨-, hlt, hevent, -⟩ := hlegal
  have hread := ht.read fd
  have hwrite := ht.write fd
  simp only [EventDispatcher.call, selectDispatcher, selectUpdate] at hread hwrite
  rw [selectAdd_eq hlt] at hread hwrite
  simp only [Option.getD_some, InterestTable.call, Function.update_self, Bool.or_eq_true,
    decide_eq_true_eq] at hread hwrite
  apply (h.ok.small fd).covered hevent
  · exact fun hbit => hread.mp (.inl ((h.represents.read fd).mpr hbit))
  · exact fun hbit => hwrite.mp (.inl ((h.represents.write fd).mpr hbit))

end SelectSteps

theorem select_along_iff (run : List DispatcherCall) :
    Along (DispatcherSystem.step selectDispatcher) SelectRepresents (.start selectInit) run ↔
      Meets (DispatcherSystem.step selectDispatcher) SelectGuard (.start selectInit) run := by
  have hstart : SelectInvariant (.start selectInit) := by
    refine ⟨InterestTable.ok_start, fun fd => ?_, fun fd => ?_, fun fd hne => absurd rfl hne⟩
    all_goals simp [DispatcherSystem.start, selectInit]
  apply along_iff_meets (fun s h => h.represents) _ _ run hstart
  · exact fun s c t h hg hstep => h.step hg hstep
  · exact fun s c t h hstep ht => h.guard hstep ht

/-! ## epoll -/

/-- The kernel knows the descriptors of the table, each with its mask. -/
def EpollRepresents (s : DispatcherSystem EpollSet) : Prop :=
  ∀ fd, s.disp fd = if s.table fd = 0 then none else some (epollEvents (s.table fd))

/-- `epoll_add` adds nothing to a descriptor that is present, and `epoll_del` is called for
all of a mask. -/
def EpollGuard (s : DispatcherSystem EpollSet) (c : DispatcherCall) : Prop :=
  match c.op with
  | .add => s.table c.fd = 0 ∨ s.table c.fd ||| c.event = s.table c.fd
  | .update => True
  | .del => s.table c.fd &&& ~~~c.event = 0

section EpollSteps

variable {s t : DispatcherSystem EpollSet} {c : DispatcherCall}

structure EpollInvariant (s : DispatcherSystem EpollSet) : Prop where
  ok : s.table.Ok
  represents : EpollRepresents s

theorem epollDispatcher_call (set : EpollSet) (h0 : 0 ≤ c.fd) :
    epollDispatcher.call set c = Function.update set c.fd
      (match c.op with
      | .add => some ((set c.fd).getD (epollEvents c.event))
      | .update => (set c.fd).map fun _ => epollEvents c.event
      | .del => none) := by
  obtain ⟨op, fd, event⟩ := c
  have hfd : ¬ fd < 0 := Int.not_lt.mpr h0
  cases op <;> cases hset : set fd <;>
    simp [EventDispatcher.call, epollDispatcher, epollAdd, epollUpdate, epollDel, epollCtl, hfd,
      hset]

theorem EpollInvariant.step (h : EpollInvariant s) (hg : EpollGuard s c)
    (hstep : s.step epollDispatcher c = some t) : EpollInvariant t := by
  obtain ⟨hlegal, rfl⟩ := DispatcherSystem.step_eq hstep
  refine ⟨h.ok.call hlegal, fun other => ?_⟩
  obtain ⟨h0, -, hevent, hpresent⟩ := hlegal
  rw [epollDispatcher_call s.disp h0]
  rcases eq_or_ne other c.fd with rfl | hother
  · simp only [InterestTable.call, Function.update_self]
    rw [h.represents c.fd]
    obtain ⟨op, fd, event⟩ := c
    cases op with
    | add =>
        rcases hg with habsent | hcovered
        · dsimp only at habsent hevent ⊢
          rw [if_pos habsent, habsent, Option.getD_none, Mask.zero_or, if_neg hevent.ne_zero]
        · dsimp only at hcovered hevent ⊢
          rw [hcovered]
          by_cases habsent : s.table fd = 0
          · rw [habsent, Mask.zero_or] at hcovered
            exact absurd hcovered hevent.ne_zero
          · rw [if_neg habsent, Option.getD_some]
    | update =>
        dsimp only at hevent ⊢
        rw [if_neg (hpresent rfl), if_neg hevent.ne_zero, Option.map_some]
    | del => exact (if_pos hg).symm
  · simp only [InterestTable.call, Function.update_of_ne hother]
    exact h.represents other

/-- Interest that the kernel refused, or dropped, is missing. -/
theorem EpollInvariant.guard (h : EpollInvariant s) (hstep : s.step epollDispatcher c = some t)
    (ht : EpollRepresents t) : EpollGuard s c := by
  obtain ⟨hlegal, rfl⟩ := DispatcherSystem.step_eq hstep
  have hsmall := (h.ok.call hlegal).small c.fd
  obtain ⟨h0, -, hevent, -⟩ := hlegal
  have hentry := ht c.fd
  rw [epollDispatcher_call s.disp h0] at hentry
  simp only [InterestTable.call, Function.update_self] at hentry hsmall
  rw [h.represents c.fd] at hentry
  obtain ⟨op, fd, event⟩ := c
  cases op with
  | add =>
      by_cases habsent : s.table fd = 0
      · exact .inl habsent
      · right
        dsimp only at hentry hsmall ⊢
        have hne : s.table fd ||| event ≠ 0 := ((h.ok.small fd).or hevent).ne_zero
        rw [if_neg habsent, if_neg hne, Option.getD_some] at hentry
        exact (epollEvents_inj (h.ok.small fd) hsmall (Option.some.inj hentry)).symm
  | update => trivial
  | del =>
      by_contra hne
      have hne' : ¬ s.table fd &&& ~~~event = 0 := hne
      dsimp only at hentry
      rw [if_neg hne'] at hentry
      exact absurd hentry nofun

end EpollSteps

theorem epoll_along_iff (run : List DispatcherCall) :
    Along (DispatcherSystem.step epollDispatcher) EpollRepresents (.start epollInit) run ↔
      Meets (DispatcherSystem.step epollDispatcher) EpollGuard (.start epollInit) run := by
  have hstart : EpollInvariant (.start epollInit) := by
    refine ⟨InterestTable.ok_start, fun fd => ?_⟩
    rfl
  apply along_iff_meets (fun s h => h.represents) _ _ run hstart
  · exact fun s c t h hg hstep => h.step hg hstep
  · exact fun s c t h hstep ht => h.guard hstep ht

/-! ## All three -/

/-- Each dispatcher represents the table throughout a run exactly when the run spares it the
calls that it treats differently. -/
theorem dispatchers_along_iff (realloc : ℕ → Bool) (run : List DispatcherCall) :
    (Along (DispatcherSystem.step (pollDispatcher realloc)) PollRepresents (.start pollInit) run ↔
        Meets (DispatcherSystem.step (pollDispatcher realloc)) (PollGuard realloc)
          (.start pollInit) run) ∧
      (Along (DispatcherSystem.step selectDispatcher) SelectRepresents (.start selectInit) run ↔
        Meets (DispatcherSystem.step selectDispatcher) SelectGuard (.start selectInit) run) ∧
      (Along (DispatcherSystem.step epollDispatcher) EpollRepresents (.start epollInit) run ↔
        Meets (DispatcherSystem.step epollDispatcher) EpollGuard (.start epollInit) run) :=
  ⟨poll_along_iff realloc run, select_along_iff run, epoll_along_iff run⟩

/-- Reading and writing asked for one after the other, as `io_add` does: `poll.c` has two
entries, and `epoll.c` does not know of the writing. -/
theorem not_dispatchers_along :
    ¬ Along (DispatcherSystem.step (pollDispatcher fun _ => true)) PollRepresents
        (.start pollInit) [⟨.add, 5, eventRead⟩, ⟨.add, 5, eventWrite⟩] ∧
      ¬ Along (DispatcherSystem.step selectDispatcher) SelectRepresents
        (.start selectInit) [⟨.add, 5, eventRw⟩, ⟨.update, 5, eventRead⟩] ∧
      ¬ Along (DispatcherSystem.step epollDispatcher) EpollRepresents
        (.start epollInit) [⟨.add, 5, eventRead⟩, ⟨.add, 5, eventWrite⟩] := by
  refine ⟨fun h => ?_, fun h => ?_, fun h => ?_⟩
  · have honce := (h.exec rfl).once
    revert honce
    decide
  · have hwrite := (h.exec rfl).write 5
    revert hwrite
    decide
  · have hentry := (h.exec rfl) 5
    revert hentry
    decide

end LibConn
