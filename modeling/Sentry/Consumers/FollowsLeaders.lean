import Sentry.Consumers.Synchronized

/-!
# A synchronized consumer never overtakes its leaders and loses nothing

The consumer and the observer of its trace agree (`Coherent`), and the wrapped consumer is at the
observed position or behind it with no message between (`NoMessageBetween`). Every step keeps this
and appends only what the observer allows (`coherent_step`), so every message of every run is
allowed (`run_allowed`). A rebalance starts a partition again at the offset it is assigned at, which
can be one whose message was returned before.
-/

namespace Sentry.Consumers

open Library Function SynchronizedConsumer

variable {Group Partition σ χ : Type*} [DecidableEq Group] [DecidableEq Partition]

/-- The position `k'` is `k` or behind it with no message between. -/
def NoMessageBetween (log : Set ℕ) : Option ℕ → Option ℕ → Prop
  | none, none => True
  | some k, some k' => k ≤ k' ∧ ∀ i, k ≤ i → i < k' → i ∉ log
  | _, _ => False

theorem NoMessageBetween.refl (log : Set ℕ) (k : Option ℕ) : NoMessageBetween log k k := by
  cases k with
  | none => trivial
  | some k => exact ⟨le_rfl, fun i hi hi' ↦ absurd hi' (not_lt.mpr hi)⟩

theorem NoMessageBetween.next {log : Set ℕ} {k : Option ℕ} {k' o : ℕ}
    (h : NoMessageBetween log k (some k')) (hnext : NextMessage log k' o) :
    ∃ k₀, k = some k₀ ∧ NextMessage log k₀ o := by
  cases k with
  | none => exact absurd h id
  | some k =>
    refine ⟨k, rfl, h.1.trans hnext.1, hnext.2.1, fun i hi hi' ↦ ?_⟩
    by_cases hlt : i < k'
    · exact h.2 i hi hlt
    · exact hnext.2.2 i (not_lt.mp hlt) hi'

def PositionsAgree (c : Consumer Partition σ χ) (s : σ)
    (observed : Observed Group Partition) (p : Partition) : Prop :=
  NoMessageBetween (c.log p) (observed.position p) (c.tell s p)

/-- A message under check: not of a paused partition, and the next one. -/
structure Checked (c : Consumer Partition σ χ) (s : σ) (observed : Observed Group Partition)
    (p : Partition) (offset : ℕ) : Prop where
  notPaused : p ∉ observed.paused
  next : ∃ k, observed.position p = some k ∧ NextMessage (c.log p) k offset
  behind : c.tell s p = some (offset + 1)
  others : ∀ q, q ≠ p → PositionsAgree c s observed q

def PhaseCoherent (c : Consumer Partition σ χ) (s : σ) (observed : Observed Group Partition) :
    PollPhase Partition → Prop
  | .checking p offset => Checked c s observed p offset
  | _ => ∀ p, PositionsAgree c s observed p

/-- The consumer and the observer agree. -/
structure Coherent (c : Consumer Partition σ χ) (groups : List Group)
    (s : SynchronizedConsumer Group Partition σ) (observed : Observed Group Partition) : Prop where
  committed : ∀ group ∈ groups, s.remoteOffsets group = observed.committed group
  paused : s.paused = observed.paused
  pausedInside : ∀ p ∈ s.paused, p ∈ c.paused s.consumer
  phase : PhaseCoherent c s.consumer observed s.phase

omit [DecidableEq Group] [DecidableEq Partition] in
theorem lt_remoteOffset {groups : List Group} {remoteOffsets : Group → Partition → Option ℤ}
    {p : Partition} {offset : ℕ} (h : ¬remoteOffset groups remoteOffsets p ≤ offset) :
    groups ≠ [] ∧ ∀ group ∈ groups, (offset : ℤ) < (remoteOffsets group p).getD 0 := by
  rw [not_le, remoteOffset] at h
  rcases hmin : (groups.map fun group ↦ (remoteOffsets group p).getD 0).min? with _ | least
  · rw [hmin] at h
    simp only [Option.getD_none] at h
    omega
  · rw [hmin, Option.getD_some] at h
    constructor
    · rintro rfl
      simp at hmin
    · intro group hgroup
      have hle := (List.min?_eq_some_iff.mp hmin).2 _ (List.mem_map.mpr ⟨group, hgroup, rfl⟩)
      exact h.trans_le hle

variable {c : Consumer Partition σ χ} {groups : List Group}
  {s : SynchronizedConsumer Group Partition σ} {observed : Observed Group Partition}

def StepOk (c : Consumer Partition σ χ) (groups : List Group)
    (s next : SynchronizedConsumer Group Partition σ) (observed : Observed Group Partition) :
    Prop :=
  (next.trace = s.trace ∧ Coherent c groups next observed) ∨
    ∃ entry, next.trace = s.trace ++ [entry] ∧ Allowed c.log groups observed entry ∧
      Coherent c groups next (observed.see entry)

theorem stepOk_self (h : Coherent c groups s observed) : StepOk c groups s s observed :=
  Or.inl ⟨rfl, h⟩

theorem stepOk_unlessChecking {next : SynchronizedConsumer Group Partition σ}
    (h : Coherent c groups s observed)
    (hnext : (∀ p, PositionsAgree c s.consumer observed p) →
      (∀ p offset, s.phase ≠ .checking p offset) → StepOk c groups s next observed) :
    StepOk c groups s (s.unlessChecking next) observed := by
  have hphase := h.phase
  unfold unlessChecking
  cases hs : s.phase with
  | checking p offset => exact stepOk_self h
  | idle | polling =>
    rw [hs] at hphase
    exact hnext hphase (by simp [hs])

omit [DecidableEq Group] [DecidableEq Partition] in
theorem phaseCoherent_of_positionsAgree {state : σ} {phase : PollPhase Partition}
    (hphase : ∀ p offset, phase ≠ .checking p offset)
    (h : ∀ p, PositionsAgree c state observed p) : PhaseCoherent c state observed phase := by
  cases phase with
  | checking p offset => exact absurd rfl (hphase p offset)
  | idle => exact h
  | polling => exact h

omit [DecidableEq Group] in
theorem positionsAgree_update {state next : σ} {observed' : Observed Group Partition}
    (h : ∀ q, PositionsAgree c state observed q) {p : Partition} {position : Option ℕ}
    (htell : c.tell next = Function.update (c.tell state) p position)
    (hobserved : observed'.position = Function.update observed.position p position) :
    ∀ q, PositionsAgree c next observed' q := by
  intro q
  unfold PositionsAgree
  rw [htell, hobserved]
  by_cases hq : q = p
  · subst hq
    rw [update_self, update_self]
    exact NoMessageBetween.refl _ _
  · rw [update_of_ne hq, update_of_ne hq]
    exact h q

theorem stepOk_commitRecord (h : Coherent c groups s observed) (group : Group) (p : Partition)
    (offset : ℤ) :
    StepOk c groups s (s.step c groups (.commitRecord group p offset)) observed := by
  refine Or.inr ⟨.committed group p offset, rfl, trivial, ?_, h.paused, h.pausedInside, ?_⟩
  · intro group' hgroup'
    show (if group ∈ groups then _ else s.remoteOffsets) group' =
      Function.update observed.committed group _ group'
    by_cases heq : group' = group
    · subst heq
      rw [if_pos hgroup', update_self, update_self, h.committed group' hgroup']
    · rw [update_of_ne heq]
      by_cases hgroup : group ∈ groups
      · rw [if_pos hgroup, update_of_ne heq]
        exact h.committed group' hgroup'
      · rw [if_neg hgroup]
        exact h.committed group' hgroup'
  · have hphase := h.phase
    show PhaseCoherent c s.consumer _ s.phase
    cases hs : s.phase with
    | checking q position =>
      rw [hs] at hphase
      exact ⟨hphase.notPaused, hphase.next, hphase.behind, hphase.others⟩
    | idle | polling =>
      rw [hs] at hphase
      exact hphase

section

variable (hc : LawfulConsumer c) (h : Coherent c groups s observed)

include hc h

theorem stepOk_pollStarts : StepOk c groups s (s.step c groups .pollStarts) observed := by
  have hphase := h.phase
  rw [step]
  cases hs : s.phase with
  | checking | polling => exact stepOk_self h
  | idle =>
    rw [hs] at hphase
    refine Or.inl ⟨rfl, h.committed, h.paused, ?_, ?_⟩
    · intro p hp
      have hinside := h.pausedInside p hp
      by_cases hnone : resumePartitions c groups s = []
      · simpa only [if_pos hnone] using hinside
      · simp only [if_neg hnone, hc.mem_paused_resume]
        refine ⟨fun hmem ↦ ?_, hinside⟩
        -- A partition that the caller has paused is not a candidate.
        have hcandidate := (List.mem_filter.mp hmem).2
        simp [hp] at hcandidate
    · intro p
      have htell : c.tell (if resumePartitions c groups s = [] then s.consumer
          else c.resume s.consumer (resumePartitions c groups s)) =
          c.tell s.consumer := by
        split_ifs
        · rfl
        · exact hc.tell_resume _ _
      unfold PositionsAgree
      rw [htell]
      exact hphase p

theorem stepOk_pollReturns (choice : χ) :
    StepOk c groups s (s.step c groups (.pollReturns choice)) observed := by
  have hphase := h.phase
  rw [step]
  cases hs : s.phase with
  | checking | idle => exact stepOk_self h
  | polling =>
    rw [hs] at hphase
    refine Or.inl ⟨rfl, h.committed, h.paused, ?_, ?_⟩
    · intro p hp
      rw [hc.paused_poll]
      exact h.pausedInside p hp
    · cases hresult : (c.poll s.consumer choice).1 with
      | none =>
        intro p
        unfold PositionsAgree
        rw [hc.tell_poll_none _ _ hresult]
        exact hphase p
      | some message =>
        obtain ⟨p, offset⟩ := message
        obtain ⟨hpaused, ⟨k, hk, hnext⟩, htell⟩ := hc.poll_some _ _ _ _ hresult
        have hagree := hphase p
        unfold PositionsAgree at hagree
        rw [hk] at hagree
        refine ⟨?_, hagree.next hnext, ?_, fun q hq ↦ ?_⟩
        · rw [← h.paused]
          exact fun hp ↦ hpaused (h.pausedInside p hp)
        · rw [htell, update_self]
        · unfold PositionsAgree
          rw [htell, update_of_ne hq]
          exact hphase q

theorem stepOk_checks : StepOk c groups s (s.step c groups .checks) observed := by
  have hphase := h.phase
  rw [step]
  cases hs : s.phase with
  | idle | polling => exact stepOk_self h
  | checking p offset =>
    rw [hs] at hphase
    have hassigned : (c.tell s.consumer p).isSome := by
      rw [hphase.behind]
      rfl
    by_cases hlate : remoteOffset groups s.remoteOffsets p ≤ offset
    · -- The message is held back: its partition is paused and sought back to it.
      simp only [if_pos hlate]
      refine Or.inl ⟨rfl, h.committed, h.paused, ?_, ?_⟩
      · intro q hq
        rw [hc.paused_seek, hc.mem_paused_pause _ _ _ (by simpa using hassigned)]
        exact Or.inr (h.pausedInside q hq)
      · intro q
        have htell : c.tell (c.seek (c.pause s.consumer [p]) p offset) =
            Function.update (c.tell s.consumer) p (some offset) := by
          rw [hc.tell_seek _ _ _ (by rwa [hc.tell_pause]), hc.tell_pause]
        unfold PositionsAgree
        rw [htell]
        by_cases hq : q = p
        · subst hq
          obtain ⟨k, hk, hnext⟩ := hphase.next
          rw [update_self, hk]
          exact ⟨hnext.1, hnext.2.2⟩
        · rw [update_of_ne hq]
          exact hphase.others q hq
    · simp only [if_neg hlate]
      obtain ⟨hne, hbelow⟩ := lt_remoteOffset hlate
      refine Or.inr ⟨.returned p offset, rfl, ⟨⟨hne, fun group hgroup ↦ ?_⟩, hphase.notPaused,
        hphase.next⟩, h.committed, h.paused, h.pausedInside, ?_⟩
      · rw [← h.committed group hgroup]
        exact hbelow group hgroup
      · intro q
        show NoMessageBetween (c.log q)
          (Function.update observed.position p (some (offset + 1)) q) (c.tell s.consumer q)
        by_cases hq : q = p
        · subst hq
          rw [update_self, hphase.behind]
          exact NoMessageBetween.refl _ _
        · rw [update_of_ne hq]
          exact hphase.others q hq

theorem stepOk_assigned (p : Partition)
    (offset : ℕ) : StepOk c groups s (s.step c groups (.assigned p offset)) observed := by
  refine stepOk_unlessChecking h fun hpositions hphase ↦ ?_
  refine Or.inr ⟨.assigned p offset, rfl, trivial, h.committed, ?_, fun q hq ↦ ?_, ?_⟩
  · show s.paused.erase p = observed.paused.erase p
    rw [h.paused]
  · obtain ⟨hne, hmem⟩ := Finset.mem_erase.mp hq
    exact (hc.mem_paused_assign _ _ _ _).mpr ⟨hne, h.pausedInside q hmem⟩
  · exact phaseCoherent_of_positionsAgree hphase
      (positionsAgree_update hpositions (hc.tell_assign _ _ _) rfl)

theorem stepOk_revoked (p : Partition) :
    StepOk c groups s (s.step c groups (.revoked p)) observed := by
  refine stepOk_unlessChecking h fun hpositions hphase ↦ ?_
  refine Or.inr ⟨.revoked p, rfl, trivial, h.committed, ?_, fun q hq ↦ ?_, ?_⟩
  · show s.paused.erase p = observed.paused.erase p
    rw [h.paused]
  · obtain ⟨hne, hmem⟩ := Finset.mem_erase.mp hq
    exact (hc.mem_paused_revoke _ _ _).mpr ⟨hne, h.pausedInside q hmem⟩
  · exact phaseCoherent_of_positionsAgree hphase
      (positionsAgree_update hpositions (hc.tell_revoke _ _) rfl)

theorem stepOk_pause (ps : List Partition) :
    StepOk c groups s (s.step c groups (.pause ps)) observed := by
  rw [step]
  split_ifs with hassigned
  · refine stepOk_unlessChecking h fun hpositions hphase ↦ ?_
    refine Or.inr ⟨.paused ps, rfl, trivial, h.committed, ?_, fun q hq ↦ ?_, ?_⟩
    · show s.paused ∪ ps.toFinset = observed.paused ∪ ps.toFinset
      rw [h.paused]
    · rw [hc.mem_paused_pause _ _ _ hassigned]
      rcases Finset.mem_union.mp hq with hmem | hmem
      · exact Or.inr (h.pausedInside q hmem)
      · exact Or.inl (List.mem_toFinset.mp hmem)
    · refine phaseCoherent_of_positionsAgree hphase fun q ↦ ?_
      unfold PositionsAgree
      rw [hc.tell_pause]
      exact hpositions q
  · exact stepOk_self h

end

theorem stepOk_resume (h : Coherent c groups s observed) (ps : List Partition) :
    StepOk c groups s (s.step c groups (.resume ps)) observed := by
  rw [step]
  split_ifs with hassigned
  · refine stepOk_unlessChecking h fun hpositions hphase ↦ ?_
    refine Or.inr ⟨.resumed ps, rfl, trivial, h.committed, ?_, fun q hq ↦ ?_, ?_⟩
    · show s.paused \ ps.toFinset = observed.paused \ ps.toFinset
      rw [h.paused]
    · exact h.pausedInside q (Finset.mem_sdiff.mp hq).1
    · exact phaseCoherent_of_positionsAgree hphase hpositions
  · exact stepOk_self h

theorem stepOk_seek (hc : LawfulConsumer c) (h : Coherent c groups s observed) (p : Partition)
    (offset : ℕ) : StepOk c groups s (s.step c groups (.seek p offset)) observed := by
  rw [step]
  split_ifs with hassigned
  · refine stepOk_unlessChecking h fun hpositions hphase ↦ ?_
    refine Or.inr ⟨.sought p offset, rfl, trivial, h.committed, h.paused, fun q hq ↦ ?_, ?_⟩
    · rw [hc.paused_seek]
      exact h.pausedInside q hq
    · exact phaseCoherent_of_positionsAgree hphase
        (positionsAgree_update hpositions (hc.tell_seek _ _ _ hassigned) rfl)
  · exact stepOk_self h

theorem stepOk (hc : LawfulConsumer c) (h : Coherent c groups s observed)
    (event : ConsumerEvent Group Partition χ) :
    StepOk c groups s (s.step c groups event) observed := by
  cases event with
  | commitRecord group p offset => exact stepOk_commitRecord h group p offset
  | pollStarts => exact stepOk_pollStarts hc h
  | pollReturns choice => exact stepOk_pollReturns hc h choice
  | checks => exact stepOk_checks hc h
  | assigned p offset => exact stepOk_assigned hc h p offset
  | revoked p => exact stepOk_revoked hc h p
  | pause ps => exact stepOk_pause hc h ps
  | resume ps => exact stepOk_resume h ps
  | seek p offset => exact stepOk_seek hc h p offset

def Followed (c : Consumer Partition σ χ) (groups : List Group)
    (s : SynchronizedConsumer Group Partition σ) : Prop :=
  (observer Group Partition).EveryStep (Allowed c.log groups) (observer Group Partition).init
      s.trace ∧
    Coherent c groups s ((observer Group Partition).run s.trace)

theorem followed_step (hc : LawfulConsumer c) (h : Followed c groups s)
    (event : ConsumerEvent Group Partition χ) : Followed c groups (s.step c groups event) := by
  rcases stepOk hc h.2 event with ⟨htrace, hcoherent⟩ | ⟨entry, htrace, hallowed, hcoherent⟩
  · exact ⟨htrace ▸ h.1, htrace ▸ hcoherent⟩
  · rw [Followed, htrace, Machine.everyStep_concat, Machine.run_concat]
    exact ⟨⟨h.1, hallowed⟩, hcoherent⟩

theorem followed_init (hc : LawfulConsumer c) (groups : List Group) :
    Followed c groups (synchronizedConsumer c groups).init := by
  refine ⟨trivial, fun group _ ↦ rfl, rfl, fun p hp ↦ absurd hp (Finset.notMem_empty p), fun p ↦ ?_⟩
  show NoMessageBetween (c.log p) none (c.tell c.init p)
  rw [hc.tell_init]
  trivial

/-- Assumes: the wrapped consumer behaves as documented. In every run, every message returned was,
when it was checked, strictly below the last committed offset seen of every leader, of a partition
not paused by the caller, and the next message of the partition since it was assigned or sought, or
since the last message returned after that. -/
theorem run_allowed (hc : LawfulConsumer c) (groups : List Group)
    (events : List (ConsumerEvent Group Partition χ)) :
    (observer Group Partition).EveryStep (Allowed c.log groups) (observer Group Partition).init
      ((synchronizedConsumer c groups).run events).trace :=
  ((synchronizedConsumer c groups).run_invariant (followed_init hc groups)
    (fun _ event h ↦ followed_step hc h event) events).1

/-- The positions of the assigned partitions and the paused ones. -/
structure LocalState where
  offsets : ℕ → Option ℕ
  paused : List ℕ

/-- A consumer of a broker whose partitions hold a message at every offset; the choice is the
partition that `poll` gets a message of. -/
def localConsumer : Consumer ℕ LocalState (Option ℕ) where
  init := ⟨fun _ ↦ none, []⟩
  log := fun _ ↦ Set.univ
  tell := fun s ↦ s.offsets
  paused := fun s ↦ s.paused
  pause := fun s ps ↦ { s with paused := ps ++ s.paused }
  resume := fun s ps ↦ { s with paused := s.paused.filter (· ∉ ps) }
  seek := fun s p o ↦ { s with offsets := Function.update s.offsets p (some o) }
  assign := fun s p o ↦ ⟨Function.update s.offsets p (some o), s.paused.filter (· ≠ p)⟩
  revoke := fun s p ↦ ⟨Function.update s.offsets p none, s.paused.filter (· ≠ p)⟩
  poll := fun s choice ↦
    match choice with
    | none => (none, s)
    | some p =>
      match s.offsets p with
      | none => (none, s)
      | some o =>
        if p ∈ s.paused then (none, s)
        else (some (p, o), { s with offsets := Function.update s.offsets p (some (o + 1)) })

theorem localConsumer_poll_some {s : LocalState} {choice : Option ℕ} {p o : ℕ}
    (h : (localConsumer.poll s choice).1 = some (p, o)) :
    p ∉ s.paused ∧ s.offsets p = some o ∧
      (localConsumer.poll s choice).2.offsets = Function.update s.offsets p (some (o + 1)) := by
  cases choice with
  | none => simp [localConsumer] at h
  | some q =>
    cases hoffset : s.offsets q with
    | none => simp [localConsumer, hoffset] at h
    | some o' =>
      by_cases hpaused : q ∈ s.paused
      · simp [localConsumer, hoffset, hpaused] at h
      · obtain ⟨rfl, rfl⟩ : q = p ∧ o' = o := by
          simpa [localConsumer, hoffset, hpaused] using h
        exact ⟨hpaused, hoffset, by simp [localConsumer, hoffset, hpaused]⟩

theorem localConsumer_lawful : LawfulConsumer localConsumer where
  tell_init := rfl
  tell_pause := fun _ _ ↦ rfl
  mem_paused_pause := fun _ _ _ _ ↦ List.mem_append
  tell_resume := fun _ _ ↦ rfl
  mem_paused_resume := fun s ps p ↦ by simp [localConsumer, and_comm]
  tell_seek := fun _ _ _ _ ↦ rfl
  paused_seek := fun _ _ _ ↦ rfl
  tell_assign := fun _ _ _ ↦ rfl
  mem_paused_assign := fun s p o q ↦ by simp [localConsumer, and_comm]
  tell_revoke := fun _ _ ↦ rfl
  mem_paused_revoke := fun s p q ↦ by simp [localConsumer, and_comm]
  paused_poll := fun s choice ↦ by
    simp only [localConsumer]
    split
    · rfl
    · split
      · rfl
      · split_ifs
        · rfl
        · rfl
  tell_poll_none := fun s choice h ↦ by
    simp only [localConsumer] at h ⊢
    split at h
    · rfl
    · split at h
      · rfl
      · split_ifs at h ⊢
        rfl
  poll_some := fun s choice p o h ↦ by
    obtain ⟨hpaused, hoffset, hnext⟩ := localConsumer_poll_some h
    exact ⟨hpaused, ⟨o, hoffset, le_rfl, Set.mem_univ o, fun i hi hi' ↦ by omega⟩, hnext⟩

/-- A poll of the partition 0. -/
def pollEvents : List (ConsumerEvent ℕ ℕ (Option ℕ)) :=
  [.pollStarts, .pollReturns (some 0), .checks]

/-- The message 0 is held back until the leader has committed past it, and the message 1 is. -/
theorem heldBack_allowed :
    (observer ℕ ℕ).EveryStep (Allowed localConsumer.log [7]) (observer ℕ ℕ).init
        ((synchronizedConsumer localConsumer [7]).run
          (.assigned 0 0 :: pollEvents ++ .commitRecord 7 0 1 :: pollEvents ++ pollEvents)).trace ∧
      ((synchronizedConsumer localConsumer [7]).run
          (.assigned 0 0 :: pollEvents ++ .commitRecord 7 0 1 :: pollEvents ++ pollEvents)).trace =
        [.assigned 0 0, .committed 7 0 1, .returned 0 0] :=
  ⟨run_allowed localConsumer_lawful [7] _, by decide⟩

/-- The offsets that were returned of a partition, oldest first. -/
def returnedOffsets (p : Partition) (trace : List (Entry Group Partition)) : List ℕ :=
  trace.filterMap fun entry ↦
    match entry with
    | .returned q offset => if q = p then some offset else none
    | _ => none

/-- Every offset is one more than the one before. -/
def Consecutive (offsets : List ℕ) : Prop := offsets.IsChain fun a b ↦ b = a + 1

/-- A rebalance without a seek: the partition is assigned again where it was assigned before. -/
def reassignedRun : List (ConsumerEvent ℕ ℕ (Option ℕ)) :=
  .assigned 0 0 :: .commitRecord 7 0 5 :: pollEvents ++ .revoked 0 :: .assigned 0 0 :: pollEvents

/-- The first message is returned again: offsets are not consecutive across assignments. -/
theorem reassigned_not_consecutive :
    LawfulConsumer localConsumer ∧
      returnedOffsets 0 ((synchronizedConsumer localConsumer [7]).run reassignedRun).trace =
        [0, 0] ∧
      ¬Consecutive
        (returnedOffsets 0 ((synchronizedConsumer localConsumer [7]).run reassignedRun).trace) := by
  refine ⟨localConsumer_lawful, by decide, ?_⟩
  unfold Consecutive
  decide

end Sentry.Consumers
