import Sentry.HybridCloud.DeliverWebhooks
import Mathlib.Tactic.Linarith

/-!
# Drains that meet

A task walks through the mailbox without an end, while only the 300 payloads of its batch were
pushed back. Once these are delivered, a second task can be started for the next payload, and both
send it. This is all that goes wrong (`sentOnce_of_everyStep`), as long as a task reads past its
batch only when no other is at work, and a run starts a task only when the payload it has selected
is still due and no task holds a payload from outside its batch. No payload is lost
(`delivery_keeps`).
-/

namespace Sentry.HybridCloud.Webhooks

open Library List Function

/-! ### Rows -/

theorem ids_pushBack (rows : Rows) (ids : List ℕ) (time : ℚ) :
    (rows.pushBack ids time).ids = rows.ids := by
  rw [Rows.ids, Rows.pushBack, map_map]
  refine map_congr_left fun row _ ↦ ?_
  show (if row.id ∈ ids then _ else row : WebhookPayload).id = row.id
  split <;> rfl

theorem ids_updateSchedule (rows : Rows) (payload : WebhookPayload) :
    (rows.updateSchedule payload).ids = rows.ids := by
  rw [Rows.ids, Rows.updateSchedule, map_map]
  refine map_congr_left fun row _ ↦ ?_
  show (if row.id = payload.id then _ else row : WebhookPayload).id = row.id
  split <;> rfl

theorem notMem_ids_delete (rows : Rows) (id : ℕ) : id ∉ (rows.delete id).ids := by
  simp [Rows.ids, Rows.delete]

variable {rows : Rows}

theorem mem_startingAt {id limit : ℕ} {row : WebhookPayload}
    (h : row ∈ rows.startingAt id limit) : row ∈ rows ∧ id ≤ row.id := by
  have hfilter := mem_of_mem_take h
  simpa using mem_filter.mp hfilter

theorem startingAt_closed (hsorted : rows.ids.Pairwise (· < ·)) {id limit : ℕ}
    {x row : WebhookPayload} (hx : x ∈ rows) (hid : id ≤ x.id)
    (hrow : row ∈ rows.startingAt id limit) (hlt : x.id < row.id) :
    x ∈ rows.startingAt id limit := by
  set first := rows.filter (id ≤ ·.id) with hfirst
  have hpairwise : first.Pairwise (·.id < ·.id) := (pairwise_map.mp hsorted).filter _
  have hmem : x ∈ first.take limit ++ first.drop limit := by
    rw [take_append_drop, hfirst]
    exact mem_filter.mpr ⟨hx, by simpa using hid⟩
  rw [← take_append_drop limit first, pairwise_append] at hpairwise
  rcases mem_append.mp hmem with htake | hdrop
  · exact htake
  · exact absurd (hpairwise.2.2 row hrow x hdrop) (Nat.lt_asymm hlt)

/-! ### Tasks at work -/

def Drain.Working (drain : Drain) (rows : Rows) : Prop :=
  match drain.phase with
  | .queued => drain.payloadId ∈ rows.ids
  | .discarding => True
  | .running _ _ _ => True
  | .finished => False

def Drain.offsetEnd (drain : Drain) : ℚ := drain.scheduledAt + batchScheduleOffset

def State.At (s : State) (t : ℕ) (drain : Drain) : Prop :=
  s.drains t = some drain ∧ drain.Working s.rows

/-- The rows and the ids that have been given out. -/
structure State.Ordered (s : State) : Prop where
  sorted : s.rows.ids.Pairwise (· < ·)
  below : ∀ id ∈ s.rows.ids, id < s.nextId
  batchBelow : ∀ t drain, s.drains t = some drain → ∀ id ∈ drain.batch, id < s.nextId
  heldBelow : ∀ t drain, s.drains t = some drain → ∀ id ∈ drain.held, id < s.nextId
  sentBelow : ∀ t id, (t, id) ∈ s.sent → id < s.nextId
  payloadBelow : ∀ t drain, s.drains t = some drain → drain.payloadId < s.nextId
  selectedBelow : ∀ run id, s.schedules run = .selected id → id < s.nextId
  head : ∀ run id, s.schedules run = .selected id → ∀ id' ∈ s.rows.ids, id ≤ id'

/-- What the batch schedule offset does: the batch of a task is not due. -/
structure State.Delayed (s : State) : Prop where
  time : ∀ t drain, s.At t drain → drain.scheduledAt ≤ s.now ∧ s.now < drain.offsetEnd
  rows : ∀ t drain, s.At t drain → ∀ row ∈ s.rows, row.id ∈ drain.batch →
    drain.offsetEnd ≤ row.scheduleFor
  held : ∀ t drain, s.At t drain → ∀ delivery ∈ drain.phase.slice, delivery.1.id ∈ drain.batch →
    drain.offsetEnd ≤ delivery.1.scheduleFor
  closed : ∀ t drain, s.At t drain → ∀ id ∈ s.rows.ids, ∀ id' ∈ s.rows.ids, id' ∈ drain.batch →
    id < id' → id ∈ drain.batch

/-- Two tasks at work have nothing in common. -/
structure State.Separate (s : State) : Prop where
  own : ∀ t drain t' drain', s.At t drain → s.At t' drain' → t ≠ t' →
    ∀ id ∈ drain.held, id ∈ drain.batch
  batches : ∀ t drain t' drain', s.At t drain → s.At t' drain' → t ≠ t' →
    ∀ id ∈ s.rows.ids, id ∈ drain.batch → id ∉ drain'.batch
  held : ∀ t drain t' drain', s.drains t = some drain → s.drains t' = some drain' → t ≠ t' →
    ∀ id ∈ drain.held, id ∉ drain'.held
  sent : ∀ t id, (t, id) ∈ s.sent → (∃ drain, s.drains t = some drain ∧ id ∈ drain.held) ∨
    (id ∉ s.rows.ids ∧ ∀ t' drain', s.drains t' = some drain' → id ∉ drain'.held)
  answered : ∀ t drain, s.drains t = some drain → ∀ delivery ∈ drain.phase.slice,
    delivery.2 ≠ .failed
  once : s.SentOnce

theorem Drain.Working.imp {drain : Drain} {rows rows' : Rows} (h : drain.Working rows')
    (hids : drain.payloadId ∈ rows'.ids → drain.payloadId ∈ rows.ids) : drain.Working rows := by
  unfold Drain.Working at h ⊢
  split
  case h_1 hphase =>
    rw [hphase] at h
    exact hids h
  case h_2 => trivial
  case h_3 => trivial
  case h_4 hphase =>
    rw [hphase] at h
    exact h

variable {id : ℕ}

theorem working_of_mem_held {drain : Drain} (h : id ∈ drain.held) (rows : Rows) :
    drain.Working rows := by
  unfold Drain.held at h
  unfold Drain.Working
  cases hphase : drain.phase with
  | running deadline slice requestFailed => trivial
  | _ => simp [hphase, Phase.slice] at h

/-! ### The work on a slice -/

/-- A task can read a payload: it is in the mailbox, no other task holds it, and it is in the batch
of the task unless no other one is at work. -/
structure State.Free (s : State) (t : ℕ) (drain : Drain) (id : ℕ) : Prop where
  mem : id ∈ s.rows.ids
  notHeld : ∀ t' other, t' ≠ t → s.drains t' = some other → id ∉ other.held
  own : ∀ t' other, t' ≠ t → s.At t' other → id ∈ drain.batch

/-- A step of a task: the records that it gets are free, those it is done with are deleted, and the
rows that change are its own, and are not due before the end of the offset if they are in its batch.
-/
structure Work (s s' : State) (t : ℕ) (drain : Drain) (phase : Phase) : Prop where
  task : s.drains t = some drain
  result : s' = { s with rows := s'.rows, sent := s'.sent }.setPhase t drain phase
  working : { drain with phase := phase }.Working s'.rows → drain.Working s.rows
  ids : s'.rows.ids.Sublist s.rows.ids
  rows : ∀ row ∈ s'.rows, row ∈ s.rows ∨
    row.id ∈ drain.held ∧ (row.id ∈ drain.batch → drain.offsetEnd ≤ row.scheduleFor)
  held : ∀ id ∈ phase.slice.map (·.1.id), id ∈ drain.held ∨ s.Free t drain id
  dropped : ∀ id ∈ drain.held, id ∉ phase.slice.map (·.1.id) → id ∉ s'.rows.ids
  slice : ∀ delivery ∈ phase.slice, delivery.1.id ∈ drain.batch →
    drain.offsetEnd ≤ delivery.1.scheduleFor
  answered : ∀ delivery ∈ phase.slice, delivery.2 ≠ .failed
  sent : s'.sent = s.sent ∨ ∃ id ∈ phase.slice.map (·.1.id), s'.sent = (t, id) :: s.sent

theorem eq_or_of_update {drains : ℕ → Option Drain} {t t' : ℕ} {new d : Drain}
    (h : Function.update drains t (some new) t' = some d) :
    (t' = t ∧ d = new) ∨ (t' ≠ t ∧ drains t' = some d) := by
  rw [update_apply] at h
  by_cases ht : t' = t
  · rw [if_pos ht, Option.some.injEq] at h
    exact Or.inl ⟨ht, h.symm⟩
  · rw [if_neg ht] at h
    exact Or.inr ⟨ht, h⟩

namespace Work

variable {s s' : State} {t : ℕ} {drain : Drain} {phase : Phase}

section

variable (h : Work s s' t drain phase)

include h

theorem drains : s'.drains = Function.update s.drains t (some { drain with phase := phase }) := by
  rw [h.result]
  rfl

theorem now : s'.now = s.now := by
  rw [h.result]
  rfl

theorem nextId : s'.nextId = s.nextId := by
  rw [h.result]
  rfl

theorem schedules : s'.schedules = s.schedules := by
  rw [h.result]
  rfl

theorem drains_self : s'.drains t = some { drain with phase := phase } := by
  rw [h.drains, update_self]

variable {t' : ℕ} {d : Drain}

theorem eq_or_drains (hd : s'.drains t' = some d) :
    (t' = t ∧ d = { drain with phase := phase }) ∨ (t' ≠ t ∧ s.drains t' = some d) :=
  eq_or_of_update (h.drains ▸ hd)

theorem eq_or_at (hat : s'.At t' d) :
    (t' = t ∧ d = { drain with phase := phase } ∧ s.At t drain) ∨ (t' ≠ t ∧ s.At t' d) := by
  rcases h.eq_or_drains hat.1 with ⟨ht, rfl⟩ | ⟨ht, hold⟩
  · exact Or.inl ⟨ht, rfl, h.task, h.working hat.2⟩
  · exact Or.inr ⟨ht, hold, hat.2.imp fun hid ↦ h.ids.subset hid⟩

theorem below_of_held (hs : s.Ordered) (hid : id ∈ phase.slice.map (·.1.id)) : id < s.nextId := by
  rcases h.held id hid with hold | hfree
  · exact hs.heldBelow t drain h.task id hold
  · exact hs.below id hfree.mem

theorem mem_sent (hsent : (t', id) ∈ s'.sent) :
    (t', id) ∈ s.sent ∨ t' = t ∧ id ∈ phase.slice.map (·.1.id) := by
  rcases h.sent with heq | ⟨new, hnew, heq⟩
  · exact Or.inl (heq ▸ hsent)
  · rw [heq] at hsent
    rcases mem_cons.mp hsent with hfirst | hold
    · obtain ⟨rfl, rfl⟩ := Prod.mk.inj hfirst
      exact Or.inr ⟨rfl, hnew⟩
    · exact Or.inl hold

theorem ordered (hs : s.Ordered) : s'.Ordered where
  sorted := hs.sorted.sublist h.ids
  below id hid := h.nextId ▸ hs.below id (h.ids.subset hid)
  batchBelow t' d hd := by
    rw [h.nextId]
    rcases h.eq_or_drains hd with ⟨-, rfl⟩ | ⟨-, hold⟩
    · exact hs.batchBelow t drain h.task
    · exact hs.batchBelow t' d hold
  heldBelow t' d hd id hid := by
    rw [h.nextId]
    rcases h.eq_or_drains hd with ⟨-, rfl⟩ | ⟨-, hold⟩
    · exact h.below_of_held hs hid
    · exact hs.heldBelow t' d hold id hid
  sentBelow t' id hsent := by
    rw [h.nextId]
    rcases h.mem_sent hsent with hold | ⟨-, hid⟩
    · exact hs.sentBelow t' id hold
    · exact h.below_of_held hs hid
  payloadBelow t' d hd := by
    rw [h.nextId]
    rcases h.eq_or_drains hd with ⟨-, rfl⟩ | ⟨-, hold⟩
    · exact hs.payloadBelow t drain h.task
    · exact hs.payloadBelow t' d hold
  selectedBelow run id hrun := h.nextId ▸ hs.selectedBelow run id (h.schedules ▸ hrun)
  head run id hrun id' hid' := hs.head run id (h.schedules ▸ hrun) id' (h.ids.subset hid')

theorem delayed (hs : s.Delayed) (hsep : s.Separate) : s'.Delayed where
  time t' d hat := by
    rw [h.now]
    rcases h.eq_or_at hat with ⟨-, rfl, hself⟩ | ⟨-, hold⟩
    · exact hs.time t drain hself
    · exact hs.time t' d hold
  rows t' d hat row hrow hbatch := by
    rcases h.eq_or_at hat with ⟨-, rfl, hself⟩ | ⟨ht, hother⟩
    · rcases h.rows row hrow with hold | hnew
      · exact hs.rows t drain hself row hold hbatch
      · exact hnew.2 hbatch
    · rcases h.rows row hrow with hold | hnew
      · exact hs.rows t' d hother row hold hbatch
      · have hid : row.id ∈ s.rows.ids := h.ids.subset (mem_map_of_mem hrow)
        have hself : s.At t drain := ⟨h.task, working_of_mem_held hnew.1 s.rows⟩
        have hown := hsep.own t drain t' d hself hother (Ne.symm ht) row.id hnew.1
        exact absurd hbatch
          (hsep.batches t drain t' d hself hother (Ne.symm ht) row.id hid hown)
  held t' d hat delivery hdelivery hbatch := by
    rcases h.eq_or_at hat with ⟨-, rfl, -⟩ | ⟨-, hold⟩
    · exact h.slice delivery hdelivery hbatch
    · exact hs.held t' d hold delivery hdelivery hbatch
  closed t' d hat id hid id' hid' := by
    have hmem := h.ids.subset hid
    have hmem' := h.ids.subset hid'
    rcases h.eq_or_at hat with ⟨-, rfl, hself⟩ | ⟨-, hold⟩
    · exact hs.closed t drain hself id hmem id' hmem'
    · exact hs.closed t' d hold id hmem id' hmem'

theorem notMem_held (hs : s.Separate) (ht : t' ≠ t) (hd : s.drains t' = some d)
    (hid : id ∈ phase.slice.map (·.1.id)) : id ∉ d.held := by
  rcases h.held id hid with hold | hfree
  · exact hs.held t drain t' d h.task hd (Ne.symm ht) id hold
  · exact hfree.notHeld t' d ht hd

theorem eq_of_sent (hs : s.Separate) (hid : id ∈ phase.slice.map (·.1.id))
    (hsent : (t', id) ∈ s.sent) : t' = t := by
  rcases hs.sent t' id hsent with ⟨d, hd, hheld⟩ | ⟨hrow, hnone⟩
  · by_contra hne
    exact h.notMem_held hs hne hd hid hheld
  · rcases h.held id hid with hold | hfree
    · exact absurd hold (hnone t drain h.task)
    · exact absurd hfree.mem hrow

theorem sent_kept (hs : s.Separate) (hsent : (t', id) ∈ s.sent) :
    (∃ d, s'.drains t' = some d ∧ id ∈ d.held) ∨
      (id ∉ s'.rows.ids ∧ ∀ t'' d, s'.drains t'' = some d → id ∉ d.held) := by
  rcases hs.sent t' id hsent with ⟨d, hd, hheld⟩ | ⟨hrow, hnone⟩
  · by_cases ht : t' = t
    · subst ht
      obtain rfl : drain = d := Option.some.inj (h.task.symm.trans hd)
      by_cases hid : id ∈ phase.slice.map (·.1.id)
      · exact Or.inl ⟨{ drain with phase := phase }, h.drains_self, hid⟩
      · refine Or.inr ⟨h.dropped id hheld hid, fun t'' d hd ↦ ?_⟩
        rcases h.eq_or_drains hd with ⟨-, rfl⟩ | ⟨hne, hold⟩
        · exact hid
        · exact hs.held t' drain t'' d h.task hold (Ne.symm hne) id hheld
    · exact Or.inl ⟨d, by rw [h.drains, update_of_ne ht, hd], hheld⟩
  · refine Or.inr ⟨fun hid ↦ hrow (h.ids.subset hid), fun t'' d hd hid ↦ ?_⟩
    rcases h.eq_or_drains hd with ⟨-, rfl⟩ | ⟨-, hold⟩
    · rcases h.held id hid with hold | hfree
      · exact hnone t drain h.task hold
      · exact hrow hfree.mem
    · exact hnone t'' d hold hid

theorem separate (hs : s.Separate) : s'.Separate where
  own t₁ d₁ t₂ d₂ h₁ h₂ hne id hid := by
    rcases h.eq_or_at h₁ with ⟨rfl, rfl, hself⟩ | ⟨-, hold₁⟩
    · rcases h.eq_or_at h₂ with ⟨heq, -⟩ | ⟨ht₂, hold₂⟩
      · exact absurd heq.symm hne
      · rcases h.held id hid with hold | hfree
        · exact hs.own t₁ drain t₂ d₂ hself hold₂ hne id hold
        · exact hfree.own t₂ d₂ ht₂ hold₂
    · rcases h.eq_or_at h₂ with ⟨rfl, -, hself⟩ | ⟨-, hold₂⟩
      · exact hs.own t₁ d₁ t₂ drain hold₁ hself hne id hid
      · exact hs.own t₁ d₁ t₂ d₂ hold₁ hold₂ hne id hid
  batches t₁ d₁ t₂ d₂ h₁ h₂ hne id hid := by
    have hold := h.ids.subset hid
    rcases h.eq_or_at h₁ with ⟨rfl, rfl, hself⟩ | ⟨-, hold₁⟩
    · rcases h.eq_or_at h₂ with ⟨heq, -⟩ | ⟨-, hold₂⟩
      · exact absurd heq.symm hne
      · exact hs.batches t₁ drain t₂ d₂ hself hold₂ hne id hold
    · rcases h.eq_or_at h₂ with ⟨rfl, rfl, hself⟩ | ⟨-, hold₂⟩
      · exact hs.batches t₁ d₁ t₂ drain hold₁ hself hne id hold
      · exact hs.batches t₁ d₁ t₂ d₂ hold₁ hold₂ hne id hold
  held t₁ d₁ t₂ d₂ h₁ h₂ hne id hid := by
    rcases h.eq_or_drains h₁ with ⟨rfl, rfl⟩ | ⟨ht₁, hold₁⟩
    · rcases h.eq_or_drains h₂ with ⟨heq, -⟩ | ⟨ht₂, hold₂⟩
      · exact absurd heq.symm hne
      · exact h.notMem_held hs ht₂ hold₂ hid
    · rcases h.eq_or_drains h₂ with ⟨rfl, rfl⟩ | ⟨-, hold₂⟩
      · exact fun hid' ↦ h.notMem_held hs ht₁ hold₁ hid' hid
      · exact hs.held t₁ d₁ t₂ d₂ hold₁ hold₂ hne id hid
  sent t₁ id hsent := by
    rcases h.mem_sent hsent with hold | ⟨rfl, hid⟩
    · exact h.sent_kept hs hold
    · exact Or.inl ⟨{ drain with phase := phase }, h.drains_self, hid⟩
  answered t₁ d₁ h₁ := by
    rcases h.eq_or_drains h₁ with ⟨-, rfl⟩ | ⟨-, hold⟩
    · exact h.answered
    · exact hs.answered t₁ d₁ hold
  once t₁ t₂ id h₁ h₂ := by
    rcases h.mem_sent h₁ with hold₁ | ⟨rfl, hid⟩
    · rcases h.mem_sent h₂ with hold₂ | ⟨rfl, hid⟩
      · exact hs.once t₁ t₂ id hold₁ hold₂
      · exact h.eq_of_sent hs hid hold₁
    · rcases h.mem_sent h₂ with hold₂ | ⟨rfl, -⟩
      · exact (h.eq_of_sent hs hid hold₂).symm
      · rfl

end

end Work

/-- What holds as long as no two tasks meet. -/
structure State.Apart (s : State) : Prop where
  ordered : s.Ordered
  delayed : s.Delayed
  separate : s.Separate

variable {s s' : State} {t : ℕ} {drain : Drain}

theorem Work.apart {phase : Phase} (h : Work s s' t drain phase) (hs : s.Apart) : s'.Apart :=
  ⟨h.ordered hs.ordered, h.delayed hs.delayed hs.separate, h.separate hs.separate⟩

theorem apart_setPhase (hs : s.Apart) (htask : s.drains t = some drain)
    (hrows : rows.Sublist s.rows) {phase : Phase} (hold : drain.phase.slice = [])
    (hnew : phase.slice = [])
    (hworking : { drain with phase := phase }.Working rows → drain.Working s.rows) :
    ({ s with rows := rows }.setPhase t drain phase).Apart :=
  Work.apart
    { task := htask
      result := rfl
      working := hworking
      ids := hrows.map _
      rows := fun row hrow ↦ Or.inl (hrows.subset hrow)
      held := fun id hid ↦ by simp [hnew] at hid
      dropped := fun id hid ↦ by simp [Drain.held, hold] at hid
      slice := fun delivery hdelivery ↦ by simp [hnew] at hdelivery
      answered := fun delivery hdelivery ↦ by simp [hnew] at hdelivery
      sent := Or.inl rfl } hs

theorem apart_begin (hs : s.Apart) (t : ℕ) : (s.begin t).Apart := by
  unfold State.begin
  split
  case h_1 drain htask =>
    split
    case h_1 hphase =>
      have hslice : drain.phase.slice = [] := by rw [hphase]; rfl
      split
      case h_1 =>
        exact apart_setPhase hs htask (List.Sublist.refl _) hslice rfl fun h ↦ h.elim
      case h_2 payload hfind =>
        have hworking : drain.Working s.rows := by
          have hmem := mem_of_find?_eq_some hfind
          have hid : payload.id = drain.payloadId := by simpa using find?_some hfind
          rw [Drain.Working, hphase]
          exact hid ▸ mem_map_of_mem hmem
        refine apart_setPhase hs htask (List.Sublist.refl _) hslice ?_ fun _ ↦ hworking
        split <;> rfl
    case h_2 => exact hs
  case h_2 => exact hs

theorem apart_discard (hs : s.Apart) (t : ℕ) (ids : List ℕ) : (s.discard t ids).Apart := by
  unfold State.discard
  split
  case h_1 drain htask =>
    split
    case h_1 hphase =>
      have hslice : drain.phase.slice = [] := by rw [hphase]; rfl
      refine apart_setPhase hs htask filter_sublist hslice rfl fun _ ↦ ?_
      rw [Drain.Working, hphase]
      trivial
    case h_2 => exact hs
  case h_2 => exact hs

/-! ### The records of a slice -/

theorem mem_updateSchedule {payload row : WebhookPayload} (h : row ∈ rows.updateSchedule payload) :
    row ∈ rows ∨ row.id = payload.id ∧ row.scheduleFor = payload.scheduleFor := by
  obtain ⟨old, hold, rfl⟩ := List.mem_map.mp h
  by_cases hid : old.id = payload.id
  · rw [if_pos hid]
    exact Or.inr ⟨hid, rfl⟩
  · rw [if_neg hid]
    exact Or.inl hold

section Running

variable {deadline : ℚ} {slice : List (WebhookPayload × Stage)} {requestFailed : Bool}

theorem held_of_running (hphase : drain.phase = .running deadline slice requestFailed) :
    drain.held = slice.map (·.1.id) := by
  rw [Drain.held, hphase]
  rfl

theorem at_of_running (htask : s.drains t = some drain)
    (hphase : drain.phase = .running deadline slice requestFailed) : s.At t drain := by
  refine ⟨htask, ?_⟩
  rw [Drain.Working, hphase]
  trivial

section

variable (hs : s.Apart) (htask : s.drains t = some drain)
  (hphase : drain.phase = .running deadline slice requestFailed)

include hs htask hphase

theorem offsetEnd_le_of_mem {delivery : WebhookPayload × Stage} (hmem : delivery ∈ slice)
    (hbatch : delivery.1.id ∈ drain.batch) : drain.offsetEnd ≤ delivery.1.scheduleFor :=
  hs.delayed.held t drain (at_of_running htask hphase) delivery (by rwa [hphase]) hbatch

theorem answered_of_mem {delivery : WebhookPayload × Stage} (hmem : delivery ∈ slice) :
    delivery.2 ≠ .failed :=
  hs.separate.answered t drain htask delivery (by rwa [hphase])

theorem apart_delete {rest : List (WebhookPayload × Stage)} (hrest : rest.Sublist slice)
    (hdropped : ∀ delivery ∈ slice, delivery ∉ rest → delivery.1.id = id) :
    ({ s with rows := s.rows.delete id }.setPhase t drain
      (.running deadline rest requestFailed)).Apart :=
  Work.apart
    { task := htask
      result := rfl
      working := fun _ ↦ (at_of_running htask hphase).2
      ids := filter_sublist.map _
      rows := fun row hrow ↦ Or.inl (mem_of_mem_filter hrow)
      held := by
        rw [held_of_running hphase]
        exact fun _ h ↦ Or.inl ((hrest.map _).subset h)
      dropped := by
        intro i hi hnot
        rw [held_of_running hphase] at hi
        obtain ⟨delivery, hdelivery, rfl⟩ := List.mem_map.mp hi
        have hrest' : delivery ∉ rest := fun hmem ↦ hnot (mem_map_of_mem hmem)
        rw [hdropped delivery hdelivery hrest']
        exact notMem_ids_delete s.rows id
      slice := fun delivery hdelivery ↦ offsetEnd_le_of_mem hs htask hphase (hrest.subset hdelivery)
      answered := fun delivery hdelivery ↦ answered_of_mem hs htask hphase (hrest.subset hdelivery)
      sent := Or.inl rfl } hs

theorem apart_send_of {slice' : List (WebhookPayload × Stage)}
    (hsame : slice'.map (·.1) = slice.map (·.1))
    (hanswered : ∀ delivery ∈ slice', delivery.2 ≠ .failed) (hid : id ∈ slice.map (·.1.id)) :
    ({ s with sent := (t, id) :: s.sent }.setPhase t drain
      (.running deadline slice' requestFailed)).Apart := by
  have hids : slice'.map (·.1.id) = slice.map (·.1.id) := by
    simpa only [map_map, comp_def] using congrArg (List.map (·.id)) hsame
  have hheld : drain.held = slice'.map (·.1.id) := (held_of_running hphase).trans hids.symm
  exact Work.apart
    { task := htask
      result := rfl
      working := fun _ ↦ (at_of_running htask hphase).2
      ids := List.Sublist.refl _
      rows := fun row hrow ↦ Or.inl hrow
      held := fun _ h ↦ Or.inl (hheld ▸ h)
      dropped := fun _ h hnot ↦ absurd (hheld ▸ h) hnot
      slice := by
        intro delivery hdelivery hbatch
        have hmem : delivery.1 ∈ slice.map (·.1) := hsame ▸ mem_map_of_mem hdelivery
        obtain ⟨old, hold, heq⟩ := List.mem_map.mp hmem
        rw [← heq] at hbatch ⊢
        exact offsetEnd_le_of_mem hs htask hphase hold hbatch
      answered := hanswered
      sent := Or.inr ⟨id, hids ▸ hid, rfl⟩ } hs

end

theorem apart_updateSchedule (hs : s.Apart) (htask : s.drains t = some drain)
    {payload : WebhookPayload} {stage stage' : Stage} {rest : List (WebhookPayload × Stage)}
    (hphase : drain.phase = .running deadline ((payload, stage) :: rest) requestFailed)
    (hstage : stage' ≠ .failed) :
    ({ s with rows := s.rows.updateSchedule (payload.scheduleNextAttempt s.now) }.setPhase t drain
      (.running deadline ((payload.scheduleNextAttempt s.now, stage') :: rest)
        requestFailed)).Apart := by
  have hpayload : payload.id ∈ drain.batch → drain.offsetEnd ≤
      (payload.scheduleNextAttempt s.now).scheduleFor := fun hbatch ↦
    (offsetEnd_le_of_mem hs htask hphase mem_cons_self hbatch).trans (le_max_right _ _)
  exact Work.apart
    { task := htask
      result := rfl
      working := fun _ ↦ (at_of_running htask hphase).2
      ids := by
        show List.Sublist (Rows.updateSchedule _ _).ids _
        rw [ids_updateSchedule]
      rows := by
        intro row hrow
        refine (mem_updateSchedule hrow).imp id fun hnew ↦ ?_
        have hid : row.id = payload.id := hnew.1
        rw [hid, hnew.2, held_of_running hphase]
        exact ⟨mem_cons_self, hpayload⟩
      held := by
        rw [held_of_running hphase]
        exact fun _ h ↦ Or.inl h
      dropped := by
        rw [held_of_running hphase]
        exact fun _ h hnot ↦ absurd h hnot
      slice := by
        intro delivery hdelivery hbatch
        rcases mem_cons.mp hdelivery with rfl | hrest
        · exact hpayload hbatch
        · exact offsetEnd_le_of_mem hs htask hphase (mem_cons_of_mem _ hrest) hbatch
      answered := by
        intro delivery hdelivery
        rcases mem_cons.mp hdelivery with rfl | hrest
        · exact hstage
        · exact answered_of_mem hs htask hphase (mem_cons_of_mem _ hrest)
      sent := Or.inl rfl } hs

end Running

theorem apart_attempt (hs : s.Apart) (t : ℕ) : (s.attempt t).Apart := by
  unfold State.attempt
  split
  case h_1 drain htask =>
    split
    case h_1 deadline payload rest requestFailed _ hphase =>
      by_cases hmax : maxAttempts ≤ payload.attempts
      · rw [if_pos hmax]
        refine apart_delete hs htask hphase (sublist_cons_self _ _) fun delivery hmem hnot ↦ ?_
        rw [(mem_cons.mp hmem).resolve_right hnot]
      · rw [if_neg hmax]
        exact apart_updateSchedule hs htask hphase (by simp)
    case h_2 => exact hs
  case h_2 => exact hs

theorem map_fst_answer (id : ℕ) (answered : Bool) (slice : List (WebhookPayload × Stage)) :
    (State.answer id answered slice).map (·.1) = slice.map (·.1) := by
  rw [State.answer, map_map]
  refine map_congr_left fun delivery _ ↦ ?_
  show (if delivery.1.id = id then _ else delivery : WebhookPayload × Stage).1 = delivery.1
  split <;> rfl

theorem apart_send (hs : s.Apart) (t id : ℕ) : (s.send t id true).Apart := by
  unfold State.send
  split
  case h_1 drain htask =>
    have hanswered := hs.separate.answered t drain htask
    split
    case h_1 deadline payload rest requestFailed _ hphase =>
      rw [hphase] at hanswered
      refine apart_send_of hs htask hphase rfl (fun delivery hdelivery ↦ ?_) mem_cons_self
      rcases mem_cons.mp hdelivery with rfl | hrest
      · simp
      · exact hanswered delivery (mem_cons_of_mem _ hrest)
    case h_2 deadline slice requestFailed _ hphase =>
      rw [hphase] at hanswered
      by_cases hfound : ∃ delivery ∈ slice, delivery.1.id = id ∧ delivery.2 = .fetched
      · rw [if_pos hfound]
        obtain ⟨found, hmem, hid, -⟩ := hfound
        refine apart_send_of hs htask hphase (map_fst_answer id true slice)
          (fun delivery hdelivery ↦ ?_) (hid ▸ mem_map_of_mem hmem)
        obtain ⟨old, hold, rfl⟩ := List.mem_map.mp hdelivery
        by_cases heq : old.1.id = id
        · simp [heq]
        · simpa [heq] using hanswered old hold
      · rw [if_neg hfound]
        exact hs
    case h_3 => exact hs
  case h_2 => exact hs

theorem apart_settle (hs : s.Apart) (t id : ℕ) : (s.settle t id).Apart := by
  unfold State.settle
  split
  case h_1 drain htask =>
    split
    case h_1 deadline slice requestFailed hphase =>
      split
      case h_1 =>
        refine apart_delete hs htask hphase filter_sublist fun delivery hmem hnot ↦ ?_
        by_contra hne
        exact hnot (mem_filter.mpr ⟨hmem, by simpa using hne⟩)
      case h_2 payload hfind =>
        have hmem := mem_of_find?_eq_some hfind
        exact absurd rfl (hs.separate.answered t drain htask _ (by rwa [hphase]))
      case h_3 => exact hs
    case h_2 => exact hs
  case h_2 => exact hs

/-! ### The steps that can let two tasks meet -/

/-- A run starts a task only when the payload it has selected, if it is still there, is still due,
and no task holds a payload from outside its batch; and a task reads past its batch only when no
other one is at work. -/
def KeepsApart (workerThreads : ℕ) (s : State) : Event → Prop
  | .schedule run _ => ∀ id, s.schedules run = .selected id → ∀ row ∈ s.rows, row.id = id →
      row.scheduleFor ≤ s.now ∧
        ∀ t drain, s.drains t = some drain → ∀ held ∈ drain.held, held ∈ drain.batch
  | .fetch t => ∀ drain, s.drains t = some drain →
      (∀ row ∈ s.nextSlice workerThreads drain, row.id ∈ drain.batch) ∨
        ∀ t' drain', t' ≠ t → s.drains t' = some drain' → ¬ drain'.Working s.rows
  | _ => True

theorem apart_read (hs : s.Apart) {deadline deadline' : ℚ} {requestFailed requestFailed' : Bool}
    (htask : s.drains t = some drain) (hphase : drain.phase = .running deadline [] requestFailed)
    (hrows : ∀ row ∈ rows, row ∈ s.rows)
    (hkeeps : (∀ row ∈ rows, row.id ∈ drain.batch) ∨
      ∀ t' drain', t' ≠ t → s.drains t' = some drain' → ¬ drain'.Working s.rows) :
    (s.setPhase t drain (.running deadline' (rows.map fun row ↦ (row, .fetched))
      requestFailed')).Apart := by
  have hat : s.At t drain := at_of_running htask hphase
  have hfree : ∀ row ∈ rows, s.Free t drain row.id := by
    intro row hrow
    have hmem : row.id ∈ s.rows.ids := mem_map_of_mem (hrows row hrow)
    -- when another task is at work, this one reads from its own batch
    have hown : ∀ t' other, t' ≠ t → s.At t' other → row.id ∈ drain.batch :=
      fun t' other ht hother ↦
        (hkeeps.resolve_right fun hnone ↦ hnone t' other ht hother.1 hother.2) row hrow
    refine ⟨hmem, fun t' other ht hother hheld ↦ ?_, hown⟩
    have hat' : s.At t' other := ⟨hother, working_of_mem_held hheld s.rows⟩
    exact hs.separate.batches t drain t' other hat hat' (Ne.symm ht) row.id hmem
      (hown t' other ht hat') (hs.separate.own t' other t drain hat' hat ht row.id hheld)
  exact Work.apart
    { task := htask
      result := rfl
      working := fun _ ↦ hat.2
      ids := List.Sublist.refl _
      rows := fun row hrow ↦ Or.inl hrow
      held := by
        intro id hid
        obtain ⟨row, hrow, rfl⟩ : ∃ row ∈ rows, row.id = id := by
          simpa [Phase.slice] using hid
        exact Or.inr (hfree row hrow)
      dropped := fun id hid ↦ by simp [held_of_running hphase] at hid
      slice := by
        intro delivery hdelivery hbatch
        obtain ⟨row, hrow, rfl⟩ := List.mem_map.mp hdelivery
        exact hs.delayed.rows t drain hat row (hrows row hrow) hbatch
      answered := by
        intro delivery hdelivery
        obtain ⟨row, -, rfl⟩ := List.mem_map.mp hdelivery
        simp
      sent := Or.inl rfl } hs

theorem apart_fetch (hs : s.Apart) {workerThreads : ℕ}
    (hkeeps : KeepsApart workerThreads s (.fetch t)) : (s.fetch workerThreads t).Apart := by
  unfold State.fetch
  split
  case h_1 drain htask =>
    split
    case h_1 deadline requestFailed hphase =>
      split
      · have hslice : drain.phase.slice = [] := by rw [hphase]; rfl
        exact apart_setPhase hs htask (List.Sublist.refl _) hslice rfl fun h ↦ h.elim
      · exact apart_read hs htask hphase (fun row hrow ↦ (mem_startingAt hrow).1)
          (hkeeps drain htask)
    case h_2 => exact hs
  case h_2 => exact hs

theorem apart_clock (hs : s.Apart) {time : ℚ} (hle : s.now ≤ time)
    (htime : ∀ t drain, s.drains t = some drain → drain.phase ≠ .finished →
      time < drain.scheduledAt + batchScheduleOffset) : { s with now := time }.Apart := by
  have hord := hs.ordered
  have hsep := hs.separate
  refine ⟨⟨hord.sorted, hord.below, hord.batchBelow, hord.heldBelow, hord.sentBelow,
    hord.payloadBelow, hord.selectedBelow, hord.head⟩, ⟨fun t drain hat ↦ ?_, hs.delayed.rows,
    hs.delayed.held, hs.delayed.closed⟩, ⟨hsep.own, hsep.batches, hsep.held, hsep.sent,
    hsep.answered, hsep.once⟩⟩
  have hat' : s.At t drain := hat
  have hphase : drain.phase ≠ .finished := by
    intro heq
    have hworking := hat'.2
    rw [Drain.Working, heq] at hworking
    exact hworking
  exact ⟨(hs.delayed.time t drain hat').1.trans hle, htime t drain hat'.1 hphase⟩

theorem apart_arrive (hs : s.Apart) : s.arrive.Apart := by
  have hids : s.arrive.rows.ids = s.rows.ids ++ [s.nextId] := by simp [State.arrive, Rows.ids]
  have hmem : ∀ id ∈ s.arrive.rows.ids, id ∈ s.rows.ids ∨ id = s.nextId := fun id hid ↦ by
    simpa [hids] using hid
  have hat : ∀ t drain, s.arrive.At t drain → s.At t drain := by
    intro t drain h
    refine ⟨h.1, h.2.imp fun hid ↦ (hmem _ hid).resolve_right fun heq ↦ ?_⟩
    exact absurd (hs.ordered.payloadBelow t drain h.1) (by omega)
  -- the new payload is in no batch, as its id is new
  have hbatch : ∀ t drain, s.At t drain → ∀ id ∈ s.arrive.rows.ids, id ∈ drain.batch →
      id ∈ s.rows.ids := fun t drain h id hid hin ↦
    (hmem id hid).resolve_right fun heq ↦
      absurd (hs.ordered.batchBelow t drain h.1 id hin) (by omega)
  refine ⟨⟨?_, ?_, ?_, ?_, ?_, ?_, ?_, ?_⟩, ⟨?_, ?_, ?_, ?_⟩, ⟨?_, ?_, hs.separate.held, ?_,
    hs.separate.answered, hs.separate.once⟩⟩
  · rw [hids, pairwise_append]
    refine ⟨hs.ordered.sorted, pairwise_singleton _ _, fun id hid id' hid' ↦ ?_⟩
    rw [mem_singleton.mp hid']
    exact hs.ordered.below id hid
  · intro id hid
    rcases hmem id hid with hold | rfl
    · exact Nat.lt_succ_of_lt (hs.ordered.below id hold)
    · exact Nat.lt_succ_self _
  · exact fun t drain h id hid ↦ Nat.lt_succ_of_lt (hs.ordered.batchBelow t drain h id hid)
  · exact fun t drain h id hid ↦ Nat.lt_succ_of_lt (hs.ordered.heldBelow t drain h id hid)
  · exact fun t id hsent ↦ Nat.lt_succ_of_lt (hs.ordered.sentBelow t id hsent)
  · exact fun t drain h ↦ Nat.lt_succ_of_lt (hs.ordered.payloadBelow t drain h)
  · exact fun run id hrun ↦ Nat.lt_succ_of_lt (hs.ordered.selectedBelow run id hrun)
  · intro run id hrun id' hid'
    rcases hmem id' hid' with hold | rfl
    · exact hs.ordered.head run id hrun id' hold
    · exact (hs.ordered.selectedBelow run id hrun).le
  · exact fun t drain h ↦ hs.delayed.time t drain (hat t drain h)
  · intro t drain h row hrow hin
    rcases mem_append.mp hrow with hold | hnew
    · exact hs.delayed.rows t drain (hat t drain h) row hold hin
    · obtain rfl := mem_singleton.mp hnew
      exact absurd (hs.ordered.batchBelow t drain h.1 _ hin) (Nat.lt_irrefl _)
  · exact fun t drain h ↦ hs.delayed.held t drain (hat t drain h)
  · intro t drain h id hid id' hid' hin hlt
    have hid'' := hbatch t drain (hat t drain h) id' hid' hin
    rcases hmem id hid with hold | rfl
    · exact hs.delayed.closed t drain (hat t drain h) id hold id' hid'' hin hlt
    · exact absurd (hs.ordered.below id' hid'') (by omega)
  · exact fun t drain t' drain' h h' ↦
      hs.separate.own t drain t' drain' (hat t drain h) (hat t' drain' h')
  · intro t drain t' drain' h h' hne id hid hin
    exact hs.separate.batches t drain t' drain' (hat t drain h) (hat t' drain' h') hne id
      (hbatch t drain (hat t drain h) id hid hin) hin
  · intro t id hsent
    refine (hs.separate.sent t id hsent).imp (fun h ↦ h) fun hgone ↦ ⟨fun hid ↦ ?_, hgone.2⟩
    rcases hmem id hid with hold | rfl
    · exact hgone.1 hold
    · exact absurd (hs.ordered.sentBelow t _ hsent) (Nat.lt_irrefl _)

theorem apart_select (hs : s.Apart) (run : ℕ) : (s.select run).Apart := by
  unfold State.select
  split
  case h_1 head hhead =>
    by_cases hdue : head.scheduleFor ≤ s.now
    · rw [if_pos hdue]
      have hmem : head ∈ s.rows := mem_of_mem_head? hhead
      have hfirst : ∀ id ∈ s.rows.ids, head.id ≤ id := by
        obtain ⟨rest, hrest⟩ : ∃ rest, s.rows = head :: rest := head?_eq_some_iff.mp hhead
        have hsorted := hs.ordered.sorted
        rw [hrest] at hsorted ⊢
        intro id hid
        rcases mem_cons.mp hid with rfl | hid
        · exact Nat.le_refl _
        · exact ((pairwise_cons.mp hsorted).1 id hid).le
      have hselected : ∀ run' id, Function.update s.schedules run (.selected head.id) run' =
          .selected id → id = head.id ∨ s.schedules run' = .selected id := by
        intro run' id heq
        rw [update_apply] at heq
        by_cases hrun : run' = run
        · rw [if_pos hrun, Schedule.selected.injEq] at heq
          exact Or.inl heq.symm
        · rw [if_neg hrun] at heq
          exact Or.inr heq
      have hord := hs.ordered
      refine ⟨⟨hord.sorted, hord.below, hord.batchBelow, hord.heldBelow, hord.sentBelow,
        hord.payloadBelow, fun run' id hrun ↦ ?_, fun run' id hrun ↦ ?_⟩, ⟨hs.delayed.time,
        hs.delayed.rows, hs.delayed.held, hs.delayed.closed⟩, ⟨hs.separate.own,
        hs.separate.batches, hs.separate.held, hs.separate.sent, hs.separate.answered,
        hs.separate.once⟩⟩
      · rcases hselected run' id hrun with rfl | hold
        · exact hs.ordered.below _ (mem_map_of_mem hmem)
        · exact hs.ordered.selectedBelow run' id hold
      · rcases hselected run' id hrun with rfl | hold
        · exact hfirst
        · exact hs.ordered.head run' id hold
    · rw [if_neg hdue]
      exact hs
  case h_2 => exact hs

theorem mem_pushBack {ids : List ℕ} {time : ℚ} {row : WebhookPayload}
    (h : row ∈ rows.pushBack ids time) :
    (row ∈ rows ∧ row.id ∉ ids) ∨ (row.id ∈ ids ∧ row.scheduleFor = time) := by
  obtain ⟨old, hold, rfl⟩ := List.mem_map.mp h
  by_cases hid : old.id ∈ ids
  · rw [if_pos hid]
    exact Or.inr ⟨hid, rfl⟩
  · rw [if_neg hid]
    exact Or.inl ⟨hold, hid⟩

/-- A run starts a task, whose batch is the first payloads: they are pushed back. The payload that
was selected is still due, and if it is still there, no task holds a payload from outside its batch.
-/
structure Starts (s s' : State) (t run limit : ℕ) (new : Drain) : Prop where
  fresh : s.drains t = none
  drains : s'.drains = Function.update s.drains t (some new)
  now : s'.now = s.now
  nextId : s'.nextId = s.nextId
  sent : s'.sent = s.sent
  rows : s'.rows = s.rows.pushBack new.batch new.offsetEnd
  schedules : ∀ run' id, s'.schedules run' = .selected id → s.schedules run' = .selected id
  selected : s.schedules run = .selected new.payloadId
  batch : new.batch = (s.rows.startingAt new.payloadId limit).ids
  scheduledAt : new.scheduledAt = s.now
  phase : new.phase = .queued
  due : ∀ row ∈ s.rows, row.id = new.payloadId → row.scheduleFor ≤ s.now
  own : new.payloadId ∈ s.rows.ids → ∀ t drain, s.drains t = some drain →
    ∀ id ∈ drain.held, id ∈ drain.batch

namespace Starts

variable {run limit : ℕ} {new : Drain}

section

variable (h : Starts s s' t run limit new)

include h

theorem ids : s'.rows.ids = s.rows.ids := by
  rw [h.rows, ids_pushBack]

theorem eq_or_drains {t' : ℕ} {d : Drain}
    (hd : s'.drains t' = some d) : (t' = t ∧ d = new) ∨ (t' ≠ t ∧ s.drains t' = some d) :=
  eq_or_of_update (h.drains ▸ hd)

theorem eq_or_at {t' : ℕ} {d : Drain} (hat : s'.At t' d) :
    (t' = t ∧ d = new) ∨ (t' ≠ t ∧ s.At t' d) := by
  have hworking : d.Working s.rows := hat.2.imp fun hid ↦ h.ids ▸ hid
  exact (h.eq_or_drains hat.1).imp_right fun hold ↦ ⟨hold.1, hold.2, hworking⟩

theorem slice_eq_nil : new.phase.slice = [] := by
  rw [h.phase]
  rfl

theorem notMem_held (id : ℕ) : id ∉ new.held := by
  rw [Drain.held, h.slice_eq_nil]
  exact not_mem_nil

theorem mem_of_mem_batch (hid : id ∈ new.batch) : id ∈ s.rows.ids := by
  rw [h.batch] at hid
  obtain ⟨row, hrow, rfl⟩ := List.mem_map.mp hid
  exact mem_map_of_mem (mem_startingAt hrow).1

theorem mem_of_at (hat : s'.At t new) : new.payloadId ∈ s.rows.ids := by
  have hworking := hat.2
  rw [Drain.Working, h.phase, h.ids] at hworking
  exact hworking

theorem notMem_batch (hs : s.Apart) (hat : s'.At t new)
    {t' : ℕ} {d : Drain} (hat' : s.At t' d) (hid : id ∈ s.rows.ids) : id ∉ d.batch := by
  intro hin
  obtain ⟨row, hrow, hrowId⟩ := List.mem_map.mp (h.mem_of_at hat)
  have hhead : row.id ∈ s.rows.ids := mem_map_of_mem hrow
  have hfirst : row.id ≤ id := hrowId ▸ hs.ordered.head run _ h.selected id hid
  have hrowBatch : row.id ∈ d.batch := by
    rcases hfirst.eq_or_lt with heq | hlt
    · exact heq ▸ hin
    · exact hs.delayed.closed t' d hat' row.id hhead id hid hin hlt
  have hdue := h.due row hrow hrowId
  have hlate := hs.delayed.rows t' d hat' row hrow hrowBatch
  linarith [(hs.delayed.time t' d hat').2]

theorem ordered (hs : s.Ordered) : s'.Ordered where
  sorted := h.ids ▸ hs.sorted
  below id hid := h.nextId ▸ hs.below id (h.ids ▸ hid)
  batchBelow t' d hd id hid := by
    rw [h.nextId]
    rcases h.eq_or_drains hd with ⟨-, rfl⟩ | ⟨-, hold⟩
    · exact hs.below id (h.mem_of_mem_batch hid)
    · exact hs.batchBelow t' d hold id hid
  heldBelow t' d hd id hid := by
    rw [h.nextId]
    rcases h.eq_or_drains hd with ⟨-, rfl⟩ | ⟨-, hold⟩
    · exact absurd hid (h.notMem_held id)
    · exact hs.heldBelow t' d hold id hid
  sentBelow t' id hsent := by
    rw [h.nextId]
    rw [h.sent] at hsent
    exact hs.sentBelow t' id hsent
  payloadBelow t' d hd := by
    rw [h.nextId]
    rcases h.eq_or_drains hd with ⟨-, rfl⟩ | ⟨-, hold⟩
    · exact hs.selectedBelow run _ h.selected
    · exact hs.payloadBelow t' d hold
  selectedBelow run' id hrun := h.nextId ▸ hs.selectedBelow run' id (h.schedules run' id hrun)
  head run' id hrun id' hid' := hs.head run' id (h.schedules run' id hrun) id' (h.ids ▸ hid')

theorem delayed (hs : s.Apart) : s'.Delayed where
  time t' d hat := by
    rw [h.now]
    rcases h.eq_or_at hat with ⟨-, rfl⟩ | ⟨-, hold⟩
    · rw [Drain.offsetEnd, h.scheduledAt]
      refine ⟨le_refl s.now, lt_add_of_pos_right _ ?_⟩
      norm_num [batchScheduleOffset, backoffInterval]
    · exact hs.delayed.time t' d hold
  rows t' d hat row hrow hin := by
    rw [h.rows] at hrow
    rcases h.eq_or_at hat with ⟨-, rfl⟩ | ⟨-, hold⟩
    · rcases mem_pushBack hrow with ⟨-, hnot⟩ | ⟨-, heq⟩
      · exact absurd hin hnot
      · exact heq.ge
    · rcases mem_pushBack hrow with ⟨hrow, -⟩ | ⟨-, heq⟩
      · exact hs.delayed.rows t' d hold row hrow hin
      · rw [heq, Drain.offsetEnd, Drain.offsetEnd, h.scheduledAt]
        exact add_le_add_left (hs.delayed.time t' d hold).1 _
  held t' d hat delivery hdelivery := by
    rcases h.eq_or_at hat with ⟨-, rfl⟩ | ⟨-, hold⟩
    · rw [h.slice_eq_nil] at hdelivery
      exact absurd hdelivery not_mem_nil
    · exact hs.delayed.held t' d hold delivery hdelivery
  closed t' d hat := by
    rw [h.ids]
    rcases h.eq_or_at hat with ⟨-, rfl⟩ | ⟨-, hold⟩
    · intro id hid id' _ hin hlt
      rw [h.batch] at hin ⊢
      obtain ⟨row, hrow, rfl⟩ := List.mem_map.mp hin
      have hfirst := hs.ordered.head run _ h.selected id hid
      obtain ⟨other, hother, rfl⟩ := List.mem_map.mp hid
      exact mem_map_of_mem
        (startingAt_closed hs.ordered.sorted hother hfirst hrow hlt)
    · exact hs.delayed.closed t' d hold

theorem separate (hs : s.Apart) : s'.Separate where
  own t₁ d₁ t₂ d₂ h₁ h₂ hne id hid := by
    rcases h.eq_or_at h₁ with ⟨-, rfl⟩ | ⟨-, hold₁⟩
    · exact absurd hid (h.notMem_held id)
    rcases h.eq_or_at h₂ with ⟨rfl, rfl⟩ | ⟨-, hold₂⟩
    · exact h.own (h.mem_of_at h₂) t₁ d₁ hold₁.1 id hid
    · exact hs.separate.own t₁ d₁ t₂ d₂ hold₁ hold₂ hne id hid
  batches t₁ d₁ t₂ d₂ h₁ h₂ hne id hid hin := by
    rw [h.ids] at hid
    rcases h.eq_or_at h₁ with ⟨rfl, rfl⟩ | ⟨-, hold₁⟩
    · rcases h.eq_or_at h₂ with ⟨heq, -⟩ | ⟨-, hold₂⟩
      · exact absurd heq.symm hne
      · exact h.notMem_batch hs h₁ hold₂ hid
    · rcases h.eq_or_at h₂ with ⟨rfl, rfl⟩ | ⟨-, hold₂⟩
      · exact absurd hin (h.notMem_batch hs h₂ hold₁ hid)
      · exact hs.separate.batches t₁ d₁ t₂ d₂ hold₁ hold₂ hne id hid hin
  held t₁ d₁ t₂ d₂ h₁ h₂ hne id hid := by
    rcases h.eq_or_drains h₁ with ⟨-, rfl⟩ | ⟨-, hold₁⟩
    · exact absurd hid (h.notMem_held id)
    rcases h.eq_or_drains h₂ with ⟨-, rfl⟩ | ⟨-, hold₂⟩
    · exact h.notMem_held id
    · exact hs.separate.held t₁ d₁ t₂ d₂ hold₁ hold₂ hne id hid
  sent t' id hsent := by
    rw [h.sent] at hsent
    rw [h.ids]
    refine (hs.separate.sent t' id hsent).imp ?_ fun hgone ↦ ⟨hgone.1, fun t'' d hd ↦ ?_⟩
    · rintro ⟨d, hd, hid⟩
      have ht : t' ≠ t := by
        rintro rfl
        exact Option.some_ne_none d (hd.symm.trans h.fresh)
      exact ⟨d, by rw [h.drains, update_of_ne ht, hd], hid⟩
    · rcases h.eq_or_drains hd with ⟨-, rfl⟩ | ⟨-, hold⟩
      · exact h.notMem_held id
      · exact hgone.2 t'' d hold
  answered t' d hd delivery hdelivery := by
    rcases h.eq_or_drains hd with ⟨-, rfl⟩ | ⟨-, hold⟩
    · rw [h.slice_eq_nil] at hdelivery
      exact absurd hdelivery not_mem_nil
    · exact hs.separate.answered t' d hold delivery hdelivery
  once := by
    have honce := hs.separate.once
    rw [State.SentOnce] at honce ⊢
    rwa [h.sent]

theorem apart (hs : s.Apart) : s'.Apart :=
  ⟨h.ordered hs.ordered, h.delayed hs, h.separate hs⟩

end

end Starts

theorem apart_schedule (hs : s.Apart) {workerThreads run : ℕ}
    (hkeeps : KeepsApart workerThreads s (.schedule run t)) : (s.schedule run t).Apart := by
  unfold State.schedule
  split
  case h_1 id hrun hfresh =>
    have hschedules (run' id' : ℕ)
        (h : Function.update s.schedules run .idle run' = .selected id') :
        s.schedules run' = .selected id' := by
      rw [update_apply] at h
      by_cases heq : run' = run
      · rw [if_pos heq] at h
        simp at h
      · rwa [if_neg heq] at h
    exact Starts.apart
      { fresh := hfresh
        drains := rfl
        now := rfl
        nextId := rfl
        sent := rfl
        rows := rfl
        schedules := hschedules
        selected := hrun
        batch := rfl
        scheduledAt := rfl
        phase := rfl
        due := fun row hrow hid ↦ (hkeeps id hrun row hrow hid).1
        own := fun hmem ↦ by
          obtain ⟨row, hrow, hid⟩ := List.mem_map.mp hmem
          exact (hkeeps id hrun row hrow hid).2 } hs
  case h_2 => exact hs

/-! ### Whole runs -/

theorem apart_step (hs : s.Apart) {workerThreads : ℕ} {event : Event} (htime : InTime s event)
    (hkeeps : KeepsApart workerThreads s event) : (s.step workerThreads event).Apart := by
  cases event with
  | clock time =>
    show State.Apart (if s.now ≤ time then { s with now := time } else s)
    by_cases hle : s.now ≤ time
    · rw [if_pos hle]
      exact apart_clock hs hle htime
    · rw [if_neg hle]
      exact hs
  | arrive => exact apart_arrive hs
  | select run => exact apart_select hs run
  | schedule run t => exact apart_schedule hs hkeeps
  | begin t => exact apart_begin hs t
  | discard t ids => exact apart_discard hs t ids
  | fetch t => exact apart_fetch hs hkeeps
  | attempt t => exact apart_attempt hs t
  | send t id answered =>
    obtain rfl : answered = true := htime
    exact apart_send hs t id
  | settle t id => exact apart_settle hs t id

theorem lt_nextId (backlog : Backlog) (h : id ∈ backlog.rows.ids) : id < backlog.nextId := by
  have hfold : ∀ ids : List ℕ, id ∈ ids → id < ids.foldr (fun id n ↦ max (id + 1) n) 0 := by
    intro ids hmem
    induction ids with
    | nil => simp at hmem
    | cons first rest ih =>
      rcases mem_cons.mp hmem with rfl | hrest
      · exact Nat.lt_of_succ_le (Nat.le_max_left _ _)
      · exact (ih hrest).trans_le (Nat.le_max_right _ _)
  exact hfold backlog.rows.ids h

theorem apart_init (workerThreads : ℕ) (start : ℚ) (backlog : Backlog) :
    (delivery workerThreads start backlog).init.Apart := by
  have hdrains : ∀ t drain, (delivery workerThreads start backlog).init.drains t ≠ some drain :=
    fun t drain h ↦ by simp [delivery] at h
  refine ⟨⟨backlog.sorted, fun id hid ↦ lt_nextId backlog hid, ?_, ?_, ?_, ?_, ?_, ?_⟩,
    ⟨?_, ?_, ?_, ?_⟩, ⟨?_, ?_, ?_, ?_, ?_, ?_⟩⟩
  · exact fun t drain h ↦ absurd h (hdrains t drain)
  · exact fun t drain h ↦ absurd h (hdrains t drain)
  · exact fun t id h ↦ by simp [delivery] at h
  · exact fun t drain h ↦ absurd h (hdrains t drain)
  · exact fun run id h ↦ by simp [delivery] at h
  · exact fun run id h ↦ by simp [delivery] at h
  · exact fun t drain h ↦ absurd h.1 (hdrains t drain)
  · exact fun t drain h ↦ absurd h.1 (hdrains t drain)
  · exact fun t drain h ↦ absurd h.1 (hdrains t drain)
  · exact fun t drain h ↦ absurd h.1 (hdrains t drain)
  · exact fun t drain t' drain' h ↦ absurd h.1 (hdrains t drain)
  · exact fun t drain t' drain' h ↦ absurd h.1 (hdrains t drain)
  · exact fun t drain t' drain' h ↦ absurd h (hdrains t drain)
  · exact fun t id h ↦ by simp [delivery] at h
  · exact fun t drain h ↦ absurd h (hdrains t drain)
  · exact fun t t' id h ↦ by simp [delivery] at h

/-- In a run whose tasks are in time and whose steps keep the tasks apart, no payload is sent by two
tasks. -/
theorem sentOnce_of_everyStep (workerThreads : ℕ) (start : ℚ) (backlog : Backlog)
    (events : List Event)
    (htime : (delivery workerThreads start backlog).EveryStep InTime
      (delivery workerThreads start backlog).init events)
    (hkeeps : (delivery workerThreads start backlog).EveryStep (KeepsApart workerThreads)
      (delivery workerThreads start backlog).init events) :
    ∀ first, first <+: events → ((delivery workerThreads start backlog).run first).SentOnce := by
  intro first hfirst
  have hapart := (delivery workerThreads start backlog).forall_prefix_of_everyStep
    (I := State.Apart) (fun s event hs ↦ apart_step hs) (apart_init workerThreads start backlog)
    htime hkeeps first hfirst
  exact hapart.separate.once

/-! ### What becomes of a payload -/

/-- A payload is too old, or a task has a record of it that is delivered or has no attempts left. -/
def State.Expendable (s : State) (id : ℕ) : Prop :=
  (∃ row ∈ s.rows, row.id = id ∧ row.dateAdded ≤ s.now - maxDeliveryAge) ∨
  ∃ t drain, s.drains t = some drain ∧ ∃ delivery ∈ drain.phase.slice, delivery.1.id = id ∧
    (delivery.2 = .delivered ∨ delivery.2 ≠ .attempted ∧ maxAttempts ≤ delivery.1.attempts)

theorem mem_ids_delete_or (h : s.Expendable id) :
    ∀ id' ∈ s.rows.ids, id' ∈ (s.rows.delete id).ids ∨ s.Expendable id' := by
  intro id' hid'
  by_cases heq : id' = id
  · exact Or.inr (heq ▸ h)
  · obtain ⟨row, hrow, rfl⟩ := List.mem_map.mp hid'
    exact Or.inl (mem_map_of_mem (mem_filter.mpr ⟨hrow, by simpa using heq⟩))

theorem mem_ids_step (workerThreads : ℕ) (event : Event) :
    ∀ id ∈ s.rows.ids, id ∈ (s.step workerThreads event).rows.ids ∨ s.Expendable id := by
  have hsame : ∀ id ∈ s.rows.ids, id ∈ s.rows.ids ∨ s.Expendable id := fun id ↦ Or.inl
  have hupdate (payload : WebhookPayload) :
      ∀ id ∈ s.rows.ids, id ∈ (s.rows.updateSchedule payload).ids ∨ s.Expendable id := by
    rwa [ids_updateSchedule]
  cases event with
  | clock _ | select _ | begin _ | fetch _ | send _ _ _ =>
    simp only [State.step, State.select, State.begin, State.fetch, State.send]
    repeat' split
    all_goals exact hsame
  | arrive =>
    intro id hid
    rw [State.step, State.arrive, Rows.ids, map_append]
    exact Or.inl (mem_append_left _ hid)
  | schedule run t =>
    simp only [State.step, State.schedule]
    split
    · simpa only [ids_pushBack] using hsame
    · exact hsame
  | discard t ids =>
    simp only [State.step, State.discard]
    repeat' split
    any_goals exact hsame
    intro id hid
    obtain ⟨row, hrow, rfl⟩ := List.mem_map.mp hid
    by_cases hold : row.dateAdded ≤ s.now - maxDeliveryAge
    · exact Or.inr (Or.inl ⟨row, hrow, rfl, hold⟩)
    · exact Or.inl (mem_map_of_mem (mem_filter.mpr ⟨hrow, by simp [hold]⟩))
  | attempt t =>
    simp only [State.step, State.attempt]
    split
    case h_1 drain htask =>
      split
      case h_1 deadline payload rest requestFailed _ hphase =>
        split
        case isTrue hmax =>
          refine mem_ids_delete_or (Or.inr ⟨t, drain, htask, (payload, .fetched), ?_, rfl, ?_⟩)
          · simp [hphase, Phase.slice]
          · exact Or.inr ⟨nofun, hmax⟩
        case isFalse => exact hupdate _
      case h_2 => exact hsame
    case h_2 => exact hsame
  | settle t id =>
    simp only [State.step, State.settle]
    split
    case h_1 drain htask =>
      split
      case h_1 deadline slice requestFailed hphase =>
        have hexpendable {payload stage}
            (hfind : slice.find? (·.1.id = id) = some (payload, stage))
            (hstage : stage = .delivered ∨ stage ≠ .attempted ∧ maxAttempts ≤ payload.attempts) :
            s.Expendable id := by
          refine Or.inr ⟨t, drain, htask, (payload, stage), ?_, ?_, hstage⟩
          · rw [hphase]
            exact mem_of_find?_eq_some hfind
          · simpa using find?_some hfind
        split
        case h_1 payload hfind => exact mem_ids_delete_or (hexpendable hfind (Or.inl rfl))
        case h_2 payload hfind =>
          split
          case isTrue hmax =>
            exact mem_ids_delete_or (hexpendable hfind (Or.inr ⟨nofun, hmax⟩))
          case isFalse => exact hupdate _
        case h_3 => exact hsame
      case h_2 => exact hsame
    case h_2 => exact hsame

theorem mem_ids_or_lt_of_step (workerThreads : ℕ) (event : Event)
    (h : id < (s.step workerThreads event).nextId) :
    id ∈ (s.step workerThreads event).rows.ids ∨ id < s.nextId := by
  cases event with
  | arrive =>
    refine (Nat.lt_succ_iff_lt_or_eq.mp h).symm.imp_left fun hnew ↦ ?_
    simp [hnew, State.step, State.arrive, Rows.ids]
  | _ =>
    revert h
    simp only [State.step, State.select, State.schedule, State.begin, State.discard, State.fetch,
      State.attempt, State.send, State.settle]
    repeat' split
    all_goals exact Or.inr

/-- The payloads that were there first and those that have arrived are stored, or were gone once. -/
def State.Keeps (backlog : Backlog) (gone : ℕ → Prop) (s : State) : Prop :=
  ∀ id, id ∈ backlog.rows.ids ∨ backlog.nextId ≤ id ∧ id < s.nextId → id ∈ s.rows.ids ∨ gone id

/-- No payload is lost, however the steps interleave: each is in the table, or there was a moment at
which a task had delivered it or it could no longer be delivered. -/
theorem delivery_keeps (workerThreads : ℕ) (start : ℚ) (backlog : Backlog) (events : List Event) :
    let machine := delivery workerThreads start backlog
    (machine.run events).Keeps backlog fun id ↦
      ∃ first, first <+: events ∧ (machine.run first).Expendable id := by
  refine Machine.run_invariant_past _ (Q := State.Expendable) (I := State.Keeps backlog)
    (fun himp h id hid ↦ (h id hid).imp_right (himp id)) (fun gone id hid ↦ ?_)
    (fun gone s event hgone h id hid ↦ ?_) events
  · refine Or.inl (hid.resolve_right fun hlt ↦ ?_)
    exact absurd hlt.2 (not_lt.mpr hlt.1)
  · have hkept (hold : id ∈ backlog.rows.ids ∨ backlog.nextId ≤ id ∧ id < s.nextId) :
        id ∈ (s.step workerThreads event).rows.ids ∨ gone id :=
      (h id hold).elim (fun hmem ↦ (mem_ids_step workerThreads event id hmem).imp_right (hgone id))
        Or.inr
    rcases hid with hfirst | ⟨hge, hlt⟩
    · exact hkept (Or.inl hfirst)
    · exact (mem_ids_or_lt_of_step workerThreads event hlt).elim Or.inl fun hold ↦
        hkept (Or.inr ⟨hge, hold⟩)

/-! ### Two tasks that meet -/

/-- A mailbox with one payload that is due. -/
def onePayload : Backlog := ⟨[⟨0, 0, thePast, 0⟩], by simp [Rows.ids]⟩

/-- A task delivers the payload. -/
def oneTask : List Event :=
  [.select 0, .schedule 0 0, .begin 0, .fetch 0, .attempt 0, .send 0 0 true, .settle 0 0, .fetch 0]

/-- The run meets the conditions. -/
theorem sentOnce_oneTask : ((delivery 4 0 onePayload).run oneTask).SentOnce := by
  have hdue : ¬ (3 : ℚ) ≤ 0 := by norm_num
  refine sentOnce_of_everyStep 4 0 onePayload oneTask (by simp [oneTask, InTime]) ?_ oneTask
    (List.prefix_refl oneTask)
  simp [oneTask, KeepsApart, delivery, onePayload, State.step, State.select, State.schedule,
    State.begin, State.fetch, State.attempt, State.send, State.settle, State.setPhase,
    State.setDrain, State.nextSlice, Rows.startingAt, Rows.pushBack, Rows.ids, maxMailboxDrain,
    thePast, batchScheduleOffset, backoffInterval, update_apply, hdue, maxAttempts,
    WebhookPayload.scheduleNextAttempt, Rows.updateSchedule, Rows.delete]

def newPayload : List Event :=
  [.select 0, .schedule 0 0, .begin 0, .fetch 0, .attempt 0, .send 0 0 true, .arrive, .settle 0 0,
    .select 1, .schedule 1 1, .begin 1, .fetch 0, .fetch 1, .attempt 0, .send 0 1 true, .attempt 1,
    .send 1 1 true]

theorem not_sentOnce :
    ¬ ∀ (workerThreads : ℕ) (start : ℚ) (backlog : Backlog) (events : List Event),
      (delivery workerThreads start backlog).EveryStep InTime
        (delivery workerThreads start backlog).init events →
      ((delivery workerThreads start backlog).run events).SentOnce := by
  intro h
  have honce := h 4 0 onePayload newPayload (by simp [newPayload, InTime])
  have hsent : ((delivery 4 0 onePayload).run newPayload).sent = [(1, 1), (0, 1), (0, 0)] := by
    decide +kernel
  exact absurd (honce 0 1 1 (by rw [hsent]; simp) (by rw [hsent]; simp)) (by simp)

end Sentry.HybridCloud.Webhooks
