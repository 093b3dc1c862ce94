import Mathlib.Data.List.Perm.Subperm
import WrkQuic.AeApi

/-!
# Event ports

The back end of `ae_evport.c`. A wait dissociates the descriptors that it
returns from the port; they are kept in `pending_fds` and `pending_masks`
and associated again when the next wait begins. So what is registered for a
descriptor is either in the kernel or pending, and never both.

`Registers` is that invariant. It is why `port_dissociate` is only called
for what is associated, and why every registered descriptor is associated
again, with the right events, before the port is waited on.
-/

namespace WrkQuic

namespace Evport

/-- `MAX_EVENT_BATCHSZ`. -/
def maxEventBatchsz : ℕ := 512

/-- An association of the port: its events, and the mask that it was made
with as `portev_user`. -/
structure Association where
  events : Mask
  user : Mask

/-- A slot of `pending_fds` and `pending_masks`; `-1` is `none`. -/
structure PendingSlot where
  fd : Option ℕ
  mask : Mask

/-- `aeApiState` with the associations of the port. `npending` is the
length of `pending`. -/
structure State where
  associated : ℕ → Option Association
  pending : List PendingSlot

/-- A `port_event_t`. -/
structure Event where
  object : ℕ
  events : Mask
  user : Mask

def aeApiLookupPending (pending : List PendingSlot) (fd : ℕ) : Option ℕ :=
  pending.findIdx? fun p => p.fd == some fd

def aeApiAssociate (accept : Bool) (associated : ℕ → Option Association) (fd : ℕ)
    (mask : Mask) : Option (ℕ → Option Association) :=
  if accept then some (Function.update associated fd (some ⟨mask, mask⟩)) else none

/-- `port_dissociate`, which fails where there is no association. -/
def portDissociate (associated : ℕ → Option Association) (fd : ℕ) :
    Option (ℕ → Option Association) :=
  (associated fd).map fun _ => Function.update associated fd none

def aeApiAddEvent (answers : ℕ → Bool) (masks : ℕ → Mask) (state : State) (fd : ℕ)
    (mask : Mask) : Bool × State :=
  let fullmask := mask.or (masks fd)
  match aeApiLookupPending state.pending fd with
  | some pfd =>
      (true,
        { state with
          pending := state.pending.modify pfd fun p => { p with mask := p.mask.or fullmask } })
  | none =>
      match aeApiAssociate (answers 0) state.associated fd fullmask with
      | some associated => (true, { state with associated := associated })
      | none => (false, state)

/-- What a deletion leaves of a pending slot. -/
def PendingSlot.remove (p : PendingSlot) (mask : Mask) : PendingSlot where
  fd := if (p.mask.without mask).isNone then none else p.fd
  mask := p.mask.without mask

def aeApiDelEvent (answers : ℕ → Bool) (masks : ℕ → Mask) (state : State) (fd : ℕ)
    (mask : Mask) : Option State :=
  match aeApiLookupPending state.pending fd with
  | some pfd =>
      some { state with pending := state.pending.modify pfd fun p => p.remove mask }
  | none =>
      let fullmask := masks fd
      let associated :=
        if fullmask.isNone then portDissociate state.associated fd
        else aeApiAssociate (answers 0) state.associated fd fullmask
      associated.map fun associated => { state with associated := associated }

/-- The loop that `aeApiPoll` begins with. -/
def reassociate (answers : ℕ → Bool) : ℕ → List PendingSlot → (ℕ → Option Association) →
    Option (ℕ → Option Association)
  | _, [], associated => some associated
  | i, ⟨none, _⟩ :: rest, associated => reassociate answers (i + 1) rest associated
  | i, ⟨some fd, mask⟩ :: rest, associated =>
      (aeApiAssociate (answers i) associated fd mask).bind (reassociate answers (i + 1) rest)

def pollEnter (answers : ℕ → Bool) (state : State) : Option State :=
  (reassociate answers 0 state.pending state.associated).map fun associated =>
    { associated := associated, pending := [] }

/-- What `port_getn` may return. -/
structure Returns (kernel : Readiness) (associated : ℕ → Option Association)
    (events : List Event) : Prop where
  fits : events.length ≤ maxEventBatchsz
  once : (events.map (·.object)).Nodup
  sound : ∀ e ∈ events, ∃ a, associated e.object = some a ∧
    e.events = a.events.and (kernel.ready e.object) ∧ e.user = a.user ∧
    (e.events ≠ .aeNone ∨ kernel.failed e.object = true)
  complete : events.length < maxEventBatchsz → ∀ fd a, associated fd = some a →
    (a.events.and (kernel.ready fd) ≠ .aeNone ∨ kernel.failed fd = true) →
    ∃ e ∈ events, e.object = fd

/-- The descriptors that are returned are no longer associated. -/
def pollLeave (state : State) (events : List Event) : List (ℕ × Mask) × State :=
  (events.map fun e => (e.object, e.events),
    { associated := fun fd =>
        if events.any (·.object == fd) then none else state.associated fd
      pending := events.map fun e => ⟨some e.object, e.user⟩ })

def api : AeApi where
  State := State
  Result := List Event
  aeApiCreate := ⟨fun _ => none, []⟩
  aeApiAddEvent := aeApiAddEvent
  aeApiDelEvent := aeApiDelEvent
  pollEnter := pollEnter
  pollLeave _ _ state events := pollLeave state events
  room _ := True
  closed state fd := { state with associated := Function.update state.associated fd none }
  watched state fd := ((state.associated fd).map (·.events)).getD .aeNone
  returns _ _ kernel state events := Returns kernel state.associated events
  reported kernel := kernel.ready
  batch _ _ := maxEventBatchsz

/-! ## Either in the kernel or pending -/

/-- A slot is pending for the descriptor. -/
def IsPending (pending : List PendingSlot) (fd : ℕ) : Prop := ∃ p ∈ pending, p.fd = some fd

/-- What is registered for a descriptor is in the kernel, with the mask in
`portev_user`, or pending. -/
structure Registers (masks : ℕ → Mask) (state : State) : Prop where
  kernel : ∀ fd a, state.associated fd = some a →
    a = ⟨masks fd, masks fd⟩ ∧ masks fd ≠ .aeNone ∧ ¬IsPending state.pending fd
  pending : ∀ p ∈ state.pending, ∀ fd, p.fd = some fd →
    p.mask = masks fd ∧ masks fd ≠ .aeNone
  covered : ∀ fd, masks fd ≠ .aeNone →
    (state.associated fd).isSome = true ∨ IsPending state.pending fd
  once : (state.pending.filterMap (·.fd)).Nodup
  batch : state.pending.length ≤ maxEventBatchsz

variable {masks : ℕ → Mask} {state state' : State} {pending : List PendingSlot}
  {associated associated' : ℕ → Option Association} {fd n pfd : ℕ} {mask m : Mask}
  {answers : ℕ → Bool} {kernel : Readiness} {events : List Event}

theorem aeApiLookupPending_none (h : aeApiLookupPending pending fd = none) :
    ¬IsPending pending fd := by
  rintro ⟨p, hp, hfd⟩
  have hne := List.findIdx?_eq_none_iff.mp h p hp
  rw [hfd, beq_self_eq_true] at hne
  cases hne

/-- The slot that is found, and the slots around it. -/
theorem aeApiLookupPending_some : ∀ {pending : List PendingSlot} {pfd : ℕ},
    aeApiLookupPending pending fd = some pfd → ∃ before p after,
      pending = before ++ p :: after ∧ p.fd = some fd ∧
      ∀ f, pending.modify pfd f = before ++ f p :: after
  | [], _, h => by cases h
  | p :: rest, pfd, h => by
      rw [aeApiLookupPending, List.findIdx?_cons] at h
      split at h
      · rename_i hfd
        obtain rfl := Option.some.inj h
        exact ⟨[], p, rest, rfl, beq_iff_eq.mp hfd, fun f => rfl⟩
      · obtain ⟨i, hi, rfl⟩ := Option.map_eq_some_iff.mp h
        obtain ⟨before, q, after, rfl, hq, hmodify⟩ := aeApiLookupPending_some hi
        refine ⟨p :: before, q, after, rfl, hq, fun f => ?_⟩
        rw [List.modify_succ_cons, hmodify f]
        rfl

/-- What is left of a registration: an association or a pending slot. -/
def association (m : Mask) : Option Association := if m.isNone then none else some ⟨m, m⟩

def pendingSlot (fd : ℕ) (m : Mask) : PendingSlot := ⟨if m.isNone then none else some fd, m⟩

theorem association_of_ne (h : m ≠ .aeNone) : association m = some ⟨m, m⟩ := by
  rw [association, Mask.isNone_eq_false_iff.mpr h]
  rfl

theorem pendingSlot_of_ne (h : m ≠ .aeNone) : pendingSlot fd m = ⟨some fd, m⟩ := by
  rw [pendingSlot, Mask.isNone_eq_false_iff.mpr h]
  rfl

theorem pendingSlot_fd {fd' : ℕ} (h : (pendingSlot fd m).fd = some fd') :
    fd' = fd ∧ m ≠ .aeNone := by
  unfold pendingSlot at h
  split at h
  · cases h
  · rename_i hm
    exact ⟨(Option.some.inj h).symm, Mask.isNone_eq_false_iff.mp (Bool.not_eq_true _ ▸ hm)⟩

/-- A descriptor has at most one pending slot. -/
theorem Registers.others {before after : List PendingSlot} {p q : PendingSlot}
    (h : Registers masks state) (hsplit : state.pending = before ++ p :: after)
    (hp : p.fd = some fd) (hq : q ∈ before ∨ q ∈ after) : q.fd ≠ some fd := by
  intro hfd
  have honce := h.once
  rw [hsplit, List.filterMap_append, List.filterMap_cons_some hp] at honce
  rcases hq with hq | hq
  · have hmem : fd ∈ before.filterMap (·.fd) := List.mem_filterMap.mpr ⟨q, hq, hfd⟩
    exact (List.disjoint_of_nodup_append honce) hmem List.mem_cons_self
  · have hmem : fd ∈ after.filterMap (·.fd) := List.mem_filterMap.mpr ⟨q, hq, hfd⟩
    exact (List.nodup_cons.mp (List.nodup_append.mp honce).2.1).1 hmem

/-- The mask of a pending descriptor is changed in its slot. -/
theorem Registers.setPending {before after : List PendingSlot} {p : PendingSlot}
    (h : Registers masks state) (hsplit : state.pending = before ++ p :: after)
    (hp : p.fd = some fd) :
    Registers (Function.update masks fd m)
      { state with pending := before ++ pendingSlot fd m :: after } := by
  have hpend : IsPending state.pending fd :=
    ⟨p, hsplit ▸ List.mem_append_right _ List.mem_cons_self, hp⟩
  have hold {q : PendingSlot} (hq : q ∈ before ∨ q ∈ after) : q ∈ state.pending := by
    rw [hsplit, List.mem_append, List.mem_cons]
    exact hq.imp id .inr
  have hcases {q : PendingSlot} (hq : q ∈ before ++ pendingSlot fd m :: after) :
      q = pendingSlot fd m ∨ (q ∈ before ∨ q ∈ after) := by
    rw [List.mem_append, List.mem_cons] at hq
    tauto
  refine ⟨?_, ?_, ?_, ?_, ?_⟩
  · intro fd' a ha
    obtain ⟨hassoc, hset, hnot⟩ := h.kernel fd' a ha
    have hne : fd' ≠ fd := by
      rintro rfl
      exact hnot hpend
    rw [Function.update_of_ne hne]
    refine ⟨hassoc, hset, ?_⟩
    rintro ⟨q, hq, hfd'⟩
    rcases hcases hq with rfl | hq
    · exact hne (pendingSlot_fd hfd').1
    · exact hnot ⟨q, hold hq, hfd'⟩
  · intro q hq fd' hfd'
    rcases hcases hq with rfl | hother
    · obtain ⟨rfl, hm⟩ := pendingSlot_fd hfd'
      rw [Function.update_self]
      exact ⟨rfl, hm⟩
    · have hne : fd' ≠ fd := by
        rintro rfl
        exact h.others hsplit hp hother hfd'
      rw [Function.update_of_ne hne]
      exact h.pending q (hold hother) fd' hfd'
  · intro fd' hset
    by_cases heq : fd' = fd
    · rw [heq, Function.update_self] at hset
      rw [heq, pendingSlot_of_ne hset]
      exact .inr ⟨_, List.mem_append_right _ List.mem_cons_self, rfl⟩
    · rw [Function.update_of_ne heq] at hset
      refine (h.covered fd' hset).imp id ?_
      rintro ⟨q, hq, hfd'⟩
      rw [hsplit, List.mem_append, List.mem_cons] at hq
      refine ⟨q, ?_, hfd'⟩
      rw [List.mem_append, List.mem_cons]
      rcases hq with hq | rfl | hq
      · exact .inl hq
      · exact absurd (Option.some.inj (hfd'.symm.trans hp)) heq
      · exact .inr (.inr hq)
  · refine h.once.sublist ?_
    rw [hsplit, List.filterMap_append, List.filterMap_append, List.filterMap_cons_some hp]
    refine List.Sublist.append_left ?_ _
    by_cases hm : m = .aeNone
    · subst hm
      rw [List.filterMap_cons_none rfl]
      exact List.sublist_cons_self ..
    · have hfd : (pendingSlot fd m).fd = some fd := by rw [pendingSlot_of_ne hm]
      rw [List.filterMap_cons_some hfd]
  · have := h.batch
    rw [hsplit] at this
    simpa using this

/-- The association of a descriptor that is not pending is changed. -/
theorem Registers.setKernel (h : Registers masks state) (hnot : ¬IsPending state.pending fd) :
    Registers (Function.update masks fd m)
      { state with associated := Function.update state.associated fd (association m) } := by
  refine ⟨?_, ?_, ?_, h.once, h.batch⟩
  · intro fd' a ha
    by_cases heq : fd' = fd
    · subst heq
      simp only [Function.update_self] at ha ⊢
      unfold association at ha
      split at ha
      · cases ha
      · rename_i hm
        refine ⟨(Option.some.inj ha).symm, ?_, hnot⟩
        exact Mask.isNone_eq_false_iff.mp (Bool.not_eq_true _ ▸ hm)
    · simp only [Function.update_of_ne heq] at ha ⊢
      exact h.kernel fd' a ha
  · intro q hq fd' hfd'
    have hne : fd' ≠ fd := by
      rintro rfl
      exact hnot ⟨q, hq, hfd'⟩
    rw [Function.update_of_ne hne]
    exact h.pending q hq fd' hfd'
  · intro fd' hset
    by_cases heq : fd' = fd
    · subst heq
      simp only [Function.update_self] at hset ⊢
      rw [association_of_ne hset]
      exact .inl rfl
    · simp only [Function.update_of_ne heq] at hset ⊢
      exact h.covered fd' hset

theorem Registers.added (h : Registers masks state) (hmask : mask ≠ .aeNone)
    (hadd : aeApiAddEvent answers masks state fd mask = (true, state')) :
    Registers (Function.update masks fd ((masks fd).or mask)) state' := by
  have hne : (masks fd).or mask ≠ .aeNone := Mask.or_ne_aeNone hmask
  unfold aeApiAddEvent at hadd
  dsimp only at hadd
  split at hadd
  · rename_i pfd hpfd
    obtain ⟨-, rfl⟩ := Prod.mk.inj hadd
    obtain ⟨before, p, after, hsplit, hp, hmodify⟩ := aeApiLookupPending_some hpfd
    obtain ⟨hpmask, -⟩ := h.pending p
      (hsplit ▸ List.mem_append_right _ List.mem_cons_self) fd hp
    have hslot : { p with mask := p.mask.or (mask.or (masks fd)) } =
        pendingSlot fd ((masks fd).or mask) := by
      rw [pendingSlot_of_ne hne, hp, hpmask]
      congr 1
      exact Mask.or_or_self
    rw [hmodify, hslot]
    exact h.setPending hsplit hp
  · rename_i hnone
    split at hadd
    · rename_i associated hassoc
      obtain ⟨-, rfl⟩ := Prod.mk.inj hadd
      unfold aeApiAssociate at hassoc
      split at hassoc
      · obtain rfl := Option.some.inj hassoc
        rw [Mask.or_comm (a := mask), ← association_of_ne hne]
        exact h.setKernel (aeApiLookupPending_none hnone)
      · cases hassoc
    · obtain ⟨hfalse, -⟩ := Prod.mk.inj hadd
      cases hfalse

/-- A registration that is refused changes nothing. -/
theorem refused_eq (hadd : aeApiAddEvent answers masks state fd mask = (false, state')) :
    state' = state := by
  unfold aeApiAddEvent at hadd
  dsimp only at hadd
  split at hadd
  · obtain ⟨h, -⟩ := Prod.mk.inj hadd
    cases h
  · split at hadd
    · obtain ⟨h, -⟩ := Prod.mk.inj hadd
      cases h
    · exact (Prod.mk.inj hadd).2.symm

/-- `aeApiDelEvent` of a descriptor with registered events: it can only
abort when the kernel refuses to associate it again, as `port_dissociate`
is called for an associated descriptor. -/
theorem Registers.aeApiDelEvent_eq (answers : ℕ → Bool) (h : Registers masks state)
    (hset : masks fd ≠ .aeNone) (hm : (masks fd).without mask = m) :
    (∃ before p after, state.pending = before ++ p :: after ∧ p.fd = some fd ∧
      aeApiDelEvent answers (Function.update masks fd m) state fd mask =
        some { state with pending := before ++ pendingSlot fd m :: after }) ∨
    (¬IsPending state.pending fd ∧
      aeApiDelEvent answers (Function.update masks fd m) state fd mask =
        if m.isNone || answers 0 then
          some { state with
            associated := Function.update state.associated fd (association m) }
        else none) := by
  unfold aeApiDelEvent
  cases hlookup : aeApiLookupPending state.pending fd with
  | some pfd =>
      obtain ⟨before, p, after, hsplit, hp, hmodify⟩ := aeApiLookupPending_some hlookup
      obtain ⟨hpmask, -⟩ := h.pending p
        (hsplit ▸ List.mem_append_right _ List.mem_cons_self) fd hp
      refine .inl ⟨before, p, after, hsplit, hp, ?_⟩
      have hslot : p.remove mask = pendingSlot fd m := by
        rw [PendingSlot.remove, hpmask, hm, hp]
        rfl
      simp only
      rw [hmodify, hslot]
  | none =>
      have hnot := aeApiLookupPending_none hlookup
      refine .inr ⟨hnot, ?_⟩
      have hassoc : (state.associated fd).isSome = true := (h.covered fd hset).resolve_right hnot
      simp only [Function.update_self]
      cases hnone : m.isNone with
      | true =>
          obtain ⟨a, ha⟩ := Option.isSome_iff_exists.mp hassoc
          rw [if_pos rfl, Bool.true_or, if_pos rfl, portDissociate, ha, association, hnone]
          rfl
      | false =>
          rw [if_neg Bool.false_ne_true, Bool.false_or, aeApiAssociate, association, hnone]
          cases answers 0 <;> rfl

theorem Registers.deleted (h : Registers masks state) (hset : masks fd ≠ .aeNone)
    (hdel : aeApiDelEvent answers (Function.update masks fd ((masks fd).without mask)) state fd
      mask = some state') :
    Registers (Function.update masks fd ((masks fd).without mask)) state' := by
  rcases h.aeApiDelEvent_eq answers hset rfl with
    ⟨before, p, after, hsplit, hp, heq⟩ | ⟨hnot, heq⟩
  · rw [heq] at hdel
    obtain rfl := Option.some.inj hdel
    exact h.setPending hsplit hp
  · rw [heq] at hdel
    split at hdel
    · obtain rfl := Option.some.inj hdel
      exact h.setKernel hnot
    · cases hdel

theorem Registers.closed (h : Registers masks state) (hnone : masks fd = .aeNone) :
    Registers masks
      { state with associated := Function.update state.associated fd none } := by
  have hnot : ¬IsPending state.pending fd := by
    rintro ⟨p, hp, hfd⟩
    exact (h.pending p hp fd hfd).2 hnone
  have hset := h.setKernel hnot (m := .aeNone)
  rwa [← hnone, Function.update_eq_self, hnone] at hset

/-! ## Waiting -/

/-- The associations while the port is waited on: all that is registered. -/
def Entered (masks : ℕ → Mask) (associated : ℕ → Option Association) : Prop :=
  ∀ fd, associated fd = association (masks fd)

/-- The loop associates what is pending, unless the kernel refuses one. -/
theorem reassociate_eq : ∀ {pending : List PendingSlot} {i : ℕ}
    {associated : ℕ → Option Association},
    (∀ p ∈ pending, ∀ fd, p.fd = some fd → p.mask = masks fd) →
    reassociate answers i pending associated = some associated' →
    (∀ fd, IsPending pending fd → associated' fd = some ⟨masks fd, masks fd⟩) ∧
    (∀ fd, ¬IsPending pending fd → associated' fd = associated fd)
  | [], i, associated, _, h => by
      obtain rfl := Option.some.inj h
      refine ⟨?_, fun fd _ => rfl⟩
      rintro fd ⟨p, hp, -⟩
      cases hp
  | ⟨none, m⟩ :: rest, i, associated, hmasks, h => by
      obtain ⟨hpend, hother⟩ := reassociate_eq
        (fun p hp => hmasks p (List.mem_cons_of_mem _ hp)) h
      refine ⟨?_, ?_⟩
      · rintro fd ⟨p, hp, hfd⟩
        rcases List.mem_cons.mp hp with rfl | hp
        · cases hfd
        · exact hpend fd ⟨p, hp, hfd⟩
      · intro fd hnot
        exact hother fd fun ⟨p, hp, hfd⟩ => hnot ⟨p, List.mem_cons_of_mem _ hp, hfd⟩
  | ⟨some fd₀, m⟩ :: rest, i, associated, hmasks, h => by
      obtain ⟨associated₁, hassoc, hrest⟩ := Option.bind_eq_some_iff.mp h
      unfold aeApiAssociate at hassoc
      split at hassoc
      · obtain rfl := Option.some.inj hassoc
        have hm : m = masks fd₀ := hmasks _ List.mem_cons_self fd₀ rfl
        obtain ⟨hpend, hother⟩ := reassociate_eq
          (fun p hp => hmasks p (List.mem_cons_of_mem _ hp)) hrest
        refine ⟨?_, ?_⟩
        · rintro fd ⟨p, hp, hfd⟩
          by_cases hlater : IsPending rest fd
          · exact hpend fd hlater
          · rw [hother fd hlater]
            rcases List.mem_cons.mp hp with rfl | hp
            · obtain rfl := Option.some.inj hfd
              rw [Function.update_self, hm]
            · exact absurd ⟨p, hp, hfd⟩ hlater
        · intro fd hnot
          have hne : fd ≠ fd₀ := by
            rintro rfl
            exact hnot ⟨_, List.mem_cons_self, rfl⟩
          rw [hother fd fun ⟨p, hp, hfd⟩ => hnot ⟨p, List.mem_cons_of_mem _ hp, hfd⟩,
            Function.update_of_ne hne]
      · cases hassoc

theorem reassociate_eq_none : ∀ {pending : List PendingSlot} {i : ℕ}
    {associated : ℕ → Option Association},
    reassociate answers i pending associated = none → ∃ i, answers i = false
  | [], i, associated, h => by cases h
  | ⟨none, m⟩ :: rest, i, associated, h => by
      have hrest : reassociate answers (i + 1) rest associated = none := h
      exact reassociate_eq_none hrest
  | ⟨some fd, m⟩ :: rest, i, associated, h => by
      rw [reassociate, Option.bind_eq_none_iff] at h
      cases hi : answers i with
      | false => exact ⟨i, hi⟩
      | true => exact reassociate_eq_none (h _ (by rw [aeApiAssociate, hi, if_pos rfl]))

/-- When the port is waited on, nothing is pending and all that is
registered is associated, with its mask. -/
theorem Registers.entered (h : Registers masks state)
    (henter : pollEnter answers state = some state') :
    Entered masks state'.associated ∧ state'.pending = [] := by
  obtain ⟨associated, hassoc, rfl⟩ := Option.map_eq_some_iff.mp henter
  obtain ⟨hpend, hother⟩ := reassociate_eq (fun p hp fd hfd => (h.pending p hp fd hfd).1) hassoc
  refine ⟨fun fd => ?_, rfl⟩
  by_cases hp : IsPending state.pending fd
  · obtain ⟨p, hmem, hfd⟩ := hp
    refine (hpend fd ⟨p, hmem, hfd⟩).trans ?_
    rw [association_of_ne (h.pending p hmem fd hfd).2]
  · refine (hother fd hp).trans ?_
    by_cases hnone : masks fd = .aeNone
    · rw [hnone]
      cases ha : state.associated fd with
      | none => rfl
      | some a => exact absurd hnone (h.kernel fd a ha).2.1
    · obtain ⟨a, ha⟩ := Option.isSome_iff_exists.mp ((h.covered fd hnone).resolve_right hp)
      rw [ha, (h.kernel fd a ha).1, association_of_ne hnone]

theorem Entered.of_some (h : Entered masks associated) {a : Association}
    (ha : associated fd = some a) : a = ⟨masks fd, masks fd⟩ ∧ masks fd ≠ .aeNone := by
  rw [h fd, association] at ha
  split at ha
  · cases ha
  · rename_i hm
    exact ⟨(Option.some.inj ha).symm, Mask.isNone_eq_false_iff.mp (Bool.not_eq_true _ ▸ hm)⟩

theorem Entered.reported (h : Entered masks associated)
    (hbound : ∀ fd, masks fd ≠ .aeNone → fd < n) (hret : Returns kernel associated events) :
    Reported n maxEventBatchsz masks kernel.ready (events.map fun e => (e.object, e.events)) := by
  have hevents {e : Event} (he : e ∈ events) : masks e.object ≠ .aeNone ∧
      e.events = (masks e.object).and (kernel.ready e.object) := by
    obtain ⟨a, ha, hev, -⟩ := hret.sound e he
    obtain ⟨rfl, hset⟩ := h.of_some ha
    exact ⟨hset, hev⟩
  have hfind (hroom : events.length < maxEventBatchsz) {fd : ℕ} (hset : masks fd ≠ .aeNone)
      (hready : (masks fd).and (kernel.ready fd) ≠ .aeNone) :
      ∃ e ∈ events, e.object = fd :=
    hret.complete hroom fd _ ((h fd).trans (association_of_ne hset)) (.inl hready)
  refine ⟨?_, ?_, ?_, ?_, ?_⟩
  · intro p hp
    obtain ⟨e, he, rfl⟩ := List.mem_map.mp hp
    show e.events.Le (kernel.ready e.object)
    rw [(hevents he).2]
    exact Mask.and_le_right
  · intro p hp
    obtain ⟨e, he, rfl⟩ := List.mem_map.mp hp
    exact hbound _ (hevents he).1
  · -- the descriptors that are returned are different slots of the event loop
    have hslots : events.map (·.object) ⊆ List.range n := by
      intro fd hfd
      obtain ⟨e, he, rfl⟩ := List.mem_map.mp hfd
      exact List.mem_range.mpr (hbound _ (hevents he).1)
    have hlen := (List.subperm_of_subset hret.once hslots).length_le
    rw [List.length_map] at hlen ⊢
    rwa [List.length_range] at hlen
  · intro hroom fd hset hready
    rw [List.length_map] at hroom
    have hboth : ((masks fd).and (kernel.ready fd)).readable = true := by
      rw [Mask.and_readable, hset, hready, Bool.and_self]
    obtain ⟨e, he, rfl⟩ := hfind hroom
      (fun hnone => by rw [hnone] at hset; cases hset)
      (fun hnone => by rw [hnone] at hboth; cases hboth)
    exact ⟨_, List.mem_map_of_mem he, rfl, (hevents he).2 ▸ hboth⟩
  · intro hroom fd hset hready
    rw [List.length_map] at hroom
    have hboth : ((masks fd).and (kernel.ready fd)).writable = true := by
      rw [Mask.and_writable, hset, hready, Bool.and_self]
    obtain ⟨e, he, rfl⟩ := hfind hroom
      (fun hnone => by rw [hnone] at hset; cases hset)
      (fun hnone => by rw [hnone] at hboth; cases hboth)
    exact ⟨_, List.mem_map_of_mem he, rfl, (hevents he).2 ▸ hboth⟩

/-- What a wait returns is pending, the rest stays associated. -/
theorem Entered.left (h : Entered masks state.associated)
    (hret : Returns kernel state.associated events) :
    Registers masks (pollLeave state events).2 := by
  have huser {e : Event} (he : e ∈ events) :
      e.user = masks e.object ∧ masks e.object ≠ .aeNone := by
    obtain ⟨a, ha, -, huser, -⟩ := hret.sound e he
    obtain ⟨rfl, hset⟩ := h.of_some ha
    exact ⟨huser, hset⟩
  have hpending {fd : ℕ} : IsPending (pollLeave state events).2.pending fd ↔
      events.any (·.object == fd) = true := by
    simp only [pollLeave, IsPending, List.any_eq_true, beq_iff_eq]
    constructor
    · rintro ⟨p, hp, hfd⟩
      obtain ⟨e, he, rfl⟩ := List.mem_map.mp hp
      exact ⟨e, he, Option.some.inj hfd⟩
    · rintro ⟨e, he, rfl⟩
      exact ⟨_, List.mem_map_of_mem he, rfl⟩
  refine ⟨?_, ?_, ?_, ?_, ?_⟩
  · intro fd a ha
    rw [hpending]
    simp only [pollLeave] at ha
    split at ha
    · cases ha
    · rename_i hother
      obtain ⟨rfl, hset⟩ := h.of_some ha
      exact ⟨rfl, hset, hother⟩
  · intro p hp fd hfd
    obtain ⟨e, he, rfl⟩ := List.mem_map.mp hp
    obtain rfl := Option.some.inj hfd
    exact huser he
  · intro fd hset
    rw [hpending]
    simp only [pollLeave]
    cases events.any (·.object == fd) with
    | true => exact .inr rfl
    | false =>
        refine .inl ?_
        rw [if_neg Bool.false_ne_true, h fd, association_of_ne hset]
        rfl
  · have hfds : (pollLeave state events).2.pending.filterMap (·.fd) =
        events.map (·.object) := by
      simp [pollLeave, List.filterMap_map]
    rw [hfds]
    exact hret.once
  · show (events.map _).length ≤ maxEventBatchsz
    rw [List.length_map]
    exact hret.fits

def correct : api.Correct where
  Inv _ := Registers
  create _ := by
    refine ⟨?_, ?_, ?_, .nil, Nat.zero_le _⟩
    · intro fd a ha
      cases ha
    · intro p hp
      cases hp
    · intro fd hset
      exact absurd rfl hset
  added h _ _ hmask hadd := h.added hmask hadd
  refused h _ _ hadd := refused_eq hadd ▸ h
  deleted h hset hdel := h.deleted hset hdel
  closed h hnone := h.closed hnone
  entered {n masks state answers state'} h henter fd := by
    have hin := (Registers.entered h henter).1
    show (masks fd).Le (((state'.associated fd).map (·.events)).getD .aeNone)
    rw [hin fd]
    by_cases hnone : masks fd = .aeNone
    · rw [hnone]
      exact Mask.aeNone_le
    · rw [association_of_ne hnone]
      exact Mask.Le.refl
  left {n masks maxfd state answers state' kernel events} h hbound _ henter hret := by
    obtain ⟨hin, -⟩ := Registers.entered h henter
    exact ⟨hin.left hret, hin.reported hbound hret⟩

/-! ## Runs -/

section Runs

variable {F D : Type} [DecidableEq F] {s : Loop api F D}

/-- In every run of the event loop over event ports that deletes the events
of a descriptor before closing it, what is registered for a descriptor is
either in the kernel or pending, and nothing else is; the kernel has all of
it while the port is waited on; and the back end aborts only where the
kernel refuses an association. -/
theorem either_kernel_or_pending
    (h : (Loop.machine api F D n).ReachableWith Loop.Disciplined s) :
    (∀ fd, s.masks fd ≠ .aeNone →
      ((s.apidata.associated fd).isSome = true ↔ ¬IsPending s.apidata.pending fd)) ∧
    (∀ fd, s.masks fd = .aeNone →
      s.apidata.associated fd = none ∧ ¬IsPending s.apidata.pending fd) ∧
    s.apidata.pending.length ≤ maxEventBatchsz ∧
    (∀ answers state, pollEnter answers s.apidata = some state →
      Entered s.masks state.associated ∧ state.pending = []) ∧
    (∀ answers fd mask, s.aeDeleteFileEvent answers fd mask = none → answers 0 = false) ∧
    (∀ answers, pollEnter answers s.apidata = none → ∃ i, answers i = false) := by
  have hreg : Registers s.masks s.apidata := (Loop.inv_of_reachable correct h).api
  refine ⟨?_, ?_, hreg.batch, fun _ _ henter => hreg.entered henter, ?_, ?_⟩
  · intro fd hset
    constructor
    · intro hassoc
      obtain ⟨a, ha⟩ := Option.isSome_iff_exists.mp hassoc
      exact (hreg.kernel fd a ha).2.2
    · exact (hreg.covered fd hset).resolve_right
  · intro fd hnone
    constructor
    · cases ha : s.apidata.associated fd with
      | none => rfl
      | some a => exact absurd hnone (hreg.kernel fd a ha).2.1
    · rintro ⟨p, hp, hfd⟩
      exact (hreg.pending p hp fd hfd).2 hnone
  · intro answers fd mask habort
    unfold Loop.aeDeleteFileEvent at habort
    split at habort
    · cases habort
    · split at habort
      · cases habort
      · rename_i hset
        have hset : s.masks fd ≠ .aeNone := fun hnone => hset (Mask.isNone_iff.mpr hnone)
        rw [Option.map_eq_none_iff, Files.masks_unregister] at habort
        change aeApiDelEvent answers _ s.apidata fd mask = none at habort
        rcases hreg.aeApiDelEvent_eq answers hset rfl with
          ⟨before, p, after, -, -, heq⟩ | ⟨-, heq⟩
        · rw [heq] at habort
          cases habort
        · rw [heq] at habort
          split at habort
          · cases habort
          · rename_i hrefused
            rw [Bool.or_eq_true, not_or, Bool.not_eq_true, Bool.not_eq_true] at hrefused
            exact hrefused.2
  · intro answers habort
    exact reassociate_eq_none (Option.map_eq_none_iff.mp habort)

/-- A descriptor is registered, and then returned by a wait. -/
def registeredOnce : Loop api Unit Unit :=
  (Loop.aeCreateFileEvent (fun _ => true) (.aeCreateEventLoop api Unit Unit 1) 0 .aeReadable
    () ()).2

def returnedOnce : Loop api Unit Unit :=
  registeredOnce.wake (⟨registeredOnce.apidata.associated, []⟩ : State)
    [(⟨0, .aeReadable, .aeReadable⟩ : Event)]

theorem step_returnedOnce : Loop.Step registeredOnce
    (.wait (fun _ => true) ⟨fun _ => .aeReadable, fun _ => false⟩
      [(⟨0, .aeReadable, .aeReadable⟩ : Event)])
    (.waited maxEventBatchsz (fun _ => .aeReadable) [(0, .aeReadable)]) returnedOnce := by
  have hreturns : Returns ⟨fun _ => .aeReadable, fun _ => false⟩
      registeredOnce.apidata.associated [⟨0, .aeReadable, .aeReadable⟩] := by
    refine ⟨by decide, by decide, ?_, ?_⟩
    · intro e he
      obtain rfl := List.mem_singleton.mp he
      exact ⟨⟨.aeReadable, .aeReadable⟩, rfl, rfl, rfl, .inl (Mask.isNone_eq_false_iff.mp rfl)⟩
    · intro _ fd a ha _
      by_cases heq : fd = 0
      · exact ⟨_, List.mem_singleton.mpr rfl, heq.symm⟩
      · have hnone : registeredOnce.apidata.associated fd = none := Function.update_of_ne heq ..
        rw [hnone] at ha
        cases ha
  exact .waited ⟨rfl, rfl⟩ rfl hreturns

theorem reachable_returnedOnce :
    (Loop.machine api Unit Unit 1).ReachableWith Loop.Disciplined returnedOnce := by
  have hset : Mask.aeReadable ≠ .aeNone := Mask.isNone_eq_false_iff.mp rfl
  have hcreated : Loop.Step (.aeCreateEventLoop api Unit Unit 1)
      (.create (fun _ => true) 0 .aeReadable () ()) (.created 0 .aeReadable () ())
      registeredOnce := .created rfl
  exact Loop.reachable_step (Loop.reachable_step (.init rfl) hcreated ⟨hset, trivial⟩)
    step_returnedOnce trivial

theorem either_kernel_or_pending_returned :
    returnedOnce.masks 0 ≠ .aeNone ∧
    ((returnedOnce.apidata.associated 0).isSome = true ↔
      ¬IsPending returnedOnce.apidata.pending 0) := by
  have hset : returnedOnce.masks 0 ≠ .aeNone := Mask.isNone_eq_false_iff.mp rfl
  exact ⟨hset, (either_kernel_or_pending reachable_returnedOnce).1 0 hset⟩

end Runs

end Evport

end WrkQuic
