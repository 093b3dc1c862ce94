import WrkQuic.TcpLatency

/-!
# Descriptors belong to connections

`c->fd` outlives the socket it named: `tcp_connect_socket` leaves it alone
when it fails, and a `delay_request` timer of the connection may still be
pending. As long as such a timer never finds the number in another
connection's hands (`SendsOnOwn`), every registered descriptor is open and
was opened by the connection it is registered for, and no handler touches
a descriptor of another connection.

`Handled` is the invariant together with a frame: what a handler of `c`
leaves alone.
-/

namespace WrkQuic

open Runs

/-- A descriptor is used by the connection that opened it. -/
def TcpObservation.Own : TcpObservation → Prop
  | .access _ c _ (some d) => d.owner = some c
  | _ => True

namespace TcpThread

variable {π : Type*}

/-- If `c->fd` is open, it was opened by `c`. -/
def Own (c : ℕ) (s : TcpThread π) : Prop := ∀ d ∈ s.current c, d.owner = some c

structure Owned (s : TcpThread π) : Prop where
  slot : ∀ fd, (s.loop.events fd).isNone = false →
    ∃ d, s.fds.get fd = some d ∧ d.owner = some (s.loop.events fd).clientData
  name : ∀ fd d c, s.fds.get fd = some d → d.owner = some c → (s.conns c).fd = fd
  size : ∀ fd, s.loop.setsize ≤ fd → (s.loop.events fd).isNone = true
  /-- The kernel watches exactly the registered descriptors. -/
  polled : ∀ fd, s.loop.apidata fd = !(s.loop.events fd).isNone
  trace : ∀ o ∈ s.trace, o.Own

/-- Work on `c` that leaves every descriptor of the others as it was. -/
structure Local (c : ℕ) (s s' : TcpThread π) : Prop where
  owned : s'.Owned
  fds : ∀ fd d, d.owner ≠ some c → (s'.fds.get fd = some d ↔ s.fds.get fd = some d)
  slots : ∀ fd d, s.fds.get fd = some d → d.owner ≠ some c →
    s'.loop.events fd = s.loop.events fd

/-- Such work, after which `c->fd` is still the connection's own. -/
structure Handled (c : ℕ) (s s' : TcpThread π) : Prop extends s.Local c s' where
  own : s'.Own c

variable {c fd n : ℕ} {s s' s₁ s₂ s₃ : TcpThread π} {k : Connection π} {mask : Mask}
  {proc : FileProc} {o : TcpObservation}

theorem Local.trans (h : s₁.Local c s₂) (h' : s₂.Local c s₃) : s₁.Local c s₃ where
  owned := h'.owned
  fds fd d hd := (h'.fds fd d hd).trans (h.fds fd d hd)
  slots fd d hget hd :=
    (h'.slots fd d ((h.fds fd d hd).mpr hget) hd).trans (h.slots fd d hget hd)

/-- Continue with a step that keeps the invariant. -/
theorem Handled.andThen (h : s₁.Handled c s₂)
    (h' : s₂.Owned → s₂.Own c → s₂.Handled c s₃) : s₁.Handled c s₃ :=
  { h.toLocal.trans (h' h.owned h.own).toLocal with own := (h' h.owned h.own).own }

theorem Handled.refl (h : s.Owned) (ho : s.Own c) : s.Handled c s where
  owned := h
  fds _ _ _ := Iff.rfl
  slots _ _ _ _ := rfl
  own := ho

/-- A slot that is registered for `c` is `c->fd`. -/
theorem Owned.fd_of_slot (h : s.Owned) (hfd : (s.loop.events fd).isNone = false) :
    (s.conns (s.loop.events fd).clientData).fd = fd := by
  obtain ⟨d, hd, hown⟩ := h.slot fd hfd
  exact h.name fd d _ hd hown

theorem Owned.own_of_slot (h : s.Owned) (hfd : (s.loop.events fd).isNone = false) :
    s.Own (s.loop.events fd).clientData := by
  obtain ⟨d, hd, hown⟩ := h.slot fd hfd
  intro d' hd'
  rw [current, h.fd_of_slot hfd, hd] at hd'
  rw [← Option.some.inj hd']
  exact hown

/-- A descriptor of another connection is not `c->fd`. -/
theorem Own.fd_ne (ho : s.Own c) {d : Descriptor} (hget : s.fds.get fd = some d)
    (hd : d.owner ≠ some c) : fd ≠ (s.conns c).fd := by
  rintro rfl
  exact hd (ho d hget)

/-! ## Single steps -/

theorem setConn_local (h : s.Owned) (hfd : k.fd = (s.conns c).fd) :
    s.Local c (s.setConn c k) where
  owned :=
    { slot := h.slot
      name := by
        intro fd d c' hget hown
        by_cases hc : c' = c
        · subst hc
          rw [setConn_self, hfd]
          exact h.name fd d c' hget hown
        · rw [setConn_of_ne hc]
          exact h.name fd d c' hget hown
      size := h.size
      polled := h.polled
      trace := h.trace }
  fds _ _ _ := Iff.rfl
  slots _ _ _ _ := rfl

theorem setConn_handled (h : s.Owned) (ho : s.Own c) (hfd : k.fd = (s.conns c).fd) :
    s.Handled c (s.setConn c k) :=
  { setConn_local h hfd with
    own := by
      intro d hd
      rw [current, setConn_self, hfd] at hd
      exact ho d hd }

theorem observe_handled (h : s.Owned) (ho : s.Own c) (hobs : o.Own) :
    s.Handled c (s.observe o) where
  owned :=
    { slot := h.slot
      name := h.name
      size := h.size
      polled := h.polled
      trace := by
        intro o' ho'
        rcases List.mem_cons.mp ho' with rfl | ho'
        · exact hobs
        · exact h.trace o' ho' }
  fds _ _ _ := Iff.rfl
  slots _ _ _ _ := rfl
  own := ho

/-- `c` uses `c->fd`. -/
theorem access_handled (kind : Access) (h : s.Owned) (ho : s.Own c) :
    s.Handled c (s.access kind c (s.conns c).fd) := by
  refine observe_handled h ho ?_
  cases hcur : s.fds.get (s.conns c).fd with
  | none => trivial
  | some d => exact ho d hcur

theorem tick_local (c dt : ℕ) (h : s.Owned) : s.Local c (s.tick dt) where
  owned := { h with }
  fds _ _ _ := Iff.rfl
  slots _ _ _ _ := rfl

theorem tick_handled (dt : ℕ) (h : s.Owned) (ho : s.Own c) : s.Handled c (s.tick dt) :=
  { tick_local c dt h with own := ho }

theorem createTimeEvent_handled (proc : TimeProc) (h : s.Owned) (ho : s.Own c) :
    s.Handled c (s.createTimeEvent c proc) :=
  { Handled.refl h ho with owned := { h with } }

theorem deleteTimeEvent_local (id : ℕ) (h : s.Owned) : s.Local c (s.deleteTimeEvent id) where
  owned := { h with }
  fds _ _ _ := Iff.rfl
  slots _ _ _ _ := rfl

theorem stop_handled (h : s.Owned) (ho : s.Own c) : s.Handled c (s.setLoop (aeStop s.loop)) :=
  { Handled.refl h ho with owned := { h with } }

theorem connectError_handled (h : s.Owned) (ho : s.Own c) : s.Handled c s.connectError :=
  { Handled.refl h ho with owned := { h with } }

theorem readError_handled (h : s.Owned) (ho : s.Own c) : s.Handled c s.readError :=
  { Handled.refl h ho with owned := { h with } }

theorem writeError_handled (h : s.Owned) (ho : s.Own c) : s.Handled c s.writeError :=
  { Handled.refl h ho with owned := { h with } }

theorem statusError_handled (h : s.Owned) (ho : s.Own c) : s.Handled c s.statusError :=
  { Handled.refl h ho with owned := { h with } }

theorem received_handled (h : s.Owned) (ho : s.Own c) : s.Handled c (s.received n) :=
  { Handled.refl h ho with owned := { h with } }

theorem add_not_isNone {F D : Type} {fe : FileEvent F D} {proc : F} {data : D}
    (hmask : mask.readable = true ∨ mask.writable = true) :
    (fe.add mask proc data).isNone = false := by
  unfold FileEvent.add FileEvent.isNone
  rcases hmask with h | h
  · rw [if_pos h]
    rfl
  · rw [if_pos h, Option.isNone_some, Bool.and_false]

/-- What the kernel watches after `aeApiAddEvent`. -/
theorem addSlot_polled {loop : EventLoop FileProc TimeProc ℕ}
    (hmask : mask.readable = true ∨ mask.writable = true)
    (h : ∀ fd, loop.apidata fd = !(loop.events fd).isNone) (fd : ℕ) :
    (loop.addSlot n mask proc c).apidata fd = !((loop.addSlot n mask proc c).events fd).isNone := by
  simp only [EventLoop.addSlot]
  by_cases hself : fd = n
  · rw [hself, Function.update_self, Function.update_self, add_not_isNone hmask]
    rfl
  · rw [Function.update_of_ne hself, Function.update_of_ne hself]
    exact h fd

/-- `c` registers its own descriptor. -/
theorem addSlot_handled (hmask : mask.readable = true ∨ mask.writable = true) (h : s.Owned)
    (ho : s.Own c) (hsize : (s.conns c).fd < s.loop.setsize)
    (hopen : ∃ d, s.current c = some d) :
    s.Handled c (s.setLoop (s.loop.addSlot (s.conns c).fd mask proc c)) where
  owned :=
    { slot := by
        intro fd hfd
        simp only [setLoop, EventLoop.addSlot] at hfd ⊢
        by_cases hself : fd = (s.conns c).fd
        · subst hself
          obtain ⟨d, hd⟩ := hopen
          rw [Function.update_self]
          exact ⟨d, hd, ho d hd⟩
        · rw [Function.update_of_ne hself] at hfd ⊢
          exact h.slot fd hfd
      name := h.name
      size := by
        intro fd hfd
        simp only [setLoop, EventLoop.addSlot] at hfd ⊢
        rw [Function.update_of_ne (by omega)]
        exact h.size fd hfd
      polled := addSlot_polled hmask h.polled
      trace := h.trace }
  fds _ _ _ := Iff.rfl
  slots fd d hget hd := Function.update_of_ne (ho.fd_ne hget hd) ..
  own := ho

theorem createFileEvent_handled (mask : Mask) (proc : FileProc)
    (hmask : mask.readable = true ∨ mask.writable = true) (h : s.Owned) (ho : s.Own c) :
    s.Handled c (s.createFileEvent c (s.conns c).fd mask proc) := by
  rcases s.createFileEvent_cases c (s.conns c).fd mask proc with heq | ⟨hsize, hopen, heq⟩
  · rw [heq]
    exact access_handled .register h ho
  · rw [heq]
    exact (access_handled .register h ho).andThen fun h ho =>
      addSlot_handled hmask h ho hsize hopen

theorem aeDeleteFileEvent_of_ne {loop : EventLoop FileProc TimeProc ℕ} {fd fd' : ℕ}
    (h : fd' ≠ fd) : (aeDeleteFileEvent loop fd mask).events fd' = loop.events fd' := by
  unfold aeDeleteFileEvent
  split
  · rfl
  · split
    · rfl
    · exact Function.update_of_ne h ..

@[simp] theorem aeDeleteFileEvent_setsize {loop : EventLoop FileProc TimeProc ℕ} {fd : ℕ} :
    (aeDeleteFileEvent loop fd mask).setsize = loop.setsize := by
  unfold aeDeleteFileEvent
  split
  · rfl
  · split <;> rfl

theorem aeDeleteFileEvent_polled {loop : EventLoop FileProc TimeProc ℕ} {fd : ℕ}
    (h : ∀ fd, loop.apidata fd = !(loop.events fd).isNone) (fd' : ℕ) :
    (aeDeleteFileEvent loop fd mask).apidata fd' =
      !((aeDeleteFileEvent loop fd mask).events fd').isNone := by
  unfold aeDeleteFileEvent
  split
  · exact h fd'
  · split
    · exact h fd'
    · rename_i hsome
      simp only
      by_cases hself : fd' = fd
      · subst hself
        rw [Function.update_self]
        split
        · rename_i hnone
          rw [Function.update_self, hnone]
          rfl
        · rename_i hleft
          rw [h fd', Bool.eq_false_iff.mpr hsome, Bool.eq_false_iff.mpr hleft]
      · rw [Function.update_of_ne hself]
        split
        · rw [Function.update_of_ne hself]
          exact h fd'
        · exact h fd'

theorem deleteFileEvent_handled (mask : Mask) (h : s.Owned) (ho : s.Own c) :
    s.Handled c (s.deleteFileEvent c (s.conns c).fd mask) := by
  refine (access_handled .unregister h ho).andThen ?_
  intro h ho
  exact
    { owned :=
        { slot := by
            intro fd hfd
            obtain ⟨hold, hsame⟩ := aeDeleteFileEvent_slot s.loop _ fd hfd
            rw [deleteFileEvent, setLoop, hsame]
            exact h.slot fd hold
          name := h.name
          size := by
            intro fd hfd
            by_contra hfd'
            have hold := (aeDeleteFileEvent_slot s.loop _ fd (Bool.eq_false_iff.mpr hfd')).1
            rw [deleteFileEvent, setLoop, aeDeleteFileEvent_setsize] at hfd
            exact absurd (hold.symm.trans (h.size fd hfd)) Bool.false_ne_true
          polled := aeDeleteFileEvent_polled h.polled
          trace := h.trace }
      fds := fun _ _ _ => Iff.rfl
      slots := fun fd d hget hd => aeDeleteFileEvent_of_ne (ho.fd_ne hget hd)
      own := ho }

/-- New counts for the connection's own descriptor. -/
theorem modify_handled {f : Descriptor → Descriptor} (hf : ∀ d, (f d).owner = d.owner)
    (h : s.Owned) (ho : s.Own c) :
    s.Handled c (s.setFds (s.fds.modify (s.conns c).fd f)) := by
  have hget (fd : ℕ) (d' : Descriptor) :
      (s.fds.modify (s.conns c).fd f).get fd = some d' ↔
        fd = (s.conns c).fd ∧ (∃ d, s.current c = some d ∧ f d = d') ∨
          fd ≠ (s.conns c).fd ∧ s.fds.get fd = some d' := by
    by_cases hself : fd = (s.conns c).fd
    · subst hself
      rw [FdTable.modify, FdTable.get_set_self, Option.map_eq_some_iff]
      simp [current]
    · rw [FdTable.modify, FdTable.get_set_of_ne hself]
      simp [hself]
  exact
    { owned :=
        { slot := by
            intro fd hfd
            obtain ⟨d, hd, hown⟩ := h.slot fd hfd
            by_cases hself : fd = (s.conns c).fd
            · refine ⟨f d, (hget fd _).mpr (Or.inl ⟨hself, d, ?_, rfl⟩), (hf d).trans hown⟩
              rw [current, ← hself]
              exact hd
            · exact ⟨d, (hget fd d).mpr (Or.inr ⟨hself, hd⟩), hown⟩
          name := by
            intro fd d' c' hd' hown
            rcases (hget fd d').mp hd' with ⟨rfl, d, hd, rfl⟩ | ⟨-, hd⟩
            · rw [hf] at hown
              exact h.name _ d c' hd hown
            · exact h.name fd d' c' hd hown
          size := h.size
          polled := h.polled
          trace := h.trace }
      fds := by
        intro fd d' hd'
        rw [setFds, hget]
        constructor
        · rintro (⟨-, d, hd, rfl⟩ | ⟨-, hd⟩)
          · exact absurd ((hf d).trans (ho d hd)) hd'
          · exact hd
        · intro hd
          exact Or.inr ⟨ho.fd_ne hd hd', hd⟩
      slots := fun _ _ _ _ => rfl
      own := by
        intro d' hd'
        rcases (hget _ d').mp hd' with ⟨-, d, hd, rfl⟩ | ⟨hne, -⟩
        · exact (hf d).trans (ho d hd)
        · exact absurd rfl hne }

/-- A descriptor that is registered can be registered for more. -/
theorem createFileEvent_registered (howned : s.Owned)
    (hfd : (s.loop.events fd).isNone = false) (mask : Mask) (proc : FileProc) :
    s.createFileEvent c fd mask proc =
      (s.access .register c fd).setLoop (s.loop.addSlot fd mask proc c) := by
  have hsize : ¬ s.loop.setsize ≤ fd := by
    intro hle
    exact absurd (hfd.symm.trans (howned.size fd hle)) Bool.false_ne_true
  have hopen : (s.fds.get fd).isSome = true := by
    obtain ⟨d, hd, -⟩ := howned.slot fd hfd
    exact Option.isSome_iff_exists.mpr ⟨d, hd⟩
  have hadd : aeApiAddEvent (s.fds.get fd).isSome s.loop fd = true := by
    rw [aeApiAddEvent, hopen, howned.polled fd, Bool.true_and]
    exact beq_self_eq_true _
  have hcreate : aeCreateFileEvent (s.fds.get fd).isSome s.loop fd mask proc c =
      some (s.loop.addSlot fd mask proc c) := by
    rw [aeCreateFileEvent, if_neg hsize, if_pos hadd]
  unfold createFileEvent
  simp only [access, observe]
  rw [hcreate]

/-- Without `AE_WRITABLE`. -/
theorem aeDeleteFileEvent_writable {loop : EventLoop FileProc TimeProc ℕ} (fd : ℕ)
    (hsize : ∀ fd, loop.setsize ≤ fd → (loop.events fd).isNone = true) :
    ((aeDeleteFileEvent loop fd .aeWritable).events fd).rfileProc = (loop.events fd).rfileProc ∧
      ((aeDeleteFileEvent loop fd .aeWritable).events fd).wfileProc = none := by
  have hwriter (hnone : (loop.events fd).isNone = true) : (loop.events fd).wfileProc = none := by
    rw [FileEvent.isNone, Bool.and_eq_true] at hnone
    exact Option.isNone_iff_eq_none.mp hnone.2
  unfold aeDeleteFileEvent
  split
  · rename_i hle
    exact ⟨rfl, hwriter (hsize fd hle)⟩
  · split
    · rename_i hnone
      exact ⟨rfl, hwriter hnone⟩
    · simp only [Function.update_self]
      exact ⟨rfl, rfl⟩

/-! ## Connecting -/

/-- `c` has no open descriptor. -/
def Closed (c : ℕ) (s : TcpThread π) : Prop :=
  ∀ fd d, s.fds.get fd = some d → d.owner ≠ some c

/-- A closed descriptor is not registered. -/
theorem Owned.slot_of_closed (h : s.Owned) (hfd : s.fds.get fd = none) :
    (s.loop.events fd).isNone = true := by
  by_contra hslot
  obtain ⟨d, hd, -⟩ := h.slot fd (Bool.eq_false_iff.mpr hslot)
  rw [hfd] at hd
  cases hd

theorem openSocket_get : (s.openSocket c).fds.get fd =
    if fd = s.fds.lowest then some ⟨some c, false, 0, 0, []⟩ else s.fds.get fd :=
  FdTable.get_set

/-- A registered new socket, as `tcp_connect_socket` leaves it. -/
def startedSocket (s : TcpThread π) (c : ℕ) : TcpThread π :=
  (((s.openSocket c).access .register c s.fds.lowest).setLoop
    (s.loop.addSlot s.fds.lowest .both .socketConnected c)).setConn c
      { s.conns c with fd := s.fds.lowest }

theorem close_opened_get {t : TcpThread π} (hfds : t.fds = (s.openSocket c).fds) (fd : ℕ) :
    (t.close c s.fds.lowest).fds.get fd = s.fds.get fd := by
  show (t.fds.close s.fds.lowest).get fd = s.fds.get fd
  by_cases hfd : fd = s.fds.lowest
  · rw [hfd, FdTable.close, FdTable.get_set_self, FdTable.get_lowest]
  · rw [FdTable.close, FdTable.get_set_of_ne hfd, hfds, openSocket_get, if_neg hfd]

/-- `tcp_connect_socket` registers a new socket, or leaves no trace but in
the error count. -/
theorem tcpConnectSocket_cases (s : TcpThread π) (c : ℕ) (connect : ConnectOutcome) :
    (s.fds.lowest < s.loop.setsize ∧ s.tcpConnectSocket c connect = s.startedSocket c) ∨
      ((s.tcpConnectSocket c connect).conns = s.conns ∧
        (∀ fd, (s.tcpConnectSocket c connect).fds.get fd = s.fds.get fd) ∧
        (s.tcpConnectSocket c connect).loop.events = s.loop.events) := by
  cases connect with
  | noSocket => exact Or.inr ⟨rfl, fun _ => rfl, rfl⟩
  | failed => exact Or.inr ⟨rfl, close_opened_get (t := (s.openSocket c).connectError) rfl, rfl⟩
  | started =>
      simp only [tcpConnectSocket]
      split
      · rename_i loop hloop
        obtain ⟨hsize, -, rfl⟩ := aeCreateFileEvent_cases hloop
        exact Or.inl ⟨hsize, rfl⟩
      · exact Or.inr ⟨rfl, close_opened_get
          (t := ((s.openSocket c).access .register c s.fds.lowest).connectError) rfl, rfl⟩

/-- A descriptor that was opened for `c` and is closed again without having
been registered. -/
theorem close_opened_local {t : TcpThread π} (h : s.Owned) (hfds : t.fds = (s.openSocket c).fds)
    (hloop : t.loop = s.loop) (hconns : t.conns = s.conns) (htrace : ∀ o ∈ t.trace, o.Own) :
    s.Local c (t.close c s.fds.lowest) := by
  have hevents : (t.close c s.fds.lowest).loop.events = s.loop.events := by
    rw [← hloop]
    rfl
  exact
    { owned :=
        { slot := by
            intro fd hfd
            rw [close_opened_get hfds]
            rw [hevents] at hfd ⊢
            exact h.slot fd hfd
          name := by
            intro fd d c' hd hown
            rw [close_opened_get hfds] at hd
            show (t.conns c').fd = fd
            rw [hconns]
            exact h.name fd d c' hd hown
          size := by
            intro fd hfd
            rw [hevents]
            refine h.size fd ?_
            rw [← hloop]
            exact hfd
          polled := by
            intro fd
            rw [hevents]
            show Function.update t.loop.apidata s.fds.lowest false fd = _
            rw [hloop]
            by_cases hself : fd = s.fds.lowest
            · rw [hself, Function.update_self, h.slot_of_closed (FdTable.get_lowest _)]
              rfl
            · rw [Function.update_of_ne hself]
              exact h.polled fd
          trace := by
            intro o ho
            rcases List.mem_cons.mp ho with rfl | ho
            · rw [hfds, openSocket_get, if_pos rfl]
              rfl
            · exact htrace o ho }
      fds := by
        intro fd d _
        rw [close_opened_get hfds]
      slots := fun fd _ _ _ => by rw [hevents] }

/-- What a registered new socket keeps. -/
theorem startedSocket_local (h : s.Owned) (hc : s.Closed c)
    (hsize : s.fds.lowest < s.loop.setsize) : s.Local c (s.startedSocket c) where
  owned :=
    { slot := by
        intro fd hfd
        show ∃ d, (s.openSocket c).fds.get fd = some d ∧ _
        simp only [startedSocket, setConn, setLoop, EventLoop.addSlot] at hfd ⊢
        rw [openSocket_get]
        by_cases hself : fd = s.fds.lowest
        · subst hself
          rw [Function.update_self, if_pos rfl]
          exact ⟨_, rfl, rfl⟩
        · rw [Function.update_of_ne hself] at hfd ⊢
          rw [if_neg hself]
          exact h.slot fd hfd
      name := by
        intro fd d c' hd hown
        replace hd : (s.openSocket c).fds.get fd = some d := hd
        rw [openSocket_get] at hd
        by_cases hself : fd = s.fds.lowest
        · rw [if_pos hself] at hd
          obtain rfl := Option.some.inj hd
          obtain rfl := Option.some.inj hown
          rw [startedSocket, setConn_self, hself]
        · rw [if_neg hself] at hd
          have hne : c' ≠ c := by
            rintro rfl
            exact hc fd d hd hown
          rw [startedSocket, setConn_of_ne hne]
          exact h.name fd d c' hd hown
      size := by
        intro fd hfd
        simp only [startedSocket, setConn, setLoop, EventLoop.addSlot] at hfd ⊢
        rw [Function.update_of_ne (by omega)]
        exact h.size fd hfd
      polled := addSlot_polled (Or.inl rfl) h.polled
      trace := by
        intro o ho
        rcases List.mem_cons.mp ho with rfl | ho
        · rw [openSocket_get, if_pos rfl]
          rfl
        · exact h.trace o ho }
  fds fd d hd := by
    show (s.openSocket c).fds.get fd = some d ↔ s.fds.get fd = some d
    rw [openSocket_get]
    by_cases hself : fd = s.fds.lowest
    · rw [if_pos hself, hself, FdTable.get_lowest]
      constructor
      · intro hnew
        rw [← Option.some.inj hnew] at hd
        exact absurd rfl hd
      · intro hold
        cases hold
    · rw [if_neg hself]
  slots fd d hget hd := by
    refine Function.update_of_ne ?_ ..
    rintro rfl
    rw [FdTable.get_lowest] at hget
    cases hget

theorem startedSocket_current (s : TcpThread π) (c : ℕ) :
    (s.startedSocket c).current c = some ⟨some c, false, 0, 0, []⟩ := by
  rw [current, startedSocket, setConn_self]
  exact openSocket_get.trans (if_pos rfl)

/-- `tcp_connect_socket` for a connection without a descriptor. -/
theorem tcpConnectSocket_local (h : s.Owned) (hc : s.Closed c) (connect : ConnectOutcome) :
    s.Local c (s.tcpConnectSocket c connect) := by
  cases connect with
  | noSocket => exact ⟨{ h with }, fun _ _ _ => Iff.rfl, fun _ _ _ _ => rfl⟩
  | failed => exact close_opened_local (t := (s.openSocket c).connectError) h rfl rfl rfl h.trace
  | started =>
      simp only [tcpConnectSocket]
      split
      · rename_i loop hloop
        obtain ⟨hsize, -, rfl⟩ := aeCreateFileEvent_cases hloop
        exact startedSocket_local h hc hsize
      · refine close_opened_local
          (t := ((s.openSocket c).access .register c s.fds.lowest).connectError) h rfl rfl rfl ?_
        intro o ho
        rcases List.mem_cons.mp ho with rfl | ho
        · rw [openSocket_get, if_pos rfl]
          rfl
        · exact h.trace o ho

/-- A connection whose number names nothing keeps nothing of others. -/
theorem tcpConnectSocket_own (hnone : s.current c = none) (connect : ConnectOutcome) :
    (s.tcpConnectSocket c connect).Own c := by
  intro d hd
  rcases s.tcpConnectSocket_cases c connect with ⟨-, heq⟩ | ⟨hconns, hget, -⟩
  · rw [heq, startedSocket_current] at hd
    rw [← Option.some.inj hd]
  · rw [current, hconns, hget] at hd
    rw [current] at hnone
    rw [hnone] at hd
    cases hd

theorem aeDeleteFileEvent_both {loop : EventLoop FileProc TimeProc ℕ} {fd : ℕ}
    (hsize : ∀ fd, loop.setsize ≤ fd → (loop.events fd).isNone = true) :
    ((aeDeleteFileEvent loop fd .both).events fd).isNone = true := by
  unfold aeDeleteFileEvent
  split
  · rename_i hle
    exact hsize fd hle
  · split
    · rename_i hnone
      exact hnone
    · simp only [Function.update_self]
      rfl

/-- `close(c->fd)` once it is not registered any more. -/
theorem close_handled (h : s.Owned) (ho : s.Own c)
    (hslot : (s.loop.events (s.conns c).fd).isNone = true) :
    s.Handled c (s.close c (s.conns c).fd) ∧ (s.close c (s.conns c).fd).Closed c ∧
      (s.close c (s.conns c).fd).current c = none := by
  have hget (fd : ℕ) : (s.close c (s.conns c).fd).fds.get fd =
      if fd = (s.conns c).fd then none else s.fds.get fd :=
    FdTable.get_set
  have hnone : (s.close c (s.conns c).fd).current c = none := (hget _).trans (if_pos rfl)
  refine ⟨?_, ?_, hnone⟩
  · exact
      { owned :=
          { slot := by
              intro fd hfd
              have hne : fd ≠ (s.conns c).fd := by
                rintro rfl
                exact absurd (hfd.symm.trans hslot) Bool.false_ne_true
              rw [hget, if_neg hne]
              exact h.slot fd hfd
            name := by
              intro fd d c' hd hown
              rw [hget] at hd
              split at hd
              · cases hd
              · exact h.name fd d c' hd hown
            size := h.size
            polled := by
              intro fd
              show Function.update s.loop.apidata (s.conns c).fd false fd = _
              by_cases hself : fd = (s.conns c).fd
              · rw [hself, Function.update_self]
                exact (congrArg (!·) hslot).symm
              · rw [Function.update_of_ne hself]
                exact h.polled fd
            trace := by
              intro o hobs
              rcases List.mem_cons.mp hobs with rfl | hobs
              · exact (access_handled .close h ho).owned.trace _ (List.mem_cons_self ..)
              · exact h.trace o hobs }
        fds := by
          intro fd d hd
          rw [hget]
          split
          · rename_i hself
            subst hself
            constructor
            · intro hfalse
              cases hfalse
            · intro hold
              exact absurd (ho d hold) hd
          · rfl
        slots := fun _ _ _ _ => rfl
        own := by
          intro d hd
          rw [hnone] at hd
          cases hd }
  · intro fd d hd hown
    rw [hget] at hd
    split at hd
    · cases hd
    · rename_i hne
      exact hne (h.name fd d c hd hown).symm

/-- The old socket of a reconnection. -/
theorem closeSocket_handled (h : s.Owned) (ho : s.Own c) :
    let closed := (s.deleteFileEvent c (s.conns c).fd .both).close c (s.conns c).fd
    s.Handled c closed ∧ closed.Closed c ∧ closed.current c = none := by
  have hdeleted := deleteFileEvent_handled .both h ho
  have hslot : ((s.deleteFileEvent c (s.conns c).fd .both).loop.events (s.conns c).fd).isNone =
      true := aeDeleteFileEvent_both h.size
  obtain ⟨hclosed, hnofd, hnone⟩ := close_handled hdeleted.owned hdeleted.own hslot
  exact ⟨hdeleted.andThen fun _ _ => hclosed, hnofd, hnone⟩

theorem tcpReconnectSocket_handled (h : s.Owned) (ho : s.Own c) (connect : ConnectOutcome) :
    s.Handled c (s.tcpReconnectSocket c connect) := by
  obtain ⟨hclosed, hnofd, hnone⟩ := closeSocket_handled h ho
  have hconnect := tcpConnectSocket_local hclosed.owned hnofd connect
  exact { hclosed.toLocal.trans hconnect with own := tcpConnectSocket_own hnone connect }

/-! ## Sending -/

theorem usecToNextSend_local (h : s.Owned) (c : ℕ) : s.Local c (s.usecToNextSend c).2 :=
  setConn_local h rfl

theorem usecToNextSend_handled (h : s.Owned) (ho : s.Own c) :
    s.Handled c (s.usecToNextSend c).2 :=
  setConn_handled h ho rfl

theorem accept_handled (cfg : Config) (bytes : Bytes) (h : s.Owned) (ho : s.Own c) :
    s.Handled c (accept cfg s c bytes) :=
  (observe_handled (o := .accepted c (s.current c) _ bytes) h ho trivial).andThen fun h ho =>
    modify_handled (f := (·.accepted cfg.pipeline _)) (fun _ => rfl) h ho

theorem advanceWritten_handled (n : ℕ) (h : s.Owned) (ho : s.Own c) :
    s.Handled c (s.advanceWritten c n) := by
  unfold advanceWritten
  simp only
  split
  · refine (setConn_handled (k := { s.conns c with written := 0 }) h ho rfl).andThen ?_
    intro h ho
    have hdelete := deleteFileEvent_handled .aeWritable h ho
    rw [setConn_self] at hdelete
    exact hdelete
  · exact setConn_handled h ho rfl

theorem sockWrite_handled (cfg : Config) (connect : ConnectOutcome) :
    ∀ (write : Status ℕ) {s : TcpThread π}, s.Owned → s.Own c →
      s.Handled c (sockWrite cfg s c connect write)
  | .ok n, s, h, ho => by
      unfold sockWrite
      simp only
      refine (access_handled .write h ho).andThen ?_
      intro h ho
      split
      · exact (accept_handled cfg _ h ho).andThen fun h ho => advanceWritten_handled _ h ho
      · exact (writeError_handled h ho).andThen fun h ho => tcpReconnectSocket_handled h ho connect
  | .error, _, h, ho =>
      ((access_handled .write h ho).andThen writeError_handled).andThen fun h ho =>
        tcpReconnectSocket_handled h ho connect
  | .retry, _, h, ho => access_handled .write h ho
  | .again next, _, h, ho =>
      (access_handled .write h ho).andThen (sockWrite_handled cfg connect next)

theorem prepareBatch_handled (cfg : Config) (a : Answers) (h : s.Owned) (ho : s.Own c) :
    s.Handled c (prepareBatch cfg s c a) := by
  have hscript : s.Handled c (if cfg.dynamic then
      (s.setConn c { s.conns c with request := a.script }).observe (.request c a.script)
    else s) := by
    split
    · exact (setConn_handled (k := { s.conns c with request := a.script }) h ho rfl).andThen
        fun h ho => observe_handled h ho trivial
    · exact Handled.refl h ho
  refine (hscript.andThen (tick_handled a.startDt)).andThen ?_
  intro h ho
  exact setConn_handled h ho (Connection.startBatch_fd ..)

theorem sockWriteable_handled (cfg : Config) (a : Answers) (h : s.Owned) (ho : s.Own c) :
    s.Handled c (sockWriteable cfg s c a) := by
  unfold sockWriteable
  split
  · have hasked := (tick_handled a.dt h ho).andThen usecToNextSend_handled
    simp only
    split
    · exact (hasked.andThen (deleteFileEvent_handled .aeWritable)).andThen
        (createTimeEvent_handled .delayRequest)
    · exact (hasked.andThen (prepareBatch_handled cfg a)).andThen
        (sockWrite_handled cfg a.connect a.write)
  · exact sockWrite_handled cfg a.connect a.write h ho

/-! ## Receiving -/

theorem decrementPending_handled (h : s.Owned) (ho : s.Own c) :
    s.Handled c (s.decrementPending c) := by
  unfold decrementPending
  simp only
  split
  · refine (setConn_handled (k := { s.conns c with
      pending := u64Sub (s.conns c).pending 1, hasPending := false }) h ho rfl).andThen ?_
    intro h ho
    have hcreate := createFileEvent_handled .aeWritable .socketWriteable (Or.inr rfl) h ho
    rw [setConn_self] at hcreate
    exact hcreate
  · exact setConn_handled h ho rfl

theorem statsRequestCompleted_handled (cfg : Config) (target : Option Descriptor) (h : s.Owned)
    (ho : s.Own c) : s.Handled c (statsRequestCompleted cfg s c target) := by
  unfold statsRequestCompleted
  split
  · exact (stop_handled h ho).andThen fun h ho =>
      observe_handled (o := .response c target _ none) h ho trivial
  · have hcount : s.Handled c { s with
        complete := s.complete + 1, requests := s.requests + 1 } :=
      { Handled.refl h ho with owned := { h with } }
    exact (hcount.andThen fun h ho =>
      setConn_handled (k := (s.conns c).requestCompleted) h ho rfl).andThen fun h ho =>
        observe_handled (o := .response c target _ (some _)) h ho trivial

theorem responseAnswered_handled (h : s.Owned) (ho : s.Own c) :
    s.Handled c (s.responseAnswered c) :=
  modify_handled (fun _ => rfl) h ho

/-- A response is counted, before `response_complete` looks at the keep-alive
flag. -/
theorem responseCounted_handled (cfg : Config) (status dt : ℕ) (h : s.Owned) (ho : s.Own c) :
    s.Handled c (statsRequestCompleted cfg ((((if 399 < status then s.statusError else
      s).responseAnswered c).decrementPending c).tick dt) c (s.current c)) := by
  have hstatus : s.Handled c (if 399 < status then s.statusError else s) := by
    split
    · exact statusError_handled h ho
    · exact Handled.refl h ho
  exact (((hstatus.andThen responseAnswered_handled).andThen
    decrementPending_handled).andThen (tick_handled dt)).andThen
      (statsRequestCompleted_handled cfg (s.current c))

theorem responseComplete_handled (cfg : Config) (m : Completion) (a : ResponseAnswers)
    (h : s.Owned) (ho : s.Own c) : s.Handled c (responseComplete cfg s c m a) := by
  have hcounted := responseCounted_handled cfg m.status a.dt h ho
  unfold responseComplete
  simp only
  split
  · exact hcounted
  · exact hcounted.andThen fun h ho => tcpReconnectSocket_handled h ho a.connect

theorem responsesComplete_handled (cfg : Config) :
    ∀ (ms : List Completion) (as : List ResponseAnswers) {s : TcpThread π}, s.Owned →
      s.Own c → s.Handled c (responsesComplete cfg c s ms as)
  | [], _, _, h, ho => Handled.refl h ho
  | m :: ms, as, _, h, ho =>
      (responseComplete_handled cfg m (as.headD {}) h ho).andThen
        (responsesComplete_handled cfg ms as.tail)

theorem deliver_handled (chunk : Bytes) (h : s.Owned) (ho : s.Own c) :
    s.Handled c (s.deliver c chunk) :=
  (observe_handled (o := .delivered c (s.current c) chunk) h ho trivial).andThen fun h ho =>
    modify_handled (f := (·.deliver chunk)) (fun _ => rfl) h ho

theorem parseChunk_handled (cfg : Config) (P : ResponseParser π) (chunk : Bytes)
    (answers : List ResponseAnswers) (h : s.Owned) (ho : s.Own c) :
    s.Handled c (parseChunk cfg P s c chunk answers).2 :=
  ((deliver_handled chunk h ho).andThen fun h ho =>
    setConn_handled (k := { (s.deliver c chunk).conns c with
      parser := (P.execute (s.conns c).parser chunk).parser }) h ho rfl).andThen
        (responsesComplete_handled cfg (P.execute (s.conns c).parser chunk).completions answers)

theorem readFailed_handled (connect : ConnectOutcome) (h : s.Owned) (ho : s.Own c) :
    s.Handled c (s.readFailed c connect) :=
  (readError_handled h ho).andThen fun h ho => tcpReconnectSocket_handled h ho connect

theorem socketReadable_handled (cfg : Config) (P : ResponseParser π) (connect : ConnectOutcome) :
    ∀ (reads : List Read) {s : TcpThread π}, s.Owned → s.Own c →
      s.Handled c (socketReadable cfg P c connect s reads)
  | [], _, h, ho => Handled.refl h ho
  | .error :: _, _, h, ho => (access_handled .read h ho).andThen (readFailed_handled connect)
  | .retry :: _, _, h, ho => access_handled .read h ho
  | .again :: reads, _, h, ho =>
      (access_handled .read h ho).andThen (socketReadable_handled cfg P connect reads)
  | .data chunk answers :: reads, s, h, ho => by
      unfold socketReadable
      simp only
      refine (access_handled .read h ho).andThen ?_
      intro h ho
      split
      · have hparsed := parseChunk_handled cfg P (chunk.take cfg.recvbuf) answers h ho
        split
        · exact hparsed.andThen (readFailed_handled connect)
        · split
          · exact (hparsed.andThen received_handled).andThen
              (socketReadable_handled cfg P connect reads)
          · exact hparsed.andThen received_handled
      · exact readFailed_handled connect h ho

theorem socketConnected_handled (P : ResponseParser π) (connect : ConnectOutcome) :
    ∀ (status : Status Unit) {s : TcpThread π}, s.Owned → s.Own c →
      s.Handled c (socketConnected P s (s.conns c).fd c connect status)
  | .ok _, s, h, ho => by
      have hset := setConn_handled (k := { s.conns c with parser := P.init, written := 0 }) h ho
        rfl
      have hreadable :=
        createFileEvent_handled .aeReadable .socketReadable (Or.inl rfl) hset.owned hset.own
      have hwriteable := createFileEvent_handled .aeWritable .socketWriteable (Or.inr rfl)
        hreadable.owned hreadable.own
      have hmodify := modify_handled (f := Descriptor.connect) (fun _ => rfl)
        hwriteable.owned hwriteable.own
      simp only [createFileEvent_conns, setConn_self] at hreadable hwriteable hmodify
      exact ((hset.andThen fun _ _ => hreadable).andThen fun _ _ => hwriteable).andThen
        fun _ _ => hmodify
  | .error, _, h, ho =>
      (connectError_handled h ho).andThen fun h ho => tcpReconnectSocket_handled h ho connect
  | .retry, _, h, ho => Handled.refl h ho
  | .again next, _, h, ho => socketConnected_handled P connect next h ho

/-! ## Events -/

/-- When a `delay_request` timer of `c` finds that it is time to send, the
number `c->fd` is not another connection's descriptor. -/
def SendsOnOwn (s : TcpThread π) : TcpEvent → Prop
  | .timer id a => ∀ te ∈ s.loop.timeEvents.find? (·.id == id), te.timeProc = .delayRequest →
      ((s.tick a.dt).usecToNextSend te.clientData).1 = 0 → s.Own te.clientData
  | _ => True

instance (c : ℕ) (s : TcpThread π) : Decidable (s.Own c) :=
  inferInstanceAs (Decidable (∀ d ∈ s.current c, d.owner = some c))

instance (s : TcpThread π) (e : TcpEvent) : Decidable (SendsOnOwn s e) :=
  match e with
  | .timer id a => inferInstanceAs (Decidable (∀ te ∈ s.loop.timeEvents.find? (·.id == id),
      te.timeProc = .delayRequest →
        ((s.tick a.dt).usecToNextSend te.clientData).1 = 0 → s.Own te.clientData))
  | .readable _ _ | .writable _ _ => isTrue trivial

variable {cfg : Config} {P : ResponseParser π} {te : TimeEvent TimeProc ℕ} {a : Answers}

theorem runFileProc_handled (h : s.Owned) (hfd : (s.loop.events fd).isNone = false)
    (hrun : s.runFileProc cfg P fd (s.loop.events fd).clientData a proc = some s') :
    s.Handled (s.loop.events fd).clientData s' := by
  have ho := h.own_of_slot hfd
  have hname := h.fd_of_slot hfd
  cases proc with
  | socketConnected =>
      obtain rfl := Option.some.inj hrun
      have hconnected := socketConnected_handled P a.connect a.connected h ho
      rw [hname] at hconnected
      exact hconnected
  | socketReadable =>
      obtain rfl := Option.some.inj hrun
      exact socketReadable_handled cfg P a.connect a.reads h ho
  | socketWriteable =>
      rw [runFileProc, if_pos hname.symm] at hrun
      obtain rfl := Option.some.inj hrun
      exact sockWriteable_handled cfg a h ho

theorem delayRequest_handled (h : s.Owned)
    (hok : ((s.tick a.dt).usecToNextSend c).1 = 0 → s.Own c) :
    s.Local c (s.delayRequest c a).2 := by
  have htick := tick_local c a.dt h
  unfold delayRequest
  simp only
  split
  · exact htick.trans (usecToNextSend_local htick.owned c)
  · rename_i hsend
    have hasked := (tick_handled a.dt h (hok (not_not.mp hsend))).andThen usecToNextSend_handled
    exact
      (hasked.andThen (createFileEvent_handled .aeWritable .socketWriteable (Or.inr rfl))).toLocal

theorem runTimeEvent_local (hsetup : s.Setup) (h : s.Owned) (hte : te ∈ s.loop.timeEvents)
    (hok : te.timeProc = .delayRequest →
      ((s.tick a.dt).usecToNextSend te.clientData).1 = 0 → s.Own te.clientData) :
    s.Local te.clientData (s.runTimeEvent te a) := by
  unfold runTimeEvent
  split
  · rename_i hproc
    have htick := tick_local te.clientData a.dt h
    have hscheduled := htick.trans (setConn_local (c := te.clientData)
      (k := { s.conns te.clientData with
        pacer := { (s.conns te.clientData).pacer with threadStart := s.clock + a.dt } })
      htick.owned rfl)
    have hclosed := (hsetup.fresh te hte hproc).owners
    have hconnect := tcpConnectSocket_local hscheduled.owned hclosed a.connect
    exact (hscheduled.trans hconnect).trans (deleteTimeEvent_local te.id hconnect.owned)
  · rename_i hproc
    have hrequest := delayRequest_handled h (hok hproc)
    simp only
    split
    · exact hrequest.trans (deleteTimeEvent_local te.id hrequest.owned)
    · exact hrequest

theorem not_isNone_of_slot
    (h : (s.loop.events fd).rfileProc = some proc ∨ (s.loop.events fd).wfileProc = some proc) :
    (s.loop.events fd).isNone = false := by
  rw [FileEvent.isNone]
  rcases h with h | h
  · rw [h]
    rfl
  · rw [h, Option.isNone_some, Bool.and_false]

theorem tcpStep_local {e : TcpEvent} (hsetup : s.Setup) (h : s.Owned)
    (hstep : tcpStep cfg P s e = some s') (hok : SendsOnOwn s e) : ∃ c, s.Local c s' := by
  cases e with
  | readable fd a =>
      obtain ⟨proc, hproc, hrun⟩ := Option.bind_eq_some_iff.mp hstep
      exact ⟨_, (runFileProc_handled h (not_isNone_of_slot (Or.inl hproc)) hrun).toLocal⟩
  | writable fd a =>
      obtain ⟨proc, hproc, hrun⟩ := Option.bind_eq_some_iff.mp hstep
      exact ⟨_, (runFileProc_handled h (not_isNone_of_slot (Or.inr hproc)) hrun).toLocal⟩
  | timer id a =>
      obtain ⟨te, hfind, rfl⟩ := Option.map_eq_some_iff.mp hstep
      exact ⟨_, runTimeEvent_local hsetup h (List.mem_of_find?_eq_some hfind) (hok te hfind)⟩

end TcpThread

open TcpThread

variable {π : Type*}

theorem initial_owned (cfg : Config) (P : ResponseParser π) (clock : ℕ)
    (reserved : FdTable Unit) : (TcpThread.initial cfg P clock reserved).Owned where
  slot fd hfd :=
    absurd (hfd.symm.trans (initialLoop_events cfg fd).1) Bool.false_ne_true
  name fd d c hd hown := by
    rw [initial_owner cfg P clock reserved hd] at hown
    cases hown
  size fd _ := (initialLoop_events cfg fd).1
  polled fd := by
    obtain ⟨hnone, hpolled⟩ := initialLoop_events cfg fd
    exact hpolled.trans (congrArg (!·) hnone).symm
  trace o ho := by cases ho

theorem tcp_owned {cfg : Config} {P : ResponseParser π} {s : TcpThread π}
    (hs : (tcpThread cfg P).ReachableWith SendsOnOwn s) : s.Owned := by
  have hboth : s.Setup ∧ s.Owned := by
    refine hs.invariant (P := fun s => s.Setup ∧ s.Owned) ?_ ?_
    · rintro s ⟨clock, reserved, rfl⟩
      exact ⟨initial_setup cfg P clock reserved, initial_owned cfg P clock reserved⟩
    · rintro s e s' ⟨hsetup, howned⟩ hstep hok
      obtain ⟨c, hlocal⟩ := tcpStep_local hsetup howned hstep hok
      exact ⟨(tcpStep_effect hsetup hstep).1, hlocal.owned⟩
  exact hboth.2

/-- `fd` is registered in the event loop for connection `c`. -/
def Registered (s : TcpThread π) (c fd : ℕ) : Prop :=
  (s.loop.events fd).isNone = false ∧ (s.loop.events fd).clientData = c

/-- In every run whose `delay_request` timers never find `c->fd` in another
connection's hands: a registered descriptor is open and was opened by the
connection it is registered for, different connections never have the same
descriptor registered, a connection has at most one, and no handler
registers, reads, writes or closes a descriptor of another connection. -/
theorem tcp_slots_owned (cfg : Config) (P : ResponseParser π) {s : TcpThread π}
    (hs : (tcpThread cfg P).ReachableWith SendsOnOwn s) :
    (∀ c fd, Registered s c fd →
        ∃ d, s.fds.get fd = some d ∧ d.owner = some c ∧ (s.conns c).fd = fd) ∧
      (∀ c c' fd fd', Registered s c fd → Registered s c' fd' → (c = c' ↔ fd = fd')) ∧
      ∀ kind c fd d, .access kind c fd (some d) ∈ s.trace → d.owner = some c := by
  have h := tcp_owned hs
  have hslot : ∀ c fd, Registered s c fd →
      ∃ d, s.fds.get fd = some d ∧ d.owner = some c ∧ (s.conns c).fd = fd := by
    rintro c fd ⟨hfd, rfl⟩
    obtain ⟨d, hd, hown⟩ := h.slot fd hfd
    exact ⟨d, hd, hown, h.fd_of_slot hfd⟩
  refine ⟨hslot, ?_, fun kind c fd d ho => h.trace _ ho⟩
  intro c c' fd fd' hreg hreg'
  obtain ⟨d, hd, hown, hname⟩ := hslot c fd hreg
  obtain ⟨d', hd', hown', hname'⟩ := hslot c' fd' hreg'
  constructor
  · rintro rfl
    exact hname.symm.trans hname'
  · rintro rfl
    rw [hd] at hd'
    obtain rfl := Option.some.inj hd'
    exact Option.some.inj (hown.symm.trans hown')

/-- In the run of one request the descriptor of connection 0 is its own. -/
theorem tcp_slots_owned_one :
    ∃ s, (tcpThread twoConnections httpParser).ReachableWith SendsOnOwn s ∧
      Registered s 0 4 ∧
      ∃ d, s.fds.get 4 = some d ∧ d.owner = some 0 ∧ (s.conns 0).fd = 4 := by
  obtain ⟨s, hs, hreg⟩ : ∃ s, (tcpThread twoConnections httpParser).ReachableWith SendsOnOwn s ∧
      ((s.loop.events 4).isNone, (s.loop.events 4).clientData) = (false, 0) :=
    exists_reachableWith_of_runEvents (fun s : TcpThread HttpParser =>
      ((s.loop.events 4).isNone, (s.loop.events 4).clientData)) oneRequest
      twoConnectionsStart_initial (by decide +kernel)
  obtain ⟨hnone, hdata⟩ := Prod.mk.inj hreg
  exact ⟨s, hs, ⟨hnone, hdata⟩, (tcp_slots_owned twoConnections httpParser hs).1 0 4 ⟨hnone, hdata⟩⟩

/-- Connection 0 waits for its `delay_request` timer when its socket fails;
the reconnection fails as well. At time 5000 connection 1 connects and is
given descriptor 4. -/
def staleDescriptor : List TcpEvent :=
  [.timer 0 { dt := 5 }, .writable 4 { dt := 10 },
    .writable 4 { dt := 10, startDt := 5, write := .ok 18 },
    .readable 4 { reads := [.data emptyResponse [{ dt := 100 }]] },
    .writable 4 { dt := 10 },
    .readable 4 { reads := [.error], connect := .failed },
    .timer 1 { dt := 4870 }, .writable 4 { },
    .timer 2 { dt := 6000 }, .writable 4 { write := .ok 18 }]

/-- The timer of connection 0 then registers descriptor 4, and connection 0
writes its request to connection 1's socket. -/
theorem delay_request_takes_descriptor :
    ∃ s, (tcpThread twoConnections httpParser).Reachable s ∧ Registered s 0 4 ∧
      (∃ d, s.fds.get 4 = some d ∧ d.owner = some 1) ∧
      ∃ d, .access .write 0 4 (some d) ∈ s.trace ∧ d.owner = some 1 := by
  obtain ⟨s, hs, hview⟩ : ∃ s, (tcpThread twoConnections httpParser).Reachable s ∧
      ((s.loop.events 4).isNone, (s.loop.events 4).clientData, s.fds.get 4, s.trace[2]?) =
        (false, 0, some ⟨some 1, true, 1, 0, []⟩,
          some (TcpObservation.access .write 0 4 (some ⟨some 1, true, 0, 0, []⟩))) :=
    exists_reachable_of_runEvents (fun s : TcpThread HttpParser =>
      ((s.loop.events 4).isNone, (s.loop.events 4).clientData, s.fds.get 4, s.trace[2]?))
      staleDescriptor twoConnectionsStart_initial (by decide +kernel)
  obtain ⟨hnone, hdata, hfd, hwrite⟩ : _ ∧ _ ∧ _ ∧ _ := by
    simpa only [Prod.mk.injEq] using hview
  exact ⟨s, hs, ⟨hnone, hdata⟩, ⟨_, hfd, rfl⟩, _, List.mem_of_getElem? hwrite, rfl⟩

end WrkQuic
